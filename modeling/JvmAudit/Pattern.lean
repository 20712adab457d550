import JvmAudit.Text.Suffix
import JvmAudit.Text.Utf8

/-!
# Class-name patterns

A pattern over dotted class names. A single `*` stands for any run of characters without a dot, two
or more stars in a row stand for any run of characters, every other character stands for itself. So
`**.Unsafe` matches `sun.misc.Unsafe` but neither `Unsafe` nor `com.foo.UnsafeHolder`.

Pattern and name are compared by their UTF-8 bytes, and a run of bytes may end inside a character.
No byte of a longer character is that of a star or of a dot, and none that continues a character can
begin one, so nothing is matched that way that would not be matched by characters.

## Termination

`Piece.compile` shortens its text; `Piece.accepts` and `Piece.acceptsRow` go by the pieces.
-/

namespace JvmAudit

/-- One unit of a pattern. -/
inductive Piece where
  /-- The byte itself. -/
  | byte (b : UInt8)
  /-- Any run of bytes without a dot. -/
  | star
  /-- Any run of bytes. -/
  | doubleStar
  deriving DecidableEq, Repr

namespace Piece

/-- The byte of `*`. -/
def starByte : UInt8 := 0x2A

/-- The byte of `.`. -/
def dotByte : UInt8 := 0x2E

/-- Reads a pattern; a run of two or more stars is one piece. -/
def compile : List UInt8 → List Piece
  | [] => []
  | b :: rest =>
    if b = starByte then
      if rest.head? = some starByte then .doubleStar :: compile (rest.dropWhile (· == starByte))
      else .star :: compile rest
    else .byte b :: compile rest
termination_by bytes => bytes.length
decreasing_by
  · have := (List.dropWhile_suffix (· == starByte) (l := rest)).length_le
    simp only [List.length_cons]
    omega
  · simp
  · simp

/-- Whether the pieces, in order, use up the whole name. -/
def accepts : List Piece → Text.Test UInt8
  | [] => List.isEmpty
  | .byte b :: ps => Text.afterOne (· == b) (accepts ps)
  | .star :: ps => Text.afterRun (· != dotByte) (accepts ps)
  | .doubleStar :: ps => Text.afterRun (fun _ => true) (accepts ps)

/-- The row of `accepts`. -/
def acceptsRow (name : List UInt8) : List Piece → List Bool
  | [] => Text.emptyRow name
  | .byte b :: ps => Text.afterOneRow (· == b) name (acceptsRow name ps)
  | .star :: ps => Text.afterRunRow (· != dotByte) name (acceptsRow name ps)
  | .doubleStar :: ps => Text.afterRunRow (fun _ => true) name (acceptsRow name ps)

theorem acceptsRow_eq (name : List UInt8) (ps : List Piece) :
    acceptsRow name ps = Text.row (accepts ps) name := by
  induction ps with
  | nil => exact (Text.row_isEmpty name).symm
  | cons p ps ih =>
    cases p with
    | byte b => rw [acceptsRow, accepts, Text.row_afterOne, ih]
    | star => rw [acceptsRow, accepts, Text.row_afterRun, ih]
    | doubleStar => rw [acceptsRow, accepts, Text.row_afterRun, ih]

end Piece

/-- A pattern that is matched piece by piece, whether or not it has stars. -/
structure ClassGlob where
  /-- The pattern as written. -/
  text : String
  deriving DecidableEq, Repr

namespace ClassGlob

/-- Whether the pattern has a star. -/
def isGlob (pattern : String) : Bool := pattern.toList.contains '*'

/-- The pieces of the pattern. -/
def pieces (g : ClassGlob) : List Piece := Piece.compile (Utf8.bytes g.text)

/-- Whether the pattern matches a dotted class name. -/
def accepts (g : ClassGlob) (name : String) : Bool :=
  (Piece.acceptsRow (Utf8.bytes name) g.pieces).headD false

theorem accepts_eq (g : ClassGlob) (name : String) :
    g.accepts name = Piece.accepts g.pieces (Utf8.bytes name) := by
  rw [accepts, Piece.acceptsRow_eq, Text.headD_row]

end ClassGlob

/-- What a rule or a suppression names: one class, or the classes that match a pattern. -/
inductive NamePattern where
  /-- Exactly this dotted name. -/
  | exact (name : String)
  /-- Every name that matches. -/
  | glob (g : ClassGlob)
  deriving DecidableEq, Repr

namespace NamePattern

/-- A text with stars is a glob, any other an exact name. -/
def ofText (text : String) : NamePattern :=
  if ClassGlob.isGlob text then .glob ⟨text⟩ else .exact text

/-- Whether the pattern matches a dotted class name. -/
def accepts : NamePattern → String → Bool
  | .exact n, name => n == name
  | .glob g, name => g.accepts name

/-- The pattern as written. -/
def text : NamePattern → String
  | .exact n => n
  | .glob g => g.text

/-- Whether this is a pattern with stars. -/
def isGlob : NamePattern → Bool
  | .exact _ => false
  | .glob _ => true

@[simp]
theorem text_ofText (t : String) : (ofText t).text = t := by
  unfold ofText
  split <;> rfl

end NamePattern

end JvmAudit
