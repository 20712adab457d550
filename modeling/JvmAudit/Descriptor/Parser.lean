import JvmAudit.Descriptor.Basic
import JvmAudit.Text.Utf8

/-!
# Reading descriptors

A type is any number of `[`, then the letter of a primitive type or `L`, a name without `;` and `;`.
A method type is `(`, types, `)`, and a type or `V`. Nothing may follow.

A descriptor is read byte by byte, but a class name is cut out of the text, between two places that
are counted in bytes. A text can be cut between two characters only; that all cuts are there is not
clear from the code, so a reader can also fail because one is not.

## Termination

Each step of `Cursor.skipBrackets` leaves a byte behind, and so does reading a type
(`Cursor.left_lt_of_readType`), which is what each step of `Cursor.readParams` does.
-/

namespace JvmAudit

namespace Descriptor

/-- Why a descriptor cannot be read. -/
inductive Failure where
  | invalid
  /-- The text would have to be cut inside a character. -/
  | insideCharacter
  deriving DecidableEq, Repr

/-- A text, and the number of its bytes that are read. -/
structure Cursor where
  text : String
  pos : Nat
  deriving DecidableEq, Repr

namespace Cursor

/-- Nothing is read yet. -/
def start (text : String) : Cursor := ⟨text, 0⟩

/-- The next byte. -/
def peek (c : Cursor) : Option UInt8 := (Utf8.bytes c.text)[c.pos]?

/-- Whether the next byte is this character. -/
def isAt (c : Cursor) (char : Char) : Bool := c.peek == some char.toUInt8

/-- One more byte is read. -/
def skip (c : Cursor) : Cursor := { c with pos := c.pos + 1 }

/-- The number of bytes that are not read. -/
def left (c : Cursor) : Nat := (Utf8.bytes c.text).length - c.pos

/-- To pass over a byte makes the rest shorter. -/
theorem left_skip_lt {c : Cursor} {b : UInt8} (h : c.peek = some b) : c.skip.left < c.left := by
  obtain ⟨hlt, _⟩ := List.getElem?_eq_some_iff.1 h
  unfold left skip
  dsimp only
  omega

/-- Reads this character. -/
def expect (c : Cursor) (char : Char) : Except Failure Cursor :=
  if c.isAt char then .ok c.skip else .error .invalid

/-- Reads brackets as long as there are any, and counts on from `dims`. -/
def skipBrackets (c : Cursor) (dims : Nat) : Nat × Cursor :=
  if _h : c.isAt '[' then c.skip.skipBrackets (dims + 1) else (dims, c)
termination_by c.left
decreasing_by exact left_skip_lt (beq_iff_eq.1 _h)

/-- Reads the name of a class and the semicolon behind it. -/
def readName (c : Cursor) : Except Failure (BaseType × Cursor) :=
  match Utf8.cutAt? c.pos c.text.toList with
  | none => .error .insideCharacter
  | some (_, rest) =>
    match Utf8.offset? ';' rest with
    | none => .error .invalid
    | some stop =>
      if stop = 0 then .error .invalid
      else
        match Utf8.cutAt? stop rest with
        | none => .error .insideCharacter
        | some (name, _) => .ok (.object (.ofList name), { c with pos := c.pos + (stop + 1) })

/-- Reads a type that is no array. -/
def readBase (c : Cursor) : Except Failure (BaseType × Cursor) :=
  match c.peek with
  | none => .error .invalid
  | some tag =>
    match Primitive.ofTag? tag with
    | some p => .ok (.primitive p, c.skip)
    | none => if tag = 'L'.toUInt8 then c.skip.readName else .error .invalid

/-- Reads one type. -/
def readType (c : Cursor) : Except Failure (FieldType × Cursor) :=
  let (dims, c) := c.skipBrackets 0
  (readBase c).map fun (base, c) => (⟨dims, base⟩, c)

theorem left_skipBrackets_le (c : Cursor) (dims : Nat) : (c.skipBrackets dims).2.left ≤ c.left := by
  fun_induction skipBrackets c dims with
  | case1 c dims h ih => exact Nat.le_trans ih (Nat.le_of_lt (left_skip_lt (beq_iff_eq.1 h)))
  | case2 => exact Nat.le_refl _

theorem left_le_of_readName {c c' : Cursor} {base : BaseType} (h : c.readName = .ok (base, c')) :
    c'.left ≤ c.left := by
  unfold readName at h
  repeat' split at h
  all_goals cases h
  unfold left
  dsimp only
  omega

/-- A base type takes at least one byte. -/
theorem left_lt_of_readBase {c c' : Cursor} {base : BaseType} (h : c.readBase = .ok (base, c')) :
    c'.left < c.left := by
  unfold readBase at h
  split at h
  · cases h
  · next tag htag =>
    have hskip := left_skip_lt htag
    split at h
    · cases h
      exact hskip
    · split at h
      · exact Nat.lt_of_le_of_lt (left_le_of_readName h) hskip
      · cases h

/-- A type takes at least one byte, so the loop over parameters ends. -/
theorem left_lt_of_readType {c c' : Cursor} {t : FieldType} (h : c.readType = .ok (t, c')) :
    c'.left < c.left := by
  have hbrackets := left_skipBrackets_le c 0
  unfold readType at h
  cases hskip : c.skipBrackets 0 with
  | mk dims first =>
    simp only [hskip] at h hbrackets
    cases hbase : first.readBase with
    | error e =>
      rw [hbase] at h
      cases h
    | ok read =>
      rw [hbase] at h
      cases h
      exact Nat.lt_of_lt_of_le (left_lt_of_readBase hbase) hbrackets

/-- Reads types up to a closing parenthesis, and puts them behind `params`. -/
def readParams (c : Cursor) (params : List FieldType) : Except Failure (List FieldType × Cursor) :=
  if c.isAt ')' then .ok (params, c)
  else if c.peek = none then .error .invalid
  else
    match _h : c.readType with
    | .error e => .error e
    | .ok (t, c') => c'.readParams (params ++ [t])
termination_by c.left
decreasing_by exact left_lt_of_readType _h

/-- Reads the type of a result. -/
def readResult (c : Cursor) : Except Failure (Option FieldType × Cursor) :=
  if c.isAt 'V' then .ok (none, c.skip) else c.readType.map fun (t, c) => (some t, c)

/-- Fails if anything is left. -/
def finish (c : Cursor) : Except Failure Unit :=
  if c.pos = (Utf8.bytes c.text).length then .ok () else .error .invalid

end Cursor

end Descriptor

/-- Reads a whole text as a type. -/
def FieldType.parse (text : String) : Except Descriptor.Failure FieldType := do
  let (t, c) ← (Descriptor.Cursor.start text).readType
  c.finish
  return t

/-- The type a whole text denotes. -/
def FieldType.ofDescriptor? (text : String) : Option FieldType := (FieldType.parse text).toOption

/-- Reads a whole text as a method type. -/
def MethodType.parse (text : String) : Except Descriptor.Failure MethodType := do
  let c ← (Descriptor.Cursor.start text).expect '('
  let (params, c) ← c.readParams []
  let c ← c.expect ')'
  let (result, c) ← c.readResult
  c.finish
  return ⟨params, result⟩

/-- The method type a whole text denotes. -/
def MethodType.ofDescriptor? (text : String) : Option MethodType := (MethodType.parse text).toOption

/-- The dotted names of the classes in a field or method descriptor, in order of appearance. -/
def descriptorClasses? (text : String) : Option (List String) :=
  if text.toList.head? = some '(' then
    (MethodType.ofDescriptor? text).map fun t => t.types.filterMap (·.base.className?)
  else (FieldType.ofDescriptor? text).map fun t => t.base.className?.toList

/-- The class behind the name of a class constant, which may be the descriptor of an array. The
outer option is for a malformed array descriptor, the inner one for an array of primitives. -/
def elementClass? (internal : String) : Option (Option String) :=
  if internal.toList.head? = some '[' then
    (FieldType.ofDescriptor? internal).map (·.base.className?)
  else some (some (binaryName internal))

/-- A method descriptor up to and including its first closing parenthesis. -/
def paramsPart (descriptor : String) : String :=
  match Text.cutFirst ')' descriptor.toList with
  | some (front, _) => .ofList (front ++ [')'])
  | none => descriptor

/-- The Java spellings of the parameters of a method descriptor; a malformed descriptor is kept as
it is. -/
def prettyParams (descriptor : String) : String :=
  match MethodType.ofDescriptor? descriptor with
  | some t => Text.join "," (t.params.map FieldType.spelling)
  | none => descriptor

end JvmAudit
