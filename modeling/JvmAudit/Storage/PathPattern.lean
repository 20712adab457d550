import JvmAudit.Text.Cut
import JvmAudit.Text.Suffix

/-!
# Path patterns

Patterns over relative paths. `*` stands for any run of characters inside a component and `?` for
one of them; `**` is a component of its own and stands for any number of components; `[...]` stands
for one of some characters, `[!...]` for any other one, and neither for a separator.

## Termination

`Part.compile?` shortens its text; `Part.accepts` and `Part.acceptsRow` go by the parts.
-/

namespace JvmAudit

/-- One unit of a path pattern. -/
inductive Part where
  /-- The character itself. -/
  | letter (c : Char)
  /-- Any character but a separator. -/
  | any
  /-- Any run of characters without a separator. -/
  | star
  /-- Any number of components with their separators, or all that is left. -/
  | doubleStar
  /-- A character in one of these ranges, or in none of them if `negated`; never a separator. -/
  | oneOf (negated : Bool) (ranges : List (Char × Char))
  deriving DecidableEq, Repr

namespace Part

/-- The ranges in a class of characters; a character alone is a range of one. -/
def ranges : List Char → List (Char × Char)
  | low :: '-' :: high :: rest => (low, high) :: ranges rest
  | c :: rest => (c, c) :: ranges rest
  | [] => []

/-- Reads a pattern that follows `previous`. Two stars make up a component, three are never allowed,
and a class has at least one character and is closed. -/
def compile? (previous : Option Char) : List Char → Option (List Part)
  | [] => some []
  | '?' :: rest => (compile? (some '?') rest).map (.any :: ·)
  | '*' :: '*' :: '*' :: _ => none
  | '*' :: '*' :: rest =>
    if previous = none || previous = some '/' then
      match rest with
      | [] => some [.doubleStar]
      | '/' :: rest => (compile? (some '/') rest).map (.doubleStar :: ·)
      | _ => none
    else none
  | '*' :: rest => (compile? (some '*') rest).map (.star :: ·)
  | ['['] => none
  | ['[', '!'] => none
  | '[' :: '!' :: c :: rest =>
    match _h : Text.cutFirst ']' rest with
    | some (cs, back) => (compile? (some ']') back).map (.oneOf true (ranges (c :: cs)) :: ·)
    | none => none
  | '[' :: c :: rest =>
    match _h : Text.cutFirst ']' rest with
    | some (cs, back) => (compile? (some ']') back).map (.oneOf false (ranges (c :: cs)) :: ·)
    | none => none
  | c :: rest => (compile? (some c) rest).map (.letter c :: ·)
termination_by cs => cs.length
decreasing_by
  all_goals simp only [List.length_cons]
  all_goals try have h := Text.length_lt_of_cutFirst _h
  all_goals omega

/-- Whether a part that stands for one character stands for `c`. -/
def covers (p : Part) (c : Char) : Bool :=
  match p with
  | .letter d => c == d
  | .any => c != '/'
  | .oneOf negated ranges =>
    c != '/' && (ranges.any fun (low, high) => low ≤ c && c ≤ high) != negated
  | _ => false

/-- Whether the parts, in order, use up the whole path. -/
def accepts : List Part → Text.Test Char
  | [] => List.isEmpty
  | .star :: ps => Text.afterRun (· != '/') (accepts ps)
  | .doubleStar :: ps => fun path => accepts ps path || Text.afterParts '/' (accepts ps) path
  | p :: ps => Text.afterOne p.covers (accepts ps)

/-- The row of `accepts`. -/
def acceptsRow (path : List Char) : List Part → List Bool
  | [] => Text.emptyRow path
  | .star :: ps => Text.afterRunRow (· != '/') path (acceptsRow path ps)
  | .doubleStar :: ps =>
    let row := acceptsRow path ps
    List.zipWith (· || ·) row (Text.afterPartsRow '/' path row)
  | p :: ps => Text.afterOneRow p.covers path (acceptsRow path ps)

theorem acceptsRow_eq (path : List Char) (ps : List Part) :
    acceptsRow path ps = Text.row (accepts ps) path := by
  induction ps with
  | nil => exact (Text.row_isEmpty path).symm
  | cons p ps ih =>
    cases p with
    | star => rw [acceptsRow, accepts, Text.row_afterRun, ih]
    | doubleStar => rw [acceptsRow, accepts, Text.row_or, Text.row_afterParts, ih]
    | letter c => rw [acceptsRow, accepts, Text.row_afterOne, ih] <;> nofun
    | any => rw [acceptsRow, accepts, Text.row_afterOne, ih] <;> nofun
    | oneOf negated ranges => rw [acceptsRow, accepts, Text.row_afterOne, ih] <;> nofun

end Part

/-- A pattern over relative paths. -/
structure PathPattern where
  parts : List Part
  deriving DecidableEq, Repr

namespace PathPattern

/-- Reads a pattern. -/
def ofString? (pattern : String) : Option PathPattern :=
  (Part.compile? none pattern.toList).map fun parts => ⟨parts⟩

/-- Whether the pattern matches a path. -/
def accepts (p : PathPattern) (path : String) : Bool :=
  (Part.acceptsRow path.toList p.parts).headD false

theorem accepts_eq (p : PathPattern) (path : String) :
    p.accepts path = Part.accepts p.parts path.toList := by
  rw [accepts, Part.acceptsRow_eq, Text.headD_row]

end PathPattern

end JvmAudit
