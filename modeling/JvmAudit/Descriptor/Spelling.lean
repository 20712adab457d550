import JvmAudit.Descriptor.Basic
import JvmAudit.Text.Blank
import JvmAudit.Text.Letters

/-!
# Java type spellings

A Java type as it is written in source text: a keyword or a dotted class name, then `[]` any number
of times, then at most one `...`; blanks may stand around the whole and in front of each suffix.

## Termination

The suffixes are taken off the reversed text, which gets shorter with each of them.
-/

namespace JvmAudit

namespace FieldType

/-- Takes `[]` off the end of a reversed text as often as it stands there, with the blanks in front
of it. -/
def stripBrackets : List Char → Nat × List Char
  | ']' :: '[' :: rest =>
    let (n, base) := stripBrackets (rest.dropWhile Text.isBlank)
    (n + 1, base)
  | cs => (0, cs)
termination_by cs => cs.length
decreasing_by
  have := (List.dropWhile_suffix Text.isBlank (l := rest)).length_le
  simp only [List.length_cons]
  omega

/-- Takes one `...` off the end of a reversed text, with the blanks in front of it. -/
def stripDots : List Char → Nat × List Char
  | '.' :: '.' :: '.' :: rest => (1, rest.dropWhile Text.isBlank)
  | cs => (0, cs)

/-- A dotted name: one or more identifiers with dots between them. -/
def isDottedName (cs : List Char) : Bool :=
  (Text.splitOn '.' cs).all fun part => !part.isEmpty && part.all Text.isWordChar

/-- The base type with this spelling. There is no type `void`. -/
def spelledBase? (name : String) : Option BaseType :=
  match Primitive.ofKeyword? name with
  | some p => some (.primitive p)
  | none => if name != "void" && isDottedName name.toList then
    some (.object (internalName name)) else none

/-- The type with this spelling. -/
def ofSpelling? (java : String) : Option FieldType :=
  let (dots, cs) := stripDots (Text.trim java.toList).reverse
  let (brackets, cs) := stripBrackets cs
  (spelledBase? (.ofList cs.reverse)).map fun base => ⟨dots + brackets, base⟩

end FieldType

end JvmAudit
