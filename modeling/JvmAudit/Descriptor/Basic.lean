import JvmAudit.Text.Cut

/-!
# Types of the class-file format

The types that descriptors denote, and their rendering: `[Ljava/lang/String;` is an array of one
dimension over the class `java/lang/String`, `(I)V` a method with one parameter and no result. Class
names are kept in internal form, with slashes; the dotted form is the binary name.
-/

namespace JvmAudit

/-- The primitive types. -/
inductive Primitive where
  | byte
  | char
  | double
  | float
  | int
  | long
  | short
  | boolean
  deriving DecidableEq, Repr

namespace Primitive

/-- All of them. -/
def all : List Primitive := [.byte, .char, .double, .float, .int, .long, .short, .boolean]

/-- The letter of a primitive type in a descriptor. -/
def tag : Primitive → Char
  | .byte => 'B'
  | .char => 'C'
  | .double => 'D'
  | .float => 'F'
  | .int => 'I'
  | .long => 'J'
  | .short => 'S'
  | .boolean => 'Z'

/-- The Java keyword of a primitive type. -/
def keyword : Primitive → String
  | .byte => "byte"
  | .char => "char"
  | .double => "double"
  | .float => "float"
  | .int => "int"
  | .long => "long"
  | .short => "short"
  | .boolean => "boolean"

/-- The primitive type with this letter, given by its byte. -/
def ofTag? (b : UInt8) : Option Primitive := all.find? (·.tag.toUInt8 == b)

/-- The primitive type with this keyword. -/
def ofKeyword? (word : String) : Option Primitive := all.find? (·.keyword == word)

@[simp]
theorem ofKeyword?_keyword (p : Primitive) : ofKeyword? p.keyword = some p := by cases p <;> rfl

end Primitive

/-- The dotted form of an internal class name. -/
def binaryName (internal : String) : String := .ofList (Text.replaceChar '/' '.' internal.toList)

/-- The internal form of a dotted class name. -/
def internalName (binary : String) : String := .ofList (Text.replaceChar '.' '/' binary.toList)

/-- What an array type bottoms out in. -/
inductive BaseType where
  | primitive (p : Primitive)
  /-- A class, by its internal name. -/
  | object (internal : String)
  deriving DecidableEq, Repr

namespace BaseType

/-- The descriptor of a base type. -/
def render : BaseType → List Char
  | .primitive p => [p.tag]
  | .object name => 'L' :: name.toList ++ [';']

/-- The Java spelling of a base type. -/
def spelling : BaseType → String
  | .primitive p => p.keyword
  | .object name => binaryName name

/-- The dotted name of the class, if it is one. -/
def className? : BaseType → Option String
  | .primitive _ => none
  | .object name => some (binaryName name)

end BaseType

/-- The type of a field, a parameter or a result. -/
structure FieldType where
  /-- The number of array dimensions. -/
  dims : Nat
  base : BaseType
  deriving DecidableEq, Repr

namespace FieldType

/-- The descriptor of a type. -/
def render (t : FieldType) : List Char := List.replicate t.dims '[' ++ t.base.render

/-- The descriptor of a type as text. -/
def descriptor (t : FieldType) : String := .ofList t.render

/-- The Java spelling of a type. -/
def spelling (t : FieldType) : String := t.base.spelling ++ .join (List.replicate t.dims "[]")

end FieldType

/-- The type of a method. -/
structure MethodType where
  params : List FieldType
  /-- None for a method without result. -/
  result : Option FieldType
  deriving DecidableEq, Repr

namespace MethodType

/-- The descriptor of a method type. -/
def render (t : MethodType) : List Char :=
  '(' :: t.params.flatMap FieldType.render ++ ')' :: (t.result.map FieldType.render).getD ['V']

/-- The types of the parameters, then that of the result. -/
def types (t : MethodType) : List FieldType := t.params ++ t.result.toList

end MethodType

end JvmAudit
