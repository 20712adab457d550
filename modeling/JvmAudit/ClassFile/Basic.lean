import JvmAudit.Descriptor.Parser

/-!
# Classes

What is known of a compiled class: its place in the type hierarchy, its annotations and its members,
and for each method body the symbols that it refers to. Class names are dotted.
-/

namespace JvmAudit

/-- An entry of a line table: from this offset on, the code belongs to this source line. -/
structure LineNumber where
  start : Nat
  line : Nat
  deriving DecidableEq, Repr

/-- Something that code refers to by name. -/
inductive Symbol where
  /-- A bare class, as in an instance creation, a cast, a class literal or a catch clause. -/
  | type (name : String)
  | field (owner name descriptor : String)
  /-- A method or constructor; `onInterface` if the owner is referred to as an interface. -/
  | method (owner name descriptor : String) (onInterface : Bool)
  deriving DecidableEq, Repr

/-- A symbol and the offset of the instruction that refers to it. -/
structure Reference where
  offset : Nat
  symbol : Symbol
  deriving DecidableEq, Repr

/-- The body of a method. -/
structure Code where
  /-- By offset. -/
  references : List Reference
  /-- In the order of the line table. -/
  lines : List LineNumber
  deriving DecidableEq, Repr

namespace Code

/-- Of two entries the one that starts later, and the second one if they start together. -/
def laterEntry (best : Option LineNumber) (entry : LineNumber) : Option LineNumber :=
  match best with
  | none => some entry
  | some b => if b.start ≤ entry.start then some entry else some b

/-- The source line of an offset: that of the last entry which starts at or before it. -/
def lineAt (code : Code) (offset : Nat) : Option Nat :=
  ((code.lines.filter (·.start ≤ offset)).foldl laterEntry none).map (·.line)

/-- The smallest source line. -/
def firstLine (code : Code) : Option Nat := (code.lines.map (·.line)).min?

end Code

/-- A field declared by a class. -/
structure FieldDecl where
  name : String
  descriptor : String
  access : Nat
  annotations : List String
  deriving DecidableEq, Repr

/-- A method declared by a class; constructors are called `<init>`. -/
structure MethodDecl where
  name : String
  descriptor : String
  access : Nat
  annotations : List String
  /-- The classes of its `throws` clause. -/
  exceptions : List String
  code : Option Code
  deriving DecidableEq, Repr

namespace MethodDecl

/-- Name and parameters as they are written in Java. -/
def display (m : MethodDecl) : String := m.name ++ "(" ++ prettyParams m.descriptor ++ ")"

/-- The smallest source line of the body. -/
def firstLine (m : MethodDecl) : Option Nat := m.code.bind Code.firstLine

end MethodDecl

/-- A compiled class. -/
structure ClassFile where
  name : String
  access : Nat
  major : Nat
  sourceFile : Option String
  superClass : Option String
  interfaces : List String
  annotations : List String
  fields : List FieldDecl
  methods : List MethodDecl
  deriving DecidableEq, Repr

namespace ClassFile

/-- Whether the interface flag is set. -/
def isInterface (c : ClassFile) : Bool := c.access.testBit 9

/-- The smallest source line of all bodies. -/
def firstLine (c : ClassFile) : Option Nat := (c.methods.filterMap MethodDecl.firstLine).min?

/-- The first declared field with this name. -/
def field? (c : ClassFile) (name : String) : Option FieldDecl := c.fields.find? (·.name == name)

/-- Whether a method has this name and this descriptor. -/
def isMethod (name descriptor : String) (m : MethodDecl) : Bool :=
  m.name == name && m.descriptor == descriptor

/-- Whether a method has this name and these parameters, whatever its result. -/
def isOverload (name params : String) (m : MethodDecl) : Bool :=
  m.name == name && paramsPart m.descriptor == params

/-- The first declared method with this name and this descriptor. -/
def method? (c : ClassFile) (name descriptor : String) : Option MethodDecl :=
  c.methods.find? (isMethod name descriptor)

/-- The first declared method with this name and these parameters. -/
def overload? (c : ClassFile) (name params : String) : Option MethodDecl :=
  c.methods.find? (isOverload name params)

/-- Whether any member has this name. -/
def declaresNamed (c : ClassFile) (name : String) : Bool :=
  (c.field? name).isSome || c.methods.any (·.name == name)

/-- The superclass, then the interfaces. -/
def supertypes (c : ClassFile) : List String := c.superClass.toList ++ c.interfaces

end ClassFile

end JvmAudit
