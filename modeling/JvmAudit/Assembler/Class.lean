import JvmAudit.Assembler.Body
import JvmAudit.ClassFile.Parser

/-!
# Assembling classes

A description of a class, and the class file for it. Members enter the constant pool in the order in
which they are given, fields and methods mixed; the class itself comes last.
-/

namespace JvmAudit.Assembler

/-- The access flag of public classes and members. -/
def accPublic : Nat := 0x0001

/-- The access flag of static members. -/
def accStatic : Nat := 0x0008

/-- The access flag of classes that are compiled for current runtimes. -/
def accSuper : Nat := 0x0020

/-- The access flag of interfaces. -/
def accInterface : Nat := 0x0200

/-- The access flag of abstract classes and methods. -/
def accAbstract : Nat := 0x0400

/-- The access flag of annotation types. -/
def accAnnotationType : Nat := 0x2000

/-- An annotation to be written. -/
structure AnnotationSpec where
  name : String
  /-- Whether it is kept at run time. -/
  visible : Bool
  /-- The name and the value of a text element. -/
  element : Option (String × String)
  deriving DecidableEq, Repr

/-- A method to be written. -/
structure MethodSpec where
  name : String
  descriptor : String
  access : Nat
  annotations : List String
  invisible : List String
  exceptions : List String
  /-- None for a method without body. -/
  body : Option (List Step)
  deriving DecidableEq, Repr

/-- A member to be written. -/
inductive MemberSpec where
  | field (name descriptor : String) (annotations : List String)
  | method (m : MethodSpec)
  deriving DecidableEq, Repr

/-- A class to be written. -/
structure ClassSpec where
  name : String
  superClass : Option String
  interfaces : List String
  access : Nat
  major : Nat
  sourceFile : Option String
  annotations : List AnnotationSpec
  /-- In the order in which they enter the constant pool. -/
  members : List MemberSpec
  deriving DecidableEq, Repr

namespace AnnotationSpec

/-- An annotation that is kept at run time, without elements. -/
def plain (name : String) : AnnotationSpec := ⟨name, true, none⟩

/-- An annotation that is not kept at run time, without elements. -/
def hidden (name : String) : AnnotationSpec := ⟨name, false, none⟩

/-- The bytes of an annotation. -/
def encode (a : AnnotationSpec) : Assemble Bytes := do
  let type ← utf8 ("L" ++ internalName a.name ++ ";")
  match a.element with
  | none => return put2 type ++ put2 0
  | some (name, value) =>
    let name ← utf8 name
    let value ← utf8 value
    return put2 type ++ put2 1 ++ put2 name ++ (ElementValue.const 0x73 value).encode

/-- The attribute with this name for some annotations; there is none without annotations. -/
def attribute? (name : String) (annotations : List AnnotationSpec) : Assemble (List Bytes) := do
  if annotations.isEmpty then return []
  let data ← annotations.mapM encode
  return [← encodeAttribute name (putCount annotations.length ++ data.flatten)]

/-- The attributes for annotations: first those kept at run time, then the others. -/
def attributes (annotations : List AnnotationSpec) : Assemble (List Bytes) := do
  let visible ← attribute? "RuntimeVisibleAnnotations" (annotations.filter (·.visible))
  let invisible ← attribute? "RuntimeInvisibleAnnotations" (annotations.filter (!·.visible))
  return visible ++ invisible

end AnnotationSpec

/-- The bytes of attributes with their count in front. -/
def encodeAttributes (attributes : List Bytes) : Bytes :=
  putCount attributes.length ++ attributes.flatten

/-- The bytes of a member whose attributes are already there. -/
def encodeMember (access : Nat) (name descriptor : String) (attributes : List Bytes) :
    Assemble Bytes := do
  let name ← utf8 name
  let descriptor ← utf8 descriptor
  return put2 access ++ put2 name ++ put2 descriptor ++ encodeAttributes attributes

/-- The attribute for the exceptions of a method. -/
def exceptionAttribute (exceptions : List String) : Assemble (List Bytes) := do
  if exceptions.isEmpty then return []
  let indices ← exceptions.mapM classNamed
  return [← encodeAttribute "Exceptions" (putCount exceptions.length ++ indices.flatMap put2)]

/-- A member with its bytes. -/
inductive AssembledMember where
  | field (data : Bytes)
  /-- The length of the code comes along if there is a body. -/
  | method (data : Bytes) (codeLength : Option Nat)

namespace MethodSpec

/-- A method that is public and static. -/
def ofBody (name descriptor : String) (body : List Step) : MethodSpec :=
  ⟨name, descriptor, accPublic + accStatic, [], [], [], some body⟩

/-- A method without body that is public and abstract. -/
def abstract (name descriptor : String) : MethodSpec :=
  ⟨name, descriptor, accPublic + accAbstract, [], [], [], none⟩

/-- Assembles a method. -/
def assemble (m : MethodSpec) : Assemble AssembledMember := do
  let body ← m.body.mapM assembleBody
  let code ← body.mapM codeAttribute
  let exceptions ← exceptionAttribute m.exceptions
  let annotations ← AnnotationSpec.attributes
    (m.annotations.map AnnotationSpec.plain ++ m.invisible.map AnnotationSpec.hidden)
  let data ← encodeMember m.access m.name m.descriptor (code.toList ++ exceptions ++ annotations)
  return .method data (body.map (·.code.length))

end MethodSpec

namespace MemberSpec

/-- Assembles a member. -/
def assemble : MemberSpec → Assemble AssembledMember
  | .field name descriptor annotations => do
    let attributes ← AnnotationSpec.attributes (annotations.map AnnotationSpec.plain)
    return .field (← encodeMember accPublic name descriptor attributes)
  | .method m => m.assemble

end MemberSpec

namespace AssembledMember

/-- The bytes of a field. -/
def field? : AssembledMember → Option Bytes
  | .field data => some data
  | .method .. => none

/-- The bytes of a method. -/
def method? : AssembledMember → Option Bytes
  | .field _ => none
  | .method data _ => some data

/-- The offset at the end of a body. -/
def endOffset? : AssembledMember → Option Nat
  | .field _ => none
  | .method _ length => length.map tableOffset

end AssembledMember

/-- A class file and the offset at the end of each body. -/
structure AssembledClass where
  data : Bytes
  endOffsets : List Nat

/-- The bytes of a bootstrap method. -/
def encodeBootstrap (m : BootstrapMethod) : Bytes :=
  put2 m.handle ++ putCount m.arguments.length ++ m.arguments.flatMap put2

/-- The attribute for the bootstrap methods. -/
def bootstrapAttribute : Assemble (List Bytes) := do
  let bootstraps := (← get).bootstraps
  if bootstraps.isEmpty then return []
  return [← encodeAttribute "BootstrapMethods" (putCount bootstraps.length ++
    bootstraps.flatMap encodeBootstrap)]

namespace ClassSpec

/-- A public class below `java.lang.Object` for version 8. -/
def ofName (name : String) : ClassSpec :=
  ⟨name, some "java.lang.Object", [], accPublic + accSuper, 52, none, [], []⟩

/-- The flags of a public interface. -/
def interfaceAccess : Nat := accPublic + accInterface + accAbstract

/-- The flags of a public annotation type. -/
def annotationTypeAccess : Nat := interfaceAccess + accAnnotationType

/-- The attribute for the source file. -/
def sourceFileAttribute (file : String) : Assemble Bytes := do
  let index ← utf8 file
  encodeAttribute "SourceFile" (put2 index)

/-- The index of the superclass; 0 stands for none. -/
def superIndex : Option String → Assemble Nat
  | some name => classNamed name
  | none => return 0

/-- Assembles what stands around the members, and puts everything behind the constant pool
together. -/
def assembleAround (c : ClassSpec) (members : List AssembledMember) :
    Assemble (Bytes × List Nat) := do
  let this ← classNamed c.name
  let super ← superIndex c.superClass
  let interfaces ← c.interfaces.mapM classNamed
  let source ← c.sourceFile.mapM sourceFileAttribute
  let annotations ← AnnotationSpec.attributes c.annotations
  let bootstraps ← bootstrapAttribute
  let fields := members.filterMap (·.field?)
  let methods := members.filterMap (·.method?)
  return (put2 c.access ++ put2 this ++ put2 super ++ putCount interfaces.length ++
    interfaces.flatMap put2 ++ putCount fields.length ++ fields.flatten ++
    putCount methods.length ++ methods.flatten ++
    encodeAttributes (source.toList ++ annotations ++ bootstraps), members.filterMap (·.endOffset?))

/-- Assembles everything; what comes in front of the constant pool is left out. -/
def assembleParts (c : ClassSpec) : Assemble (Bytes × List Nat) := do
  let members ← c.members.mapM MemberSpec.assemble
  c.assembleAround members

/-- The class file for a description. -/
def build (c : ClassSpec) : AssembledClass :=
  let ((parts, endOffsets), tables) := c.assembleParts.run ⟨.empty, []⟩
  ⟨put4 ClassFile.magic ++ put2 0 ++ put2 c.major ++ tables.pool.encode ++ parts, endOffsets⟩

end ClassSpec

end JvmAudit.Assembler
