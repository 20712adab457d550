import JvmAudit.ClassFile.Code

/-!
# Reading class files

The layout of a class file, from the magic number to the class attributes. Attributes that are not
needed are skipped. Bodies are decoded at the end, because dynamic call sites need the table of
bootstrap methods, which comes last; without bodies (`Depth.outline`) neither of the two is looked
at.
-/

namespace JvmAudit

/-- How much of a class file is read. -/
inductive Depth where
  /-- Everything but method bodies. -/
  | outline
  | full
  deriving DecidableEq, Repr

namespace ClassFile

open Reader

/-- The first four bytes of every class file. -/
def magic : Nat := 0xCAFEBABE

/-- The dotted name of the class entry at the next index. -/
def readClassName (pool : Pool) : Reader String := do
  return binaryName (← pool.className (← u2))

/-- The name and the bytes of an attribute. -/
def readAttribute (pool : Pool) : Reader (String × Bytes) := do
  let name ← pool.utf8 (← u2)
  return (name, ← bytes (← u4))

/-- Reads attributes; each one is interpreted before the next one is read. -/
def readAttributes {α : Type} (pool : Pool) (interpret : String → Bytes → Except ClassError α) :
    Reader (List α) :=
  table do
    let (name, data) ← readAttribute pool
    interpret name data

/-- Whether an attribute holds annotations, kept at run time or not. -/
def isAnnotations (name : String) : Bool :=
  name == "RuntimeVisibleAnnotations" || name == "RuntimeInvisibleAnnotations"

/-- The annotations that an attribute holds. -/
def annotationsOf (pool : Pool) (name : String) (data : Bytes) : Except ClassError (List String) :=
  if isAnnotations name then readFrom data (Annotations.readNames pool) else .ok []

/-- The version of a class file; other versions than the supported ones are refused. -/
def readVersion : Reader Nat := do
  let minor ← u2
  let major ← u2
  if supportedMajors.1 ≤ major && major ≤ supportedMajors.2 then return major
  else throw (.unsupportedVersion major minor)

/-- Reads a field. -/
def readField (pool : Pool) : Reader FieldDecl := do
  let access ← u2
  let name ← pool.utf8 (← u2)
  let descriptor ← pool.utf8 (← u2)
  if (FieldType.ofDescriptor? descriptor).isNone then throw (.invalidDescriptor descriptor)
  let annotations ← readAttributes pool (annotationsOf pool)
  return ⟨name, descriptor, access, annotations.flatten⟩

/-- Reads an entry of a line table. -/
def readLine : Reader LineNumber := do return ⟨← u2, ← u2⟩

/-- Reads an entry of an exception table. A clause for everything has no class. -/
def readCatch : Reader (Option CatchClause) := do
  let _start ← u2
  let _stop ← u2
  let handler ← u2
  let type ← u2
  return if type = 0 then none else some ⟨handler, type⟩

/-- The line table that an attribute holds. -/
def linesOf (name : String) (data : Bytes) : Except ClassError (List LineNumber) :=
  if name == "LineNumberTable" then readFrom data (table readLine) else .ok []

/-- Reads the parts of a `Code` attribute. -/
def readCode (pool : Pool) : Reader RawCode := do
  let _maxStack ← u2
  let _maxLocals ← u2
  let code ← bytes (← u4)
  let catches ← table readCatch
  let lines ← readAttributes pool linesOf
  return ⟨code, catches.filterMap id, lines.flatten⟩

/-- What an attribute of a method holds. -/
inductive MethodAttribute where
  | code (raw : RawCode)
  | exceptions (names : List String)
  | annotations (names : List String)

namespace MethodAttribute

/-- Interprets an attribute of a method. -/
def interpret (depth : Depth) (pool : Pool) (name : String) (data : Bytes) :
    Except ClassError MethodAttribute := do
  if name == "Code" && depth = .full then return .code (← readFrom data (readCode pool))
  else if name == "Exceptions" then
    return .exceptions (← readFrom data (table (readClassName pool)))
  else return .annotations (← annotationsOf pool name data)

/-- The body, if the attribute holds one. -/
def code? : MethodAttribute → Option RawCode
  | .code raw => some raw
  | _ => none

/-- The exception classes that the attribute holds. -/
def exceptionNames : MethodAttribute → List String
  | .exceptions names => names
  | _ => []

/-- The annotations that the attribute holds. -/
def annotationNames : MethodAttribute → List String
  | .annotations names => names
  | _ => []

end MethodAttribute

/-- Reads a method; of several bodies the last one counts. -/
def readMethod (depth : Depth) (pool : Pool) : Reader (MethodDecl × Option RawCode) := do
  let access ← u2
  let name ← pool.utf8 (← u2)
  let descriptor ← pool.utf8 (← u2)
  if (MethodType.ofDescriptor? descriptor).isNone then throw (.invalidDescriptor descriptor)
  let attributes ← readAttributes pool (MethodAttribute.interpret depth pool)
  return (⟨name, descriptor, access, attributes.flatMap (·.annotationNames),
    attributes.flatMap (·.exceptionNames), none⟩, (attributes.filterMap (·.code?)).getLast?)

/-- Reads a bootstrap method. -/
def readBootstrap : Reader BootstrapMethod := do return ⟨← u2, ← table u2⟩

/-- What an attribute of a class holds. -/
inductive ClassAttribute where
  | sourceFile (name : String)
  | bootstraps (methods : List BootstrapMethod)
  | annotations (names : List String)

namespace ClassAttribute

/-- Interprets an attribute of a class. -/
def interpret (depth : Depth) (pool : Pool) (name : String) (data : Bytes) :
    Except ClassError ClassAttribute := do
  if name == "SourceFile" then return .sourceFile (← pool.utf8 (← readFrom data u2))
  else if name == "BootstrapMethods" && depth = .full then
    return .bootstraps (← readFrom data (table readBootstrap))
  else return .annotations (← annotationsOf pool name data)

/-- The source file that the attribute names. -/
def sourceFile? : ClassAttribute → Option String
  | .sourceFile name => some name
  | _ => none

/-- The bootstrap methods, if the attribute holds them. -/
def bootstraps? : ClassAttribute → Option (List BootstrapMethod)
  | .bootstraps methods => some methods
  | _ => none

/-- The annotations that the attribute holds. -/
def annotationNames : ClassAttribute → List String
  | .annotations names => names
  | _ => []

end ClassAttribute

/-- Adds the decoded body to a method. -/
def withBody (pool : Pool) (bootstraps : List BootstrapMethod) (m : MethodDecl × Option RawCode) :
    Except ClassError MethodDecl :=
  match m.2 with
  | none => .ok m.1
  | some raw => (raw.decode pool bootstraps).map fun code => { m.1 with code := some code }

/-- Adds the decoded bodies to the methods. -/
def withBodies (pool : Pool) (bootstraps : List BootstrapMethod)
    (methods : List (MethodDecl × Option RawCode)) :
    Except ClassError (List MethodDecl) :=
  methods.mapM (withBody pool bootstraps)

/-- The dotted name of the superclass at an index; 0 stands for none. -/
def superName (pool : Pool) (index : Nat) : Except ClassError (Option String) :=
  if index = 0 then .ok none else (pool.className index).map fun name => some (binaryName name)

/-- Reads a class file. -/
def read (depth : Depth) : Reader ClassFile := do
  if (← u4) ≠ magic then throw .invalidMagic
  let major ← readVersion
  let pool ← Pool.read
  let access ← u2
  let this ← u2
  let super ← u2
  let name := binaryName (← pool.className this)
  let superClass ← superName pool super
  let interfaces ← table (readClassName pool)
  let fields ← table (readField pool)
  let methods ← table (readMethod depth pool)
  let attributes ← readAttributes pool (ClassAttribute.interpret depth pool)
  let bootstraps := (attributes.filterMap (·.bootstraps?)).getLast?.getD []
  let methods ← withBodies pool bootstraps methods
  return ⟨name, access, major, (attributes.filterMap (·.sourceFile?)).getLast?,
    superClass, interfaces, attributes.flatMap (·.annotationNames), fields, methods⟩

/-- The class in a class file. What follows it is ignored. -/
def parse (depth : Depth) (data : Bytes) : Except ClassError ClassFile := readFrom data (read depth)

end ClassFile

end JvmAudit
