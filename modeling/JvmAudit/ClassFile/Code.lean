import JvmAudit.ClassFile.Annotations
import JvmAudit.ClassFile.Basic
import JvmAudit.ClassFile.Instruction

/-!
# The symbols of a method body

The raw parts of a `Code` attribute, and the symbols that its instructions and catch clauses refer
to. A member of an array type (such as `clone`) stands for the element class, and an array of
primitives for nothing. A dynamic call site stands for its bootstrap method and the arguments of
that.
-/

namespace JvmAudit

/-- A bootstrap method: the index of its handle and those of its static arguments. -/
structure BootstrapMethod where
  handle : Nat
  arguments : List Nat
  deriving DecidableEq, Repr

/-- A catch clause: the offset of its handler and the index of the class it catches. -/
structure CatchClause where
  handler : Nat
  type : Nat
  deriving DecidableEq, Repr

/-- The parts of a `Code` attribute before its instructions are decoded. -/
structure RawCode where
  code : Bytes
  catches : List CatchClause
  lines : List LineNumber
  deriving Repr

namespace Symbol

/-- The class that a class entry stands for, if any. -/
def ofClass (internal : String) : Except ClassError (List Symbol) :=
  match elementClass? internal with
  | some name => .ok (name.toList.map .type)
  | none => .error (.invalidDescriptor internal)

/-- The symbol that a member entry stands for, if any. -/
def ofMember (m : MemberRef) : Except ClassError (List Symbol) :=
  if m.owner.toList.head? = some '[' then ofClass m.owner
  else if m.isField then .ok [.field (binaryName m.owner) m.name m.descriptor]
  else .ok [.method (binaryName m.owner) m.name m.descriptor m.onInterface]

/-- The classes in a descriptor. -/
def ofDescriptor (text : String) : Except ClassError (List Symbol) :=
  match descriptorClasses? text with
  | some names => .ok (names.map .type)
  | none => .error (.invalidDescriptor text)

/-- The symbols of the class entry at an index. -/
def classAt (pool : Pool) (index : Nat) : Except ClassError (List Symbol) := do
  ofClass (← pool.className index)

/-- The symbols of the member entry at an index. -/
def memberAt (pool : Pool) (index : Nat) : Except ClassError (List Symbol) := do
  ofMember (← pool.memberRef index)

/-- The symbols of a constant that can be loaded; texts and numbers have none. -/
def constantAt (pool : Pool) (index : Nat) : Except ClassError (List Symbol) := do
  match ← pool.get index with
  | .classRef _ => classAt pool index
  | .methodType descriptor => ofDescriptor (← pool.utf8 descriptor)
  | .methodHandle _ reference => memberAt pool reference
  | _ => return []

/-- The symbols of a dynamic call site. -/
def callSiteAt (pool : Pool) (bootstraps : List BootstrapMethod) (index : Nat) :
    Except ClassError (List Symbol) := do
  match ← pool.get index with
  | .invokeDynamic bootstrap =>
    match bootstraps[bootstrap]? with
    | some m => return (← (m.handle :: m.arguments).mapM (constantAt pool)).flatten
    | none => throw (.invalidBootstrapIndex bootstrap)
  | _ => throw (.invalidConstantIndex index)

end Symbol

namespace Instruction

/-- What the operand of an instruction points to. -/
inductive Use where
  | nothing
  | type
  | member
  /-- A constant, by an index of one byte. -/
  | nearConstant
  | constant
  | callSite
  deriving DecidableEq, Repr

/-- What the operand of an instruction with this opcode points to. -/
def use (opcode : UInt8) : Use :=
  match opcode.toNat with
  | 0x12 => .nearConstant
  | 0x13 => .constant
  | 0xb2 | 0xb3 | 0xb4 | 0xb5 | 0xb6 | 0xb7 | 0xb8 | 0xb9 => .member
  | 0xba => .callSite
  | 0xbb | 0xbd | 0xc0 | 0xc1 | 0xc5 => .type
  | _ => .nothing

/-- The symbols that the instruction at `pc` refers to. -/
def symbols (pool : Pool) (bootstraps : List BootstrapMethod) (pc : Nat) (instruction : Bytes) :
    Except ClassError (List Symbol) :=
  match instruction with
  | [] => .ok []
  | opcode :: _ =>
    match use opcode with
    | .nothing => .ok []
    | .type => do Symbol.classAt pool (← operand2 pc instruction)
    | .member => do Symbol.memberAt pool (← operand2 pc instruction)
    | .nearConstant => do Symbol.constantAt pool (← operand1 pc instruction)
    | .constant => do Symbol.constantAt pool (← operand2 pc instruction)
    | .callSite => do Symbol.callSiteAt pool bootstraps (← operand2 pc instruction)

/-- The references of the instruction at `pc`. -/
def references (pool : Pool) (bootstraps : List BootstrapMethod) (pc : Nat) (instruction : Bytes) :
    Except ClassError (List Reference) :=
  (symbols pool bootstraps pc instruction).map (·.map (⟨pc, ·⟩))

end Instruction

namespace RawCode

/-- The references of a catch clause, at its handler. -/
def catchReferences (pool : Pool) (clause : CatchClause) : Except ClassError (List Reference) := do
  return (← Symbol.classAt pool clause.type).map (⟨clause.handler, ·⟩)

/-- Decodes a body: the references of the instructions, and those of the catch clauses behind the
ones at the same offset. -/
def decode (pool : Pool) (bootstraps : List BootstrapMethod) (raw : RawCode) :
    Except ClassError Code := do
  let instructions ← Instruction.walk (Instruction.references pool bootstraps) raw.code
  let catches ← raw.catches.mapM (catchReferences pool)
  return ⟨(instructions ++ catches.flatten).mergeSort (fun a b => a.offset ≤ b.offset), raw.lines⟩

end RawCode

end JvmAudit
