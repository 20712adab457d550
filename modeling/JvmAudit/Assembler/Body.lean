import JvmAudit.Assembler.Tables

/-!
# Assembling method bodies

A body is described by a list of instructions and markers. Instructions are not verified, only their
encoding is exact. Class names are dotted, except where an array descriptor is asked for.
-/

namespace JvmAudit.Assembler

/-- Instructions without operands. -/
inductive PlainOp where
  | nop
  | aconstNull
  | lconst0
  | pop
  | dup
  | ireturn
  | lreturn
  | areturn
  | voidReturn
  | athrow
  deriving DecidableEq, Repr

/-- The opcode of an instruction without operands. -/
def PlainOp.opcode : PlainOp → UInt8
  | .nop => 0x00
  | .aconstNull => 0x01
  | .lconst0 => 0x09
  | .pop => 0x57
  | .dup => 0x59
  | .ireturn => 0xac
  | .lreturn => 0xad
  | .areturn => 0xb0
  | .voidReturn => 0xb1
  | .athrow => 0xbf

/-- Instructions on a local variable. -/
inductive LocalOp where
  | iload
  | aload
  | astore
  deriving DecidableEq, Repr

/-- The opcode of an instruction on a local variable. -/
def LocalOp.opcode : LocalOp → UInt8
  | .iload => 0x15
  | .aload => 0x19
  | .astore => 0x3a

/-- Instructions on a field. -/
inductive FieldOp where
  | getstatic
  | putstatic
  | getfield
  | putfield
  deriving DecidableEq, Repr

/-- The opcode of an instruction on a field. -/
def FieldOp.opcode : FieldOp → UInt8
  | .getstatic => 0xb2
  | .putstatic => 0xb3
  | .getfield => 0xb4
  | .putfield => 0xb5

/-- Calls of a method of a class. -/
inductive InvokeOp where
  | invokevirtual
  | invokespecial
  | invokestatic
  deriving DecidableEq, Repr

/-- The opcode of a call of a method of a class. -/
def InvokeOp.opcode : InvokeOp → UInt8
  | .invokevirtual => 0xb6
  | .invokespecial => 0xb7
  | .invokestatic => 0xb8

/-- Instructions on a class. -/
inductive TypeOp where
  | new
  | anewarray
  | checkcast
  | instanceof
  deriving DecidableEq, Repr

/-- The opcode of an instruction on a class. -/
def TypeOp.opcode : TypeOp → UInt8
  | .new => 0xbb
  | .anewarray => 0xbd
  | .checkcast => 0xc0
  | .instanceof => 0xc1

/-- An element of a body. -/
inductive Step where
  /-- What follows belongs to this source line. -/
  | line (number : Nat)
  | plain (op : PlainOp)
  /-- Pushes a small number in the shortest form. -/
  | iconst (value : Int)
  | ldcString (text : String)
  | ldcClass (name : String)
  /-- Pushes a class by an index of two bytes, even if one would do. -/
  | ldcWideClass (name : String)
  | ldcMethodType (descriptor : String)
  | ldcLong (value : Int)
  | onLocal (op : LocalOp) (slot : Nat)
  | wideIload (slot : Nat)
  | wideIinc (slot : Nat) (delta : Int)
  | goto (offset : Int)
  /-- A switch over the numbers from `low` to `high`. -/
  | tableswitch (low high : Int)
  | lookupswitch (keys : List Int)
  | onField (op : FieldOp) (owner name descriptor : String)
  | invoke (op : InvokeOp) (owner name descriptor : String)
  /-- A call of a method of an array type, given by its descriptor. -/
  | invokeArray (array name descriptor : String)
  | invokeinterface (owner name descriptor : String)
  /-- A dynamic call site that makes a `Runnable` of a static method. -/
  | methodReference (owner name descriptor : String)
  | onType (op : TypeOp) (name : String)
  | newarray (elementType : Nat)
  | multianewarray (descriptor : String) (dims : Nat)
  /-- A catch clause for all of the code so far, with its handler here. -/
  | catchHere (name : String)
  deriving DecidableEq, Repr

/-- The owner of the method that links method references. -/
def linkerOwner : String := "java/lang/invoke/LambdaMetafactory"

/-- The descriptor of the method that links method references. -/
def linkerDescriptor : String :=
  "(Ljava/lang/invoke/MethodHandles$Lookup;Ljava/lang/String;Ljava/lang/invoke/MethodType;" ++
    "Ljava/lang/invoke/MethodType;Ljava/lang/invoke/MethodHandle;Ljava/lang/invoke/MethodType;)" ++
    "Ljava/lang/invoke/CallSite;"

/-- A signed number in one byte. -/
def put1Signed (n : Int) : Bytes := [.ofNat (n % 0x100).toNat]

/-- A signed number in two bytes. -/
def put2Signed (n : Int) : Bytes := put2 (n % 0x10000).toNat

/-- A signed number in four bytes. -/
def put4Signed (n : Int) : Bytes := put4 (n % 0x100000000).toNat

/-- Pushes the constant at an index, by one byte if it fits. -/
def loadConstant (index : Nat) : Bytes :=
  if index < 0x100 then [0x12, .ofNat index] else 0x13 :: put2 index

/-- Zeros that make code of this length end at a multiple of four. -/
def padSwitch (length : Nat) : Bytes := if length % 4 = 0 then [] else 0 :: padSwitch (length + 1)
termination_by 3 - (length + 3) % 4
decreasing_by omega

/-- The head of a switch at `pc`: the opcode, the padding and the default target. -/
def switchHead (opcode : UInt8) (pc : Nat) : Bytes := opcode :: padSwitch (pc + 1) ++ put4 0

/-- The bytes that a step at `pc` adds to the code. -/
def Step.code (pc : Nat) : Step → Assemble Bytes
  | .line _ => return []
  | .plain op => return [op.opcode]
  | .iconst value =>
    return if -1 ≤ value && value ≤ 5 then [.ofNat (value + 3).toNat]
      else if -128 ≤ value && value ≤ 127 then 0x10 :: put1Signed value
      else 0x11 :: put2Signed value
  | .ldcString text => do return loadConstant (← constant (.string (← utf8 text)))
  | .ldcClass name => do return loadConstant (← classNamed name)
  | .ldcWideClass name => do return 0x13 :: put2 (← classNamed name)
  | .ldcMethodType descriptor => do return loadConstant (← methodType descriptor)
  | .ldcLong value => do
    return 0x14 :: put2 (← constant (.long (value % 0x10000000000000000).toNat))
  | .onLocal op slot => return [op.opcode, .ofNat slot]
  | .wideIload slot => return 0xc4 :: 0x15 :: put2 slot
  | .wideIinc slot delta => return 0xc4 :: 0x84 :: put2 slot ++ put2Signed delta
  | .goto offset => return 0xa7 :: put2Signed offset
  | .tableswitch low high =>
    return switchHead 0xaa pc ++ put4Signed low ++ put4Signed high ++
      (List.replicate (high - low + 1).toNat (put4 0)).flatten
  | .lookupswitch keys =>
    return switchHead 0xab pc ++ put4 keys.length ++ keys.flatMap fun key =>
      put4Signed key ++ put4 0
  | .onField op owner name descriptor => do
    return op.opcode :: put2 (← memberRef .fieldRef (internalName owner) name descriptor)
  | .invoke op owner name descriptor => do
    return op.opcode :: put2 (← memberRef .methodRef (internalName owner) name descriptor)
  | .invokeArray array name descriptor => do
    return InvokeOp.invokevirtual.opcode :: put2 (← memberRef .methodRef array name descriptor)
  | .invokeinterface owner name descriptor => do
    return 0xb9 :: put2 (← memberRef .interfaceMethodRef (internalName owner) name descriptor) ++
      [1, 0]
  | .methodReference owner name descriptor => do
    let linker ← staticHandle linkerOwner "metafactory" linkerDescriptor
    let target ← staticHandle (internalName owner) name descriptor
    let type ← methodType "()V"
    let bootstrap ← bootstrap ⟨linker, [type, target, type]⟩
    let member ← nameAndType "run" "()Ljava/lang/Runnable;"
    return 0xba :: put2 (← constant (.invokeDynamic bootstrap member)) ++ [0, 0]
  | .onType op name => do return op.opcode :: put2 (← classNamed name)
  | .newarray elementType => return [0xbc, .ofNat elementType]
  | .multianewarray descriptor dims => do
    return 0xc5 :: put2 (← classRef descriptor) ++ [.ofNat dims]
  | .catchHere _ => return []

/-- An offset as it is written into tables. -/
def tableOffset (pc : Nat) : Nat := min pc 0xFFFF

/-- What a step at `pc` adds to a body. -/
def Step.assemble (pc : Nat) (step : Step) : Assemble RawCode := do
  let code ← step.code pc
  match step with
  | .line number => return ⟨code, [], [⟨tableOffset pc, number⟩]⟩
  | .catchHere name => return ⟨code, [⟨tableOffset pc, ← classNamed name⟩], []⟩
  | _ => return ⟨code, [], []⟩

/-- Two parts of a body, one behind the other. -/
def joinCode (a b : RawCode) : RawCode :=
  ⟨a.code ++ b.code, a.catches ++ b.catches, a.lines ++ b.lines⟩

/-- Assembles steps from `pc` on. -/
def assembleFrom (pc : Nat) : List Step → Assemble RawCode
  | [] => return ⟨[], [], []⟩
  | step :: rest => do
    let first ← step.assemble pc
    return joinCode first (← assembleFrom (pc + first.code.length) rest)

/-- Assembles a body. -/
def assembleBody (steps : List Step) : Assemble RawCode := assembleFrom 0 steps

/-- The bytes of a catch clause, which covers everything before its handler. -/
def encodeCatch (c : CatchClause) : Bytes :=
  put2 0 ++ put2 c.handler ++ put2 c.handler ++ put2 c.type

/-- The bytes of an entry of a line table. -/
def encodeLine (l : LineNumber) : Bytes := put2 l.start ++ put2 l.line

/-- The stack size and the number of local variables that every body announces. -/
def bodyLimits : Bytes := put2 16 ++ put2 16

/-- The attribute for the lines of a body; there is none without lines. -/
def lineAttribute (lines : List LineNumber) : Assemble (List Bytes) := do
  if lines.isEmpty then return []
  return [← encodeAttribute "LineNumberTable" (putCount lines.length ++ lines.flatMap encodeLine)]

/-- The `Code` attribute of a body, with a line table if there are lines. -/
def codeAttribute (raw : RawCode) : Assemble Bytes := do
  let attributes ← lineAttribute raw.lines
  encodeAttribute "Code" (bodyLimits ++ putLength raw.code.length ++ raw.code ++
    putCount raw.catches.length ++ raw.catches.flatMap encodeCatch ++ putCount attributes.length ++
    attributes.flatten)

end JvmAudit.Assembler
