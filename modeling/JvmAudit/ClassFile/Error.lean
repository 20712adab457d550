/-!
# What can be wrong with a class file

The causes for which reading a class file fails, and their wording.
-/

namespace JvmAudit

/-- The bytes of a class file, or of a part of it. -/
abbrev Bytes := List UInt8

/-- The class-file major versions that can be read: 45 (JDK 1.1) to 69 (JDK 25). -/
def supportedMajors : Nat × Nat := (45, 69)

/-- Why a class file cannot be read. -/
inductive ClassError where
  /-- The input ends inside a structure. -/
  | unexpectedEof
  | invalidMagic
  | unsupportedVersion (major minor : Nat)
  | unsupportedConstant (tag : Nat)
  /-- A constant pool index that is out of range, or that leads to another kind of constant. -/
  | invalidConstantIndex (index : Nat)
  /-- The text constant at this index is not modified UTF-8. -/
  | invalidUtf8 (index : Nat)
  | invalidDescriptor (text : String)
  /-- An instruction runs past the end of the code. -/
  | truncatedCode (offset : Nat)
  | invalidOpcode (opcode : UInt8) (offset : Nat)
  /-- A switch with a negative number of cases. -/
  | invalidSwitch (offset : Nat)
  /-- An annotation value with an unknown tag. -/
  | invalidElementTag (tag : UInt8)
  /-- A dynamic call site that points past the table of bootstrap methods. -/
  | invalidBootstrapIndex (index : Nat)
  deriving DecidableEq, Repr

namespace ClassError

/-- A byte as two hexadecimal digits. -/
def hexByte (b : UInt8) : String :=
  .ofList [Nat.digitChar (b.toNat / 16), Nat.digitChar (b.toNat % 16)]

/-- The text of an error. -/
def message : ClassError → String
  | .unexpectedEof => "unexpected end of class file"
  | .invalidMagic => "invalid class file magic header"
  | .unsupportedVersion major minor =>
    s!"unsupported class file version {major}.{minor} " ++
      s!"(supported majors: {supportedMajors.1}..={supportedMajors.2})"
  | .unsupportedConstant tag => s!"unsupported constant pool tag {tag}"
  | .invalidConstantIndex index => s!"invalid constant pool index {index}"
  | .invalidUtf8 index => s!"invalid modified UTF-8 in constant pool entry {index}"
  | .invalidDescriptor text => s!"malformed descriptor: {text}"
  | .truncatedCode offset => s!"truncated bytecode at offset {offset}"
  | .invalidOpcode opcode offset => s!"invalid opcode 0x{hexByte opcode} at offset {offset}"
  | .invalidSwitch offset => s!"invalid switch instruction at offset {offset}"
  | .invalidElementTag tag => s!"invalid annotation element tag '{Char.ofNat tag.toNat}'"
  | .invalidBootstrapIndex index => s!"invalid bootstrap method index {index}"

end ClassError

end JvmAudit
