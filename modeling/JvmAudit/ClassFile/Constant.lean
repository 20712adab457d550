import JvmAudit.ClassFile.ModifiedUtf8
import JvmAudit.ClassFile.Reader

/-!
# Constants

A class file stores the entries of its constant pool with all their operands (`ConstantInfo`). A
pool keeps of an entry only what look-ups need (`Constant`): of a number, a string, a dynamic
constant, a module and a package just the kind, and of a dynamic call site the bootstrap method.
Operands that point to other entries are indices into the pool.
-/

namespace JvmAudit

/-- An entry of a constant pool as it is stored. Numbers are given by their bits. -/
inductive ConstantInfo where
  | utf8 (text : String)
  | integer (bits : Nat)
  | float (bits : Nat)
  | long (bits : Nat)
  | double (bits : Nat)
  | classRef (name : Nat)
  | string (text : Nat)
  | fieldRef (owner member : Nat)
  | methodRef (owner member : Nat)
  | interfaceMethodRef (owner member : Nat)
  | nameAndType (name descriptor : Nat)
  | methodHandle (kind reference : Nat)
  | methodType (descriptor : Nat)
  | dynamic (bootstrap member : Nat)
  | invokeDynamic (bootstrap member : Nat)
  | moduleRef (name : Nat)
  | packageRef (name : Nat)
  deriving DecidableEq, Repr

namespace ConstantInfo

/-- The number of pool slots that an entry takes. -/
def slots : ConstantInfo → Nat
  | .long _ => 2
  | .double _ => 2
  | _ => 1

/-- The bytes of an entry. -/
def encode : ConstantInfo → Bytes
  | .utf8 text =>
    let data := ModifiedUtf8.encode text
    1 :: putCount data.length ++ data
  | .integer bits => 3 :: put4 bits
  | .float bits => 4 :: put4 bits
  | .long bits => 5 :: put8 bits
  | .double bits => 6 :: put8 bits
  | .classRef name => 7 :: put2 name
  | .string text => 8 :: put2 text
  | .fieldRef owner member => 9 :: put2 owner ++ put2 member
  | .methodRef owner member => 10 :: put2 owner ++ put2 member
  | .interfaceMethodRef owner member => 11 :: put2 owner ++ put2 member
  | .nameAndType name descriptor => 12 :: put2 name ++ put2 descriptor
  | .methodHandle kind reference => 15 :: .ofNat kind :: put2 reference
  | .methodType descriptor => 16 :: put2 descriptor
  | .dynamic bootstrap member => 17 :: put2 bootstrap ++ put2 member
  | .invokeDynamic bootstrap member => 18 :: put2 bootstrap ++ put2 member
  | .moduleRef name => 19 :: put2 name
  | .packageRef name => 20 :: put2 name

end ConstantInfo

/-- What a pool keeps in a slot. -/
inductive Constant where
  | utf8 (text : String)
  | classRef (name : Nat)
  | string
  /-- An `int`, a `float`, a `long` or a `double`. -/
  | number
  | fieldRef (owner member : Nat)
  | methodRef (owner member : Nat)
  | interfaceMethodRef (owner member : Nat)
  | nameAndType (name descriptor : Nat)
  | methodHandle (kind reference : Nat)
  | methodType (descriptor : Nat)
  | dynamic
  | invokeDynamic (bootstrap : Nat)
  | moduleRef
  | packageRef
  /-- Slot zero, or the slot behind a `long` or a `double`. -/
  | unusable
  deriving DecidableEq, Repr

namespace Constant

/-- Reads the text of the entry at `slot`. -/
def readText (slot : Nat) : Reader String := do
  match ModifiedUtf8.decode? (← Reader.bytes (← Reader.u2)) with
  | some text => return text
  | none => throw (.invalidUtf8 (min slot 0xFFFF))

/-- What an entry puts into the pool. -/
structure Entry where
  /-- The number itself if it takes two slots; the constant is then the slot behind it. -/
  wide : Option Constant
  constant : Constant
  deriving DecidableEq, Repr

/-- An entry of one slot. -/
def Entry.narrow (c : Constant) : Entry := ⟨none, c⟩

/-- A number of two slots. -/
def Entry.wideNumber : Entry := ⟨some .number, .unusable⟩

/-- Reads the entry at `slot`. -/
def read (slot : Nat) : Reader Entry := do
  match ← Reader.u1 with
  | 1 => return .narrow (.utf8 (← readText slot))
  | 3 | 4 => do
    Reader.skip 4
    return .narrow .number
  | 5 | 6 => do
    Reader.skip 8
    return .wideNumber
  | 7 => return .narrow (.classRef (← Reader.u2))
  | 8 => do
    let _ ← Reader.u2
    return .narrow .string
  | 9 => return .narrow (.fieldRef (← Reader.u2) (← Reader.u2))
  | 10 => return .narrow (.methodRef (← Reader.u2) (← Reader.u2))
  | 11 => return .narrow (.interfaceMethodRef (← Reader.u2) (← Reader.u2))
  | 12 => return .narrow (.nameAndType (← Reader.u2) (← Reader.u2))
  | 15 => return .narrow (.methodHandle (← Reader.u1) (← Reader.u2))
  | 16 => return .narrow (.methodType (← Reader.u2))
  | 17 => do
    Reader.skip 4
    return .narrow .dynamic
  | 18 => do
    let bootstrap ← Reader.u2
    let _ ← Reader.u2
    return .narrow (.invokeDynamic bootstrap)
  | 19 => do
    let _ ← Reader.u2
    return .narrow .moduleRef
  | 20 => do
    let _ ← Reader.u2
    return .narrow .packageRef
  | tag => throw (.unsupportedConstant tag)

end Constant

end JvmAudit
