import JvmAudit.ClassFile.Constant

/-!
# Constant pools

A pool is a sequence of slots numbered from zero. Slot zero is unusable, and so is the slot behind a
`long` or a `double`. A look-up that meets an unusable slot, no slot, or another kind of entry fails
with the index that led there.

## Termination

The number of the next slot is counted while the pool is read. It grows by one or two with each
entry, until it reaches the number of slots that was announced.
-/

namespace JvmAudit

/-- A constant pool by its slots. -/
structure Pool where
  entries : Array Constant
  deriving Repr

/-- What a member entry of the pool points to. -/
structure MemberRef where
  /-- The internal name of the owner, or an array descriptor. -/
  owner : String
  name : String
  descriptor : String
  isField : Bool
  /-- Whether the owner is referred to as an interface. -/
  onInterface : Bool
  deriving DecidableEq, Repr

namespace Pool

/-- A pool that is being read. -/
structure Filling where
  /-- The number of the slot that is read next. -/
  index : Nat
  /-- What is in the slots so far. -/
  entries : Array Constant
  deriving Repr

namespace Filling

/-- Nothing was read yet; slot zero is unusable. -/
def start : Filling := ⟨1, #[.unusable]⟩

/-- Fills the next slot. -/
def put (f : Filling) (c : Constant) : Filling := ⟨f.index + 1, f.entries.push c⟩

/-- Adds an entry; a number of two slots is put in front of the slot behind it. -/
def add (f : Filling) (e : Constant.Entry) : Filling :=
  match e.wide with
  | none => f.put e.constant
  | some c => (f.put c).put e.constant

theorem index_lt_index_add (f : Filling) (e : Constant.Entry) : f.index < (f.add e).index := by
  unfold add
  split <;> simp only [put] <;> omega

end Filling

/-- Reads entries until the next slot is the one with the number `count`, or behind it. -/
def readSlots (count : Nat) (f : Filling) : Reader (Array Constant) :=
  if _h : f.index < count then do
    let e ← Constant.read f.index
    readSlots count (f.add e)
  else pure f.entries
termination_by count - f.index
decreasing_by
  have := f.index_lt_index_add e
  omega

/-- Reads a pool with the count in front of it. -/
def read : Reader Pool := do
  let count ← Reader.u2
  return ⟨← readSlots count .start⟩

/-- The entry at an index. -/
def get (pool : Pool) (index : Nat) : Except ClassError Constant :=
  match pool.entries[index]? with
  | some .unusable => .error (.invalidConstantIndex index)
  | some c => .ok c
  | none => .error (.invalidConstantIndex index)

/-- The text at an index. -/
def utf8 (pool : Pool) (index : Nat) : Except ClassError String := do
  match ← pool.get index with
  | .utf8 text => return text
  | _ => throw (.invalidConstantIndex index)

/-- The internal name, or the array descriptor, of the class entry at an index. -/
def className (pool : Pool) (index : Nat) : Except ClassError String := do
  match ← pool.get index with
  | .classRef name => pool.utf8 name
  | _ => throw (.invalidConstantIndex index)

/-- The name and the descriptor of the entry at an index. -/
def nameAndType (pool : Pool) (index : Nat) : Except ClassError (String × String) := do
  match ← pool.get index with
  | .nameAndType name descriptor => return (← pool.utf8 name, ← pool.utf8 descriptor)
  | _ => throw (.invalidConstantIndex index)

/-- The member that an entry with this owner and this name points to. -/
def memberAt (pool : Pool) (owner member : Nat) (isField onInterface : Bool) :
    Except ClassError MemberRef := do
  let owner ← pool.className owner
  let (name, descriptor) ← pool.nameAndType member
  return ⟨owner, name, descriptor, isField, onInterface⟩

/-- The field or method that the entry at an index points to. -/
def memberRef (pool : Pool) (index : Nat) : Except ClassError MemberRef := do
  match ← pool.get index with
  | .fieldRef owner member => pool.memberAt owner member true false
  | .methodRef owner member => pool.memberAt owner member false false
  | .interfaceMethodRef owner member => pool.memberAt owner member false true
  | _ => throw (.invalidConstantIndex index)

end Pool

end JvmAudit
