import JvmAudit.ClassFile.Code
import JvmAudit.ClassFile.Constant

/-!
# Tables under construction

While a class is assembled, its constant pool and its bootstrap methods grow. An entry is put into
the pool when it is needed first; asking for an equal entry again gives the same index.
-/

namespace JvmAudit.Assembler

/-- A constant pool under construction: the entries with their indices, in ascending order. -/
structure PoolBuilder where
  entries : List (ConstantInfo × Nat)
  /-- The index of the next entry, which is the number of slots. -/
  next : Nat
  deriving Repr

namespace PoolBuilder

/-- A pool without entries; slot zero stays empty. -/
def empty : PoolBuilder := ⟨[], 1⟩

/-- The index of an entry. -/
def indexOf? (pool : PoolBuilder) (c : ConstantInfo) : Option Nat :=
  (pool.entries.find? (·.1 == c)).map (·.2)

/-- The index of an entry, which is added if it is not there. -/
def intern (pool : PoolBuilder) (c : ConstantInfo) : Nat × PoolBuilder :=
  match pool.indexOf? c with
  | some index => (index, pool)
  | none => (pool.next, ⟨pool.entries ++ [(c, pool.next)], pool.next + c.slots⟩)

/-- The bytes of a pool: the number of slots, then the entries. -/
def encode (pool : PoolBuilder) : Bytes := put2 pool.next ++ pool.entries.flatMap (·.1.encode)

end PoolBuilder

/-- What the members of a class have in common. -/
structure Tables where
  pool : PoolBuilder
  bootstraps : List BootstrapMethod
  deriving Repr

/-- A step of assembling a class. -/
abbrev Assemble := StateM Tables

/-- The index of a constant. -/
def constant (c : ConstantInfo) : Assemble Nat := fun t =>
  let (index, pool) := t.pool.intern c
  (index, { t with pool })

/-- The index of a text. -/
def utf8 (text : String) : Assemble Nat := constant (.utf8 text)

/-- The index of a class by its internal name or array descriptor. -/
def classRef (internal : String) : Assemble Nat := do constant (.classRef (← utf8 internal))

/-- The index of a class by its dotted name. -/
def classNamed (name : String) : Assemble Nat := classRef (internalName name)

/-- The index of a name and a descriptor. -/
def nameAndType (name descriptor : String) : Assemble Nat := do
  let name ← utf8 name
  let descriptor ← utf8 descriptor
  constant (.nameAndType name descriptor)

/-- The index of a member, for a kind of member entry. -/
def memberRef (kind : Nat → Nat → ConstantInfo) (owner name descriptor : String) :
    Assemble Nat := do
  let owner ← classRef owner
  let member ← nameAndType name descriptor
  constant (kind owner member)

/-- The index of a method type. -/
def methodType (descriptor : String) : Assemble Nat := do constant (.methodType (← utf8 descriptor))

/-- The kind of a method handle that calls a static method. -/
def invokeStaticKind : Nat := 6

/-- The index of a handle to a static method. -/
def staticHandle (owner name descriptor : String) : Assemble Nat := do
  let method ← memberRef .methodRef owner name descriptor
  constant (.methodHandle invokeStaticKind method)

/-- The index of a new bootstrap method. -/
def bootstrap (m : BootstrapMethod) : Assemble Nat := fun t =>
  (min t.bootstraps.length 0xFFFF, { t with bootstraps := t.bootstraps ++ [m] })

/-- The bytes of an attribute. -/
def encodeAttribute (name : String) (data : Bytes) : Assemble Bytes := do
  let name ← utf8 name
  return put2 name ++ putLength data.length ++ data

end JvmAudit.Assembler
