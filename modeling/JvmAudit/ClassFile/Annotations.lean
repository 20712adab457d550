import JvmAudit.ClassFile.Pool
import JvmAudit.Descriptor.Parser

/-!
# Annotations

An annotation is the descriptor of its class and a list of named values. Values nest: a value may be
an annotation or a list of values. Only the names of the outermost annotations are kept, so the
values are read to find their end.

## Termination

Every value takes at least one byte: the readers return the rest of the input with the fact that it
is shorter (`Shorter`), or, for a list of values that may be empty, not longer (`NotLonger`).
-/

namespace JvmAudit

/-- The value of an annotation element; names and constants are indices into the pool. -/
inductive ElementValue where
  /-- A number, a text or a class, by its tag. -/
  | const (tag : UInt8) (index : Nat)
  | enumConst (type name : Nat)
  | nested (type : Nat) (pairs : List (Nat × ElementValue))
  | array (values : List ElementValue)
  deriving Repr

/-- A rest of `bs` that is shorter. -/
abbrev Shorter (bs : Bytes) := { rest : Bytes // rest.length < bs.length }

/-- A rest of `bs` that is not longer. -/
abbrev NotLonger (bs : Bytes) := { rest : Bytes // rest.length ≤ bs.length }

namespace ElementValue

/-- The tags of values that are one constant: the primitive types, texts and classes. -/
def constTags : List UInt8 := "BCDFIJSZsc".toList.map fun c => .ofNat c.toNat

/-- The tag of an enumeration constant, `e`. -/
def enumTag : UInt8 := 0x65

/-- The tag of a nested annotation, `@`. -/
def annotationTag : UInt8 := 0x40

/-- The tag of a list of values, `[`. -/
def arrayTag : UInt8 := 0x5B

mutual

/-- The bytes of a value. -/
def encode : ElementValue → Bytes
  | .const tag index => tag :: put2 index
  | .enumConst type name => enumTag :: put2 type ++ put2 name
  | .nested type pairs => annotationTag :: put2 type ++ put2 pairs.length ++ encodePairs pairs
  | .array values => arrayTag :: put2 values.length ++ encodeValues values

/-- The bytes of named values. -/
def encodePairs : List (Nat × ElementValue) → Bytes
  | [] => []
  | (name, value) :: rest => put2 name ++ encode value ++ encodePairs rest

/-- The bytes of a list of values. -/
def encodeValues : List ElementValue → Bytes
  | [] => []
  | value :: rest => encode value ++ encodeValues rest

end

mutual

/-- Reads a value. -/
def read (bs : Bytes) : Except ClassError (ElementValue × Shorter bs) :=
  match bs with
  | [] => .error .unexpectedEof
  | tag :: bs =>
    if tag ∈ constTags then
      match bs with
      | a :: b :: rest => .ok (.const tag (be2 a b), ⟨rest, by simp only [List.length_cons]; omega⟩)
      | _ => .error .unexpectedEof
    else if tag = enumTag then
      match bs with
      | a :: b :: c :: d :: rest =>
        .ok (.enumConst (be2 a b) (be2 c d), ⟨rest, by simp only [List.length_cons]; omega⟩)
      | _ => .error .unexpectedEof
    else if tag = annotationTag then
      match bs with
      | a :: b :: c :: d :: rest => do
        let (pairs, last) ← readPairs (be2 c d) rest
        .ok (.nested (be2 a b) pairs,
          ⟨last.val, by have := last.property; simp only [List.length_cons]; omega⟩)
      | _ => .error .unexpectedEof
    else if tag = arrayTag then
      match bs with
      | a :: b :: rest => do
        let (values, last) ← readValues (be2 a b) rest
        .ok (.array values, ⟨last.val,
          by have := last.property; simp only [List.length_cons]; omega⟩)
      | _ => .error .unexpectedEof
    else .error (.invalidElementTag tag)
termination_by (bs.length, 0)
decreasing_by all_goals exact Prod.Lex.left _ _ (by simp only [List.length_cons]; omega)

/-- Reads `n` named values. -/
def readPairs (n : Nat) (bs : Bytes) :
    Except ClassError (List (Nat × ElementValue) × NotLonger bs) :=
  match n with
  | 0 => .ok ([], ⟨bs, Nat.le_refl _⟩)
  | n + 1 =>
    match bs with
    | a :: b :: rest => do
      let (value, after) ← read rest
      let (pairs, last) ← readPairs n after.val
      .ok ((be2 a b, value) :: pairs,
        ⟨last.val,
          by have := after.property; have := last.property; simp only [List.length_cons]; omega⟩)
    | _ => .error .unexpectedEof
termination_by (bs.length, 1)
decreasing_by
  · exact Prod.Lex.left _ _ (by simp only [List.length_cons]; omega)
  · exact Prod.Lex.left _ _ (by have := after.property; simp only [List.length_cons]; omega)

/-- Reads `n` values. -/
def readValues (n : Nat) (bs : Bytes) : Except ClassError (List ElementValue × NotLonger bs) :=
  match n with
  | 0 => .ok ([], ⟨bs, Nat.le_refl _⟩)
  | n + 1 => do
    let (value, after) ← read bs
    let (values, last) ← readValues n after.val
    .ok (value :: values, ⟨last.val, by have := after.property; have := last.property; omega⟩)
termination_by (bs.length, 1)
decreasing_by
  · exact Prod.Lex.right _ Nat.zero_lt_one
  · exact Prod.Lex.left _ _ after.property

end

end ElementValue

namespace Annotations

/-- The named values of an annotation, with their count in front. -/
def elements : Reader (List (Nat × ElementValue)) := do
  let count ← Reader.u2
  fun bs => (ElementValue.readPairs count bs).map fun (pairs, rest) => (pairs, rest.val)

/-- The dotted name of the class that the descriptor of an annotation denotes. -/
def className? (descriptor : String) : Option String :=
  match FieldType.ofDescriptor? descriptor with
  | some ⟨0, .object name⟩ => some (binaryName name)
  | _ => none

/-- Reads an annotation and gives the dotted name of its class. -/
def readName (pool : Pool) : Reader String := do
  let descriptor ← pool.utf8 (← Reader.u2)
  match className? descriptor with
  | none => throw (.invalidDescriptor descriptor)
  | some name =>
    let _ ← elements
    return name

/-- Reads the annotations of an attribute. -/
def readNames (pool : Pool) : Reader (List String) := Reader.table (readName pool)

end Annotations

end JvmAudit
