import JvmAudit.Assembler.Body
import Mathlib.Tactic.MkIffOfInductiveProp

/-!
# The layout of bodies

Which bytes of the code belong to which step of a body, and what a body refers to at each offset. A
step that loads a constant is shorter if the index of the constant is small, and a switch starts its
operands at a multiple of four; all other sizes are fixed by the step alone.
-/

namespace JvmAudit.Assembler

/-- A dotted class name that can stand for itself in a class entry. -/
@[mk_iff]
structure IsClassName (name : String) : Prop where
  slash : '/' ∉ name.toList
  bracket : name.toList.head? ≠ some '['

instance (name : String) : Decidable (IsClassName name) :=
  decidable_of_iff' _ (isClassName_iff name)

/-- The descriptor of an array type. -/
@[mk_iff]
structure IsArrayDescriptor (descriptor : String) : Prop where
  bracket : descriptor.toList.head? = some '['
  valid : (FieldType.ofDescriptor? descriptor).isSome = true

instance (descriptor : String) : Decidable (IsArrayDescriptor descriptor) :=
  decidable_of_iff' _ (isArrayDescriptor_iff descriptor)

/-- The index of the entry of some kind that points to a text. -/
def PoolBuilder.indexVia? (q : PoolBuilder) (kind : Nat → ConstantInfo)
    (text : String) : Option Nat :=
  (q.indexOf? (.utf8 text)).bind fun i => q.indexOf? (kind i)

/-- The number of bytes to load the constant at an index. -/
def loadSize (index : Option Nat) : Nat := if index.any (· < 0x100) then 2 else 3

/-- The first multiple of four behind an offset. -/
def alignedAfter (pc : Nat) : Nat := (pc / 4 + 1) * 4

/-- The class at the bottom of an array type; there is none for an array of primitives. -/
def arraySymbols (descriptor : String) : List Symbol :=
  ((FieldType.ofDescriptor? descriptor).bind (·.base.className?)).toList.map .type

namespace Step

/-- A step whose names and numbers fit into a class file. -/
def Writable : Step → Prop
  | .line number => number ≤ 0xFFFF
  | .ldcClass name | .ldcWideClass name | .onType _ name | .catchHere name => IsClassName name
  | .ldcMethodType descriptor => (descriptorClasses? descriptor).isSome = true
  | .tableswitch low high => -0x80000000 ≤ low ∧ low ≤ high ∧ high < 0x80000000
  | .onField _ owner _ _ | .invoke _ owner _ _ | .invokeinterface owner _ _
  | .methodReference owner _ _ =>
    IsClassName owner
  | .invokeArray array _ _ | .multianewarray array _ => IsArrayDescriptor array
  | _ => True

instance : DecidablePred Writable
  | .line number => inferInstanceAs (Decidable (number ≤ 0xFFFF))
  | .ldcClass name | .ldcWideClass name | .onType _ name | .catchHere name =>
    inferInstanceAs (Decidable (IsClassName name))
  | .ldcMethodType descriptor =>
    inferInstanceAs (Decidable ((descriptorClasses? descriptor).isSome = true))
  | .tableswitch low high =>
    inferInstanceAs (Decidable (-0x80000000 ≤ low ∧ low ≤ high ∧ high < 0x80000000))
  | .onField _ owner _ _ | .invoke _ owner _ _ | .invokeinterface owner _ _
  | .methodReference owner _ _ =>
    inferInstanceAs (Decidable (IsClassName owner))
  | .invokeArray array _ _ | .multianewarray array _ =>
    inferInstanceAs (Decidable (IsArrayDescriptor array))
  | .plain _ | .iconst _ | .ldcString _ | .ldcLong _ | .onLocal .. | .wideIload _
  | .wideIinc .. | .goto _ | .lookupswitch _ | .newarray _ => inferInstanceAs (Decidable True)

/-- The symbols that an instruction refers to. -/
def symbols : Step → List Symbol
  | .ldcClass name | .ldcWideClass name | .onType _ name => [.type name]
  | .ldcMethodType descriptor => ((descriptorClasses? descriptor).getD []).map .type
  | .onField _ owner name descriptor => [.field owner name descriptor]
  | .invoke _ owner name descriptor => [.method owner name descriptor false]
  | .invokeinterface owner name descriptor => [.method owner name descriptor true]
  | .methodReference owner name descriptor =>
    [.method "java.lang.invoke.LambdaMetafactory" "metafactory" linkerDescriptor false,
      .method owner name descriptor false]
  | .invokeArray array _ _ | .multianewarray array _ => arraySymbols array
  | _ => []

/-- Whether a step is a catch clause. -/
def isCatch : Step → Bool
  | .catchHere _ => true
  | _ => false

/-- Whether a step starts a source line. -/
def isLine : Step → Bool
  | .line _ => true
  | _ => false

/-- The class that a catch clause names. -/
def caught? : Step → Option String
  | .catchHere name => some name
  | _ => none

/-- The symbols that a catch clause refers to. -/
def caughtSymbols (step : Step) : List Symbol := step.caught?.toList.map .type

/-- The source line that a step starts. -/
def line? : Step → Option Nat
  | .line number => some number
  | _ => none

/-- A line number that can be written fits into two bytes. -/
theorem Writable.line_le {step : Step} {number : Nat} (h : step.Writable)
    (hline : step.line? = some number) :
    number ≤ 0xFFFF := by
  cases step with
  | line n =>
    cases hline
    exact h
  | _ => cases hline

theorem Writable.isClassName {step : Step} {name : String} (h : step.Writable)
    (hcaught : step.caught? = some name) :
    IsClassName name := by
  cases step with
  | catchHere n =>
    cases hcaught
    exact h
  | _ => cases hcaught

/-- The number of bytes that a step at `pc` takes. -/
def size (q : PoolBuilder) (pc : Nat) : Step → Nat
  | .line _ | .catchHere _ => 0
  | .plain _ => 1
  | .iconst value => if -1 ≤ value && value ≤ 5 then 1
    else if -128 ≤ value && value ≤ 127 then 2 else 3
  | .ldcString text => loadSize (q.indexVia? .string text)
  | .ldcClass name => loadSize (q.indexVia? .classRef (internalName name))
  | .ldcMethodType descriptor => loadSize (q.indexVia? .methodType descriptor)
  | .onLocal .. | .newarray _ => 2
  | .ldcWideClass _ | .ldcLong _ | .goto _ | .onField .. | .invoke .. | .invokeArray ..
  | .onType .. => 3
  | .wideIload _ | .multianewarray .. => 4
  | .invokeinterface .. | .methodReference .. => 5
  | .wideIinc .. => 6
  | .tableswitch low high => alignedAfter pc - pc + 12 + 4 * (high - low + 1).toNat
  | .lookupswitch keys => alignedAfter pc - pc + 8 + 8 * keys.length

end Step

/-! ## Steps in their places -/

/-- A step with its offset. -/
structure PlacedStep where
  offset : Nat
  step : Step
  deriving DecidableEq, Repr

/-- The entry of the line table for a step. -/
def PlacedStep.line? (p : PlacedStep) : Option LineNumber := p.step.line?.map (⟨p.offset, ·⟩)

/-- The offset and the class of a catch clause. -/
def PlacedStep.caught? (p : PlacedStep) : Option (Nat × String) := p.step.caught?.map (p.offset, ·)

/-- The references to symbols of a step. -/
def PlacedStep.references (symbols : Step → List Symbol) (p : PlacedStep) : List Reference :=
  (symbols p.step).map (⟨p.offset, ·⟩)

/-- The steps of a body from `pc` on, each with its offset. -/
def placed (q : PoolBuilder) (pc : Nat) : List Step → List PlacedStep
  | [] => []
  | step :: rest => ⟨pc, step⟩ :: placed q (pc + step.size q pc) rest

/-- The offset behind the steps of a body. -/
def endOffset (q : PoolBuilder) (pc : Nat) : List Step → Nat
  | [] => pc
  | step :: rest => endOffset q (pc + step.size q pc) rest

section

variable {q : PoolBuilder} {pc : Nat} {steps : List Step} {p : PlacedStep}

theorem map_step_placed (q : PoolBuilder) (pc : Nat) (steps : List Step) :
    (placed q pc steps).map (·.step) = steps := by
  induction steps generalizing pc with
  | nil => rfl
  | cons step rest ih => rw [placed, List.map_cons, ih]

/-- Only steps of the body are placed. -/
theorem mem_of_mem_placed (h : p ∈ placed q pc steps) : p.step ∈ steps :=
  map_step_placed q pc steps ▸ List.mem_map_of_mem h

theorem le_endOffset (q : PoolBuilder) (pc : Nat) (steps : List Step) :
    pc ≤ endOffset q pc steps := by
  induction steps generalizing pc with
  | nil => exact Nat.le_refl pc
  | cons step rest ih => exact Nat.le_trans (Nat.le_add_right _ _) (ih _)

/-- No step lies before the start. -/
theorem le_offset_of_mem_placed (h : p ∈ placed q pc steps) : pc ≤ p.offset := by
  induction steps generalizing pc with
  | nil => cases h
  | cons step rest ih =>
    rcases List.mem_cons.1 h with rfl | h
    · exact Nat.le_refl pc
    · exact Nat.le_trans (Nat.le_add_right _ _) (ih h)

/-- No step lies behind the end. -/
theorem offset_le_of_mem_placed (h : p ∈ placed q pc steps) : p.offset ≤ endOffset q pc steps := by
  induction steps generalizing pc with
  | nil => cases h
  | cons step rest ih =>
    rcases List.mem_cons.1 h with rfl | h
    · exact le_endOffset q pc (step :: rest)
    · exact ih h

/-- Steps stand one behind the other. -/
theorem placed_sorted (q : PoolBuilder) (pc : Nat) (steps : List Step) :
    (placed q pc steps).Pairwise fun a b => a.offset ≤ b.offset := by
  induction steps generalizing pc with
  | nil => exact .nil
  | cons step rest ih =>
    refine .cons (fun p hp => ?_) (ih _)
    exact Nat.le_trans (Nat.le_add_right _ _) (le_offset_of_mem_placed hp)

/-- What is found in a body depends on its steps, not on where they lie. -/
theorem length_filterMap_placed {α : Type} {f : PlacedStep → Option α} {isSome : Step → Bool}
    (h : ∀ p, (f p).isSome = isSome p.step) (q : PoolBuilder) (pc : Nat) (steps : List Step) :
    ((placed q pc steps).filterMap f).length = steps.countP isSome := by
  have hf : (fun p => (f p).isSome) = isSome ∘ PlacedStep.step := funext h
  rw [List.length_filterMap_eq_countP, hf, ← List.countP_map, map_step_placed]

theorem PlacedStep.isSome_line? (p : PlacedStep) : p.line?.isSome = p.step.isLine := by
  unfold line?
  cases p.step <;> rfl

theorem PlacedStep.isSome_caught? (p : PlacedStep) : p.caught?.isSome = p.step.isCatch := by
  unfold caught?
  cases p.step <;> rfl

end

/-! ## Bodies -/

/-- What a body refers to at an offset: first the symbols of the instruction there, then the classes
that are caught there. -/
def symbolsAt (q : PoolBuilder) (steps : List Step) (offset : Nat) : List Symbol :=
  let here := ((placed q 0 steps).filter (·.offset = offset)).map (·.step)
  here.flatMap (·.symbols) ++ here.flatMap (·.caughtSymbols)

/-- The body as it is read back: its symbols by ascending offsets, and an entry for each line. -/
def decodedBody (q : PoolBuilder) (steps : List Step) : Code where
  references := (List.range (endOffset q 0 steps + 1)).flatMap fun offset =>
    (symbolsAt q steps offset).map (⟨offset, ·⟩)
  lines := (placed q 0 steps).filterMap (·.line?)

/-- The source line of an offset: the last one that is started at or before it. -/
def lineBefore (q : PoolBuilder) (steps : List Step) (offset : Nat) : Option Nat :=
  (((placed q 0 steps).filter (·.offset ≤ offset)).filterMap (·.step.line?)).getLast?

/-- A body that fits into a class file: its code, its catch clauses and its lines can be counted in
two bytes. -/
@[mk_iff]
structure BodyWritable (q : PoolBuilder) (steps : List Step) : Prop where
  writable : ∀ step ∈ steps, step.Writable
  code : endOffset q 0 steps ≤ 0xFFFF
  catches : steps.countP Step.isCatch ≤ 0xFFFF
  lines : steps.countP Step.isLine ≤ 0xFFFF

instance (q : PoolBuilder) (steps : List Step) : Decidable (BodyWritable q steps) :=
  decidable_of_iff' _ (bodyWritable_iff q steps)

end JvmAudit.Assembler
