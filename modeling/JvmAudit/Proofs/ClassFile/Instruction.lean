import JvmAudit.ClassFile.Code
import JvmAudit.Proofs.ClassFile.Reader
import JvmAudit.Proofs.Pointwise

/-!
# Instructions in code

Code is one instruction at an offset if the length that it announces there is its own, whatever
follows it (`Instruction.IsInstruction`). A walk takes such code off the front, and the symbols of
it come from its operand.
-/

namespace JvmAudit.Instruction

open Result

variable {pc : Nat} {opcode : UInt8} {operands instruction code rest : Bytes}

/-- The next instruction is as long as it announces, and what follows it is the rest of the code. -/
theorem next_eq_ok_iff : next pc code = .ok (instruction, rest) ↔
    length pc code = .ok instruction.length ∧ code = instruction ++ rest := by
  unfold next
  rw [bind_eq_ok]
  constructor
  · rintro ⟨n, hn, h⟩
    rw [splitFront_eq] at h
    split at h
    · next parts hparts =>
      cases h
      split at hparts
      · next hle =>
        cases hparts
        rw [List.length_take_of_le hle, List.take_append_drop]
        exact ⟨hn, rfl⟩
      · cases hparts
    · cases h
  · rintro ⟨hlength, rfl⟩
    refine ⟨_, hlength, ?_⟩
    rw [splitFront_eq, if_pos (by simp), List.take_left, List.drop_left]

/-- The code is one instruction at `pc`. -/
def IsInstruction (pc : Nat) (code : Bytes) : Prop :=
  code ≠ [] ∧ ∀ rest, length pc (code ++ rest) = .ok code.length

/-- An instruction is taken off the front of the code. -/
theorem IsInstruction.next_append (h : IsInstruction pc code) (rest : Bytes) :
    next pc (code ++ rest) = .ok (code, rest) :=
  next_eq_ok_iff.2 ⟨h.2 rest, rfl⟩

/-! ## Lengths -/

/-- An opcode of fixed length with as many operands. -/
theorem isInstruction_fixed (h : shape opcode = .fixed (operands.length + 1)) :
    IsInstruction pc (opcode :: operands) := by
  refine ⟨by simp, fun rest => ?_⟩
  simp only [List.cons_append, length, h, List.length_cons]

/-- A widened instruction has an operand of two bytes, and `iinc` has two of them. -/
theorem isInstruction_wide {modified : UInt8}
    (h : operands.length + 2 = if modified = iinc then 6 else 4) :
    IsInstruction pc (0xc4 :: modified :: operands) := by
  refine ⟨by simp, fun rest => ?_⟩
  rw [List.length_cons, List.length_cons, h]
  rfl

/-- A number of four bytes is read at its place as a signed one. -/
theorem signedAt_append (pc : Nat) {k n : Nat} {front : Bytes} (hk : front.length = k)
    (hn : n < 0x100000000) (rest : Bytes) :
    signedAt pc k (front ++ (put4 n ++ rest)) = .ok (signed n) := by
  have hbe :
      be4 (.ofNat (n / 0x10000 / 0x100)) (.ofNat (n / 0x10000)) (.ofNat (n / 0x100)) (.ofNat n) =
        n := by
    unfold be4
    rw [be2_put2, be2_put2]
    omega
  unfold signedAt
  rw [List.drop_left' hk]
  show Except.ok (signed (be4 _ _ _ _)) = _
  rw [hbe]

/-- The bytes of a switch up to its operands. -/
theorem length_switchFront (opcode : UInt8) {pad default : Bytes} (hpad : pad.length = padding pc)
    (hdefault : default.length = 4) :
    (opcode :: (pad ++ default)).length = 1 + padding pc + 4 := by
  rw [List.length_cons, List.length_append, hpad, hdefault]
  omega

theorem length_tableSwitch (operands : Bytes) : length pc (0xaa :: operands) = (do
    let low ← signedAt pc (1 + padding pc + 4) (0xaa :: operands)
    let high ← signedAt pc (1 + padding pc + 8) (0xaa :: operands)
    switchLength pc (1 + padding pc + 12) 4 (high - low + 1)) := rfl

theorem length_lookupSwitch (operands : Bytes) : length pc (0xab :: operands) = (do
    let pairs ← signedAt pc (1 + padding pc + 4) (0xab :: operands)
    switchLength pc (1 + padding pc + 8) 8 pairs) := rfl

theorem switchLength_eq (pc : Nat) {head size : Nat} {count : Int} (h : 0 ≤ count) :
    switchLength pc head size count = .ok (head + count.toNat * size) := if_neg (by omega)

/-- A table switch with as many cases as its bounds announce. -/
theorem isInstruction_tableSwitch {low high : Nat} {pad default cases : Bytes}
    (hpad : pad.length = padding pc)
    (hdefault : default.length = 4) (hlow : low < 0x100000000) (hhigh : high < 0x100000000)
    (hle : signed low ≤ signed high + 1)
    (hcases : cases.length = (signed high - signed low + 1).toNat * 4) :
    IsInstruction pc (0xaa :: (pad ++ default) ++ (put4 low ++ (put4 high ++ cases))) := by
  refine ⟨by simp, fun rest => ?_⟩
  have hfront := length_switchFront 0xaa hpad hdefault
  have hreadLow := signedAt_append pc hfront hlow (put4 high ++ (cases ++ rest))
  have hfrontLow : (0xaa :: (pad ++ default) ++ put4 low).length = 1 + padding pc + 8 := by
    rw [List.length_append, hfront]
    rfl
  have hreadHigh := signedAt_append pc hfrontLow hhigh (cases ++ rest)
  have hlength : (0xaa :: (pad ++ default) ++ (put4 low ++ (put4 high ++ cases))).length =
      1 + padding pc + 12 + (signed high - signed low + 1).toNat * 4 := by
    rw [List.length_append, hfront, List.length_append, List.length_append, hcases]
    show 1 + padding pc + 4 + (4 + (4 + _)) = _
    omega
  rw [hlength]
  simp only [List.cons_append, List.append_assoc] at hreadLow hreadHigh ⊢
  rw [length_tableSwitch, hreadLow, hreadHigh]
  exact switchLength_eq pc (by omega)

/-- A look-up switch with as many cases as it announces. -/
theorem isInstruction_lookupSwitch {count : Nat} {pad default cases : Bytes}
    (hpad : pad.length = padding pc) (hdefault : default.length = 4) (hcount : count < 0x80000000)
    (hcases : cases.length = count * 8) :
    IsInstruction pc (0xab :: (pad ++ default) ++ (put4 count ++ cases)) := by
  refine ⟨by simp, fun rest => ?_⟩
  have hfront := length_switchFront 0xab hpad hdefault
  have hread := signedAt_append pc hfront (show count < 0x100000000 by omega) (cases ++ rest)
  have hlength : (0xab :: (pad ++ default) ++ (put4 count ++ cases)).length =
      1 + padding pc + 8 + count * 8 := by
    rw [List.length_append, hfront, List.length_append, hcases]
    show 1 + padding pc + 4 + (4 + _) = _
    omega
  have hsigned : signed count = count := if_pos hcount
  rw [hlength]
  simp only [List.cons_append, List.append_assoc] at hread ⊢
  rw [length_lookupSwitch, hread, hsigned]
  exact switchLength_eq pc (Int.natCast_nonneg count)

/-! ## Walks -/

section Walk

variable {α : Type} {visit : Nat → Bytes → Except ClassError (List α)} {found more : List α}
  {e : ClassError}

theorem walkFrom_nil : walkFrom visit pc [] found = .ok found.reverse := by
  rw [walkFrom]
  rfl

/-- A walk takes the next instruction off the front. -/
theorem walkFrom_of_next (h : next pc code = .ok (instruction, rest)) :
    walkFrom visit pc code found =
      visit pc instruction >>= fun more =>
        walkFrom visit (pc + instruction.length) rest (more.reverse ++ found) := by
  have hne : code.isEmpty = false := by
    cases code with
    | nil => cases h
    | cons b bs => rfl
  rw [walkFrom, hne, if_neg Bool.false_ne_true]
  split
  · next e he => cases he.symm.trans h
  · next instruction' rest' he =>
    cases he.symm.trans h
    rfl

theorem walkFrom_of_error (hne : code ≠ []) (h : next pc code = .error e) :
    walkFrom visit pc code found = .error e := by
  have hempty : code.isEmpty = false := by
    cases code with
    | nil => exact absurd rfl hne
    | cons b bs => rfl
  rw [walkFrom, hempty, if_neg Bool.false_ne_true]
  split
  · next e' he =>
    cases he.symm.trans h
    rfl
  · next instruction rest he => cases he.symm.trans h

/-- A walk visits an instruction and goes on behind it. -/
theorem IsInstruction.walkFrom_append (h : IsInstruction pc code)
    (hvisit : visit pc code = .ok more) (rest : Bytes) :
    walkFrom visit pc (code ++ rest) found =
      walkFrom visit (pc + code.length) rest (more.reverse ++ found) := by
  rw [walkFrom_of_next (h.next_append rest), hvisit]
  rfl

end Walk

/-! ## Operands -/

section Symbols

variable {pool : Pool} {bootstraps : List BootstrapMethod} {i : Nat}

/-- The symbols of what an index points to. -/
def Use.symbolsAt (pool : Pool) (bootstraps : List BootstrapMethod) (i : Nat) :
    Use → Except ClassError (List Symbol)
  | .nothing => .ok []
  | .type => Symbol.classAt pool i
  | .member => Symbol.memberAt pool i
  | .nearConstant => Symbol.constantAt pool i
  | .constant => Symbol.constantAt pool i
  | .callSite => Symbol.callSiteAt pool bootstraps i

theorem symbols_nothing (h : use opcode = .nothing) :
    symbols pool bootstraps pc (opcode :: operands) = .ok [] := by
  simp only [symbols, h]

/-- The symbols of an instruction are those of the entry at its index. -/
theorem symbols_put2 (h : use opcode ≠ .nearConstant) (hi : i < 0x10000) (more : Bytes) :
    symbols pool bootstraps pc (opcode :: (put2 i ++ more)) =
      (use opcode).symbolsAt pool bootstraps i := by
  have hoperand : operand2 pc (opcode :: (put2 i ++ more)) = .ok i := by
    show Except.ok (be2 (.ofNat (i / 0x100)) (.ofNat i)) = _
    rw [be2_put2, Nat.mod_eq_of_lt hi]
  cases hu : use opcode with
  | nearConstant => exact absurd hu h
  | nothing | type | member | constant | callSite =>
    simp only [symbols, hu, hoperand]
    rfl

theorem symbols_near (h : use opcode = .nearConstant) (hi : i < 0x100) :
    symbols pool bootstraps pc [opcode, .ofNat i] = Symbol.constantAt pool i := by
  have hoperand : operand1 pc [opcode, .ofNat i] = .ok i := by
    show Except.ok (UInt8.ofNat i).toNat = _
    rw [toNat_byte, Nat.mod_eq_of_lt hi]
  simp only [symbols, h, hoperand]
  rfl

end Symbols

end JvmAudit.Instruction
