import JvmAudit.Proofs.ClassFile.Code
import JvmAudit.Proofs.ClassFile.Instruction
import JvmAudit.Proofs.Pointwise

/-!
# The walk over a code array

Decoding a body never reads past its code, goes over all of it without a gap, and ends.

* Whatever the bytes are, an instruction whose length can be made out lies inside the code, and so
  do the operand bytes that are read of it (`InBounds`). A failure to read code can only come from
  making out a length.
* The operands of a switch are 32-bit numbers, so its length needs no more than 64 bits
  (`SwitchFits`).
* The loop over the code is given by rules (`Visits`), which always apply, at most once for each
  byte. If it does not fail, the instructions that it visits tile the code (`Tiles`).
-/

namespace JvmAudit

namespace Instruction

open Result

variable {code instruction rest operands : Bytes} {pc n : Nat} {opcode : UInt8}

/-! ## The instruction at an offset -/

/-- The length of the instruction at an offset of a code array that holds all of it. -/
def lengthAt (code : Bytes) (pc : Nat) : Except ClassError Nat :=
  (next pc (code.drop pc)).map (·.1.length)

/-- If the length at an offset is known, the next instruction starts that much further on. -/
theorem next_of_lengthAt (h : lengthAt code pc = .ok n) :
    next pc (code.drop pc) = .ok ((code.drop pc).take n, code.drop (pc + n)) := by
  obtain ⟨⟨instruction, rest⟩, hnext, rfl⟩ := map_eq_ok.1 h
  obtain ⟨_, hcode⟩ := next_eq_ok_iff.1 hnext
  rw [hnext, ← List.drop_drop, hcode, List.take_left, List.drop_left]

theorem next_of_lengthAt_error {e : ClassError} (h : lengthAt code pc = .error e) :
    next pc (code.drop pc) = .error e := by
  unfold lengthAt at h
  cases hnext : next pc (code.drop pc) with
  | ok parts =>
    rw [hnext] at h
    cases h
  | error e' =>
    rw [hnext] at h
    cases h
    rfl

/-- An instruction has at least one byte and ends inside the code. -/
theorem bounds_of_lengthAt (h : lengthAt code pc = .ok n) : 1 ≤ n ∧ pc + n ≤ code.length := by
  obtain ⟨⟨instruction, rest⟩, hnext, rfl⟩ := map_eq_ok.1 h
  obtain ⟨hlength, hcode⟩ := next_eq_ok_iff.1 hnext
  have hpos := length_pos hlength
  have hdrop := congrArg List.length hcode
  rw [List.length_drop, List.length_append] at hdrop
  exact ⟨hpos, by simp only; omega⟩

/-! ## Operands -/

/-- How many bytes behind the opcode are read. -/
def Use.width : Use → Nat
  | .nothing => 0
  | .nearConstant => 1
  | _ => 2

/-- The instructions whose operands are used are of fixed length, which has room for them. -/
theorem width_lt_of_shape (opcode : UInt8) (h : use opcode ≠ .nothing) :
    ∃ n, shape opcode = .fixed n ∧ (use opcode).width < n := by
  -- the lengths stand in a table, so that all opcodes can be gone through
  have hall : ∀ k < 0x100, use (.ofNat k) = .nothing ∨ ∃ entry ∈ fixedLengths,
      shape (.ofNat k) = .fixed entry.2.2 ∧ (use (.ofNat k)).width < entry.2.2 := by decide +kernel
  have hopcode := hall opcode.toNat opcode.toNat_lt
  rw [UInt8.ofNat_toNat] at hopcode
  rcases hopcode with hnothing | ⟨entry, _, hshape, hlt⟩
  · exact absurd hnothing h
  · exact ⟨_, hshape, hlt⟩

/-- An instruction with a length has all the bytes of its operand. -/
theorem width_lt_of_length (h : length pc (opcode :: operands) = .ok n) :
    (use opcode).width < n := by
  by_cases huse : use opcode = .nothing
  · rw [huse]
    exact length_pos h
  · obtain ⟨m, hshape, hlt⟩ := width_lt_of_shape opcode huse
    simp only [length, hshape, Except.ok.injEq] at h
    omega

/-- The number of big-endian bytes. -/
def number (bytes : Bytes) : Nat := bytes.foldl (fun n b => n * 0x100 + b.toNat) 0

theorem operand1_eq (h : 1 ≤ operands.length) :
    operand1 pc (opcode :: operands) = .ok (number (operands.take 1)) := by
  cases operands with
  | nil => simp at h
  | cons a more => simp [operand1, number]

/-- An operand of two bytes is the number that these bytes write. -/
theorem operand2_eq (h : 2 ≤ operands.length) :
    operand2 pc (opcode :: operands) = .ok (number (operands.take 2)) := by
  cases operands with
  | nil => simp at h
  | cons a more =>
    cases more with
    | nil => simp at h
    | cons b more => simp [operand2, number, be2]

/-- The symbols of an instruction are those of what the number in its first operand bytes points
to. -/
theorem symbols_eq_symbolsAt (h : (use opcode).width ≤ operands.length) (pool : Pool)
    (bootstraps : List BootstrapMethod) : symbols pool bootstraps pc (opcode :: operands) =
      (use opcode).symbolsAt pool bootstraps (number (operands.take (use opcode).width)) := by
  cases huse : use opcode with
  | nothing =>
    simp only [symbols, huse]
    rfl
  | nearConstant =>
    rw [huse] at h
    simp only [symbols, huse, operand1_eq h]
    rfl
  | type | member | constant | callSite =>
    rw [huse] at h
    simp only [symbols, huse, operand2_eq h]
    rfl

/-! ## Failures -/

/-- A computation that does not fail for want of code. -/
def Complete {α : Type} (x : Except ClassError α) : Prop :=
  ∀ offset, x ≠ .error (.truncatedCode offset)

section Complete

variable {α β : Type} {x : Except ClassError α} {f : α → Except ClassError β}

theorem complete_ok (a : α) : Complete (.ok a) := fun _ => nofun

/-- Computations in sequence do not fail for want of code if none of them does. -/
theorem Complete.bind (hx : Complete x) (hf : ∀ a, Complete (f a)) : Complete (x >>= f) := by
  intro offset h
  rcases bind_eq_error.1 h with h | ⟨a, _, h⟩
  · exact hx offset h
  · exact hf a offset h

theorem Complete.mapM (hf : ∀ a, Complete (f a)) (l : List α) : Complete (l.mapM f) := by
  intro offset h
  obtain ⟨_, a, _, _, _, ha⟩ := mapM_eq_error.1 h
  exact hf a offset ha

theorem complete_get (pool : Pool) (i : Nat) : Complete (pool.get i) := by
  intro offset
  unfold Pool.get
  split <;> nofun

theorem complete_utf8 (pool : Pool) (i : Nat) : Complete (pool.utf8 i) := by
  refine (complete_get pool i).bind fun c => ?_
  intro offset
  split <;> nofun

/-- The look-up of a class name may fail, but not for want of code. -/
theorem complete_className (pool : Pool) (i : Nat) : Complete (pool.className i) := by
  refine (complete_get pool i).bind fun c => ?_
  split
  · exact complete_utf8 pool _
  · exact fun _ => nofun

theorem complete_nameAndType (pool : Pool) (i : Nat) : Complete (pool.nameAndType i) := by
  refine (complete_get pool i).bind fun c => ?_
  split
  · exact (complete_utf8 pool _).bind fun _ => (complete_utf8 pool _).bind fun _ => complete_ok _
  · exact fun _ => nofun

/-- The look-up of a member may fail, but not for want of code. -/
theorem complete_memberRef (pool : Pool) (i : Nat) : Complete (pool.memberRef i) := by
  have hmember : ∀ owner member isField onInterface,
      Complete (pool.memberAt owner member isField onInterface) :=
    fun _ _ _ _ => (complete_className pool _).bind fun _ =>
      (complete_nameAndType pool _).bind fun _ => complete_ok _
  refine (complete_get pool i).bind fun c => ?_
  split
  · exact hmember _ _ _ _
  · exact hmember _ _ _ _
  · exact hmember _ _ _ _
  · exact fun _ => nofun

theorem complete_ofClass (internal : String) : Complete (Symbol.ofClass internal) := by
  intro offset
  unfold Symbol.ofClass
  split <;> nofun

theorem complete_classAt (pool : Pool) (i : Nat) : Complete (Symbol.classAt pool i) :=
  (complete_className pool i).bind complete_ofClass

theorem complete_memberAt (pool : Pool) (i : Nat) : Complete (Symbol.memberAt pool i) := by
  refine (complete_memberRef pool i).bind fun m => ?_
  unfold Symbol.ofMember
  split
  · exact complete_ofClass m.owner
  · split <;> exact complete_ok _

/-- The symbols of a constant are found or refused, but not for want of code. -/
theorem complete_constantAt (pool : Pool) (i : Nat) : Complete (Symbol.constantAt pool i) := by
  have hdescriptor : ∀ text, Complete (Symbol.ofDescriptor text) := by
    intro text offset
    unfold Symbol.ofDescriptor
    split <;> nofun
  refine (complete_get pool i).bind fun c => ?_
  split
  · exact complete_classAt pool i
  · exact (complete_utf8 pool _).bind hdescriptor
  · exact complete_memberAt pool _
  · exact complete_ok _

/-- The symbols of a dynamic call site are found or refused, but not for want of code. -/
theorem complete_callSiteAt (pool : Pool) (bootstraps : List BootstrapMethod) (i : Nat) :
    Complete (Symbol.callSiteAt pool bootstraps i) := by
  refine (complete_get pool i).bind fun c => ?_
  split
  · split
    · exact (Complete.mapM (complete_constantAt pool) _).bind fun _ => complete_ok _
    · exact fun _ => nofun
  · exact fun _ => nofun

/-- Following an index into the pool needs no code. -/
theorem complete_symbolsAt (pool : Pool) (bootstraps : List BootstrapMethod) (i : Nat)
    (target : Use) :
    Complete (target.symbolsAt pool bootstraps i) := by
  cases target with
  | nothing => exact complete_ok _
  | type => exact complete_classAt pool i
  | member => exact complete_memberAt pool i
  | nearConstant => exact complete_constantAt pool i
  | constant => exact complete_constantAt pool i
  | callSite => exact complete_callSiteAt pool bootstraps i

end Complete

/-! ## Every instruction is inside the code -/

/-- The instruction of `n` bytes at an offset is inside the code, and so is what is read of it. -/
structure InBounds (code : Bytes) (pc n : Nat) : Prop where
  pos : 1 ≤ n
  inside : pc + n ≤ code.length
  /-- The operand bytes lie behind the opcode and inside the instruction; reading them does not
  fail, and the symbols depend on no other bytes. -/
  operands : ∃ opcode, code[pc]? = some opcode ∧ pc + 1 + (use opcode).width ≤ pc + n ∧
    ∀ pool bootstraps, symbols pool bootstraps pc ((code.drop pc).take n) =
        (use opcode).symbolsAt pool bootstraps
          (number ((code.drop (pc + 1)).take (use opcode).width)) ∧
      Complete (symbols pool bootstraps pc ((code.drop pc).take n))

theorem length_of_lengthAt (h : lengthAt code pc = .ok n) : length pc (code.drop pc) = .ok n := by
  obtain ⟨⟨instruction, rest⟩, hnext, rfl⟩ := map_eq_ok.1 h
  exact (next_eq_ok_iff.1 hnext).1

/-- An instruction with a length lies within the code. -/
theorem inBounds_of_lengthAt (h : lengthAt code pc = .ok n) : InBounds code pc n := by
  obtain ⟨hpos, hinside⟩ := bounds_of_lengthAt h
  obtain ⟨m, rfl⟩ : ∃ m, n = m + 1 := ⟨n - 1, by omega⟩
  obtain ⟨opcode, hopcode⟩ : ∃ opcode, code[pc]? = some opcode :=
    ⟨_, List.getElem?_eq_getElem (by omega)⟩
  have hcons : code.drop pc = opcode :: code.drop (pc + 1) := by
    obtain ⟨hlt, rfl⟩ := List.getElem?_eq_some_iff.1 hopcode
    exact List.drop_eq_getElem_cons hlt
  have hwidth : (use opcode).width ≤ m := by
    have hlength := length_of_lengthAt h
    rw [hcons] at hlength
    exact Nat.le_of_lt_succ (width_lt_of_length hlength)
  have hroom : (use opcode).width ≤ ((code.drop (pc + 1)).take m).length := by
    rw [List.length_take, List.length_drop]
    omega
  refine ⟨hpos, hinside, opcode, hopcode, by omega, fun pool bootstraps => ?_⟩
  -- the operand bytes of the instruction are those of the code
  have hsymbols : symbols pool bootstraps pc (opcode :: (code.drop (pc + 1)).take m) = _ :=
    symbols_eq_symbolsAt hroom pool bootstraps
  rw [List.take_take, Nat.min_eq_left hwidth] at hsymbols
  rw [hcons, List.take_succ_cons, hsymbols]
  exact ⟨rfl, complete_symbolsAt pool bootstraps _ _⟩

/-! ## Lengths of switches -/

/-- A value of a 64-bit integer. -/
def IsWord (x : Int) : Prop := -0x8000000000000000 ≤ x ∧ x < 0x8000000000000000

/-- The values on the way to the length of a switch with a head and `count` cases of `size` bytes
are 64-bit integers. -/
structure SwitchFits (head size : Nat) (count : Int) : Prop where
  isWord_count : IsWord count
  isWord_cases : IsWord (count.toNat * size)
  isWord_all : IsWord (head + count.toNat * size)

/-- An operand of four bytes is a signed number of 32 bits. -/
theorem signedAt_bounds {k : Nat} {x : Int} (h : signedAt pc k code = .ok x) :
    -0x80000000 ≤ x ∧ x < 0x80000000 := by
  unfold signedAt at h
  split at h
  · next a b c d _ _ =>
    cases h
    have ha := a.toNat_lt
    have hb := b.toNat_lt
    have hc := c.toNat_lt
    have hd := d.toNat_lt
    unfold signed be4 be2
    split <;> omega
  · cases h

theorem padding_lt (pc : Nat) : padding pc < 4 := Nat.mod_lt _ (by omega)

/-- The length of a switch is that of its head and of its cases. -/
theorem eq_of_switchLength {head size : Nat} {count : Int}
    (h : switchLength pc head size count = .ok n) :
    n = head + count.toNat * size := by
  unfold switchLength at h
  split at h
  · cases h
  · cases h
    rfl

/-- The range of a table switch and its length fit into 64 bits. -/
theorem switchFits_table {i j : Nat} {low high : Int} (hlow : signedAt pc i code = .ok low)
    (hhigh : signedAt pc j code = .ok high) :
    IsWord (high - low) ∧ SwitchFits (1 + padding pc + 12) 4 (high - low + 1) := by
  have hl := signedAt_bounds hlow
  have hh := signedAt_bounds hhigh
  have hpad := padding_lt pc
  refine ⟨?_, ?_, ?_, ?_⟩ <;> unfold IsWord <;> omega

/-- The length of a look-up switch fits into 64 bits. -/
theorem switchFits_lookup {i : Nat} {pairs : Int} (h : signedAt pc i code = .ok pairs) :
    SwitchFits (1 + padding pc + 8) 8 pairs := by
  have hp := signedAt_bounds h
  have hpad := padding_lt pc
  refine ⟨?_, ?_, ?_⟩ <;> unfold IsWord <;> omega

theorem fixedLengths_le : ∀ entry ∈ fixedLengths, entry.2.2 ≤ 5 := by decide

/-- The length that an instruction announces is a 64-bit integer, whether or not the code is so
long. -/
theorem isWord_length (h : length pc code = .ok n) : IsWord n := by
  cases code with
  | nil => cases h
  | cons opcode operands =>
    unfold length at h
    simp only at h
    split at h
    · next hshape =>
      -- a fixed length
      cases h
      obtain ⟨entry, hmem, rfl⟩ := exists_entry_of_shape hshape
      have hle := fixedLengths_le entry hmem
      constructor <;> omega
    · -- `wide`, whose length depends on the opcode that it modifies
      split at h
      · cases h
      · cases h
        constructor <;> split <;> omega
    · -- a table switch, then a lookup switch
      obtain ⟨low, hlow, h⟩ := bind_eq_ok.1 h
      obtain ⟨high, hhigh, h⟩ := bind_eq_ok.1 h
      rw [eq_of_switchLength h]
      exact (switchFits_table hlow hhigh).2.isWord_all
    · obtain ⟨pairs, hpairs, h⟩ := bind_eq_ok.1 h
      rw [eq_of_switchLength h]
      exact (switchFits_lookup hpairs).isWord_all
    · cases h

/-! ## The loop -/

section Loop

variable {α : Type} {visit : Nat → Bytes → Except ClassError (List α)} {found : List α}
  {e : ClassError}
  {offsets : List Nat} {result : Except ClassError (List α)}

/-- The loop over a code array from an offset on: the offsets that it visits and what it gives. It
ends at the end of the code, at an instruction that cannot be made out, or at a visit that fails. -/
inductive Visits (visit : Nat → Bytes → Except ClassError (List α)) (code : Bytes) :
    Nat → List Nat → Except ClassError (List α) → Prop
  | done : Visits visit code code.length [] (.ok [])
  | cut {pc : Nat} {e : ClassError} (hpc : pc < code.length) (h : lengthAt code pc = .error e) :
    Visits visit code pc [] (.error e)
  | failed {pc n : Nat} {e : ClassError} (h : lengthAt code pc = .ok n)
    (hvisit : visit pc ((code.drop pc).take n) = .error e) : Visits visit code pc [pc] (.error e)
  | step {pc n : Nat} {more : List α} {offsets : List Nat} {result : Except ClassError (List α)}
    (h : lengthAt code pc = .ok n) (hvisit : visit pc ((code.drop pc).take n) = .ok more)
    (hrest : Visits visit code (pc + n) offsets result) :
      Visits visit code pc (pc :: offsets) (result.map (more ++ ·))

/-- The loop ends, after at most as many visits as there are bytes left. -/
theorem exists_visits (hpc : pc ≤ code.length) (found : List α) :
    ∃ offsets result, Visits visit code pc offsets result ∧ offsets.length ≤ code.length - pc ∧
      walkFrom visit pc (code.drop pc) found = result.map (found.reverse ++ ·) := by
  -- by induction on the number of bytes left, which only the next instruction tells how to lower
  induction hleft : code.length - pc using Nat.strongRecOn generalizing pc found with
  | _ left ih =>
    by_cases hend : pc = code.length
    · refine ⟨[], .ok [], hend ▸ .done, by simp, ?_⟩
      rw [hend, List.drop_length, walkFrom_nil]
      simp [Except.map]
    · cases hlength : lengthAt code pc with
      | error e =>
        have hne : code.drop pc ≠ [] := by
          intro hnil
          have := List.drop_eq_nil_iff.1 hnil
          omega
        exact ⟨[], .error e, .cut (by omega) hlength, by simp,
          walkFrom_of_error hne (next_of_lengthAt_error hlength)⟩
      | ok n =>
        obtain ⟨hpos, hinside⟩ := bounds_of_lengthAt hlength
        have hn : ((code.drop pc).take n).length = n := by
          rw [List.length_take, List.length_drop]
          omega
        rw [walkFrom_of_next (next_of_lengthAt hlength), hn]
        cases hvisit : visit pc ((code.drop pc).take n) with
        | error e => exact ⟨[pc], .error e, .failed hlength hvisit, by simp; omega, rfl⟩
        | ok more =>
          -- fewer bytes are left, as the instruction is not empty
          obtain ⟨offsets, result, hrest, hcount, hwalk⟩ :=
            ih (code.length - (pc + n)) (by omega) hinside (more.reverse ++ found) rfl
          refine ⟨pc :: offsets, result.map (more ++ ·), .step hlength hvisit hrest, ?_, ?_⟩
          · rw [List.length_cons]
            omega
          · show walkFrom visit (pc + n) (code.drop (pc + n)) (more.reverse ++ found) = _
            rw [hwalk]
            cases result <;> simp [Except.map]

/-- A walk over all of the code visits offsets in turn, not more than there are bytes. -/
theorem exists_visits_walk (visit : Nat → Bytes → Except ClassError (List α)) (code : Bytes) :
    ∃ offsets, offsets.length ≤ code.length ∧ Visits visit code 0 offsets (walk visit code) := by
  obtain ⟨offsets, result, hvisits, hcount, hwalk⟩ := exists_visits (Nat.zero_le code.length) []
  have hresult : walk visit code = result := by
    refine Eq.trans hwalk ?_
    cases result <;> simp [Except.map]
  exact ⟨offsets, by simpa using hcount, hresult ▸ hvisits⟩

/-- Instructions from an offset to the end of the code, each of which starts where the one before it
ends. -/
inductive Tiles (code : Bytes) : Nat → List Nat → Prop
  | done : Tiles code code.length []
  | step {pc n : Nat} {offsets : List Nat} (h : lengthAt code pc = .ok n)
    (hrest : Tiles code (pc + n) offsets) :
    Tiles code pc (pc :: offsets)

/-- A loop that does not fail visits all of the code. -/
theorem Visits.tiles (h : Visits visit code pc offsets result) (hok : result = .ok found) :
    Tiles code pc offsets := by
  induction h generalizing found with
  | done => exact .done
  | cut _ _ => cases hok
  | failed _ _ => cases hok
  | step hlength _ _ ih =>
    obtain ⟨back, hback, -⟩ := map_eq_ok.1 hok
    exact .step hlength (ih hback)

end Loop

/-! ## References -/

section References

variable {pool : Pool} {bootstraps : List BootstrapMethod} {found : List Reference}
  {offsets : List Nat}
  {result : Except ClassError (List Reference)}

/-- The references of an instruction stand at its offset. -/
theorem offset_of_mem_references (h : references pool bootstraps pc instruction = .ok found)
    {r : Reference} (hr : r ∈ found) : r.offset = pc := by
  obtain ⟨symbols, _, rfl⟩ := map_eq_ok.1 h
  obtain ⟨symbol, _, rfl⟩ := List.mem_map.1 hr
  rfl

theorem Visits.offset_mem (h : Visits (references pool bootstraps) code pc offsets result)
    (hok : result = .ok found) {r : Reference} (hr : r ∈ found) : r.offset ∈ offsets := by
  induction h generalizing found with
  | done =>
    cases hok
    cases hr
  | cut _ _ => cases hok
  | failed _ _ => cases hok
  | step _ hvisit _ ih =>
    obtain ⟨back, hback, rfl⟩ := map_eq_ok.1 hok
    rcases List.mem_append.1 hr with hr | hr
    · rw [offset_of_mem_references hvisit hr]
      exact List.mem_cons_self
    · exact List.mem_cons_of_mem _ (ih hback hr)

end References

end Instruction

namespace RawCode

open Instruction Result

/-- The references of a body are those of its instructions and of its catch clauses, sorted by
offset. -/
theorem decode_eq_ok {pool : Pool} {bootstraps : List BootstrapMethod} {raw : RawCode} {code : Code}
    (h : raw.decode pool bootstraps = .ok code) : ∃ found caught,
      walk (references pool bootstraps) raw.code = .ok found ∧
      raw.catches.mapM (catchReferences pool) = .ok caught ∧
      code.references = (found ++ caught.flatten).mergeSort fun a b => a.offset ≤ b.offset := by
  obtain ⟨found, hfound, h⟩ := bind_eq_ok.1 h
  obtain ⟨caught, hcaught, h⟩ := bind_eq_ok.1 h
  cases h
  exact ⟨found, caught, hfound, hcaught, rfl⟩

/-- Decoding a body stays inside its code, computes with 64-bit numbers and ends. If it succeeds, it
has gone over all of the code; the references are sorted by offset, and at each offset those of the
instructions, in the order of the visits, come before those of the catch clauses. -/
theorem decode_in_bounds (pool : Pool) (bootstraps : List BootstrapMethod) (raw : RawCode) :
    (∀ pc n, lengthAt raw.code pc = .ok n → InBounds raw.code pc n) ∧
    (∀ pc i j low high, signedAt pc i (raw.code.drop pc) = .ok low →
      signedAt pc j (raw.code.drop pc) = .ok high →
      IsWord (high - low) ∧ SwitchFits (1 + padding pc + 12) 4 (high - low + 1)) ∧
    (∀ pc i pairs, signedAt pc i (raw.code.drop pc) = .ok pairs →
      SwitchFits (1 + padding pc + 8) 8 pairs) ∧
    (∀ pc n, length pc (raw.code.drop pc) = .ok n → IsWord n) ∧
    (∃ offsets, offsets.length ≤ raw.code.length ∧
      Visits (references pool bootstraps) raw.code 0 offsets
        (walk (references pool bootstraps) raw.code)) ∧
    ∀ code, raw.decode pool bootstraps = .ok code → ∃ offsets found caught,
      Tiles raw.code 0 offsets ∧
      Visits (references pool bootstraps) raw.code 0 offsets (.ok found) ∧
      (∀ r ∈ found, r.offset ∈ offsets) ∧
      raw.catches.mapM (catchReferences pool) = .ok caught ∧
      code.references.Pairwise (fun a b => a.offset ≤ b.offset) ∧
      ∀ k, code.references.filter (·.offset = k) =
        found.filter (·.offset = k) ++ caught.flatten.filter (·.offset = k) := by
  refine ⟨fun _ _ => inBounds_of_lengthAt, fun _ _ _ _ _ => switchFits_table,
    fun _ _ _ => switchFits_lookup, fun _ _ => isWord_length, exists_visits_walk _ _,
    fun code h => ?_⟩
  obtain ⟨found, caught, hfound, hcaught, hreferences⟩ := decode_eq_ok h
  obtain ⟨offsets, -, hvisits⟩ := exists_visits_walk (references pool bootstraps) raw.code
  rw [hfound] at hvisits
  -- sorting is stable, so it keeps the order among the references at one offset
  refine ⟨offsets, found, caught, hvisits.tiles rfl, hvisits, fun r => hvisits.offset_mem rfl,
    hcaught, ?_, fun k => ?_⟩
  · rw [hreferences]
    exact (List.pairwise_mergeSort (key_trans Reference.offset) (key_total Reference.offset) _).imp
      fun hle => of_decide_eq_true hle
  · rw [hreferences, filter_mergeSort, List.filter_append]

/-- A pool with the classes `app/Task` at 2 and `app/Fault` at 4. -/
def taskPool : Pool :=
  ⟨#[.unusable, .utf8 "app/Task", .classRef 1, .utf8 "app/Fault", .classRef 3]⟩

/-- A table switch at offset 1 with one case, then at offset 20 the load of a class, where a handler
starts too. -/
def taskBody : RawCode where
  code := [0x00, 0xaa, 0, 0] ++ put4 0 ++ put4 7 ++ put4 7 ++ put4 0 ++ [0x12, 2, 0xb1]
  catches := [⟨20, 4⟩]
  lines := []

theorem decode_in_bounds_task :
    taskBody.decode taskPool [] = .ok ⟨[⟨20, .type "app.Task"⟩, ⟨20, .type "app.Fault"⟩], []⟩ ∧
    lengthAt taskBody.code 1 = .ok 19 ∧ InBounds taskBody.code 1 19 ∧
    SwitchFits (1 + padding 1 + 12) 4 (7 - 7 + 1) ∧
    ∃ offsets, Tiles taskBody.code 0 offsets ∧ 20 ∈ offsets := by
  obtain ⟨hbounds, hswitch, _, _, _, hdecode⟩ := decode_in_bounds taskPool [] taskBody
  have hwalk : walk (references taskPool []) taskBody.code = .ok [⟨20, .type "app.Task"⟩] := by
    decide +kernel
  have hcatches : taskBody.catches.mapM (catchReferences taskPool) =
      .ok [[⟨20, .type "app.Fault"⟩]] := by
    decide +kernel
  have h : taskBody.decode taskPool [] =
      .ok ⟨[⟨20, .type "app.Task"⟩, ⟨20, .type "app.Fault"⟩], []⟩ := by
    unfold decode
    rw [hwalk, hcatches]
    show Except.ok (Code.mk (List.mergeSort [⟨20, .type "app.Task"⟩,
      ⟨20, .type "app.Fault"⟩] _) []) = _
    rw [List.mergeSort_of_pairwise (by decide)]
  have hlength : lengthAt taskBody.code 1 = .ok 19 := by decide +kernel
  have hoperand : signedAt 1 7 (taskBody.code.drop 1) = .ok 7 := by decide +kernel
  obtain ⟨offsets, found, caught, htiles, _, hoffsets, hcaught, _, hat⟩ := hdecode _ h
  cases hcatches.symm.trans hcaught
  have hfound : ⟨20, .type "app.Task"⟩ ∈ found := by
    have hsplit : [⟨20, .type "app.Task"⟩] ++ [⟨20, .type "app.Fault"⟩] =
        found.filter (·.offset = 20) ++ [⟨20, .type "app.Fault"⟩] := hat 20
    have hmem : ⟨20, .type "app.Task"⟩ ∈ found.filter (·.offset = 20) := by
      rw [← List.append_cancel_right hsplit]
      exact List.mem_cons_self
    exact (List.mem_filter.1 hmem).1
  exact ⟨h, hlength, hbounds 1 19 hlength, (hswitch 1 7 7 7 7 hoperand hoperand).2, offsets, htiles,
    hoffsets _ hfound⟩

end RawCode

end JvmAudit
