import JvmAudit.ClassFile.Reader

/-!
# Instructions

How long the instruction at the front of a code array is, and the walk over all instructions of it.
Code is given from the instruction on, together with its offset `pc`, on which the padding of the
two switch instructions depends.

## Termination

An instruction has at least one byte (`length_pos`), so the code that is left gets shorter.
-/

namespace JvmAudit.Instruction

/-- How the length of an instruction is found. -/
inductive Shape where
  | fixed (length : Nat)
  /-- A prefix that widens the operands of the next opcode. -/
  | wide
  | tableSwitch
  | lookupSwitch
  | undefined
  deriving DecidableEq, Repr

/-- First opcode, last opcode and length of the instructions of fixed length. -/
def fixedLengths : List (Nat × Nat × Nat) :=
  [(0x00, 0x0f, 1), (0x10, 0x10, 2), (0x11, 0x11, 3), (0x12, 0x12, 2), (0x13, 0x14, 3),
   (0x15, 0x19, 2), (0x1a, 0x35, 1), (0x36, 0x3a, 2), (0x3b, 0x83, 1), (0x84, 0x84, 3),
   (0x85, 0x98, 1), (0x99, 0xa8, 3), (0xa9, 0xa9, 2), (0xac, 0xb1, 1), (0xb2, 0xb8, 3),
   (0xb9, 0xba, 5), (0xbb, 0xbb, 3), (0xbc, 0xbc, 2), (0xbd, 0xbd, 3), (0xbe, 0xbf, 1),
   (0xc0, 0xc1, 3), (0xc2, 0xc3, 1), (0xc5, 0xc5, 4), (0xc6, 0xc7, 3), (0xc8, 0xc9, 5),
   (0xca, 0xca, 1), (0xfe, 0xff, 1)]

/-- The shape of the instructions with an opcode. -/
def shape (opcode : UInt8) : Shape :=
  match opcode.toNat with
  | 0xaa => .tableSwitch
  | 0xab => .lookupSwitch
  | 0xc4 => .wide
  | n =>
    match fixedLengths.find? fun (first, last, _) => first ≤ n && n ≤ last with
    | some (_, _, length) => .fixed length
    | none => .undefined

/-- The opcode of `iinc`, which has two operands, also in the wide form. -/
def iinc : UInt8 := 0x84

/-- The number of bytes between the opcode of a switch at `pc` and its operands, which start at a
multiple of four. -/
def padding (pc : Nat) : Nat := (4 - (pc + 1) % 4) % 4

/-- A 32-bit value as a signed number. -/
def signed (bits : Nat) : Int := if bits < 0x80000000 then bits else (bits : Int) - 0x100000000

/-- The signed number of four bytes that starts `k` bytes behind `pc`. -/
def signedAt (pc k : Nat) (code : Bytes) : Except ClassError Int :=
  match code.drop k with
  | a :: b :: c :: d :: _ => .ok (signed (be4 a b c d))
  | _ => .error (.truncatedCode (pc + k))

/-- The length of a switch: its head, then `count` cases of `size` bytes. -/
def switchLength (pc head size : Nat) (count : Int) : Except ClassError Nat :=
  if count < 0 then .error (.invalidSwitch pc) else .ok (head + count.toNat * size)

/-- The length that the instruction at the front of `code` announces. -/
def length (pc : Nat) (code : Bytes) : Except ClassError Nat :=
  match code with
  | [] => .error (.truncatedCode pc)
  | opcode :: operands =>
    match shape opcode with
    | .fixed n => .ok n
    | .wide =>
      match operands with
      | [] => .error (.truncatedCode (pc + 1))
      | modified :: _ => .ok (if modified = iinc then 6 else 4)
    | .tableSwitch => do
      let start := 1 + padding pc
      let low ← signedAt pc (start + 4) code
      let high ← signedAt pc (start + 8) code
      switchLength pc (start + 12) 4 (high - low + 1)
    | .lookupSwitch => do
      let start := 1 + padding pc
      let pairs ← signedAt pc (start + 4) code
      switchLength pc (start + 8) 8 pairs
    | .undefined => .error (.invalidOpcode opcode pc)

/-- The bytes of the instruction at the front of `code`, and the code behind it. -/
def next (pc : Nat) (code : Bytes) : Except ClassError (Bytes × Bytes) := do
  match splitFront (← length pc code) code with
  | some parts => .ok parts
  | none => .error (.truncatedCode pc)

theorem fixedLengths_pos : ∀ entry ∈ fixedLengths, 1 ≤ entry.2.2 := by decide

theorem exists_entry_of_shape {opcode : UInt8} {n : Nat} (h : shape opcode = .fixed n) :
    ∃ entry ∈ fixedLengths, entry.2.2 = n := by
  unfold shape at h
  split at h <;> try cases h
  split at h
  · next first last len hf =>
    cases h
    exact ⟨_, List.mem_of_find?_eq_some hf, rfl⟩
  · cases h

theorem one_le_of_shape {opcode : UInt8} {n : Nat} (h : shape opcode = .fixed n) : 1 ≤ n := by
  obtain ⟨entry, hmem, rfl⟩ := exists_entry_of_shape h
  exact fixedLengths_pos entry hmem

theorem le_of_switchLength {pc head size n : Nat} {count : Int}
    (h : switchLength pc head size count = .ok n) :
    head ≤ n := by
  unfold switchLength at h
  split at h
  · cases h
  · cases h; omega

/-- An instruction has at least one byte. -/
theorem length_pos {pc n : Nat} {code : Bytes} (h : length pc code = .ok n) : 1 ≤ n := by
  unfold length at h
  split at h
  · cases h
  · split at h
    · next hs => cases h; exact one_le_of_shape hs
    · split at h
      · cases h
      · cases h; split <;> omega
    · simp only [bind, Except.bind] at h
      split at h
      · cases h
      · split at h
        · cases h
        · have := le_of_switchLength h; omega
    · simp only [bind, Except.bind] at h
      split at h
      · cases h
      · have := le_of_switchLength h; omega
    · cases h

/-- The code behind an instruction is shorter. -/
theorem length_lt_of_next {pc : Nat} {code instruction rest : Bytes}
    (h : next pc code = .ok (instruction, rest)) :
    rest.length < code.length := by
  simp only [next, bind, Except.bind] at h
  split at h
  · cases h
  · next n hn =>
    have := length_pos hn
    rw [splitFront_eq] at h
    split at h
    · next parts hp =>
      cases h
      split at hp
      · cases hp; simp; omega
      · cases hp
    · cases h

/-- Visits every instruction with its offset and collects what the visits give, behind `found`,
which is in reverse order. The first failure of a visit or of an instruction ends the walk. -/
def walkFrom {α : Type} (visit : Nat → Bytes → Except ClassError (List α)) (pc : Nat) (code : Bytes)
    (found : List α) : Except ClassError (List α) :=
  if code.isEmpty then .ok found.reverse
  else
    match _h : next pc code with
    | .error e => .error e
    | .ok (instruction, rest) => do
      let more ← visit pc instruction
      walkFrom visit (pc + instruction.length) rest (more.reverse ++ found)
termination_by code.length
decreasing_by exact length_lt_of_next _h

/-- Visits every instruction of a code array. -/
def walk {α : Type} (visit : Nat → Bytes → Except ClassError (List α)) (code : Bytes) :
    Except ClassError (List α) :=
  walkFrom visit 0 code []

/-- The one-byte operand of an instruction. -/
def operand1 (pc : Nat) : Bytes → Except ClassError Nat
  | _ :: a :: _ => .ok a.toNat
  | _ => .error (.truncatedCode (pc + 1))

/-- The two-byte operand at the front of an instruction's operands. -/
def operand2 (pc : Nat) : Bytes → Except ClassError Nat
  | _ :: a :: b :: _ => .ok (be2 a b)
  | _ => .error (.truncatedCode (pc + 1))

end JvmAudit.Instruction
