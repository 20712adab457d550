import JvmAudit.ClassFile.Reader
import JvmAudit.Proofs.Pointwise

/-!
# What is written is read back

A reader reads a value from given bytes if it takes exactly these bytes off the front, whatever
follows them (`Reader.Reads`). Readers in sequence read what is written in sequence, so the layout
of a structure is followed part by part.
-/

namespace JvmAudit

/-! ## Numbers -/

theorem toNat_byte (n : Nat) : (UInt8.ofNat n).toNat = n % 0x100 := UInt8.toNat_ofNat'

/-- Of a number that is too large the last two bytes are written. -/
theorem be2_put2 (n : Nat) : be2 (.ofNat (n / 0x100)) (.ofNat n) = n % 0x10000 := by
  unfold be2
  rw [toNat_byte, toNat_byte]
  omega

theorem length_put2 (n : Nat) : (put2 n).length = 2 := rfl

/-- A count is written exactly if it fits, and else as the largest number. -/
theorem putCount_eq {n : Nat} (h : n ≤ 0xFFFF) : putCount n = put2 n := by
  unfold putCount
  rw [Nat.min_eq_left h]

theorem putLength_eq {n : Nat} (h : n ≤ 0xFFFFFFFF) : putLength n = put4 n := by
  unfold putLength
  rw [Nat.min_eq_left h]

namespace Reader

variable {α β : Type} {r : Reader α} {data data' : Bytes} {a : α} {b : β}

/-- The value is read from exactly these bytes. -/
def Reads (r : Reader α) (data : Bytes) (a : α) : Prop := ∀ rest, r (data ++ rest) = .ok (a, rest)

theorem Reads.congr (h : Reads r data a) (hd : data' = data) : Reads r data' a := hd ▸ h

theorem reads_pure (a : α) : Reads (pure a) [] a := fun _ => rfl

/-- Readers in sequence read what is written one behind the other. -/
theorem Reads.bind {f : α → Reader β} (hr : Reads r data a) (hf : Reads (f a) data' b) :
    Reads (r >>= f) (data ++ data') b := by
  intro rest
  rw [List.append_assoc]
  show (r (data ++ (data' ++ rest)) >>= fun p => f p.1 p.2) = _
  rw [hr]
  exact hf rest

/-- What takes no bytes can follow. -/
theorem Reads.bind_last {f : α → Reader β} (hr : Reads r data a) (hf : Reads (f a) [] b) :
    Reads (r >>= f) data b :=
  (hr.bind hf).congr (List.append_nil _).symm

/-- To compute with what was read takes no input. -/
theorem Reads.map {f : α → β} (hr : Reads r data a) : Reads (do return f (← r)) data (f a) :=
  hr.bind_last (reads_pure (f a))

/-- What takes no bytes can be put in front. -/
theorem Reads.bind_nil {f : α → Reader β} (hr : Reads r [] a) (hf : Reads (f a) data b) :
    Reads (r >>= f) data b :=
  hr.bind hf

/-- To look something up takes no input. -/
theorem reads_lift {x : Except ClassError α} (h : x = .ok a) : Reads (liftM x) [] a := by
  intro rest
  rw [h]
  rfl

/-- A value that has bytes of its own. -/
theorem Reads.readFrom (h : Reads r data a) : Reader.readFrom data r = .ok a := by
  have hnil := h []
  rw [List.append_nil] at hnil
  unfold Reader.readFrom
  rw [hnil]
  rfl

theorem reads_u1 {n : Nat} (h : n < 0x100) : Reads u1 [.ofNat n] n := by
  intro rest
  show Except.ok ((UInt8.ofNat n).toNat, rest) = _
  rw [toNat_byte, Nat.mod_eq_of_lt h]

/-- A number of two bytes is read back. -/
theorem reads_u2 {n : Nat} (h : n < 0x10000) : Reads u2 (put2 n) n := by
  intro rest
  show Except.ok (be2 _ _, rest) = _
  rw [be2_put2, Nat.mod_eq_of_lt h]

theorem reads_u4 {n : Nat} (h : n < 0x100000000) : Reads u4 (put4 n) n := by
  intro rest
  show Except.ok (be2 _ _ * 0x10000 + be2 _ _, rest) = _
  rw [be2_put2, be2_put2, show n / 0x10000 % 0x10000 * 0x10000 + n % 0x10000 = n by omega]

theorem put4_mod (n : Nat) : put4 n = put4 (n % 0x100000000) := by
  have hbyte : ∀ m k : Nat, m % 0x100 = k % 0x100 → UInt8.ofNat m = UInt8.ofNat k := by
    intro m k h
    apply UInt8.toNat_inj.1
    rw [toNat_byte, toNat_byte, h]
  simp only [put4, put2, List.cons_append, List.nil_append, List.cons.injEq, and_true]
  exact ⟨hbyte _ _ (by omega), hbyte _ _ (by omega), hbyte _ _ (by omega), hbyte _ _ (by omega)⟩

/-- A block of bytes is read back if its length is known. -/
theorem reads_bytes (data : Bytes) : Reads (bytes data.length) data data := by
  intro rest
  unfold bytes
  rw [splitFront_eq, if_pos (by simp)]
  simp

theorem reads_skip (data : Bytes) : Reads (skip data.length) data () := (reads_bytes data).map

/-! ## Tables -/

/-- The words of several values one behind the other. -/
def Words (G : α → Bytes → Prop) : List α → Bytes → Prop
  | [], word => word = []
  | a :: as, word => ∃ front back, G a front ∧ Words G as back ∧ word = front ++ back

/-- A fixed number of items is read back, by induction on the items. -/
theorem reads_times {item : Reader α} {chunks : List Bytes} {values : List α}
    (h : List.Forall₂ (Reads item) chunks values) :
    Reads (times values.length item) chunks.flatten values := by
  induction h with
  | nil => exact reads_pure []
  | cons hitem _ ih =>
    rw [List.length_cons, times_succ, List.flatten_cons]
    exact hitem.bind ih.map

/-- A table is read back: its count, and then its items. -/
theorem reads_table {item : Reader α} {chunks : List Bytes} {values : List α} {n : Nat}
    (h : List.Forall₂ (Reads item) chunks values) (hn : n = values.length) (hcount : n ≤ 0xFFFF) :
    Reads (table item) (putCount n ++ chunks.flatten) values := by
  subst hn
  rw [putCount_eq hcount]
  exact (reads_u2 (by omega)).bind (reads_times h)

end Reader

end JvmAudit
