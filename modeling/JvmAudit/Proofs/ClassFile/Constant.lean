import JvmAudit.ClassFile.Constant
import JvmAudit.Proofs.ClassFile.ModifiedUtf8
import JvmAudit.Proofs.ClassFile.Reader

/-!
# Constants read back

From the bytes of an entry whose operands fit into their places, what a pool keeps of it is read
(`ConstantInfo.Written.reads`).
-/

namespace JvmAudit.ConstantInfo

open Reader

/-- What a pool keeps of an entry. -/
def kept : ConstantInfo → Constant
  | .utf8 text => .utf8 text
  | .integer _ => .number
  | .float _ => .number
  | .long _ => .number
  | .double _ => .number
  | .classRef name => .classRef name
  | .string _ => .string
  | .fieldRef owner member => .fieldRef owner member
  | .methodRef owner member => .methodRef owner member
  | .interfaceMethodRef owner member => .interfaceMethodRef owner member
  | .nameAndType name descriptor => .nameAndType name descriptor
  | .methodHandle kind reference => .methodHandle kind reference
  | .methodType descriptor => .methodType descriptor
  | .dynamic _ _ => .dynamic
  | .invokeDynamic bootstrap _ => .invokeDynamic bootstrap
  | .moduleRef _ => .moduleRef
  | .packageRef _ => .packageRef

/-- What is in the slots of an entry: itself, and nothing usable behind a `long` or a `double`. -/
def cells (c : ConstantInfo) : List Constant :=
  if c.slots = 2 then [c.kept, .unusable] else [c.kept]

/-- No entry is kept as an unusable slot. -/
theorem kept_ne_unusable (c : ConstantInfo) : c.kept ≠ .unusable := by
  cases c <;> simp [kept]

theorem slots_pos (c : ConstantInfo) : 0 < c.slots := by
  cases c <;> simp [slots]

theorem slots_le_two (c : ConstantInfo) : c.slots ≤ 2 := by
  cases c <;> simp [slots]

/-- An entry fills as many cells as it takes slots. -/
theorem length_cells (c : ConstantInfo) : c.cells.length = c.slots := by
  cases c <;> rfl

/-- The numbers fit into the bytes that are there for them, and the indices are below a limit. -/
def Bounded (limit : Nat) : ConstantInfo → Prop
  | .utf8 _ => True
  | .integer bits => bits < 0x100000000
  | .float bits => bits < 0x100000000
  | .long bits => bits < 0x10000000000000000
  | .double bits => bits < 0x10000000000000000
  | .classRef name => name < limit
  | .string text => text < limit
  | .fieldRef owner member => owner < limit ∧ member < limit
  | .methodRef owner member => owner < limit ∧ member < limit
  | .interfaceMethodRef owner member => owner < limit ∧ member < limit
  | .nameAndType name descriptor => name < limit ∧ descriptor < limit
  | .methodHandle kind reference => kind < 0x100 ∧ reference < limit
  | .methodType descriptor => descriptor < limit
  | .dynamic bootstrap member => bootstrap < 0x10000 ∧ member < limit
  | .invokeDynamic bootstrap member => bootstrap < 0x10000 ∧ member < limit
  | .moduleRef name => name < limit
  | .packageRef name => name < limit

/-- Bounds on the operands may be raised. -/
theorem Bounded.mono {c : ConstantInfo} {limit limit' : Nat} (h : c.Bounded limit)
    (hle : limit ≤ limit') :
    c.Bounded limit' := by
  cases c <;> simp only [Bounded] at h ⊢ <;> omega

/-- The number of bytes that the text of a constant takes. -/
def textSize : ConstantInfo → Nat
  | .utf8 text => (ModifiedUtf8.encode text).length
  | _ => 0

/-- All operands fit into the bytes that are there for them. -/
structure Fits (c : ConstantInfo) : Prop where
  bounded : c.Bounded 0x10000
  text : c.textSize ≤ 0xFFFF

/-- A text is read back if its length fits into two bytes. -/
theorem reads_readText {text : String} (h : (ModifiedUtf8.encode text).length ≤ 0xFFFF)
    (slot : Nat) :
    Reads (Constant.readText slot)
      (putCount (ModifiedUtf8.encode text).length ++ ModifiedUtf8.encode text) text := by
  rw [putCount_eq h]
  refine (reads_u2 (by omega)).bind ((reads_bytes _).bind_last ?_)
  rw [ModifiedUtf8.decode?_encode]
  exact reads_pure text

section Operands

variable {data : Bytes} {e : Constant.Entry}

theorem reads_tagged (tag : Nat) (ht : tag < 0x100) {f : Nat → Reader Constant.Entry}
    (h : Reads (f tag) data e) : Reads (u1 >>= f) (.ofNat tag :: data) e := (reads_u1 ht).bind h

theorem reads_index {make : Nat → Constant.Entry} {i : Nat} (h : i < 0x10000) :
    Reads (do return make (← u2)) (put2 i) (make i) := (reads_u2 h).map

theorem reads_indices {make : Nat → Nat → Constant.Entry} {i j : Nat}
    (h : i < 0x10000 ∧ j < 0x10000) :
    Reads (do return make (← u2) (← u2)) (put2 i ++ put2 j) (make i j) :=
  (reads_u2 h.1).bind (reads_u2 h.2).map

/-- Operands that are not kept. -/
theorem reads_skipped (e : Constant.Entry) (data : Bytes) :
    Reads (do skip data.length; return e) data e := (reads_skip data).bind_last (reads_pure e)

end Operands

/-- What an entry puts into the pool. -/
def entry (c : ConstantInfo) : Constant.Entry := if c.slots = 2 then .wideNumber else .narrow c.kept

/-- An entry that fits is read back as far as it is kept. -/
theorem reads_encode {c : ConstantInfo} (h : c.Fits) (slot : Nat) :
    Reads (Constant.read slot) c.encode c.entry := by
  have hb := h.bounded
  unfold Constant.read
  cases c with
  | utf8 text => exact reads_tagged 1 (by decide) (reads_readText h.text slot).map
  | integer bits => exact reads_tagged 3 (by decide) (reads_skipped _ (put4 bits))
  | float bits => exact reads_tagged 4 (by decide) (reads_skipped _ (put4 bits))
  | long bits => exact reads_tagged 5 (by decide) (reads_skipped _ (put8 bits))
  | double bits => exact reads_tagged 6 (by decide) (reads_skipped _ (put8 bits))
  | classRef name => exact reads_tagged 7 (by decide) (reads_index hb)
  | string text => exact reads_tagged 8 (by decide) (reads_index hb)
  | fieldRef owner member => exact reads_tagged 9 (by decide) (reads_indices hb)
  | methodRef owner member => exact reads_tagged 10 (by decide) (reads_indices hb)
  | interfaceMethodRef owner member => exact reads_tagged 11 (by decide) (reads_indices hb)
  | nameAndType name descriptor => exact reads_tagged 12 (by decide) (reads_indices hb)
  | methodHandle kind reference =>
    exact reads_tagged 15 (by decide) ((reads_u1 hb.1).bind (reads_u2 hb.2).map)
  | methodType descriptor => exact reads_tagged 16 (by decide) (reads_index hb)
  | dynamic bootstrap member =>
    exact reads_tagged 17 (by decide) (reads_skipped _ (put2 bootstrap ++ put2 member))
  | invokeDynamic bootstrap member => exact reads_tagged 18 (by decide) (reads_indices hb)
  | moduleRef name => exact reads_tagged 19 (by decide) (reads_index hb)
  | packageRef name => exact reads_tagged 20 (by decide) (reads_index hb)

/-! ## All bytes of an entry -/

/-- The bytes of an entry: its tag and its operands. A text may be written in every way that is read
as this text. -/
inductive Written : ConstantInfo → Bytes → Prop
  | text {text : String} {data : Bytes} (hlen : data.length < 0x10000)
    (h : ModifiedUtf8.decode? data = some text) :
      Written (.utf8 text) (1 :: (put2 data.length ++ data))
  | operands {c : ConstantInfo} (hne : ∀ text, c ≠ .utf8 text) (h : c.Bounded 0x10000) :
    Written c c.encode

theorem textSize_eq_zero {c : ConstantInfo} (h : ∀ text, c ≠ .utf8 text) : c.textSize = 0 := by
  cases c with
  | utf8 text => exact absurd rfl (h text)
  | _ => rfl

/-- What is encoded for an entry that fits is one of the ways to write it. -/
theorem Fits.written {c : ConstantInfo} (h : c.Fits) : Written c c.encode := by
  cases c with
  | utf8 text =>
    have hlen : (ModifiedUtf8.encode text).length ≤ 0xFFFF := h.text
    show Written (.utf8 text) (1 :: putCount _ ++ _)
    rw [putCount_eq hlen]
    exact .text (by omega) (ModifiedUtf8.decode?_encode text)
  | _ => exact .operands nofun h.bounded

/-- Whatever the bytes of an entry are, it is read from them as far as it is kept. -/
theorem Written.reads {c : ConstantInfo} {word : Bytes} (h : Written c word) (slot : Nat) :
    Reads (Constant.read slot) word c.entry := by
  cases h with
  | @text text data hlen h =>
    refine reads_tagged 1 (by decide)
      (Reads.map ((reads_u2 hlen).bind ((reads_bytes data).bind_last ?_)))
    rw [h]
    exact reads_pure text
  | operands hne h => exact reads_encode ⟨h, by rw [textSize_eq_zero hne]; omega⟩ slot

end JvmAudit.ConstantInfo
