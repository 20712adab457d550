import JvmAudit.ClassFile.Pool
import JvmAudit.Proofs.ClassFile.Constant

/-!
# Constant pools read back

While a pool is read, the number of the next slot is the number of slots that were filled
(`Pool.Filling.Aligned`), although a number of two slots counts in the middle of an entry. So the
slots of a pool are an unusable one and those of its entries (`Pool.ofInfos`), and each entry is
found at the number of slots in front of it (`Pool.Holds`).

## Main results

* `Pool.holds_ofInfos`: where the entries of a pool are found
* `Pool.reads_read`: a pool is read back from its entries
-/

namespace JvmAudit.Pool

open Reader ConstantInfo

/-! ## Filling slots -/

namespace Filling

variable {f : Filling}

/-- The next slot is the one behind those that were filled. -/
def Aligned (f : Filling) : Prop := f.index = f.entries.size

theorem aligned_start : Aligned .start := rfl

/-- A constant that is put into the next slot gets the number of this slot. -/
theorem Aligned.put (h : f.Aligned) (c : Constant) : (f.put c).Aligned := by
  show f.index + 1 = (f.entries.push c).size
  rw [Array.size_push, h]

/-- Each entry keeps the next slot in step with the slots that were filled. -/
theorem Aligned.add (h : f.Aligned) (e : Constant.Entry) : (f.add e).Aligned := by
  unfold Filling.add
  split
  · exact h.put _
  · exact (h.put _).put _

/-- The counter grows by the number of slots that an entry takes. -/
theorem index_add_entry (f : Filling) (c : ConstantInfo) :
    (f.add c.entry).index = f.index + c.slots := by
  cases c <;> rfl

/-- An entry fills its own slots and leaves the others as they are. -/
theorem toList_add_entry (f : Filling) (c : ConstantInfo) :
    (f.add c.entry).entries.toList = f.entries.toList ++ c.cells := by
  have hput : ∀ (g : Filling) (k : Constant), (g.put k).entries.toList = g.entries.toList ++ [k] :=
    fun g k => Array.toList_push
  cases c <;> simp [Filling.add, entry, cells, slots, kept, Constant.Entry.wideNumber,
    Constant.Entry.narrow, hput]

end Filling

/-! ## Slots -/

/-- The number of slots that entries take. -/
def slotsOf : List ConstantInfo → Nat
  | [] => 0
  | c :: cs => c.slots + slotsOf cs

/-- The pool with these entries. -/
def ofInfos (cs : List ConstantInfo) : Pool := ⟨⟨.unusable :: cs.flatMap cells⟩⟩

/-- A pool with a number of slots that holds these entries: each entry is found at the number of
slots in front of it, as far as it is kept. Nothing is found at slot zero, at the slot behind a
`long` or a `double`, and from the number of slots on. -/
structure Holds (pool : Pool) (count : Nat) (cs : List ConstantInfo) : Prop where
  entry : ∀ front c back, cs = front ++ c :: back → pool.get (1 + slotsOf front) = .ok c.kept
  zero : pool.get 0 = .error (.invalidConstantIndex 0)
  second : ∀ front c back, cs = front ++ c :: back → c.slots = 2 →
    pool.get (2 + slotsOf front) = .error (.invalidConstantIndex (2 + slotsOf front))
  beyond : ∀ i, count ≤ i → pool.get i = .error (.invalidConstantIndex i)

section Slots

variable {cs front back : List ConstantInfo} {c : ConstantInfo} {i : Nat}

theorem slotsOf_nil : slotsOf [] = 0 := rfl

theorem slotsOf_cons : slotsOf (c :: cs) = c.slots + slotsOf cs := rfl

theorem slotsOf_append : slotsOf (front ++ back) = slotsOf front + slotsOf back := by
  induction front with
  | nil => rw [List.nil_append, slotsOf_nil, Nat.zero_add]
  | cons c front ih => rw [List.cons_append, slotsOf_cons, slotsOf_cons, ih, Nat.add_assoc]

/-- A pool has as many cells as its entries take slots. -/
theorem length_flatMap_cells (cs : List ConstantInfo) : (cs.flatMap cells).length = slotsOf cs := by
  induction cs with
  | nil => rfl
  | cons c cs ih => rw [List.flatMap_cons, List.length_append, length_cells, ih, slotsOf_cons]

theorem length_le_slotsOf (cs : List ConstantInfo) : cs.length ≤ slotsOf cs := by
  induction cs with
  | nil => exact Nat.le_refl 0
  | cons c cs ih =>
    have := c.slots_pos
    rw [slotsOf_cons, List.length_cons]
    omega

/-- A constant at an index is found, unless the slot is unusable. -/
theorem get_eq_ok {pool : Pool} {c : Constant} (h : pool.entries[i]? = some c)
    (hc : c ≠ .unusable) :
    pool.get i = .ok c := by
  unfold get
  rw [h]
  split
  · next he => exact absurd (Option.some.inj he) hc
  · next he =>
    cases he
    rfl
  · next he => cases he

/-- An unusable slot is refused just as one that is not there. -/
theorem get_eq_error {pool : Pool}
    (h : pool.entries[i]? = none ∨ pool.entries[i]? = some .unusable) :
    pool.get i = .error (.invalidConstantIndex i) := by
  unfold get
  rcases h with h | h <;> rw [h]

/-- The slots from the one of an entry on. -/
theorem getElem?_ofInfos_append (front : List ConstantInfo) (c : ConstantInfo)
    (back : List ConstantInfo) (j : Nat) :
    (ofInfos (front ++ c :: back)).entries[1 + slotsOf front + j]? =
      (c.cells ++ back.flatMap cells)[j]? := by
  rw [ofInfos, List.getElem?_toArray, show 1 + slotsOf front + j = slotsOf front + j + 1 by omega,
    List.getElem?_cons_succ, List.flatMap_append,
    List.getElem?_append_right (by rw [length_flatMap_cells]; omega), length_flatMap_cells,
    Nat.add_sub_cancel_left, List.flatMap_cons]

/-- Each entry is found at the number of slots in front of it, and nothing is found anywhere
else. -/
theorem holds_ofInfos (cs : List ConstantInfo) : (ofInfos cs).Holds (1 + slotsOf cs) cs where
  entry := by
    rintro front c back rfl
    have hslot := getElem?_ofInfos_append front c back 0
    have hown : (c.cells ++ back.flatMap cells)[0]? = some c.kept := by
      unfold cells
      split <;> rfl
    exact get_eq_ok (hslot.trans hown) c.kept_ne_unusable
  zero := get_eq_error (.inr rfl)
  second := by
    rintro front c back rfl hc
    have hslot := getElem?_ofInfos_append front c back 1
    refine get_eq_error (.inr ?_)
    rw [show 2 + slotsOf front = 1 + slotsOf front + 1 by omega, hslot, cells, if_pos hc]
    rfl
  beyond := by
    intro i hi
    refine get_eq_error (.inl ?_)
    rw [ofInfos, List.getElem?_toArray]
    refine List.getElem?_eq_none ?_
    rw [List.length_cons, length_flatMap_cells]
    omega

end Slots

/-! ## Reading -/

/-- Entries one behind the other are read until the counter has reached the number that was
announced. -/
theorem reads_readSlots {count : Nat} {cs : List ConstantInfo} {word : Bytes} (f : Filling)
    (h : Words Written cs word) (hcount : f.index + slotsOf cs = count) :
    Reads (readSlots count f) word ⟨f.entries.toList ++ cs.flatMap cells⟩ := by
  induction cs generalizing f word with
  | nil =>
    rw [slotsOf_nil] at hcount
    rw [readSlots, dif_neg (by omega), show word = [] from h, List.flatMap_nil, List.append_nil]
    exact reads_pure f.entries
  | cons c cs ih =>
    obtain ⟨front, back, hc, hcs, rfl⟩ := h
    have hpos := c.slots_pos
    rw [slotsOf_cons] at hcount
    rw [readSlots, dif_pos (by omega)]
    have hrest := ih (f.add c.entry) hcs (by rw [f.index_add_entry]; omega)
    rw [f.toList_add_entry, List.append_assoc] at hrest
    exact (hc.reads _).bind hrest

/-- A pool is read back from the number of its slots and its entries. -/
theorem reads_read {cs : List ConstantInfo} {word : Bytes} (h : Words Written cs word)
    (hcount : 1 + slotsOf cs ≤ 0xFFFF) : Reads read (put2 (1 + slotsOf cs) ++ word) (ofInfos cs) :=
  (reads_u2 (by omega)).bind (reads_readSlots .start h rfl).map

/-! ## Numbered entries -/

/-- Each entry has the number of the slot behind the entry before it; the numbers go from `n` up to
`m`. -/
def Numbered : Nat → List (ConstantInfo × Nat) → Nat → Prop
  | n, [], m => n = m
  | n, e :: es, m => e.2 = n ∧ Numbered (n + e.1.slots) es m

/-- The pool with these entries. -/
def ofEntries (es : List (ConstantInfo × Nat)) : Pool := ofInfos (es.map (·.1))

section Numbered

variable {n m : Nat} {es : List (ConstantInfo × Nat)}

theorem Numbered.eq (h : Numbered n es m) : m = n + slotsOf (es.map (·.1)) := by
  induction es generalizing n with
  | nil => exact (show n = m from h).symm
  | cons e es ih =>
    rw [ih h.2, List.map_cons, slotsOf_cons, Nat.add_assoc]

theorem Numbered.le (h : Numbered n es m) : n ≤ m := h.eq ▸ Nat.le_add_right n _

/-- The number of an entry is that of the slots in front of it. -/
theorem Numbered.exists_split (h : Numbered n es m) {c : ConstantInfo} {i : Nat}
    (he : (c, i) ∈ es) :
    ∃ front back, es.map (·.1) = front ++ c :: back ∧ i = n + slotsOf front := by
  induction es generalizing n with
  | nil => cases he
  | cons e es ih =>
    rcases List.mem_cons.1 he with rfl | he
    · exact ⟨[], es.map (·.1), rfl, h.1⟩
    · obtain ⟨front, back, hsplit, rfl⟩ := ih h.2 he
      refine ⟨e.1 :: front, back, by rw [List.map_cons, hsplit, List.cons_append], ?_⟩
      rw [slotsOf_cons, Nat.add_assoc]

/-- Entries have indices below the next one. -/
theorem Numbered.lt (h : Numbered n es m) {c : ConstantInfo} {i : Nat}
    (he : (c, i) ∈ es) : i < m := by
  obtain ⟨front, back, hsplit, rfl⟩ := h.exists_split he
  have hpos := c.slots_pos
  rw [h.eq, hsplit, slotsOf_append, slotsOf_cons]
  omega

theorem Numbered.ge (h : Numbered n es m) {c : ConstantInfo} {i : Nat}
    (he : (c, i) ∈ es) : n ≤ i := by
  obtain ⟨front, back, -, rfl⟩ := h.exists_split he
  exact Nat.le_add_right n _

/-- The next entry gets the next free index, and takes as many slots as its kind. -/
theorem Numbered.append {c : ConstantInfo} (h : Numbered n es m) :
    Numbered n (es ++ [(c, m)]) (m + c.slots) := by
  induction es generalizing n with
  | nil =>
    cases h
    exact ⟨rfl, rfl⟩
  | cons e es ih => exact ⟨h.1, ih h.2⟩

/-- An entry is found at its number. -/
theorem get_ofEntries (h : Numbered 1 es m) {c : ConstantInfo} {i : Nat} (he : (c, i) ∈ es) :
    (ofEntries es).get i = .ok c.kept := by
  obtain ⟨front, back, hsplit, rfl⟩ := h.exists_split he
  exact (holds_ofInfos _).entry front c back hsplit

theorem utf8_ofEntries (h : Numbered 1 es m) {text : String} {i : Nat} (he : (.utf8 text, i) ∈ es) :
    (ofEntries es).utf8 i = .ok text := by
  unfold utf8
  rw [get_ofEntries h he]
  rfl

/-- A class entry leads to its name by the index of a text. -/
theorem className_ofEntries (h : Numbered 1 es m) {internal : String} {i name : Nat}
    (hc : (.classRef name, i) ∈ es) (hn : (.utf8 internal, name) ∈ es) :
    (ofEntries es).className i = .ok internal := by
  unfold className
  rw [get_ofEntries h hc]
  exact utf8_ofEntries h hn

theorem words_encode (hfit : ∀ e ∈ es, e.1.Fits) :
    Words Written (es.map (·.1)) (es.flatMap (·.1.encode)) := by
  induction es with
  | nil => rfl
  | cons e es ih =>
    refine ⟨_, _, (hfit e List.mem_cons_self).written, ih fun f hf => ?_, rfl⟩
    exact hfit f (List.mem_cons_of_mem _ hf)

/-- Numbered entries are read back as the pool with them. -/
theorem reads_read_encode (h : Numbered 1 es m) (hfit : ∀ e ∈ es, e.1.Fits) (hm : m < 0x10000) :
    Reads read (put2 m ++ es.flatMap (·.1.encode)) (ofEntries es) := by
  rw [h.eq] at hm ⊢
  exact reads_read (words_encode hfit) (by omega)

end Numbered

end JvmAudit.Pool
