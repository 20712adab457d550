import JvmAudit.Proofs.ClassFile.Grammar
import JvmAudit.Proofs.ClassFile.Pool

/-!
# The slots of a constant pool

The entries of a pool are numbered by the slots that they take, and a `long` or a `double` takes two
of them. Entries are read until the number of the next slot is the one that the pool announces; the
last entry may go one slot beyond it. Here any input is read: it is a sequence of entries, up to the
announced number of slots or up to bytes that are no entry.

## Main results

* `Constant.parses_read`: what is read as an entry
* `Pool.readSlots_cases`: what can become of an input
* `Pool.entries_at_slots`: where the entries of a pool are found, and what is found through them
-/

namespace JvmAudit

/-! ## Numbers -/

theorem put2_add (high low : Nat) : put2 (high * 0x10000 + low) = put2 low := by
  have hbyte : ∀ m k : Nat, m % 0x100 = k % 0x100 → UInt8.ofNat m = UInt8.ofNat k := by
    intro m k h
    apply UInt8.toNat_inj.1
    rw [toNat_byte, toNat_byte, h]
  unfold put2
  rw [hbyte ((high * 0x10000 + low) / 0x100) (low / 0x100) (by omega),
    hbyte (high * 0x10000 + low) low (by omega)]

namespace Reader

theorem parses_u1 : Parses u1 fun n word => n < 0x100 ∧ word = [.ofNat n] := by
  intro data n rest
  constructor
  · intro h
    cases data with
    | nil => cases h
    | cons b data =>
      cases h
      exact ⟨[b], ⟨b.toNat_lt, by rw [UInt8.ofNat_toNat]⟩, rfl⟩
  · rintro ⟨_, ⟨hn, rfl⟩, rfl⟩
    exact reads_u1 hn rest

/-- A number of four bytes is any number that fits. -/
theorem parses_u4 : Parses u4 fun n word => n < 0x100000000 ∧ word = put4 n := by
  intro data n rest
  constructor
  · intro h
    rcases data with _ | ⟨a, _ | ⟨b, _ | ⟨c, _ | ⟨d, data⟩⟩⟩⟩
    · cases h
    · cases h
    · cases h
    · cases h
    · cases h
      have hhigh := be2_lt a b
      have hlow := be2_lt c d
      refine ⟨[a, b, c, d], ⟨by unfold be4; omega, ?_⟩, rfl⟩
      unfold put4 be4
      rw [put2_add, put2_be2, show (be2 a b * 0x10000 + be2 c d) / 0x10000 =
        be2 a b by omega, put2_be2]
      rfl
  · rintro ⟨_, ⟨hn, rfl⟩, rfl⟩
    exact reads_u4 hn rest

/-- A block of bytes is any block of this length. -/
theorem parses_bytes (n : Nat) :
    Parses (bytes n) fun front word => front.length = n ∧ word = front := by
  intro data front rest
  constructor
  · intro h
    unfold bytes at h
    rw [splitFront_eq] at h
    by_cases hn : n ≤ data.length
    · rw [if_pos hn] at h
      cases h
      exact ⟨data.take n, ⟨List.length_take_of_le hn, rfl⟩, (List.take_append_drop n data).symm⟩
    · rw [if_neg hn] at h
      cases h
  · rintro ⟨_, ⟨rfl, rfl⟩, rfl⟩
    exact reads_bytes _ rest

theorem parses_skip (n : Nat) : Parses (skip n) fun _ word => word.length = n := by
  refine (parses_bytes n).map.congr fun _ word => ?_
  constructor
  · rintro ⟨_, ⟨hlen, rfl⟩, -⟩
    exact hlen
  · intro hlen
    exact ⟨word, ⟨hlen, rfl⟩, rfl⟩

theorem exists_four {word : Bytes} (h : word.length = 4) : ∃ a b c d, word = [a, b, c, d] := by
  rcases word with _ | ⟨a, _ | ⟨b, _ | ⟨c, _ | ⟨d, _ | ⟨e, word⟩⟩⟩⟩⟩ <;> simp at h
  exact ⟨a, b, c, d, rfl⟩

/-- Any four bytes are those of a number. -/
theorem exists_put4 {word : Bytes} (h : word.length = 4) : ∃ n < 0x100000000, word = put4 n := by
  obtain ⟨a, b, c, d, rfl⟩ := exists_four h
  obtain ⟨word, ⟨hn, hword⟩, hdata⟩ := (parses_u4 [a, b, c, d] (be4 a b c d) []).1 rfl
  rw [List.append_nil] at hdata
  exact ⟨_, hn, hdata.trans hword⟩

/-- Any eight bytes are those of a number. -/
theorem exists_put8 {word : Bytes} (h : word.length = 8) :
    ∃ n < 0x10000000000000000, word = put8 n := by
  have htake : (word.take 4).length = 4 := by rw [List.length_take, h]; rfl
  have hdrop : (word.drop 4).length = 4 := by rw [List.length_drop, h]
  obtain ⟨high, hhigh, hfront⟩ := exists_put4 htake
  obtain ⟨low, hlow, hback⟩ := exists_put4 hdrop
  refine ⟨high * 0x100000000 + low, by omega, ?_⟩
  unfold put8
  rw [put4_mod (high * 0x100000000 + low),
    show (high * 0x100000000 + low) / 0x100000000 = high by omega,
    show (high * 0x100000000 + low) % 0x100000000 = low by omega, ← hfront, ← hback,
    List.take_append_drop]

end Reader

open Reader Result

/-! ## Entries -/

namespace Constant

open ConstantInfo

/-- An entry with these bytes puts this into the pool. -/
def Stored (e : Entry) (word : Bytes) : Prop := ∃ c : ConstantInfo, c.Written word ∧ c.entry = e

/-- A text is its length and bytes that can be decoded, in any form. -/
theorem parses_readText (slot : Nat) : Parses (readText slot) fun text word =>
    ∃ data : Bytes, data.length < 0x10000 ∧ ModifiedUtf8.decode? data = some text ∧
      word = put2 data.length ++ data := by
  refine (parses_u2.bind fun n => (parses_bytes n).bind
    (H := fun data text word => ModifiedUtf8.decode? data = some text ∧ word = [])
    fun data => ?_).congr fun text word => ?_
  · cases ModifiedUtf8.decode? data with
    | some text =>
      exact (parses_pure text).congr fun text' word => by
        rw [Option.some.injEq, eq_comm (a := text)]
    | none => exact (parses_throw _).congr fun _ _ => by simp
  constructor
  · rintro ⟨_, _, _, ⟨hlen, rfl⟩, ⟨_, data, _, ⟨rfl, rfl⟩, ⟨h, rfl⟩, rfl⟩, rfl⟩
    exact ⟨data, hlen, h, by rw [List.append_nil]⟩
  · rintro ⟨data, hlen, h, rfl⟩
    exact ⟨_, _, _, ⟨hlen, rfl⟩, ⟨data, _, _, ⟨rfl, rfl⟩, ⟨h, rfl⟩, rfl⟩, by rw [List.append_nil]⟩

section Operands

variable {tag : UInt8}

theorem yields_operand {make : Nat → ConstantInfo} {f : Nat → Entry}
    (h : ∀ n, n < 0x10000 → (make n).Written (tag :: put2 n)) (hf : ∀ n, (make n).entry = f n) :
    Yields (do return f (← u2)) fun e word => Stored e (tag :: word) := by
  refine parses_u2.map.yields ?_
  rintro _ _ ⟨n, ⟨hn, rfl⟩, rfl⟩
  exact ⟨_, h n hn, hf n⟩

/-- An entry with two indices keeps both of them. -/
theorem yields_operands {make : Nat → Nat → ConstantInfo} {f : Nat → Nat → Entry}
    (h : ∀ i j, i < 0x10000 ∧ j < 0x10000 → (make i j).Written (tag :: (put2 i ++ put2 j)))
    (hf : ∀ i j, (make i j).entry = f i j) :
    Yields (do return f (← u2) (← u2)) fun e word => Stored e (tag :: word) := by
  refine (parses_u2.bind fun i => parses_u2.map).yields ?_
  rintro _ _ ⟨i, _, _, ⟨hi, rfl⟩, ⟨j, ⟨hj, rfl⟩, rfl⟩, rfl⟩
  exact ⟨_, h i j ⟨hi, hj⟩, hf i j⟩

/-- Whatever the operands are that are not kept, there is an entry that has them. -/
theorem yields_skipped {n : Nat} {e : Entry}
    (h : ∀ word : Bytes, word.length = n → Stored e (tag :: word)) :
    Yields (do skip n; return e) fun e word => Stored e (tag :: word) := by
  refine (parses_skip n).map.yields ?_
  rintro _ word ⟨_, hlen, rfl⟩
  exact h word hlen

/-- Of a number only the kind is kept, so any four bytes will do. -/
theorem stored_number {make : Nat → ConstantInfo} {word : Bytes} {e : Entry}
    (h : ∀ n, n < 0x100000000 → (make n).Written (tag :: put4 n)) (he : ∀ n, (make n).entry = e)
    (hlen : word.length = 4) : Stored e (tag :: word) := by
  obtain ⟨n, hn, rfl⟩ := exists_put4 hlen
  exact ⟨_, h n hn, he n⟩

theorem stored_wideNumber {make : Nat → ConstantInfo} {word : Bytes} {e : Entry}
    (h : ∀ n, n < 0x10000000000000000 → (make n).Written (tag :: put8 n))
    (he : ∀ n, (make n).entry = e) (hlen : word.length = 8) : Stored e (tag :: word) := by
  obtain ⟨n, hn, rfl⟩ := exists_put8 hlen
  exact ⟨_, h n hn, he n⟩

theorem stored_dynamic {word : Bytes} (hlen : word.length = 4) :
    Stored (.narrow .dynamic) (17 :: word) := by
  obtain ⟨a, b, c, d, rfl⟩ := exists_four hlen
  have hwritten : (ConstantInfo.dynamic (be2 a b) (be2 c d)).Written
      (17 :: (put2 (be2 a b) ++ put2 (be2 c d))) :=
    .operands nofun ⟨be2_lt a b, be2_lt c d⟩
  rw [put2_be2, put2_be2] at hwritten
  exact ⟨_, hwritten, rfl⟩

end Operands

/-- What is read as an entry is written as it. -/
theorem yields_read (slot : Nat) : Yields (read slot) Stored := by
  refine parses_u1.yields_bind ?_
  rintro tag _ ⟨-, rfl⟩
  split
  · refine (parses_readText slot).map.yields ?_
    rintro _ _ ⟨text, ⟨data, hlen, h, rfl⟩, rfl⟩
    exact ⟨_, .text hlen h, rfl⟩
  · exact yields_skipped fun _ =>
      stored_number (fun n h => .operands (c := .integer n) nofun h) fun _ => rfl
  · exact yields_skipped fun _ =>
      stored_number (fun n h => .operands (c := .float n) nofun h) fun _ => rfl
  · exact yields_skipped fun _ =>
      stored_wideNumber (fun n h => .operands (c := .long n) nofun h) fun _ => rfl
  · exact yields_skipped fun _ =>
      stored_wideNumber (fun n h => .operands (c := .double n) nofun h) fun _ => rfl
  · exact yields_operand (fun n h => .operands (c := .classRef n) nofun h) fun _ => rfl
  · exact yields_operand (fun n h => .operands (c := .string n) nofun h) fun _ => rfl
  · exact yields_operands (fun i j h => .operands (c := .fieldRef i j) nofun h) fun _ _ => rfl
  · exact yields_operands (fun i j h => .operands (c := .methodRef i j) nofun h) fun _ _ => rfl
  · exact yields_operands (fun i j h => .operands (c := .interfaceMethodRef i j) nofun h) fun _ _ =>
      rfl
  · exact yields_operands (fun i j h => .operands (c := .nameAndType i j) nofun h) fun _ _ => rfl
  · refine (parses_u1.bind fun kind => parses_u2.map).yields ?_
    rintro _ _ ⟨kind, _, _, ⟨hkind, rfl⟩, ⟨reference, ⟨hreference, rfl⟩, rfl⟩, rfl⟩
    exact ⟨_, .operands (c := .methodHandle kind reference) nofun ⟨hkind, hreference⟩, rfl⟩
  · exact yields_operand (fun n h => .operands (c := .methodType n) nofun h) fun _ => rfl
  · exact yields_skipped fun _ => stored_dynamic
  · exact yields_operands (fun i j h => .operands (c := .invokeDynamic i j) nofun h) fun _ _ => rfl
  · exact yields_operand (fun n h => .operands (c := .moduleRef n) nofun h) fun _ => rfl
  · exact yields_operand (fun n h => .operands (c := .packageRef n) nofun h) fun _ => rfl
  · exact (parses_throw _).yields nofun

/-- An entry of the pool is read exactly if it is stored in one of the ways that the format
allows. -/
theorem parses_read (slot : Nat) : Parses (read slot) Stored := by
  refine fun data e rest => ⟨yields_read slot data e rest, ?_⟩
  rintro ⟨word, ⟨c, h, rfl⟩, rfl⟩
  exact h.reads slot rest

end Constant

/-! ## Reading -/

namespace Pool

open ConstantInfo

/-- The entries that were read from an input, and what they leave of it: they stand one behind the
other, and each of them was begun while the number of its slot was below the announced one. -/
structure Entries (count start : Nat) (data : Bytes) (cs : List ConstantInfo)
    (rest : Bytes) : Prop where
  words : ∃ word, Words Written cs word ∧ data = word ++ rest
  begun : ∀ front c back, cs = front ++ c :: back → start + slotsOf front < count

section Reading

variable {count start : Nat} {cs : List ConstantInfo} {c : ConstantInfo} {data word rest : Bytes}

theorem entries_nil : Entries count start data [] data := ⟨⟨[], rfl, rfl⟩, by simp⟩

/-- One more entry in front. -/
theorem Entries.cons (h : Entries count (start + c.slots) data cs rest) (hlt : start < count)
    (hc : c.Written word) : Entries count start (word ++ data) (c :: cs) rest := by
  obtain ⟨back, hback, rfl⟩ := h.words
  refine ⟨⟨word ++ back, ⟨word, back, hc, hback, rfl⟩, by rw [List.append_assoc]⟩, ?_⟩
  intro front d behind heq
  cases front with
  | nil => exact hlt
  | cons f front =>
    obtain ⟨rfl, hcs⟩ := List.cons.inj heq
    rw [slotsOf_cons, ← Nat.add_assoc]
    exact h.begun front d behind hcs

/-- Each round fills a slot. -/
theorem Entries.length_le (h : Entries count start data cs rest) : cs.length ≤ count := by
  rcases List.eq_nil_or_concat' cs with rfl | ⟨front, c, rfl⟩
  · exact Nat.zero_le count
  · have hlt := h.begun front c [] rfl
    have hle := length_le_slotsOf front
    rw [List.length_append, List.length_singleton]
    omega

/-- Only the last entry may go beyond the announced slots, and then with an unusable one. -/
theorem Entries.holds (h : Entries count 1 data cs rest) (hcount : count ≤ 1 + slotsOf cs) :
    (ofInfos cs).Holds count cs := by
  have hall := holds_ofInfos cs
  refine ⟨hall.entry, hall.zero, hall.second, fun i hi => ?_⟩
  rcases List.eq_nil_or_concat' cs with rfl | ⟨front, c, rfl⟩
  · cases i with
    | zero => exact hall.zero
    | succ i => exact hall.beyond _ (by rw [slotsOf_nil]; omega)
  · have hlt := h.begun front c [] rfl
    have hc := c.slots_le_two
    have hsize : slotsOf (front ++ [c]) = slotsOf front + c.slots := by
      rw [slotsOf_append, slotsOf_cons, slotsOf_nil, Nat.add_zero]
    by_cases hbeyond : 1 + slotsOf (front ++ [c]) ≤ i
    · exact hall.beyond i hbeyond
    · obtain rfl : i = 2 + slotsOf front := by omega
      exact hall.second front c [] rfl (by omega)

/-- What can become of an input: the slots of the entries that stand there, or the failure at the
first bytes that are no entry. -/
theorem readSlots_cases (count : Nat) (f : Filling) (data : Bytes) :
    ∃ cs rest, Entries count f.index data cs rest ∧
      ((count ≤ f.index + slotsOf cs ∧
          readSlots count f data = .ok (⟨f.entries.toList ++ cs.flatMap cells⟩, rest)) ∨
        (f.index + slotsOf cs < count ∧ ∃ e, Constant.read (f.index + slotsOf cs) rest = .error e ∧
          readSlots count f data = .error e)) := by
  rw [readSlots]
  split
  · next hlt =>
    rw [run_bind]
    cases hread : Constant.read f.index data with
    | error e => exact ⟨[], data, entries_nil, .inr ⟨hlt, e, hread, rfl⟩⟩
    | ok p =>
      obtain ⟨e, after⟩ := p
      obtain ⟨word, ⟨c, hc, rfl⟩, rfl⟩ := (Constant.parses_read _ _ _ _).1 hread
      obtain ⟨cs, rest, hentries, hend⟩ := readSlots_cases count (f.add c.entry) after
      rw [f.index_add_entry] at hentries hend
      rw [f.toList_add_entry] at hend
      refine ⟨c :: cs, rest, hentries.cons hlt hc, ?_⟩
      rw [slotsOf_cons, List.flatMap_cons, ← Nat.add_assoc, ← List.append_assoc]
      exact hend
  · next hge =>
    refine ⟨[], data, entries_nil, .inl ⟨by rw [slotsOf_nil]; omega, ?_⟩⟩
    rw [List.flatMap_nil, List.append_nil]
    rfl
termination_by count - f.index
decreasing_by
  have := f.index_lt_index_add c.entry
  omega

/-- Where an entry cannot be read, none stands. -/
theorem no_entry_of_error {slot : Nat} {e : ClassError} (h : Constant.read slot rest = .error e) :
    ∀ c word back, ConstantInfo.Written c word → rest ≠ word ++ back := by
  rintro c word back hc rfl
  rw [hc.reads slot back] at h
  cases h

/-- The next slot is the one behind those that were filled, whatever the entries are. -/
theorem aligned_foldl (es : List Constant.Entry) : (es.foldl Filling.add .start).Aligned := by
  have hfrom : ∀ f : Filling, f.Aligned → (es.foldl Filling.add f).Aligned := by
    induction es with
    | nil => exact fun f h => h
    | cons e es ih => exact fun f h => ih (f.add e) (h.add e)
  exact hfrom _ Filling.aligned_start

end Reading

/-! ## Look-ups -/

/-- What the look-ups find, by the entries that they go through. -/
structure LooksUp (pool : Pool) : Prop where
  utf8 : ∀ i text, pool.utf8 i = .ok text ↔ pool.get i = .ok (.utf8 text)
  className : ∀ i name, pool.className i = .ok name ↔
    ∃ j, pool.get i = .ok (.classRef j) ∧ pool.get j = .ok (.utf8 name)
  nameAndType : ∀ i name descriptor, pool.nameAndType i = .ok (name, descriptor) ↔
    ∃ j k, pool.get i = .ok (.nameAndType j k) ∧ pool.get j = .ok (.utf8 name) ∧
      pool.get k = .ok (.utf8 descriptor)
  memberRef : ∀ i m, pool.memberRef i = .ok m ↔
    ∃ owner member, ((m.isField = true ∧ m.onInterface = false) ∧
      pool.get i = .ok (.fieldRef owner member) ∨
        (m.isField = false ∧ m.onInterface = false) ∧ pool.get i = .ok (.methodRef owner member) ∨
        (m.isField = false ∧ m.onInterface = true) ∧
          pool.get i = .ok (.interfaceMethodRef owner member)) ∧
      (∃ j, pool.get owner = .ok (.classRef j) ∧ pool.get j = .ok (.utf8 m.owner)) ∧
      ∃ j k, pool.get member = .ok (.nameAndType j k) ∧ pool.get j = .ok (.utf8 m.name) ∧
        pool.get k = .ok (.utf8 m.descriptor)

section LookUps

variable {pool : Pool} {i : Nat}

theorem utf8_eq_ok_iff {text : String} :
    pool.utf8 i = .ok text ↔ pool.get i = .ok (.utf8 text) := by
  unfold utf8
  rw [bind_eq_ok]
  constructor
  · rintro ⟨c, hc, h⟩
    cases c with
    | utf8 text =>
      cases h
      exact hc
    | _ => cases h
  · intro h
    exact ⟨_, h, rfl⟩

/-- A class name is found iff the index is that of a class entry, which points to a text. -/
theorem className_eq_ok_iff {name : String} : pool.className i = .ok name ↔
    ∃ j, pool.get i = .ok (.classRef j) ∧ pool.get j = .ok (.utf8 name) := by
  unfold className
  rw [bind_eq_ok]
  constructor
  · rintro ⟨c, hc, h⟩
    cases c with
    | classRef j => exact ⟨j, hc, utf8_eq_ok_iff.1 h⟩
    | _ => cases h
  · rintro ⟨j, hi, hj⟩
    exact ⟨_, hi, utf8_eq_ok_iff.2 hj⟩

theorem nameAndType_eq_ok_iff {name descriptor : String} :
    pool.nameAndType i = .ok (name, descriptor) ↔
    ∃ j k, pool.get i = .ok (.nameAndType j k) ∧ pool.get j = .ok (.utf8 name) ∧
    pool.get k = .ok (.utf8 descriptor) := by
  unfold nameAndType
  rw [bind_eq_ok]
  constructor
  · rintro ⟨c, hc, h⟩
    cases c with
    | nameAndType j k =>
      obtain ⟨_, hj, h⟩ := bind_eq_ok.1 h
      obtain ⟨_, hk, h⟩ := bind_eq_ok.1 h
      cases h
      exact ⟨j, k, hc, utf8_eq_ok_iff.1 hj, utf8_eq_ok_iff.1 hk⟩
    | _ => cases h
  · rintro ⟨j, k, hi, hj, hk⟩
    exact ⟨_, hi, bind_eq_ok.2 ⟨_, utf8_eq_ok_iff.2 hj, bind_eq_ok.2 ⟨_, utf8_eq_ok_iff.2 hk, rfl⟩⟩⟩

theorem memberAt_eq_ok_iff {owner member : Nat} {isField onInterface : Bool} {m : MemberRef} :
    pool.memberAt owner member isField onInterface = .ok m ↔
    (m.isField = isField ∧ m.onInterface = onInterface) ∧
      pool.className owner = .ok m.owner ∧
      pool.nameAndType member = .ok (m.name, m.descriptor) := by
  unfold memberAt
  rw [bind_eq_ok]
  constructor
  · rintro ⟨_, howner, h⟩
    obtain ⟨_, hmember, h⟩ := bind_eq_ok.1 h
    cases h
    exact ⟨⟨rfl, rfl⟩, howner, hmember⟩
  · rintro ⟨⟨rfl, rfl⟩, howner, hmember⟩
    exact ⟨_, howner, bind_eq_ok.2 ⟨_, hmember, rfl⟩⟩

/-- A member is found iff the index is that of one of the three kinds of members, and its parts are
found. -/
theorem memberRef_eq_ok_iff {m : MemberRef} : pool.memberRef i = .ok m ↔
    ∃ owner member, ((m.isField = true ∧ m.onInterface = false) ∧
      pool.get i = .ok (.fieldRef owner member) ∨
        (m.isField = false ∧ m.onInterface = false) ∧ pool.get i = .ok (.methodRef owner member) ∨
        (m.isField = false ∧ m.onInterface = true) ∧
        pool.get i = .ok (.interfaceMethodRef owner member)) ∧
      pool.className owner = .ok m.owner ∧
      pool.nameAndType member = .ok (m.name, m.descriptor) := by
  unfold memberRef
  rw [bind_eq_ok]
  constructor
  · rintro ⟨c, hc, h⟩
    cases c with
    | fieldRef owner member =>
      obtain ⟨hkind, hnames⟩ := memberAt_eq_ok_iff.1 h
      exact ⟨owner, member, .inl ⟨hkind, hc⟩, hnames⟩
    | methodRef owner member =>
      obtain ⟨hkind, hnames⟩ := memberAt_eq_ok_iff.1 h
      exact ⟨owner, member, .inr (.inl ⟨hkind, hc⟩), hnames⟩
    | interfaceMethodRef owner member =>
      obtain ⟨hkind, hnames⟩ := memberAt_eq_ok_iff.1 h
      exact ⟨owner, member, .inr (.inr ⟨hkind, hc⟩), hnames⟩
    | _ => cases h
  · rintro ⟨owner, member, ⟨hkind, hi⟩ | ⟨hkind, hi⟩ | ⟨hkind, hi⟩, hnames⟩
    · exact ⟨_, hi, memberAt_eq_ok_iff.2 ⟨hkind, hnames⟩⟩
    · exact ⟨_, hi, memberAt_eq_ok_iff.2 ⟨hkind, hnames⟩⟩
    · exact ⟨_, hi, memberAt_eq_ok_iff.2 ⟨hkind, hnames⟩⟩

theorem looksUp (pool : Pool) : pool.LooksUp where
  utf8 := fun _ _ => utf8_eq_ok_iff
  className := fun _ _ => className_eq_ok_iff
  nameAndType := fun _ _ _ => nameAndType_eq_ok_iff
  memberRef := fun _ _ => by
    rw [memberRef_eq_ok_iff]; simp only [className_eq_ok_iff, nameAndType_eq_ok_iff]

end LookUps

/-- **Entries are found at their slots.** While a pool is read, the number of the next slot is the
number of slots that were filled. A pool is read from the bytes of its entries and from nothing more
if it announces the number of their slots, and then each entry is found at the number of slots in
front of it, with the operands that its kind keeps, and nothing is found anywhere else. Any other
input is read as entries too, until there are as many slots as announced or no entry stands there,
so there are at most as many rounds as slots. And a look-up in any pool succeeds iff it goes through
entries of the kinds that it asks for. -/
theorem entries_at_slots :
    (∀ es : List Constant.Entry, (es.foldl Filling.add .start).Aligned) ∧
    (∀ cs word, Words Written cs word → 1 + slotsOf cs ≤ 0xFFFF →
      ∃ pool : Pool, Reads read (put2 (1 + slotsOf cs) ++ word) pool ∧
        pool.Holds (1 + slotsOf cs) cs) ∧
    (∀ data : Bytes, data.length < 2 ∧ read data = .error .unexpectedEof ∨
      ∃ count body cs rest, data = put2 count ++ body ∧ Entries count 1 body cs rest ∧
        cs.length ≤ count ∧
        (count ≤ 1 + slotsOf cs ∧
          (∃ pool : Pool, read data = .ok (pool, rest) ∧ pool.Holds count cs) ∨
          1 + slotsOf cs < count ∧ (∀ c word back, Written c word → rest ≠ word ++ back) ∧
            ∃ e, Constant.read (1 + slotsOf cs) rest = .error e ∧ read data = .error e)) ∧
    ∀ pool : Pool, pool.LooksUp := by
  refine ⟨aligned_foldl, fun cs word hwords hcount => ?_, fun data => ?_, looksUp⟩
  · exact ⟨ofInfos cs, reads_read hwords hcount, holds_ofInfos cs⟩
  · rcases data with _ | ⟨a, _ | ⟨b, body⟩⟩
    · exact .inl ⟨by simp, rfl⟩
    · exact .inl ⟨by simp, rfl⟩
    · right
      have hread : read (a :: b :: body) =
          (readSlots (be2 a b) .start body).map fun p => (⟨p.1⟩, p.2) := by
        show (readSlots (be2 a b) .start >>= fun slots => pure (Pool.mk slots)) body = _
        rw [run_bind]
        cases readSlots (be2 a b) .start body with
        | error e => rfl
        | ok p => rfl
      obtain ⟨cs, rest, hentries, hend⟩ := readSlots_cases (be2 a b) .start body
      refine ⟨be2 a b, body, cs, rest, by rw [put2_be2]; rfl, hentries, hentries.length_le, ?_⟩
      rw [hread]
      rcases hend with ⟨hcount, hslots⟩ | ⟨hcount, e, he, hslots⟩
      · rw [hslots]
        exact .inl ⟨hcount, ofInfos cs, rfl, hentries.holds hcount⟩
      · rw [hslots]
        exact .inr ⟨hcount, no_entry_of_error he, e, he, rfl⟩

/-- A `long` in front of a class and its name, and a dynamic call site. -/
def clockEntries : List ConstantInfo :=
  [.long 0x100000001, .classRef 4, .utf8 "Clock", .invokeDynamic 2 9]

/-- The entries in bytes. -/
def clockBytes : Bytes :=
  [5, 0, 0, 0, 1, 0, 0, 0, 1, 7, 0, 4, 1, 0, 5, 0x43, 0x6C, 0x6F, 0x63, 0x6B, 18, 0, 2, 0, 9]

/-- The class behind the `long` is found two slots behind it, and the slot between them is unusable.
Of the number only the kind is kept, and of the call site the bootstrap method. -/
theorem entries_at_slots_clock :
    Words Written clockEntries clockBytes ∧
    ∃ pool : Pool, Reads read (0 :: 6 :: clockBytes) pool ∧
      pool.get 1 = .ok .number ∧ pool.get 2 = .error (.invalidConstantIndex 2) ∧
      pool.className 3 = .ok "Clock" ∧ pool.get 5 = .ok (.invokeDynamic 2) ∧
      pool.get 6 = .error (.invalidConstantIndex 6) := by
  have hwords : Words Written clockEntries clockBytes := by
    refine ⟨_, _, .operands nofun (show 0x100000001 < 0x10000000000000000 by decide), ?_, rfl⟩
    refine ⟨_, _, .operands nofun (show 4 < 0x10000 by decide), ?_, rfl⟩
    refine ⟨_, _, @Written.text _ [0x43, 0x6C, 0x6F, 0x63, 0x6B] (by decide) (by decide +kernel),
      ?_, rfl⟩
    exact ⟨_, _, .operands nofun (show 2 < 0x10000 ∧ 9 < 0x10000 by decide), rfl, rfl⟩
  obtain ⟨-, hentries, -, hlooks⟩ := entries_at_slots
  obtain ⟨pool, hread, hholds⟩ := hentries clockEntries clockBytes hwords (by decide)
  refine ⟨hwords, pool, hread, hholds.entry [] _ _ rfl,
    hholds.second [] (.long 0x100000001) _ rfl rfl, ?_,
    hholds.entry [.long 0x100000001, .classRef 4, .utf8 "Clock"] _ [] rfl,
    hholds.beyond 6 (by decide)⟩
  have hclass : pool.get 3 = .ok (.classRef 4) := hholds.entry [.long 0x100000001] _ _ rfl
  have hname : pool.get 4 = .ok (.utf8 "Clock") :=
    hholds.entry [.long 0x100000001, .classRef 4] _ _ rfl
  exact ((hlooks pool).className 3 "Clock").2 ⟨4, hclass, hname⟩

end Pool

end JvmAudit
