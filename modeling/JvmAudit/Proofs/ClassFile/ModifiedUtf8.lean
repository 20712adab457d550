import JvmAudit.ClassFile.ModifiedUtf8

/-!
# Modified UTF-8 read back

Every text is read back from its bytes (`decode?_encode`). The two layers are read back one by one:
bytes into units, a sequence of bytes for each (`IsSequence`), and units into characters. The short
way for ASCII gives what the long way gives (`decode?_eq_decodeGeneral?`).
-/

namespace JvmAudit

/-! ## Units -/

namespace Text

/-- No character has the number of a surrogate. -/
theorem lt_or_le_of_char (c : Char) :
    c.toNat < 0xD800 ∨ (0xE000 ≤ c.toNat ∧ c.toNat < 0x110000) := by
  rcases c.valid with h | ⟨h, h'⟩
  · exact .inl h
  · exact .inr ⟨by show 0xE000 ≤ c.val.toNat; omega, h'⟩

/-- The units of a character are put together again, one or a pair of surrogates. -/
theorem ofUnits?_charUnits (c : Char) (rest : List Nat) :
    ofUnits? (charUnits c ++ rest) = (ofUnits? rest).map (c :: ·) := by
  have hc := lt_or_le_of_char c
  unfold charUnits
  by_cases h : c.toNat < 0x10000
  · have hplain : (decide (c.toNat < 0xD800) || decide (0xE000 ≤ c.toNat)) = true := by
      simp only [Bool.or_eq_true, decide_eq_true_eq]
      omega
    rw [if_pos h, List.singleton_append, ofUnits?.eq_def]
    simp only [hplain, if_true, Char.ofNat_toNat]
  · -- the two surrogates hold the upper and the lower ten bits of what is above the first plane
    rw [if_neg h]
    generalize hn : c.toNat - 0x10000 = n
    have hhigh :
        (decide (0xD800 + n / 0x400 < 0xD800) || decide (0xE000 ≤ 0xD800 + n / 0x400)) = false := by
      simp only [Bool.or_eq_false_iff, decide_eq_false_iff_not]
      omega
    have hlow :
        (decide (0xDC00 ≤ 0xDC00 + n % 0x400) && decide (0xDC00 + n % 0x400 < 0xE000)) = true := by
      simp only [Bool.and_eq_true, decide_eq_true_eq]
      omega
    have hback : 0x10000 + (0xD800 + n / 0x400 - 0xD800) * 0x400 +
        (0xDC00 + n % 0x400 - 0xDC00) = c.toNat := by
      omega
    simp only [List.cons_append, List.nil_append]
    rw [ofUnits?, hhigh, if_neg (by simp), if_pos (by omega)]
    simp only [hlow, if_true]
    rw [hback, Char.ofNat_toNat]

/-- A text is made of its units. -/
theorem ofUnits?_units (cs : List Char) : ofUnits? (units cs) = some cs := by
  induction cs with
  | nil => rfl
  | cons c cs ih =>
    show ofUnits? (charUnits c ++ units cs) = _
    rw [ofUnits?_charUnits, ih]
    rfl

theorem units_lt {cs : List Char} {u : Nat} (h : u ∈ units cs) : u < 0x10000 := by
  obtain ⟨c, _, hu⟩ := List.mem_flatMap.1 h
  have hc := lt_or_le_of_char c
  unfold charUnits at hu
  split at hu
  · next hlt =>
    rw [List.mem_singleton.1 hu]
    exact hlt
  · simp only [List.mem_cons, List.not_mem_nil, or_false] at hu
    omega

end Text

/-! ## Bytes -/

namespace ModifiedUtf8

theorem toNat_ofNat {n : Nat} (h : n < 0x100) : (UInt8.ofNat n).toNat = n :=
  UInt8.toNat_ofNat_of_lt' h

theorem isTail_ofNat {n : Nat} (h : n < 0x40) : isTail (.ofNat (0x80 + n)) = true := by
  unfold isTail
  rw [toNat_ofNat (by omega), beq_iff_eq]
  omega

/-- A sequence of one to three bytes, and the unit that it is read as. -/
inductive IsSequence : List UInt8 → Nat → Prop
  | one {a : UInt8} (ha : a.toNat < 0x80) : IsSequence [a] a.toNat
  | two {a b : UInt8} (ha : a.toNat / 0x20 = 6) (hb : isTail b = true) :
    IsSequence [a, b] (a.toNat % 0x20 * 0x40 + b.toNat % 0x40)
  | three {a b c : UInt8} (ha : a.toNat / 0x10 = 14) (hb : isTail b = true) (hc : isTail c = true) :
    IsSequence [a, b, c] (a.toNat % 0x10 * 0x1000 + b.toNat % 0x40 * 0x40 + c.toNat % 0x40)

variable {sequence : List UInt8} {u : Nat}

/-- The bytes of a unit are decoded as this unit. -/
theorem IsSequence.decodeUnits?_append (h : IsSequence sequence u) (rest : List UInt8) :
    decodeUnits? (sequence ++ rest) = (decodeUnits? rest).map (u :: ·) := by
  cases h with
  | one ha =>
    simp only [List.cons_append, List.nil_append]
    rw [decodeUnits?.eq_def]
    simp only [ha, if_true]
  | two ha hb =>
    simp only [List.cons_append, List.nil_append]
    rw [decodeUnits?, if_neg (by omega), if_pos (by simpa using ha)]
    simp only [hb, if_true]
  | three ha hb hc =>
    simp only [List.cons_append, List.nil_append]
    rw [decodeUnits?, if_neg (by omega), if_neg (by rw [beq_iff_eq]; omega),
      if_pos (by simpa using ha)]
    simp only [hb, hc, Bool.and_self, if_true]

theorem isSequence_one (h : u < 0x80) : IsSequence [.ofNat u] u := by
  have hbyte : (UInt8.ofNat u).toNat = u := toNat_ofNat (by omega)
  have hsequence := IsSequence.one (a := .ofNat u) (by omega)
  rwa [hbyte] at hsequence

/-- A unit below U+0800 in two bytes. -/
theorem isSequence_two (h : u < 0x800) :
    IsSequence [.ofNat (0xC0 + u / 0x40), .ofNat (0x80 + u % 0x40)] u := by
  have hhead : (UInt8.ofNat (0xC0 + u / 0x40)).toNat = 0xC0 + u / 0x40 := toNat_ofNat (by omega)
  have htail : (UInt8.ofNat (0x80 + u % 0x40)).toNat = 0x80 + u % 0x40 := toNat_ofNat (by omega)
  have hunit : (0xC0 + u / 0x40) % 0x20 * 0x40 + (0x80 + u % 0x40) % 0x40 = u := by omega
  have hsequence := IsSequence.two (a := .ofNat (0xC0 + u / 0x40)) (by omega)
    (isTail_ofNat (Nat.mod_lt u (by omega : 0 < 0x40)))
  rwa [hhead, htail, hunit] at hsequence

/-- Any unit in three bytes. -/
theorem isSequence_three (h : u < 0x10000) :
    IsSequence [.ofNat (0xE0 + u / 0x1000), .ofNat (0x80 + u / 0x40 % 0x40),
      .ofNat (0x80 + u % 0x40)] u := by
  have hhead : (UInt8.ofNat (0xE0 + u / 0x1000)).toNat = 0xE0 + u / 0x1000 := toNat_ofNat (by omega)
  have hmid : (UInt8.ofNat (0x80 + u / 0x40 % 0x40)).toNat = 0x80 + u / 0x40 % 0x40 :=
    toNat_ofNat (by omega)
  have htail : (UInt8.ofNat (0x80 + u % 0x40)).toNat = 0x80 + u % 0x40 := toNat_ofNat (by omega)
  have hunit : (0xE0 + u / 0x1000) % 0x10 * 0x1000 + (0x80 + u / 0x40 % 0x40) % 0x40 * 0x40 +
      (0x80 + u % 0x40) % 0x40 = u := by omega
  have hsequence := IsSequence.three (a := .ofNat (0xE0 + u / 0x1000)) (by omega)
    (isTail_ofNat (Nat.mod_lt (u / 0x40) (by omega : 0 < 0x40)))
      (isTail_ofNat (Nat.mod_lt u (by omega : 0 < 0x40)))
  rwa [hhead, hmid, htail, hunit] at hsequence

/-- What is written for a unit is a sequence that is read as the unit. -/
theorem isSequence_encodeUnit (h : u < 0x10000) : IsSequence (encodeUnit u) u := by
  unfold encodeUnit
  split
  · next hone =>
    simp only [Bool.and_eq_true, decide_eq_true_eq] at hone
    exact isSequence_one hone.2
  · split
    · next htwo => exact isSequence_two htwo
    · exact isSequence_three h

/-- Encoded units are decoded one by one. -/
theorem decodeUnits?_flatMap {us : List Nat} (h : ∀ u ∈ us, u < 0x10000) :
    decodeUnits? (us.flatMap encodeUnit) = some us := by
  induction us with
  | nil => rfl
  | cons u us ih =>
    rw [List.flatMap_cons, (isSequence_encodeUnit (h u List.mem_cons_self)).decodeUnits?_append,
      ih fun v hv => h v (List.mem_cons_of_mem _ hv)]
    rfl

/-- An encoded text is decoded by the general decoder. -/
theorem decodeGeneral?_encode (text : String) : decodeGeneral? (encode text) = some text := by
  unfold decodeGeneral? encode
  rw [decodeUnits?_flatMap fun u hu => Text.units_lt hu]
  simp [Text.ofUnits?_units]

/-! ## ASCII -/

theorem decodeUnits?_ascii {bytes : List UInt8} (h : ∀ b ∈ bytes, b.toNat < 0x80) :
    decodeUnits? bytes = some (bytes.map UInt8.toNat) := by
  induction bytes with
  | nil => rfl
  | cons b bytes ih =>
    unfold decodeUnits?
    rw [if_pos (h b List.mem_cons_self), ih fun c hc => h c (List.mem_cons_of_mem _ hc)]
    rfl

theorem ofUnits?_ascii {us : List Nat} (h : ∀ u ∈ us, u < 0x80) :
    Text.ofUnits? us = some (us.map Char.ofNat) := by
  induction us with
  | nil => rfl
  | cons u us ih =>
    have hu : (decide (u < 0xD800) || decide (0xE000 ≤ u)) = true := by
      have := h u List.mem_cons_self
      simp only [Bool.or_eq_true, decide_eq_true_eq]
      omega
    unfold Text.ofUnits?
    rw [if_pos hu, ih fun v hv => h v (List.mem_cons_of_mem _ hv)]
    rfl

/-- The short way for ASCII gives what the long way gives. -/
theorem decode?_eq_decodeGeneral? (bytes : List UInt8) : decode? bytes = decodeGeneral? bytes := by
  unfold decode?
  split
  · next hascii =>
    have hlt : ∀ b ∈ bytes, b.toNat < 0x80 := by
      intro b hb
      have hb' := List.all_eq_true.1 hascii b hb
      simp only [Bool.and_eq_true, decide_eq_true_eq] at hb'
      exact UInt8.lt_iff_toNat_lt.1 hb'.2
    have hunits : ∀ u ∈ bytes.map UInt8.toNat, u < 0x80 := by
      intro u hu
      obtain ⟨b, hb, rfl⟩ := List.mem_map.1 hu
      exact hlt b hb
    simp [decodeGeneral?, decodeUnits?_ascii hlt, ofUnits?_ascii hunits, ofAscii, Function.comp_def]
  · rfl

/-- Every text is read back. -/
theorem decode?_encode (text : String) : decode? (encode text) = some text := by
  rw [decode?_eq_decodeGeneral?, decodeGeneral?_encode]

end ModifiedUtf8

end JvmAudit
