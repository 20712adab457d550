import JvmAudit.Proofs.ClassFile.ModifiedUtf8
import Mathlib.Data.List.Forall2
import Mathlib.Data.List.SplitBy

/-!
# Shortest form

Reading is more liberal than writing. Of the byte sequences that are read as a text, exactly one is
written for it: the one without a zero byte in which every sequence of several bytes is the shortest
one for its unit, except `C0 80`.

What can be read is a series of sequences, each of which stands for one unit
(`decodeUnits?_eq_some_iff`). A byte that does not continue a sequence begins one, so the series is
found by cutting in front of these bytes (`sequences_flatten`).
-/

namespace JvmAudit

/-! ## Units -/

namespace Text

theorem toNat_char {n : Nat} (h : n.isValidChar) : (Char.ofNat n).toNat = n := by
  rw [Char.ofNat, dif_pos h]
  rfl

/-- Units that are read as a text are the units of the text. -/
theorem units_of_ofUnits? {us : List Nat} {cs : List Char} (hlt : ∀ u ∈ us, u < 0x10000)
    (h : ofUnits? us = some cs) : units cs = us := by
  fun_induction ofUnits? us generalizing cs with
  | case1 =>
    cases h
    rfl
  | case2 u rest hplain ih =>
    obtain ⟨back, hback, rfl⟩ := Option.map_eq_some_iff.1 h
    have hu := hlt u List.mem_cons_self
    have hvalid : u.isValidChar := by
      simp only [Bool.or_eq_true, decide_eq_true_eq] at hplain
      unfold Nat.isValidChar
      omega
    have hunits : charUnits (Char.ofNat u) = [u] := by
      rw [charUnits, toNat_char hvalid, if_pos hu]
    show charUnits (Char.ofNat u) ++ units back = _
    rw [hunits, ih (fun v hv => hlt v (List.mem_cons_of_mem _ hv)) hback]
    rfl
  | case3 u hplain hhigh v rest hlow ih =>
    obtain ⟨back, hback, rfl⟩ := Option.map_eq_some_iff.1 h
    simp only [Bool.or_eq_true, Bool.and_eq_true, decide_eq_true_eq] at hplain hlow
    -- the numbers of two surrogates are those above the first plane
    generalize hn : 0x10000 + (u - 0xD800) * 0x400 + (v - 0xDC00) = n
    have hvalid : n.isValidChar := by
      unfold Nat.isValidChar
      omega
    have hunits : charUnits (Char.ofNat n) = [u, v] := by
      have hfirst : 0xD800 + (n - 0x10000) / 0x400 = u := by omega
      have hsecond : 0xDC00 + (n - 0x10000) % 0x400 = v := by omega
      rw [charUnits, toNat_char hvalid, if_neg (by omega), hfirst, hsecond]
    show charUnits (Char.ofNat n) ++ units back = _
    rw [hunits, ih (fun w hw => hlt w (List.mem_cons_of_mem _ (List.mem_cons_of_mem _ hw))) hback]
    rfl
  | case4 | case5 | case6 => cases h

end Text

/-! ## Sequences -/

namespace ModifiedUtf8

variable {bytes sequence : List UInt8} {u : Nat} {us : List Nat}

/-- Reading takes a sequence off the front. -/
theorem exists_sequence {a : UInt8} {rest : List UInt8} (h : decodeUnits? (a :: rest) = some us) :
    ∃ sequence back u more, IsSequence sequence u ∧ a :: rest = sequence ++ back ∧
      decodeUnits? back = some more ∧ us = u :: more := by
  rw [decodeUnits?.eq_def] at h
  simp only at h
  split at h
  · next ha =>
    obtain ⟨more, hmore, rfl⟩ := Option.map_eq_some_iff.1 h
    exact ⟨[a], rest, _, more, .one ha, rfl, hmore, rfl⟩
  · split at h
    · next ha =>
      split at h
      · next b back =>
        split at h
        · next hb =>
          obtain ⟨more, hmore, rfl⟩ := Option.map_eq_some_iff.1 h
          exact ⟨[a, b], back, _, more, .two (by simpa using ha) hb, rfl, hmore, rfl⟩
        · cases h
      · cases h
    · split at h
      · next ha =>
        split at h
        · next b c back =>
          split at h
          · next hbc =>
            obtain ⟨hb, hc⟩ := Bool.and_eq_true_iff.1 hbc
            obtain ⟨more, hmore, rfl⟩ := Option.map_eq_some_iff.1 h
            exact ⟨[a, b, c], back, _, more, .three (by simpa using ha) hb hc, rfl, hmore, rfl⟩
          · cases h
        · cases h
      · cases h

/-- What can be read is a series of sequences, one for each unit. -/
theorem decodeUnits?_eq_some_iff :
    decodeUnits? bytes = some us ↔ ∃ parts, bytes = parts.flatten ∧
    List.Forall₂ IsSequence parts us := by
  constructor
  · intro h
    -- by induction on the units: each one uses up a sequence
    induction us generalizing bytes with
    | nil =>
      cases bytes with
      | nil => exact ⟨[], rfl, .nil⟩
      | cons a rest =>
        obtain ⟨_, _, _, _, _, _, _, hus⟩ := exists_sequence h
        cases hus
    | cons u us ih =>
      cases bytes with
      | nil => cases h
      | cons a rest =>
        obtain ⟨sequence, back, _, _, hsequence, hbytes, hback, hus⟩ := exists_sequence h
        cases hus
        obtain ⟨parts, rfl, hparts⟩ := ih hback
        exact ⟨sequence :: parts, hbytes, .cons hsequence hparts⟩
  · rintro ⟨parts, rfl, hparts⟩
    induction hparts with
    | nil => rfl
    | cons hpart _ ih => rw [List.flatten_cons, hpart.decodeUnits?_append, ih, Option.map_some]

theorem IsSequence.decodeUnits? (h : IsSequence sequence u) : decodeUnits? sequence = some [u] :=
  decodeUnits?_eq_some_iff.2 ⟨[sequence], by simp, .cons h .nil⟩

theorem IsSequence.lt (h : IsSequence sequence u) : u < 0x10000 := by
  cases h with
  | one ha => omega
  | two | three => omega

/-- The first byte of a sequence does not continue one. -/
theorem IsSequence.isTail_head? (h : IsSequence sequence u) (rest : List UInt8) :
    ∀ b ∈ (sequence ++ rest).head?, isTail b = false := by
  intro b hb
  unfold isTail
  rw [beq_eq_false_iff_ne]
  cases h with
  | one ha | two ha | three ha =>
    cases hb
    omega

/-- The bytes cut in front of each one that does not continue a sequence. -/
def sequences (bytes : List UInt8) : List (List UInt8) := bytes.splitBy fun _ b => isTail b

theorem IsSequence.sequences_eq (h : IsSequence sequence u) : sequences sequence = [sequence] := by
  refine List.splitBy_of_isChain ?_ ?_
  · cases h <;> simp
  · cases h with
    | one ha => simp
    | two ha hb => simpa using hb
    | three ha hb hc => simpa using And.intro hb hc

/-- A text falls apart into its sequences again. -/
theorem sequences_flatten {parts : List (List UInt8)} (h : List.Forall₂ IsSequence parts us) :
    sequences parts.flatten = parts := by
  induction h with
  | nil => rfl
  | @cons part u parts us hpart hparts ih =>
    -- what follows is empty or starts with a byte that begins a sequence, so it is cut off
    have hcut : ∀ a ∈ part.getLast?, ∀ b ∈ parts.flatten.head?, isTail b = false := by
      intro _ _
      cases hparts with
      | nil => simp
      | cons hnext _ => exact hnext.isTail_head? _
    have happend : sequences (part ++ parts.flatten) = sequences part ++ sequences parts.flatten :=
      List.splitBy_append hcut
    rw [List.flatten_cons, happend, hpart.sequences_eq, ih, List.singleton_append]

/-! ## Shortest sequences -/

theorem length_encodeUnit (u : Nat) :
    (encodeUnit u).length = if 1 ≤ u ∧ u < 0x80 then 1 else if u < 0x800 then 2 else 3 := by
  unfold encodeUnit
  simp only [Bool.and_eq_true, decide_eq_true_eq]
  split
  · rfl
  · split <;> rfl

/-- No shorter byte sequence is read as the same units. -/
def IsShortest (sequence : List UInt8) : Prop :=
  ∀ shorter : List UInt8, shorter.length < sequence.length →
    decodeUnits? shorter ≠ decodeUnits? sequence

variable {other : List UInt8}

/-- No other sequence for the same unit is shorter. -/
theorem IsShortest.length_le (h : IsShortest sequence) (hs : IsSequence sequence u)
    (ho : IsSequence other u) :
    sequence.length ≤ other.length := by
  by_contra hlt
  exact h other (by omega) (ho.decodeUnits?.trans hs.decodeUnits?.symm)

theorem eq_ofNat_of_isTail {b : UInt8} (h : isTail b = true) :
    b = .ofNat (0x80 + b.toNat % 0x40) := by
  have htail : b.toNat / 0x40 = 2 := by simpa [isTail] using h
  rw [← UInt8.toNat_inj, toNat_ofNat (by omega)]
  omega

/-- A sequence is determined by its length and its unit. -/
theorem IsSequence.eq_cases (h : IsSequence sequence u) :
    u < 0x80 ∧ sequence = [.ofNat u] ∨
    u < 0x800 ∧ sequence = [.ofNat (0xC0 + u / 0x40), .ofNat (0x80 + u % 0x40)] ∨
    sequence =
      [.ofNat (0xE0 + u / 0x1000), .ofNat (0x80 + u / 0x40 % 0x40), .ofNat (0x80 + u % 0x40)] := by
  cases h with
  | one ha => exact .inl ⟨ha, by rw [UInt8.ofNat_toNat]⟩
  | @two a b ha hb =>
    generalize hu : a.toNat % 0x20 * 0x40 + b.toNat % 0x40 = u
    have hhead : a = .ofNat (0xC0 + u / 0x40) := by
      rw [← UInt8.toNat_inj, toNat_ofNat (by omega)]
      omega
    have htail : b.toNat % 0x40 = u % 0x40 := by omega
    exact .inr (.inl ⟨by omega, by rw [← hhead, ← htail, ← eq_ofNat_of_isTail hb]⟩)
  | @three a b c ha hb hc =>
    generalize hu : a.toNat % 0x10 * 0x1000 + b.toNat % 0x40 * 0x40 + c.toNat % 0x40 = u
    have hhead : a = .ofNat (0xE0 + u / 0x1000) := by
      rw [← UInt8.toNat_inj, toNat_ofNat (by omega)]
      omega
    have hmid : b.toNat % 0x40 = u / 0x40 % 0x40 := by omega
    have htail : c.toNat % 0x40 = u % 0x40 := by omega
    refine .inr (.inr ?_)
    rw [← hhead, ← hmid, ← htail, ← eq_ofNat_of_isTail hb, ← eq_ofNat_of_isTail hc]

/-- A sequence without zero byte that is shortest, or `C0 80`, is the one that is written for its
unit. -/
theorem IsSequence.eq_encodeUnit (h : IsSequence sequence u) (hzero : 0 ∉ sequence)
    (hshort : 2 ≤ sequence.length → sequence = [0xC0, 0x80] ∨ IsShortest sequence) :
    sequence = encodeUnit u := by
  have hlt := h.lt
  unfold encodeUnit
  simp only [Bool.and_eq_true, decide_eq_true_eq]
  -- one byte is right unless it is zero, and more bytes are right unless fewer would do
  rcases h.eq_cases with ⟨hone, rfl⟩ | ⟨htwo, rfl⟩ | rfl
  · have hne : u ≠ 0 := by
      rintro rfl
      exact hzero (by decide)
    rw [if_pos ⟨by omega, hone⟩]
  · have hlong : ¬(1 ≤ u ∧ u < 0x80) := by
      rintro ⟨hpos, hone⟩
      rcases hshort (by simp) with hnul | hshort
      · have hunit : some [u] = some [0] := h.decodeUnits?.symm.trans (by rw [hnul]; decide)
        cases hunit
        omega
      · have hle := hshort.length_le h (isSequence_one hone)
        simp at hle
    rw [if_neg hlong, if_pos htwo]
  · have hlong : ¬u < 0x800 := by
      intro htwo
      rcases hshort (by simp) with hnul | hshort
      · simp at hnul
      · have hle := hshort.length_le h (isSequence_two htwo)
        simp at hle
    rw [if_neg (by omega), if_neg hlong]

theorem encodeUnit_zero : encodeUnit 0 = [0xC0, 0x80] := rfl

/-- What is written for a unit other than zero is shortest. -/
theorem isShortest_encodeUnit (hu : u ≠ 0) (h : u < 0x10000) : IsShortest (encodeUnit u) := by
  intro shorter hlt hsame
  rw [(isSequence_encodeUnit h).decodeUnits?] at hsame
  obtain ⟨parts, rfl, hparts⟩ := decodeUnits?_eq_some_iff.1 hsame
  -- bytes that are read as one unit are one sequence
  cases hparts with
  | @cons part _ _ _ hpart hrest =>
    cases hrest
    rw [List.flatten_cons, List.flatten_nil, List.append_nil, length_encodeUnit] at hlt
    rcases hpart.eq_cases with ⟨hone, rfl⟩ | ⟨htwo, rfl⟩ | rfl
    · rw [if_pos ⟨by omega, hone⟩] at hlt
      simp at hlt
    · rw [if_pos htwo] at hlt
      simp only [List.length_cons, List.length_nil] at hlt
      split at hlt <;> omega
    · simp only [List.length_cons, List.length_nil] at hlt
      split at hlt
      · omega
      · split at hlt <;> omega

theorem zero_notMem_encodeUnit (h : u < 0x10000) : 0 ∉ encodeUnit u := by
  have hne : ∀ {n}, 0 < n → n < 0x100 → 0 ≠ UInt8.ofNat n := by
    intro n hpos hlt heq
    have hnat := congrArg UInt8.toNat heq
    rw [toNat_ofNat hlt] at hnat
    exact absurd hnat (Nat.ne_of_lt hpos)
  unfold encodeUnit
  split
  · next hone =>
    simp only [Bool.and_eq_true, decide_eq_true_eq] at hone
    simpa using hne (by omega) (by omega)
  · split
    · simp only [List.mem_cons, List.not_mem_nil, or_false, not_or]
      exact ⟨hne (by omega) (by omega), hne (by omega) (by omega)⟩
    · simp only [List.mem_cons, List.not_mem_nil, or_false, not_or]
      exact ⟨hne (by omega) (by omega), hne (by omega) (by omega), hne (by omega) (by omega)⟩

/-! ## Texts -/

/-- Bytes without zero in which every sequence of several bytes is shortest, except `C0 80`. -/
structure IsStrict (bytes : List UInt8) : Prop where
  zero_notMem : 0 ∉ bytes
  shortest : ∀ sequence ∈ sequences bytes, 2 ≤ sequence.length → sequence = [0xC0, 0x80] ∨
    IsShortest sequence

/-- Sequences that are all strict are those that are written. -/
theorem eq_map_encodeUnit {parts : List (List UInt8)} (h : List.Forall₂ IsSequence parts us)
    (hstrict : ∀ part ∈ parts, 0 ∉ part ∧
      (2 ≤ part.length → part = [0xC0, 0x80] ∨ IsShortest part)) :
    parts = us.map encodeUnit := by
  induction h with
  | nil => rfl
  | cons hpart _ ih =>
    obtain ⟨hzero, hshort⟩ := hstrict _ List.mem_cons_self
    rw [List.map_cons, ← hpart.eq_encodeUnit hzero hshort, ← ih fun part hp =>
      hstrict part (List.mem_cons_of_mem _ hp)]

theorem forall₂_encodeUnit (h : ∀ u ∈ us, u < 0x10000) :
    List.Forall₂ IsSequence (us.map encodeUnit) us := by
  rw [List.forall₂_map_left_iff, List.forall₂_same]
  exact fun u hu => isSequence_encodeUnit (h u hu)

/-- Strict bytes are those that are written for their units. -/
theorem IsStrict.flatMap_encodeUnit (h : IsStrict bytes) (hread : decodeUnits? bytes = some us) :
    us.flatMap encodeUnit = bytes := by
  obtain ⟨parts, rfl, hparts⟩ := decodeUnits?_eq_some_iff.1 hread
  have hcut := sequences_flatten hparts
  have hmap : parts = us.map encodeUnit := by
    refine eq_map_encodeUnit hparts fun part hpart =>
      ⟨fun hzero => ?_, h.shortest part (hcut.symm ▸ hpart)⟩
    exact h.zero_notMem (List.mem_flatten.2 ⟨part, hpart, hzero⟩)
  rw [hmap, List.flatMap_def]

/-- What is written is strict. -/
theorem isStrict_encode (text : String) : IsStrict (encode text) := by
  have hlt : ∀ u ∈ Text.units text.toList, u < 0x10000 := fun u hu => Text.units_lt hu
  constructor
  · intro hmem
    obtain ⟨u, hu, hzero⟩ := List.mem_flatMap.1 hmem
    exact zero_notMem_encodeUnit (hlt u hu) hzero
  · intro sequence hmem _
    rw [encode, List.flatMap_def, sequences_flatten (forall₂_encodeUnit hlt)] at hmem
    obtain ⟨u, hu, rfl⟩ := List.mem_map.1 hmem
    by_cases hzero : u = 0
    · exact .inl (by rw [hzero, encodeUnit_zero])
    · exact .inr (isShortest_encodeUnit hzero (hlt u hu))

theorem lt_of_decodeUnits? (h : decodeUnits? bytes = some us) : ∀ u ∈ us, u < 0x10000 := by
  obtain ⟨parts, -, hparts⟩ := decodeUnits?_eq_some_iff.1 h
  clear h
  induction hparts with
  | nil => simp
  | cons hpart _ ih =>
    intro v hv
    rcases List.mem_cons.1 hv with rfl | hv
    · exact hpart.lt
    · exact ih v hv

/-- Strict bytes that are read as a text are those that are written for it. -/
theorem IsStrict.encode_eq {text : String} (h : IsStrict bytes)
    (hread : decode? bytes = some text) :
    encode text = bytes := by
  rw [decode?_eq_decodeGeneral?] at hread
  obtain ⟨cs, hcs, rfl⟩ := Option.map_eq_some_iff.1 hread
  obtain ⟨us, hunits, hchars⟩ := Option.bind_eq_some_iff.1 hcs
  -- back along the two layers: the units of the text are those that were read, and these were
  -- written as `bytes`
  rw [encode, String.toList_ofList, Text.units_of_ofUnits? (lt_of_decodeUnits? hunits) hchars,
    h.flatMap_encodeUnit hunits]

theorem decode?_ascii (h : ∀ b ∈ bytes, b ≠ 0 ∧ b < 0x80) :
    decode? bytes = some (ofAscii bytes) := by
  unfold decode?
  rw [if_pos]
  simpa using h

/-- Every text is read back from what is written for it, and this is all that is strict among what
is read as the text. The short way for ASCII gives what the long way gives. -/
theorem written_iff_strict :
    (∀ text, decode? (encode text) = some text) ∧
    (∀ bytes text, encode text = bytes ↔ decode? bytes = some text ∧ IsStrict bytes) ∧
    ∀ bytes, (∀ b ∈ bytes, b ≠ 0 ∧ b < 0x80) →
      decode? bytes = some (ofAscii bytes) ∧ decodeGeneral? bytes = some (ofAscii bytes) := by
  refine ⟨decode?_encode, fun bytes text => ⟨?_, fun h => h.2.encode_eq h.1⟩, fun bytes h => ?_⟩
  · rintro rfl
    exact ⟨decode?_encode text, isStrict_encode text⟩
  · have hshort := decode?_ascii h
    exact ⟨hshort, decode?_eq_decodeGeneral? bytes ▸ hshort⟩

/-- One character for each length of a sequence, a zero, and a character of two units. -/
def mixedText : String := "Aä\x00€😀"

def mixedBytes : List UInt8 :=
  [0x41, 0xC3, 0xA4, 0xC0, 0x80, 0xE2, 0x82, 0xAC, 0xED, 0xA0, 0xBD, 0xED, 0xB8, 0x80]

theorem isStrict_mixedBytes : IsStrict mixedBytes := by
  refine ⟨by decide, fun sequence hmem hmany => ?_⟩
  have hcut : sequences mixedBytes =
      [encodeUnit 0x41, encodeUnit 0xE4, [0xC0, 0x80], encodeUnit 0x20AC, encodeUnit 0xD83D,
          encodeUnit 0xDE00] := by
    decide
  rw [hcut] at hmem
  simp only [List.mem_cons, List.not_mem_nil, or_false] at hmem
  rcases hmem with rfl | rfl | rfl | rfl | rfl | rfl
  · exact absurd hmany (by decide)
  · exact .inr (isShortest_encodeUnit (by decide) (by decide))
  · exact .inl rfl
  · exact .inr (isShortest_encodeUnit (by decide) (by decide))
  · exact .inr (isShortest_encodeUnit (by decide) (by decide))
  · exact .inr (isShortest_encodeUnit (by decide) (by decide))

/-- Strict bytes are written for what they are read as, and a sequence that is longer than needed is
not strict. -/
theorem written_iff_strict_mixed :
    (decode? mixedBytes = some mixedText ∧ encode mixedText = mixedBytes) ∧
    (decode? [0xC1, 0x81] = some "A" ∧ encode "A" = [0x41] ∧ ¬IsStrict [0xC1, 0x81]) ∧
    decodeGeneral? [0x41] = some (ofAscii [0x41]) := by
  obtain ⟨_, hexact, hascii⟩ := written_iff_strict
  have hmixed : decode? mixedBytes = some mixedText := by decide +kernel
  have hlong : decode? [0xC1, 0x81] = some "A" := by decide +kernel
  have hshort : encode "A" = [0x41] := by decide +kernel
  refine ⟨⟨hmixed, (hexact _ _).2 ⟨hmixed, isStrict_mixedBytes⟩⟩,
    ⟨hlong, hshort, fun hstrict => ?_⟩, (hascii [0x41] (by simp)).2⟩
  have hsame := (hexact _ _).2 ⟨hlong, hstrict⟩
  rw [hshort] at hsame
  exact absurd hsame (by decide)

end ModifiedUtf8

end JvmAudit
