import JvmAudit.Catalog.Basic
import JvmAudit.Proofs.Text.Blank

/-!
# The grammar of versions

The texts that are read as a version, by rules that also give its number (`Version.Spelled`). A
version is `N` or `1.N`, with blanks around it. The digits may have a plus sign in front of them,
which the rules of versions do not ask for: it is a rule of numbers. The texts that are read are
those of the rules, with the sign or without it, and no others (`Version.parse_eq_ok_iff`).

Zeros in front of a number do not count, but the number itself is neither zero nor too large.
-/

namespace JvmAudit.Version

/-! ## Rules -/

/-- Decimal digits, at least one, and the number that they give. -/
structure IsDecimal (digits : List Char) (n : Nat) : Prop where
  ne_nil : digits ≠ []
  isDigit : ∀ c ∈ digits, c.isDigit = true
  value : Nat.ofDigitChars 10 digits 0 = n

/-- A text for a version, and the version: digits, or `1.` and digits, with blanks around them. The
sign stands in front of the digits. -/
inductive Spelled (sign : List Char) : List Char → Nat → Prop
  | mk {front era digits back : List Char} {n : Nat} (hfront : Text.IsBlanks front)
    (hera : era = [] ∨ era = ['1', '.']) (hdigits : IsDecimal digits n) (hpos : 1 ≤ n)
    (hbound : n < bound) (hback : Text.IsBlanks back) :
    Spelled sign (front ++ (era ++ (sign ++ digits)) ++ back) n

/-! ## Numbers -/

variable {cs digits : List Char} {n : Nat}

theorem IsDecimal.exists_cons (h : IsDecimal digits n) :
    ∃ c rest, digits = c :: rest ∧ c.isDigit = true := by
  cases digits with
  | nil => exact absurd rfl h.ne_nil
  | cons c rest => exact ⟨c, rest, rfl, h.isDigit c List.mem_cons_self⟩

theorem IsDecimal.notMem {c : Char} (h : IsDecimal digits n) (hc : c.isDigit = false) :
    c ∉ digits := by
  intro hmem
  rw [h.isDigit c hmem] at hc
  cases hc

theorem isDecimal_toDigits (n : Nat) : IsDecimal (Nat.toDigits 10 n) n where
  ne_nil := Nat.toDigits_ne_nil
  isDigit _ hc := Nat.isDigit_of_mem_toDigits (by decide) (by decide) hc
  value := Nat.ofDigitChars_ten_toDigits

/-- What is read as a number is a sequence of digits with this value. -/
theorem decimal?_eq_some_iff : decimal? cs = some n ↔ IsDecimal cs n := by
  have hvalue : cs.foldl (fun n c => n * 10 + (c.toNat - '0'.toNat)) 0 =
      Nat.ofDigitChars 10 cs 0 := by
    simp only [Nat.mul_comm, Nat.ofDigitChars]
  unfold decimal?
  rw [hvalue]
  constructor
  · intro h
    split at h
    · cases h
    · next hdigits =>
      simp only [Bool.or_eq_true, List.isEmpty_iff, Bool.not_eq_true', not_or, Bool.not_eq_false,
        List.all_eq_true] at hdigits
      exact ⟨hdigits.1, hdigits.2, Option.some.inj h⟩
  · intro h
    rw [if_neg (by simpa [h.ne_nil] using h.isDigit), h.value]

/-- What may stand in front of the digits of a number. -/
def IsSign (sign : List Char) : Prop := sign = [] ∨ sign = ['+']

/-- A number is read iff it is decimal digits, with a plus sign or without one, and is not too
large. -/
theorem number?_eq_some_iff : number? cs = some n ↔
    (∃ sign digits, IsSign sign ∧ IsDecimal digits n ∧ cs = sign ++ digits) ∧ n < bound := by
  unfold number?
  rw [Option.filter_eq_some_iff, decide_eq_true_eq]
  refine and_congr_left fun _ => ?_
  constructor
  · intro h
    split at h
    · next rest => exact ⟨['+'], rest, .inr rfl, decimal?_eq_some_iff.1 h, rfl⟩
    · exact ⟨[], cs, .inl rfl, decimal?_eq_some_iff.1 h, rfl⟩
  · rintro ⟨sign, digits, rfl | rfl, hdigits, rfl⟩
    · -- the first digit is not a sign
      obtain ⟨c, rest, rfl, hc⟩ := hdigits.exists_cons
      split
      · next hplus =>
        cases hplus
        exact absurd hc (by decide)
      · exact decimal?_eq_some_iff.2 hdigits
    · exact decimal?_eq_some_iff.2 hdigits

/-! ## Versions -/

variable {version : String} {sign era : List Char}

theorem isBlank_of_isDigit {c : Char} (h : c.isDigit = true) : Text.isBlank c = false := by
  obtain ⟨hlow, hhigh⟩ : 48 ≤ c.toNat ∧ c.toNat ≤ 57 := Char.isDigit_iff_toNat.1 h
  cases hblank : Text.isBlank c with
  | false => rfl
  | true =>
    have hcode := Text.mem_blankCodes hblank
    simp only [Text.blankCodes, List.mem_cons, List.not_mem_nil, or_false] at hcode
    omega

/-- There are no blanks inside a version. -/
theorem isTrimmed_numeral (hera : era = [] ∨ era = ['1', '.']) (hsign : IsSign sign)
    (h : IsDecimal digits n) :
    Text.IsTrimmed (era ++ (sign ++ digits)) := by
  have hplain : ∀ c ∈ era ++ (sign ++ digits), Text.isBlank c = false := by
    intro c hc
    rw [List.mem_append, List.mem_append] at hc
    rcases hc with hc | hc | hc
    · rcases hera with rfl | rfl
      · cases hc
      · simp only [List.mem_cons, List.not_mem_nil, or_false] at hc
        rcases hc with rfl | rfl <;> decide
    · rcases hsign with rfl | rfl
      · cases hc
      · rw [List.mem_singleton.1 hc]
        decide
    · exact isBlank_of_isDigit (h.isDigit c hc)
  exact ⟨fun c hc => hplain c (List.mem_of_head? hc), fun c hc =>
    hplain c (List.mem_of_getLast? hc)⟩

theorem dot_notMem_numeral (hsign : IsSign sign) (h : IsDecimal digits n) :
    '.' ∉ sign ++ digits := by
  have hdigits : '.' ∉ digits := h.notMem (by decide)
  rcases hsign with rfl | rfl
  · exact hdigits
  · simpa using hdigits

/-- The `1.` in front does not count, and digits do not start with it. -/
theorem dropEra_numeral (hera : era = [] ∨ era = ['1', '.']) (hsign : IsSign sign)
    (h : IsDecimal digits n) :
    (Text.dropFront ['1', '.'] (era ++ (sign ++ digits))).getD (era ++ (sign ++ digits)) =
      sign ++ digits := by
  rcases hera with rfl | rfl
  · cases hdrop : Text.dropFront ['1', '.'] ([] ++ (sign ++ digits)) with
    | none => rfl
    | some rest =>
      have hdot := dot_notMem_numeral hsign h
      rw [List.nil_append, Text.dropFront_eq_some_iff] at hdrop
      rw [hdrop] at hdot
      simp at hdot
  · rw [Text.dropFront_eq_some_iff.2 rfl, Option.getD_some]

/-- A version is read in both spellings, with a sign or without one. -/
theorem parse_of_spelled (hsign : IsSign sign) (h : Spelled sign version.toList n) :
    parse version = .ok n := by
  generalize hversion : version.toList = cs at h
  obtain ⟨hfront, hera, hdigits, hpos, hbound, hback⟩ := h
  unfold parse
  simp only
  rw [hversion, Text.trim_append_blanks hfront hback,
    Text.trim_of_isTrimmed (isTrimmed_numeral hera hsign hdigits),
    dropEra_numeral hera hsign hdigits, number?_eq_some_iff.2 ⟨⟨_, _, hsign, hdigits, rfl⟩, hbound⟩,
    Option.filter_some, if_pos (decide_eq_true (show 0 < n from hpos))]

/-- What is read as a version is spelled in one of these ways. -/
theorem exists_spelled_of_parse (h : parse version = .ok n) :
    ∃ sign, IsSign sign ∧ Spelled sign version.toList n := by
  obtain ⟨front, back, hfront, hback, hversion⟩ := Text.exists_trim version.toList
  unfold parse at h
  simp only at h
  split at h
  · next m hm =>
    cases h
    obtain ⟨hnumber, hpos⟩ := Option.filter_eq_some_iff.1 hm
    obtain ⟨⟨sign, digits, hsign, hdigits, hrest⟩, hbound⟩ := number?_eq_some_iff.1 hnumber
    have hera : ∃ era, (era = [] ∨ era = ['1', '.']) ∧
        Text.trim version.toList = era ++ (sign ++ digits) := by
      cases hdrop : Text.dropFront ['1', '.'] (Text.trim version.toList) with
      | none =>
        rw [hdrop] at hrest
        exact ⟨[], .inl rfl, hrest⟩
      | some rest =>
        rw [hdrop, Option.getD_some] at hrest
        refine ⟨['1', '.'], .inr rfl, ?_⟩
        rw [Text.dropFront_eq_some_iff.1 hdrop, hrest]
    obtain ⟨era, hera, htrim⟩ := hera
    refine ⟨sign, hsign, ?_⟩
    rw [hversion, htrim]
    exact .mk hfront hera hdigits (of_decide_eq_true hpos) hbound hback
  · cases h

/-- A text is read as a version iff it spells it, with a plus sign or without one. -/
theorem parse_eq_ok_iff :
    parse version = .ok n ↔ Spelled [] version.toList n ∨ Spelled ['+'] version.toList n := by
  constructor
  · intro h
    obtain ⟨sign, rfl | rfl, hspelled⟩ := exists_spelled_of_parse h
    · exact .inl hspelled
    · exact .inr hspelled
  · rintro (h | h)
    · exact parse_of_spelled (.inl rfl) h
    · exact parse_of_spelled (.inr rfl) h

theorem eq_of_parse_error {e : CatalogError} (h : parse version = .error e) :
    e = .invalidVersion version := by
  unfold parse at h
  simp only at h
  split at h
  · cases h
  · cases h
    rfl

theorem Spelled.bounds (h : Spelled sign cs n) : 1 ≤ n ∧ n < bound := by
  obtain ⟨_, _, _, hpos, hbound, _⟩ := h
  exact ⟨hpos, hbound⟩

theorem Spelled.sign_subset (h : Spelled sign cs n) : sign ⊆ cs := by
  obtain ⟨_, _, _, _, _, _⟩ := h
  intro c hc
  simp [hc]

/-- The characters of a version. -/
theorem Spelled.notMem {c : Char} (h : Spelled sign cs n) (hblank : Text.isBlank c = false)
    (hdigit : c.isDigit = false) (hdot : c ≠ '.') (hsign : c ∉ sign) : c ∉ cs := by
  obtain ⟨hfront, hera, hdigits, _, _, hback⟩ := h
  have hgap : ∀ gap, Text.IsBlanks gap → c ∉ gap := by
    intro gap hgap hmem
    rw [hgap c hmem] at hblank
    cases hblank
  intro hc
  rw [List.mem_append, List.mem_append, List.mem_append, List.mem_append] at hc
  rcases hc with (hc | hc | hc | hc) | hc
  · exact hgap _ hfront hc
  · rcases hera with rfl | rfl
    · cases hc
    · simp only [List.mem_cons, List.not_mem_nil, or_false] at hc
      rcases hc with rfl | hc
      · exact absurd hdigit (by decide)
      · exact hdot hc
  · exact hsign hc
  · exact hdigits.notMem hdigit hc
  · exact hgap _ hback hc

theorem Spelled.plus_notMem (h : Spelled [] cs n) : '+' ∉ cs :=
  h.notMem (by decide) (by decide) (by decide) (by simp)

/-- No version has a dash. -/
theorem dash_notMem_of_parse (h : parse version = .ok n) : '-' ∉ version.toList := by
  rcases parse_eq_ok_iff.1 h with h | h
  · exact h.notMem (by decide) (by decide) (by decide) (by simp)
  · exact h.notMem (by decide) (by decide) (by decide) (by simp)

theorem bounds_of_parse (h : parse version = .ok n) : 1 ≤ n ∧ n < bound := by
  rcases parse_eq_ok_iff.1 h with h | h
  · exact h.bounds
  · exact h.bounds

/-- A number is read back, also in the older way of writing. -/
theorem parse_toString (hpos : 1 ≤ n) (hbound : n < bound) :
    parse (toString n) = .ok n ∧ parse ("1." ++ toString n) = .ok n := by
  have hspelled : ∀ era, era = [] ∨ era = ['1', '.'] → Spelled [] (era ++ Nat.toDigits 10 n) n := by
    intro era hera
    have hmk : Spelled [] ([] ++ (era ++ ([] ++ Nat.toDigits 10 n)) ++ []) n :=
      .mk Text.isBlanks_nil hera (isDecimal_toDigits n) hpos hbound Text.isBlanks_nil
    simpa using hmk
  constructor
  · refine parse_eq_ok_iff.2 (.inl ?_)
    simpa using hspelled [] (.inl rfl)
  · refine parse_eq_ok_iff.2 (.inl ?_)
    simpa using hspelled ['1', '.'] (.inr rfl)

/-- **Versions.** A text is read as a version iff it is `N` or `1.N` for decimal digits `N`, with
blanks around it, or such a text with a plus sign in front of the digits, and the number is at least
one and below the bound. For a text without a plus sign this is `N` or `1.N` alone. Every other text
fails, and the error carries the text as it was given. -/
theorem parse_exactly (version : String) :
    (∀ n, parse version = .ok n ↔ Spelled [] version.toList n ∨ Spelled ['+'] version.toList n) ∧
    ('+' ∉ version.toList → ∀ n, parse version = .ok n ↔ Spelled [] version.toList n) ∧
    ∀ e, parse version = .error e ↔ e = .invalidVersion version ∧
      ∀ n, ¬Spelled [] version.toList n ∧ ¬Spelled ['+'] version.toList n := by
  refine ⟨fun n => parse_eq_ok_iff, fun hplus n => ?_, fun e => ?_⟩
  · rw [parse_eq_ok_iff, or_iff_left]
    intro hsigned
    exact hplus (hsigned.sign_subset (by simp))
  · cases hparse : parse version with
    | ok n =>
      have hspelled := parse_eq_ok_iff.1 hparse
      constructor
      · intro h
        cases h
      · rintro ⟨-, hnone⟩
        exact absurd hspelled (not_or.2 (hnone n))
    | error e' =>
      have he' := eq_of_parse_error hparse
      have hnone : ∀ n, ¬Spelled [] version.toList n ∧ ¬Spelled ['+'] version.toList n := by
        intro n
        rw [← not_or, ← parse_eq_ok_iff, hparse]
        simp
      simp [he', hnone, eq_comm]

/-- A version in the older way of writing, with a zero and blanks, a signed one, and a number with a
fraction. -/
theorem parse_exactly_padded :
    '+' ∉ "\t1.017 ".toList ∧ Spelled [] "\t1.017 ".toList 17 ∧ Spelled ['+'] "1.+17".toList 17 ∧
    (∀ n, ¬Spelled [] "17.0".toList n) ∧ ∀ n, ¬Spelled [] "4294967296".toList n := by
  have hplus : '+' ∉ "\t1.017 ".toList := by decide
  refine ⟨hplus, ((parse_exactly _).2.1 hplus 17).1 rfl, ?_, fun n => ?_, fun n => ?_⟩
  · rcases ((parse_exactly "1.+17").1 17).1 rfl with hplain | hsigned
    · exact absurd hplain.plus_notMem (by decide)
    · exact hsigned
  · have herror : parse "17.0" = .error (.invalidVersion "17.0") := rfl
    exact ((((parse_exactly "17.0").2.2 _).1 herror).2 n).1
  · have herror : parse "4294967296" = .error (.invalidVersion "4294967296") := rfl
    exact ((((parse_exactly "4294967296").2.2 _).1 herror).2 n).1

/-- A plus sign in front of a version, which is neither `N` nor `1.N`, is passed over. -/
theorem signed_version_read :
    ¬∀ version n, parse version = .ok n ↔ Spelled [] version.toList n := by
  intro h
  have hspelled := (h "+8" 8).1 rfl
  exact hspelled.plus_notMem (by decide)

end JvmAudit.Version
