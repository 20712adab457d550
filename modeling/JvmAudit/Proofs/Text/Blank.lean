import JvmAudit.Proofs.Text.Cut
import JvmAudit.Text.Blank
import JvmAudit.Text.Letters

/-!
# Blanks around text

What trimming leaves, where a word ends, and that no character of an identifier is a blank.
-/

namespace JvmAudit.Text

/-! ## Characters -/

/-- The code points of blanks. -/
def blankCodes : List Nat :=
  [0x09, 0x0A, 0x0B, 0x0C, 0x0D, 0x20, 0x85, 0xA0, 0x1680, 0x2000, 0x2001, 0x2002, 0x2003, 0x2004,
  0x2005, 0x2006, 0x2007, 0x2008, 0x2009, 0x200A, 0x2028, 0x2029, 0x202F, 0x205F, 0x3000]

theorem mem_blankCodes {c : Char} (h : isBlank c = true) : c.toNat ∈ blankCodes := by
  simp only [isBlank, Bool.or_eq_true, Bool.and_eq_true, decide_eq_true_eq, beq_iff_eq] at h
  simp only [blankCodes, List.mem_cons, List.not_mem_nil, or_false]
  omega

/-- Identifiers have no blanks. -/
theorem isBlank_of_isWordChar {c : Char} (h : isWordChar c = true) : isBlank c = false := by
  have hcodes : ∀ n ∈ blankCodes, isWordChar (Char.ofNat n) = false := by decide +kernel
  cases hblank : isBlank c with
  | false => rfl
  | true =>
    have hword := hcodes c.toNat (mem_blankCodes hblank)
    rw [Char.ofNat_toNat, h] at hword
    cases hword

/-! ## Trimming -/

variable {cs back : List Char}

/-- Nothing to trim. -/
def IsTrimmed (cs : List Char) : Prop :=
  (∀ c ∈ cs.head?, isBlank c = false) ∧ ∀ c ∈ cs.getLast?, isBlank c = false

theorem isTrimmed_nil : IsTrimmed [] := by simp [IsTrimmed]

theorem dropWhile_isBlank (h : ∀ c ∈ cs.head?, isBlank c = false) : cs.dropWhile isBlank = cs := by
  cases cs with
  | nil => rfl
  | cons c cs => simp [h c rfl]

theorem trim_of_isTrimmed (h : IsTrimmed cs) : trim cs = cs := by
  rw [trim, trimStart, dropWhile_isBlank h.1, trimEnd]
  rcases List.eq_nil_or_concat cs with rfl | ⟨init, last, rfl⟩
  · rfl
  · have hlast := h.2 last (by simp)
    simp [hlast]

theorem isBlank_of_mem_head?_dropWhile {c : Char} (h : c ∈ (cs.dropWhile isBlank).head?) :
    isBlank c = false := by
  have hnot := List.head?_dropWhile_not isBlank cs
  rw [h] at hnot
  simpa using hnot

theorem trimEnd_isPrefixOf (cs : List Char) : trimEnd cs <+: cs := by
  obtain ⟨dropped, hdropped⟩ := List.dropWhile_suffix isBlank (l := cs.reverse)
  refine ⟨dropped.reverse, ?_⟩
  rw [trimEnd, ← List.reverse_append, hdropped, List.reverse_reverse]

theorem isTrimmed_trim (cs : List Char) : IsTrimmed (trim cs) := by
  constructor
  · intro c hc
    -- what is left at the start was not blank before the end was trimmed
    obtain ⟨dropped, hdropped⟩ := trimEnd_isPrefixOf (trimStart cs)
    have hstart : c ∈ (trimStart cs).head? := by
      rw [← hdropped, List.head?_append, show (trimEnd (trimStart cs)).head? = some c from hc]
      rfl
    exact isBlank_of_mem_head?_dropWhile hstart
  · intro c hc
    rw [trim, trimEnd, List.getLast?_reverse] at hc
    exact isBlank_of_mem_head?_dropWhile hc

theorem trim_trim (cs : List Char) : trim (trim cs) = trim cs :=
  trim_of_isTrimmed (isTrimmed_trim cs)

/-- Trimming adds no characters. -/
theorem mem_of_mem_trim {c : Char} (h : c ∈ trim cs) : c ∈ cs :=
  (List.dropWhile_suffix isBlank).subset ((trimEnd_isPrefixOf _).subset h)

theorem mem_dropWhile_isBlank {c : Char} (hc : c ∈ cs) (hblank : isBlank c = false) :
    c ∈ cs.dropWhile isBlank := by
  rw [← List.takeWhile_append_dropWhile (p := isBlank) (l := cs), List.mem_append] at hc
  rcases hc with hc | hc
  · have hall := List.all_eq_true.1 (List.all_takeWhile (p := isBlank) (l := cs)) c hc
    rw [hblank] at hall
    cases hall
  · exact hc

/-- Trimming drops only blanks. -/
theorem mem_trim {c : Char} (hc : c ∈ cs) (hblank : isBlank c = false) : c ∈ trim cs := by
  rw [trim, trimEnd, List.mem_reverse]
  exact mem_dropWhile_isBlank (List.mem_reverse.2 (mem_dropWhile_isBlank hc hblank)) hblank

theorem not_isEmpty_trim {c : Char} (hc : c ∈ cs) (hblank : isBlank c = false) :
    ¬(trim cs).isEmpty = true := by
  intro hempty
  have hmem := mem_trim hc hblank
  rw [List.isEmpty_iff.1 hempty] at hmem
  cases hmem

/-- A blank in front does not count. -/
theorem trim_cons_blank {c : Char} (h : isBlank c = true) (cs : List Char) :
    trim (c :: cs) = trim cs := by
  simp [trim, trimStart, h]

/-- A blank at the end does not count. -/
theorem trim_append_blank {c : Char} (h : isBlank c = true) (cs : List Char) :
    trim (cs ++ [c]) = trim cs := by
  have hend : ∀ l : List Char, trimEnd (l ++ [c]) = trimEnd l := by
    intro l
    simp [trimEnd, h]
  unfold trim trimStart
  rw [List.dropWhile_append]
  split
  · next hempty => simp [List.isEmpty_iff.1 hempty, h]
  · exact hend _

/-- A text is trimmed if neither its first nor its last character is blank. -/
theorem isTrimmed_append {c : Char} (hc : isBlank c = false) (cs : List Char)
    (hback : ∀ x ∈ back.getLast?, isBlank x = false) (hne : back ≠ []) :
    IsTrimmed (c :: cs ++ back) := by
  constructor
  · intro x hx
    cases hx
    exact hc
  · intro x hx
    rw [List.getLast?_append, List.getLast?_eq_some_getLast hne, Option.some_or] at hx
    exact hback x (by rw [List.getLast?_eq_some_getLast hne]; exact hx)

/-- Blanks, or nothing. -/
def IsBlanks (cs : List Char) : Prop := ∀ c ∈ cs, isBlank c = true

theorem isBlanks_nil : IsBlanks [] := by simp [IsBlanks]

theorem dropWhile_append_blanks (h : IsBlanks cs) (hback : ∀ c ∈ back.head?, isBlank c = false) :
    (cs ++ back).dropWhile isBlank = back := by
  rw [List.dropWhile_append_of_pos h, dropWhile_isBlank hback]

/-- The blanks around a text do not count. -/
theorem trim_append_blanks {front : List Char} (hfront : IsBlanks front) (hback : IsBlanks back)
    (cs : List Char) :
    trim (front ++ cs ++ back) = trim cs := by
  have hstart : ∀ cs, trim (front ++ cs) = trim cs := by
    intro cs
    induction front with
    | nil => rfl
    | cons c front ih =>
      rw [List.cons_append, trim_cons_blank (hfront c List.mem_cons_self)]
      exact ih fun x hx => hfront x (List.mem_cons_of_mem _ hx)
  have hend : ∀ cs, trim (cs ++ back) = trim cs := by
    intro cs
    induction back generalizing cs with
    | nil => rw [List.append_nil]
    | cons c back ih =>
      rw [← List.singleton_append, ← List.append_assoc,
        ih fun x hx => hback x (List.mem_cons_of_mem _ hx),
        trim_append_blank (hback c List.mem_cons_self)]
  rw [hend, hstart]

/-- What is dropped at the start of a text are blanks; here seen from the end of the text. -/
theorem exists_blanks (cs : List Char) :
    ∃ gap, IsBlanks gap ∧ cs.reverse = (cs.dropWhile isBlank).reverse ++ gap := by
  refine ⟨(cs.takeWhile isBlank).reverse, fun c hc => ?_, ?_⟩
  · exact List.all_eq_true.1 List.all_takeWhile c (List.mem_reverse.1 hc)
  · rw [← List.reverse_append, List.takeWhile_append_dropWhile]

/-- What trimming drops is blank. -/
theorem exists_trim (cs : List Char) :
    ∃ front back, IsBlanks front ∧ IsBlanks back ∧ cs = front ++ trim cs ++ back := by
  obtain ⟨back, hback, hend⟩ := exists_blanks (trimStart cs).reverse
  refine ⟨cs.takeWhile isBlank, back, List.all_eq_true.1 List.all_takeWhile, hback, ?_⟩
  rw [trim, trimEnd, List.append_assoc, ← hend, List.reverse_reverse, trimStart,
    List.takeWhile_append_dropWhile]

/-! ## Words -/

/-- A word without blanks ends at the first blank. -/
theorem span_word {word rest : List Char} (hword : ∀ c ∈ word, isBlank c = false)
    (hrest : ∀ c ∈ rest.head?, isBlank c = true) :
    (word ++ rest).takeWhile (!isBlank ·) = word ∧
    (word ++ rest).dropWhile (!isBlank ·) = rest := by
  have hplain : ∀ c ∈ word, (!isBlank c) = true := fun c hc => by simp [hword c hc]
  rw [List.takeWhile_append_of_pos hplain, List.dropWhile_append_of_pos hplain]
  cases rest with
  | nil => simp
  | cons c rest => simp [hrest c rfl]

theorem isBlank_head?_dropWhile_not {cs : List Char} :
    ∀ c ∈ (cs.dropWhile (!isBlank ·)).head?, isBlank c = true := by
  intro c hc
  have hnot := List.head?_dropWhile_not (!isBlank ·) cs
  rw [hc] at hnot
  simpa using hnot

end JvmAudit.Text
