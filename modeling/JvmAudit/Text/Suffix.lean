/-!
# Tests on all ends of a text

A pattern is matched from its last unit to its first: each unit turns a test for what may follow
into a test for the text from there on. A row holds the results of a test on a text and on
everything that it ends with, and a unit turns one row into another (`row_afterOne`,
`row_afterRun`). So the work is proportional to the length of the pattern times the length of the
text, however many ways there are to match.

A text may be given by its characters or by its bytes.
-/

namespace JvmAudit.Text

/-- A test on texts. -/
abbrev Test (α : Type) := List α → Bool

variable {α : Type}

/-- The results of a test on a text and on all its ends, the longest first. -/
def row (f : Test α) : List α → List Bool
  | [] => [f []]
  | c :: cs => f (c :: cs) :: row f cs

theorem row_eq_cons (f : Test α) (cs : List α) : ∃ rest, row f cs = f cs :: rest := by
  cases cs <;> exact ⟨_, rfl⟩

theorem headD_row (f : Test α) (cs : List α) (b : Bool) : (row f cs).headD b = f cs := by
  obtain ⟨rest, h⟩ := row_eq_cons f cs
  rw [h, List.headD_cons]

/-- The row of the test for the empty text. -/
def emptyRow (cs : List α) : List Bool := cs.map (fun _ => false) ++ [true]

/-- Only the end of a text is empty. -/
theorem row_isEmpty (cs : List α) : row List.isEmpty cs = emptyRow cs := by
  induction cs with
  | nil => rfl
  | cons c cs ih => simp [row, ih, emptyRow]

/-! ## One unit -/

/-- One unit that passes `accepts`, and then `f`. -/
def afterOne (accepts : α → Bool) (f : Test α) : Test α
  | [] => false
  | c :: cs => accepts c && f cs

/-- The row of `afterOne`. -/
def afterOneRow (accepts : α → Bool) (cs : List α) (row : List Bool) : List Bool :=
  (cs.zip row.tail).map (fun (c, b) => accepts c && b) ++ [false]

/-- The row of a test behind one unit comes from the row of the test. -/
theorem row_afterOne (accepts : α → Bool) (f : Test α) (cs : List α) :
    row (afterOne accepts f) cs = afterOneRow accepts cs (row f cs) := by
  induction cs with
  | nil => rfl
  | cons c cs ih =>
    obtain ⟨rest, h⟩ := row_eq_cons f cs
    rw [row, ih]
    simp [row, afterOneRow, afterOne, h]

/-! ## A run -/

/-- Any number of units that pass `skips`, and then `f`. -/
def afterRun (skips : α → Bool) (f : Test α) : Test α
  | [] => f []
  | c :: cs => f (c :: cs) || (skips c && afterRun skips f cs)

/-- The row of `afterRun`. -/
def afterRunRow (skips : α → Bool) (cs : List α) (row : List Bool) : List Bool :=
  (cs.zip row).foldr (fun (c, b) rest => (b || (skips c && rest.headD false)) :: rest)
    (row.drop cs.length)

/-- The row of a test behind a run comes from the row of the test, from the end to the front. -/
theorem row_afterRun (skips : α → Bool) (f : Test α) (cs : List α) :
    row (afterRun skips f) cs = afterRunRow skips cs (row f cs) := by
  induction cs with
  | nil => rfl
  | cons c cs ih =>
    have hd := headD_row (afterRun skips f) cs false
    rw [ih] at hd
    rw [row, ih]
    simp only [afterRunRow] at hd
    simp only [row, afterRunRow, afterRun, List.zip_cons_cons, List.foldr_cons, List.length_cons,
      List.drop_succ_cons, hd]

/-- What it means that a run comes first. -/
theorem afterRun_eq_true {skips : α → Bool} {f : Test α} {cs : List α} :
    afterRun skips f cs = true ↔ ∃ run rest, cs = run ++ rest ∧ run.all skips = true ∧
    f rest = true := by
  induction cs with
  | nil =>
    constructor
    · exact fun h => ⟨[], [], rfl, rfl, h⟩
    · rintro ⟨run, rest, h, _, hf⟩
      obtain ⟨rfl, rfl⟩ := List.append_eq_nil_iff.1 h.symm
      exact hf
  | cons c cs ih =>
    rw [afterRun, Bool.or_eq_true, Bool.and_eq_true, ih]
    constructor
    · rintro (h | ⟨hc, run, rest, rfl, hr, hf⟩)
      · exact ⟨[], c :: cs, rfl, rfl, h⟩
      · exact ⟨c :: run, rest, rfl, by simp [hc, hr], hf⟩
    · rintro ⟨run, rest, h, hr, hf⟩
      cases run with
      | nil =>
        rw [List.nil_append] at h
        exact Or.inl (h ▸ hf)
      | cons d run =>
        obtain ⟨rfl, rfl⟩ := List.cons.inj h
        rw [List.all_cons, Bool.and_eq_true] at hr
        exact Or.inr ⟨hr.1, run, rest, rfl, hr.2, hf⟩

/-! ## Whole parts between separators -/

/-- Parts up to a separator, or all that is left, and then `f`. -/
def afterParts (separator : Char) (f : Test Char) : Test Char
  | [] => f []
  | c :: cs => (c == separator && f cs) || afterParts separator f cs

/-- The row of `afterParts`. -/
def afterPartsRow (separator : Char) (cs : List Char) (row : List Bool) : List Bool :=
  (cs.zip row.tail).foldr (fun (c, b) rest => ((c == separator && b) || rest.headD false) :: rest)
    (row.drop cs.length)

/-- The row of a test behind whole parts comes from the row of the test. -/
theorem row_afterParts (separator : Char) (f : Test Char) (cs : List Char) :
    row (afterParts separator f) cs = afterPartsRow separator cs (row f cs) := by
  induction cs with
  | nil => rfl
  | cons c cs ih =>
    obtain ⟨rest, h⟩ := row_eq_cons f cs
    have hd := headD_row (afterParts separator f) cs false
    rw [ih] at hd
    rw [row, ih]
    simp only [afterPartsRow, h, List.tail_cons] at hd
    simp only [row, afterPartsRow, afterParts, h, List.tail_cons, List.zip_cons_cons,
      List.foldr_cons, List.length_cons, List.drop_succ_cons, hd]

/-! ## Either of two tests -/

theorem row_or (f g : Test α) (cs : List α) :
    row (fun s => f s || g s) cs = List.zipWith (· || ·) (row f cs) (row g cs) := by
  induction cs with
  | nil => rfl
  | cons c cs ih => simp [row, ih]

end JvmAudit.Text
