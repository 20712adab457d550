import JvmAudit.ClassFile.Basic
import Mathlib.Data.List.Basic

/-!
# Source lines

Where something is reported to stand: a class or a method by the smallest line of its bodies
(`IsFirstLine`), a place in a body by the line of the nearest entry before it (`Code.IsLineAt`).
-/

namespace JvmAudit

/-- The smallest of some lines; if there is none, another line stands in for it. -/
def IsFirstLine (lines : List Nat) (fallback line : Nat) : Prop :=
  lines = [] ∧ line = fallback ∨ line ∈ lines ∧ ∀ other ∈ lines, line ≤ other

theorem isFirstLine_min? (lines : List Nat) (fallback : Nat) :
    IsFirstLine lines fallback (lines.min?.getD fallback) := by
  cases h : lines.min? with
  | none => exact .inl ⟨List.min?_eq_none_iff.1 h, rfl⟩
  | some line => exact .inr (List.min?_eq_some_iff.1 h)

namespace Code

/-- The line of a place in a body: that of the entry that starts last among those that start at or
before it, and of several that start together the one that stands last in the table. If there is
none, the line is 0. -/
def IsLineAt (code : Code) (offset line : Nat) : Prop :=
  (∀ e ∈ code.lines, offset < e.start) ∧ line = 0 ∨
    ∃ before e after, code.lines = before ++ e :: after ∧ e.start ≤ offset ∧ e.line = line ∧
      (∀ d ∈ before, d.start ≤ offset → d.start ≤ e.start) ∧ ∀ d ∈ after, d.start ≤ offset →
        d.start < e.start

/-- The entry that starts last, and stands last among those that start together. -/
def Latest (entries : List LineNumber) (e : LineNumber) : Prop :=
  ∃ before after, entries = before ++ e :: after ∧ (∀ d ∈ before, d.start ≤ e.start) ∧
    ∀ d ∈ after, d.start < e.start

theorem Latest.start_le {entries : List LineNumber} {d e : LineNumber} (h : Latest entries e)
    (hd : d ∈ entries) :
    d.start ≤ e.start := by
  obtain ⟨before, after, rfl, hbefore, hafter⟩ := h
  rcases List.mem_append.1 hd with hd | hd
  · exact hbefore d hd
  · rcases List.mem_cons.1 hd with rfl | hd
    · exact Nat.le_refl _
    · exact Nat.le_of_lt (hafter d hd)

/-- The first entry, or one behind it that starts at the same place or later. -/
theorem exists_latest_foldl (entries : List LineNumber) (best : LineNumber) :
    ∃ e, entries.foldl laterEntry (some best) = some e ∧ Latest (best :: entries) e := by
  induction entries generalizing best with
  | nil => exact ⟨best, rfl, [], [], rfl, by simp, by simp⟩
  | cons d entries ih =>
    simp only [List.foldl_cons, laterEntry]
    by_cases hle : best.start ≤ d.start
    · rw [if_pos hle]
      obtain ⟨e, he, hlatest⟩ := ih d
      have hbest : best.start ≤ e.start := Nat.le_trans hle (hlatest.start_le List.mem_cons_self)
      obtain ⟨before, after, hsplit, hbefore, hafter⟩ := hlatest
      exact ⟨e, he, best :: before, after, by rw [hsplit, List.cons_append],
        List.forall_mem_cons.2 ⟨hbest, hbefore⟩, hafter⟩
    · rw [if_neg hle]
      obtain ⟨e, he, before, after, hsplit, hbefore, hafter⟩ := ih best
      cases before with
      | nil =>
        obtain ⟨rfl, rfl⟩ := List.cons.inj hsplit
        exact ⟨best, he, [], d :: entries, rfl, by simp, List.forall_mem_cons.2 ⟨by omega, hafter⟩⟩
      | cons b before =>
        obtain ⟨rfl, rfl⟩ := List.cons.inj hsplit
        obtain ⟨hb, hbefore⟩ := List.forall_mem_cons.1 hbefore
        refine ⟨e, he, best :: d :: before, after, rfl, ?_, hafter⟩
        exact List.forall_mem_cons.2 ⟨hb, List.forall_mem_cons.2 ⟨by omega, hbefore⟩⟩

theorem exists_latest {entries : List LineNumber} (h : entries ≠ []) :
    ∃ e, entries.foldl laterEntry none = some e ∧ Latest entries e := by
  cases entries with
  | nil => exact absurd rfl h
  | cons best entries => exact exists_latest_foldl entries best

/-- The line of an offset. -/
theorem isLineAt_lineAt (code : Code) (offset : Nat) :
    code.IsLineAt offset ((code.lineAt offset).getD 0) := by
  unfold lineAt
  by_cases hnil : code.lines.filter (·.start ≤ offset) = []
  · rw [hnil]
    refine .inl ⟨fun e he => ?_, rfl⟩
    simpa using List.filter_eq_nil_iff.1 hnil e he
  · obtain ⟨e, he, before, after, hsplit, hbefore, hafter⟩ := exists_latest hnil
    obtain ⟨front, back, hlines, hfront, hback⟩ := List.filter_eq_append_iff.1 hsplit
    obtain ⟨skipped, rest, rfl, hskipped, hstart, hrest⟩ := List.filter_eq_cons_iff.1 hback
    refine .inr ⟨front ++ skipped, e, rest, by rw [hlines, List.append_assoc],
      by simpa using hstart, by rw [he]; rfl, ?_, ?_⟩
    · intro d hd hle
      rcases List.mem_append.1 hd with hd | hd
      · exact hbefore d (hfront ▸ List.mem_filter.2 ⟨hd, by simpa using hle⟩)
      · exact absurd hle (by simpa using hskipped d hd)
    · intro d hd hle
      exact hafter d (hrest ▸ List.mem_filter.2 ⟨hd, by simpa using hle⟩)

end Code

/-- The lines of the body of a method. -/
def MethodDecl.bodyLines (m : MethodDecl) : List Nat :=
  m.code.toList.flatMap fun code => code.lines.map (·.line)

/-- The lines of all bodies of a class. -/
def ClassFile.bodyLines (c : ClassFile) : List Nat := c.methods.flatMap MethodDecl.bodyLines

theorem MethodDecl.firstLine_eq (m : MethodDecl) : m.firstLine = m.bodyLines.min? := by
  unfold firstLine bodyLines
  cases m.code with
  | none => rfl
  | some code => simp [Code.firstLine]

theorem MethodDecl.isFirstLine_firstLine (m : MethodDecl) (fallback : Nat) :
    IsFirstLine m.bodyLines fallback (m.firstLine.getD fallback) := by
  rw [m.firstLine_eq]
  exact isFirstLine_min? _ _

/-- The smallest line of a class is the smallest of the smallest lines of its methods. -/
theorem ClassFile.isFirstLine_firstLine (c : ClassFile) (fallback : Nat) :
    IsFirstLine c.bodyLines fallback (c.firstLine.getD fallback) := by
  unfold ClassFile.firstLine
  have hmem : ∀ {n}, n ∈ c.methods.filterMap MethodDecl.firstLine ↔
      ∃ m ∈ c.methods, m.bodyLines.min? = some n := by
    intro n
    simp only [List.mem_filterMap, MethodDecl.firstLine_eq]
  cases hmin : (c.methods.filterMap MethodDecl.firstLine).min? with
  | none =>
    refine .inl ⟨List.flatMap_eq_nil_iff.2 fun m hm => ?_, rfl⟩
    rw [List.min?_eq_none_iff, List.filterMap_eq_nil_iff] at hmin
    have hnone := hmin m hm
    rwa [MethodDecl.firstLine_eq, List.min?_eq_none_iff] at hnone
  | some line =>
    obtain ⟨hline, hleast⟩ := List.min?_eq_some_iff.1 hmin
    obtain ⟨m, hm, hfirst⟩ := hmem.1 hline
    refine .inr ⟨List.mem_flatMap.2 ⟨m, hm, (List.min?_eq_some_iff.1 hfirst).1⟩,
      fun other hother => ?_⟩
    obtain ⟨m', hm', hother⟩ := List.mem_flatMap.1 hother
    cases hfirst' : m'.bodyLines.min? with
    | none =>
      rw [List.min?_eq_none_iff.1 hfirst'] at hother
      cases hother
    | some line' =>
      exact Nat.le_trans (hleast line' (hmem.2 ⟨m', hm', hfirst'⟩))
        ((List.min?_eq_some_iff.1 hfirst').2 other hother)

end JvmAudit
