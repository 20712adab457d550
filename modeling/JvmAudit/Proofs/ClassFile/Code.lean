import JvmAudit.ClassFile.Code
import Mathlib.Data.List.Basic

/-!
# References and lines by offset

Sorting by offset is stable: what belongs to one offset stays in the order in which it was
(`mergeSort_eq_flatMap`). In a line table whose entries ascend, the last entry at or before an
offset counts (`Code.lineAt_of_sorted`).
-/

namespace JvmAudit

/-! ## Sorting by a number -/

section ByKey

variable {α : Type} {key : α → Nat} {l : List α} {n : Nat}

theorem key_trans (key : α → Nat) (a b c : α) (hab : decide (key a ≤ key b) = true)
    (hbc : decide (key b ≤ key c) = true) : decide (key a ≤ key c) = true := by
  simp only [decide_eq_true_eq] at hab hbc ⊢
  omega

theorem key_total (key : α → Nat) (a b : α) :
    (decide (key a ≤ key b) || decide (key b ≤ key a)) = true := by
  simp only [Bool.or_eq_true, decide_eq_true_eq]
  omega

theorem filter_mergeSort (key : α → Nat) (l : List α) (k : Nat) :
    (l.mergeSort fun a b => key a ≤ key b).filter (key · = k) = l.filter (key · = k) := by
  have hequal : (l.filter (key · = k)).Pairwise fun a b => decide (key a ≤ key b) = true := by
    refine List.Pairwise.imp_of_mem ?_ (List.pairwise_of_forall fun _ _ => trivial)
    intro a b ha hb _
    have hka := (List.mem_filter.1 ha).2
    have hkb := (List.mem_filter.1 hb).2
    simp only [decide_eq_true_eq] at hka hkb ⊢
    omega
  -- equal keys are sorted already, so the sort keeps them in order
  have hsub : (l.filter (key · = k)).Sublist (l.mergeSort fun a b => key a ≤ key b) :=
    List.sublist_mergeSort (key_trans key) (key_total key) hequal List.filter_sublist
  have hfilter := hsub.filter (key · = k)
  rw [List.filter_filter] at hfilter
  simp only [Bool.and_self] at hfilter
  exact (hfilter.eq_of_length ((List.mergeSort_perm _ _).filter _).length_eq.symm).symm

theorem sorted_split (hsorted : l.Pairwise fun a b => key a ≤ key b) (hle : ∀ a ∈ l, key a ≤ n) :
    l.filter (key · < n) ++ l.filter (key · = n) = l := by
  induction l with
  | nil => rfl
  | cons a l ih =>
    obtain ⟨hfirst, hrest⟩ := List.pairwise_cons.1 hsorted
    have hl : ∀ b ∈ l, key b ≤ n := fun b hb => hle b (List.mem_cons_of_mem _ hb)
    by_cases ha : key a < n
    · rw [List.filter_cons_of_pos (by simpa using ha), List.filter_cons_of_neg (by simp; omega),
        List.cons_append, ih hrest hl]
    · -- what follows has no smaller key, so all keys are `n`
      have hall : ∀ b ∈ a :: l, key b = n := by
        intro b hb
        rcases List.mem_cons.1 hb with rfl | hb
        · exact Nat.le_antisymm (hle b List.mem_cons_self) (Nat.le_of_not_lt ha)
        · have hab := hfirst b hb
          have hbn := hl b hb
          omega
      rw [List.filter_eq_nil_iff.2 fun b hb => by
        simpa using Nat.le_of_eq (hall b hb).symm, List.nil_append,
        List.filter_eq_self.2 fun b hb => by simpa using hall b hb]

/-- A sorted list is cut into its parts with one key each. -/
theorem flatMap_filter_of_sorted (hsorted : l.Pairwise fun a b => key a ≤ key b)
    (hlt : ∀ a ∈ l, key a < n) :
    (List.range n).flatMap (fun k => l.filter (key · = k)) = l := by
  induction n generalizing l with
  | zero =>
    have hnil : l = [] := List.eq_nil_iff_forall_not_mem.2 fun a ha => Nat.not_lt_zero _ (hlt a ha)
    rw [hnil]
    rfl
  | succ n ih =>
    -- below `n` it does not matter whether the elements with key `n` are there
    have hbelow := ih (hsorted.filter (key · < n)) fun a ha => by
      simpa using (List.mem_filter.1 ha).2
    have hparts : (List.range n).flatMap (fun k => (l.filter (key · < n)).filter (key · = k)) =
        (List.range n).flatMap fun k => l.filter (key · = k) := by
      refine List.flatMap_congr fun k hk => ?_
      rw [List.filter_filter]
      refine List.filter_congr fun a _ => ?_
      have hkn := List.mem_range.1 hk
      by_cases hak : key a = k
      · simp [hak, hkn]
      · simp [hak]
    rw [List.range_succ, List.flatMap_append, List.flatMap_singleton, ← hparts, hbelow]
    exact sorted_split hsorted fun a ha => Nat.le_of_lt_succ (hlt a ha)

/-- Sorting by a key gives the parts with one key each, in the order that they had. -/
theorem mergeSort_eq_flatMap (key : α → Nat) (hlt : ∀ a ∈ l, key a < n) :
    l.mergeSort (fun a b => key a ≤ key b) =
      (List.range n).flatMap fun k => l.filter (key · = k) := by
  have hsorted : (l.mergeSort fun a b => key a ≤ key b).Pairwise fun a b => key a ≤ key b :=
    (List.pairwise_mergeSort (key_trans key) (key_total key) l).imp fun h => of_decide_eq_true h
  have hparts := flatMap_filter_of_sorted hsorted fun a ha =>
    hlt a ((List.mergeSort_perm _ _).mem_iff.1 ha)
  rw [← hparts]
  exact List.flatMap_congr fun k _ => filter_mergeSort key l k

end ByKey

/-! ## Lines -/

namespace Code

theorem foldl_laterEntry_of_sorted {lines : List LineNumber}
    (h : lines.Pairwise fun a b => a.start ≤ b.start)
    (best : Option LineNumber) (hbest : ∀ b ∈ best, ∀ entry ∈ lines, b.start ≤ entry.start) :
    lines.foldl laterEntry best = lines.getLast?.or best := by
  induction lines generalizing best with
  | nil => rfl
  | cons entry lines ih =>
    obtain ⟨hfirst, hrest⟩ := List.pairwise_cons.1 h
    have hentry : laterEntry best entry = some entry := by
      cases best with
      | none => rfl
      | some b => exact if_pos (hbest b rfl entry List.mem_cons_self)
    rw [List.foldl_cons, hentry, ih hrest (some entry) fun b hb => Option.mem_some.1 hb ▸ hfirst,
      List.getLast?_cons]
    cases lines.getLast? <;> rfl

/-- In a line table whose entries ascend, the last entry at or before an offset counts. -/
theorem lineAt_of_sorted {code : Code} (h : code.lines.Pairwise fun a b => a.start ≤ b.start)
    (offset : Nat) :
    code.lineAt offset = (code.lines.filter (·.start ≤ offset)).getLast?.map (·.line) := by
  unfold lineAt
  rw [foldl_laterEntry_of_sorted (h.filter _) none (by simp), Option.or_none]

end Code

end JvmAudit
