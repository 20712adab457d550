import JvmAudit.Report.Basic
import Mathlib.Data.List.Chain

/-!
# Groups of violations

The groups of a report are its violations, cut where the class changes (`isGrouping_byClass`).
Violations that come in blocks, one block for each class, are grouped into these blocks: a class
without violations has no group, and every other class has one (`byClass_of_blocks`).
-/

namespace JvmAudit.Report

/-! ## Runs of violations -/

/-- Violations cut into groups where the class changes: together the groups are the violations, each
of them is of one class and starts with a violation in its source file, and neighbours are of
different classes. -/
structure IsGrouping (violations : List Violation) (groups : List ClassGroup) : Prop where
  flatMap_eq : groups.flatMap (·.violations) = violations
  own : ∀ g ∈ groups, ∃ v vs, g.violations = v :: vs ∧ g.sourceFile = v.sourceFile ∧
    ∀ u ∈ g.violations, u.className = g.className
  apart : groups.IsChain fun g g' => g.className ≠ g'.className

/-- A violation in front of grouped ones. -/
theorem IsGrouping.groupStep {violations : List Violation} {groups : List ClassGroup}
    (h : IsGrouping violations groups)
    (v : Violation) : IsGrouping (v :: violations) (groupStep v groups) := by
  cases groups with
  | nil =>
    have hnil : violations = [] := h.flatMap_eq.symm
    exact ⟨by simp [Report.groupStep, hnil], by simp [Report.groupStep], .singleton _⟩
  | cons g rest =>
    by_cases hname : g.className = v.className
    · -- the first group takes it in, and is of the same class as before
      have hstep : Report.groupStep v (g :: rest) =
          ⟨v.className, v.sourceFile, v :: g.violations⟩ :: rest := by
        simp [Report.groupStep, hname]
      obtain ⟨_, _, _, _, hfirst⟩ := h.own g List.mem_cons_self
      rw [hstep]
      refine ⟨?_, ?_, ?_⟩
      · simp [← h.flatMap_eq]
      · intro g' hg'
        rcases List.mem_cons.1 hg' with rfl | hg'
        · refine ⟨v, g.violations, rfl, rfl, fun u hu => ?_⟩
          rcases List.mem_cons.1 hu with rfl | hu
          · rfl
          · exact (hfirst u hu).trans hname
        · exact h.own g' (List.mem_cons_of_mem _ hg')
      · cases rest with
        | nil => exact .singleton _
        | cons g' rest =>
          obtain ⟨hne, hrest⟩ := List.isChain_cons_cons.1 h.apart
          exact .cons_cons (hname ▸ hne) hrest
    · have hstep : Report.groupStep v (g :: rest) =
          ⟨v.className, v.sourceFile, [v]⟩ :: g :: rest := by
        simp [Report.groupStep, hname]
      rw [hstep]
      refine ⟨by simp [← h.flatMap_eq], ?_, .cons_cons (Ne.symm hname) h.apart⟩
      intro g' hg'
      rcases List.mem_cons.1 hg' with rfl | hg'
      · exact ⟨v, [], rfl, rfl, by simp⟩
      · exact h.own g' hg'

/-- The violations of a report are cut where the class changes. -/
theorem isGrouping_byClass (r : Report) : IsGrouping r.violations r.byClass := by
  unfold byClass
  induction r.violations with
  | nil => exact ⟨rfl, by simp, .nil⟩
  | cons v violations ih => exact ih.groupStep v

/-! ## Blocks -/

/-- The group of the violations of a class, if there are any. -/
def group? (className : String) (violations : List Violation) : Option ClassGroup :=
  violations.head?.map fun v => ⟨className, v.sourceFile, violations⟩

/-- Violations of one class in front of a group of another class make a group of their own. -/
theorem foldr_groupStep_cons {name : String} {v : Violation} {vs : List Violation}
    {groups : List ClassGroup}
    (hvs : ∀ u ∈ v :: vs, u.className = name) (hg : ∀ g ∈ groups, g.className ≠ name) :
    (v :: vs).foldr groupStep groups = ⟨name, v.sourceFile, v :: vs⟩ :: groups := by
  induction vs generalizing v with
  | nil =>
    have hv : v.className = name := hvs v List.mem_cons_self
    cases groups with
    | nil => simp [groupStep, hv]
    | cons g rest =>
      have hne : g.className ≠ name := hg g List.mem_cons_self
      simp [groupStep, hv, hne]
  | cons u vs ih =>
    have hv : v.className = name := hvs v List.mem_cons_self
    have htail := ih fun w hw => hvs w (List.mem_cons_of_mem _ hw)
    rw [List.foldr_cons, htail]
    simp [groupStep, hv]

section Blocks

variable {α : Type} {name : α → String} {block : α → List Violation}

theorem className_of_mem_group? {l : List α} {g : ClassGroup}
    (h : g ∈ l.filterMap fun a => group? (name a) (block a)) : g.className ∈ l.map name := by
  obtain ⟨a, ha, hg⟩ := List.mem_filterMap.1 h
  obtain ⟨v, _, rfl⟩ := Option.map_eq_some_iff.1 hg
  exact List.mem_map_of_mem ha

theorem foldr_groupStep_flatMap {l : List α} (hn : (l.map name).Nodup)
    (hb : ∀ a ∈ l, ∀ v ∈ block a, v.className = name a) :
    (l.flatMap block).foldr groupStep [] = l.filterMap fun a => group? (name a) (block a) := by
  induction l with
  | nil => rfl
  | cons a l ih =>
    obtain ⟨ha, hl⟩ := List.nodup_cons.1 hn
    have htail := ih hl fun b hmem => hb b (List.mem_cons_of_mem _ hmem)
    rw [List.flatMap_cons, List.foldr_append, htail, List.filterMap_cons]
    cases hblock : block a with
    | nil => rfl
    | cons v vs =>
      refine foldr_groupStep_cons (fun u hu => hb a List.mem_cons_self u (hblock ▸ hu)) ?_
      intro g hg hname
      exact ha (hname ▸ className_of_mem_group? hg)

/-- Violations in blocks of different classes are grouped by block. -/
theorem byClass_of_blocks {r : Report} {l : List α} (hr : r.violations = l.flatMap block)
    (hn : (l.map name).Nodup) (hb : ∀ a ∈ l, ∀ v ∈ block a, v.className = name a) :
    r.byClass = l.filterMap fun a => group? (name a) (block a) := by
  unfold byClass
  rw [hr]
  exact foldr_groupStep_flatMap hn hb

/-- There is at most one group for a class. -/
theorem nodup_classNames_of_blocks {r : Report} {l : List α} (hr : r.violations = l.flatMap block)
    (hn : (l.map name).Nodup) (hb : ∀ a ∈ l, ∀ v ∈ block a, v.className = name a) :
    (r.byClass.map (·.className)).Nodup := by
  rw [byClass_of_blocks hr hn hb]
  refine List.Sublist.nodup ?_ hn
  clear hr hn hb
  induction l with
  | nil => exact .slnil
  | cons a l ih =>
    rw [List.filterMap_cons, List.map_cons]
    cases hblock : block a with
    | nil => exact ih.cons _
    | cons v vs => exact ih.cons_cons _

end Blocks

end JvmAudit.Report
