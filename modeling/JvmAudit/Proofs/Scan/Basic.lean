import JvmAudit.Proofs.Classpath.Walk
import JvmAudit.Scan.Basic

/-!
# Scans

The names of missing classes are those that the checks note, sorted and each once
(`mem_sortedNames`, `pairwise_sortedNames`). All violations of a scan are of the scanned class. A
scan looks at the class path only by loading names, so two class paths that load the same classes
give the same scans (`Scanner.scan_congr`).
-/

namespace JvmAudit

namespace Scanner

/-! ## Sorted names -/

section SortedNames

theorem mem_eraseReps_loop {x a : String} {l acc : List String} :
    x ∈ List.eraseRepsBy.loop (· == ·) a l acc ↔ x ∈ acc ∨ x = a ∨ x ∈ l := by
  induction l generalizing a acc with
  | nil => simp [List.eraseRepsBy.loop, or_comm]
  | cons b l ih =>
    unfold List.eraseRepsBy.loop
    by_cases h : a = b
    · simp [h, ih]
    · simp only [beq_eq_false_iff_ne.2 h, ih, List.mem_cons]
      rw [or_assoc, or_left_comm]

/-- The names that are done lie below the current one, and the rest does not. -/
theorem pairwise_eraseReps_loop {a : String} {l acc : List String} (hacc : acc.Pairwise (· > ·))
    (hlt : ∀ b ∈ acc, b < a) (hl : (a :: l).Pairwise (· ≤ ·)) :
    (List.eraseRepsBy.loop (· == ·) a l acc).Pairwise (· < ·) := by
  induction l generalizing a acc with
  | nil =>
    unfold List.eraseRepsBy.loop
    rw [List.pairwise_reverse, List.pairwise_cons]
    exact ⟨hlt, hacc⟩
  | cons b l ih =>
    obtain ⟨ha, hbl⟩ := List.pairwise_cons.1 hl
    unfold List.eraseRepsBy.loop
    by_cases h : a = b
    · subst h
      simp only [beq_self_eq_true]
      exact ih hacc hlt hbl
    · have hab : a < b := Std.lt_of_le_of_ne (ha b List.mem_cons_self) h
      simp only [beq_eq_false_iff_ne.2 h]
      refine ih (List.pairwise_cons.2 ⟨hlt, hacc⟩) ?_ hbl
      intro x hx
      rcases List.mem_cons.1 hx with rfl | hx
      · exact hab
      · exact String.lt_trans (hlt x hx) hab

theorem pairwise_mergeSort_le (names : List String) :
    (names.mergeSort (· ≤ ·)).Pairwise (· ≤ ·) := by
  have htrans : ∀ a b c : String, decide (a ≤ b) = true → decide (b ≤ c) = true →
      decide (a ≤ c) = true := by
    intro a b c hab hbc
    simp only [decide_eq_true_eq] at hab hbc ⊢
    exact String.le_trans hab hbc
  have htotal : ∀ a b : String, (decide (a ≤ b) || decide (b ≤ a)) = true := fun a b => by
    simpa using String.le_total a b
  exact (List.pairwise_mergeSort htrans htotal names).imp fun hab => by simpa using hab

/-- Sorting neither adds names nor loses any. -/
@[simp]
theorem mem_sortedNames {names : List String} {n : String} : n ∈ sortedNames names ↔ n ∈ names := by
  rw [← (List.mergeSort_perm names (· ≤ ·)).mem_iff]
  unfold sortedNames List.eraseReps List.eraseRepsBy
  split
  · next h => simp [h]
  · next a l h => simp [h, mem_eraseReps_loop]

/-- The names are sorted, and each is there once. -/
theorem pairwise_sortedNames (names : List String) : (sortedNames names).Pairwise (· < ·) := by
  have hsorted := pairwise_mergeSort_le names
  unfold sortedNames List.eraseReps List.eraseRepsBy
  split
  · exact .nil
  · next a l h =>
    rw [h] at hsorted
    exact pairwise_eraseReps_loop .nil (by simp) hsorted

/-- The sorted names depend only on which names there are. -/
theorem sortedNames_congr {names names' : List String} (h : ∀ n, n ∈ names ↔ n ∈ names') :
    sortedNames names = sortedNames names' := by
  -- sorted lists without repetitions are equal when they have the same members
  have hnodup : ∀ l, (sortedNames l).Nodup := by
    intro l
    refine (pairwise_sortedNames l).imp ?_
    rintro a _ hab rfl
    exact String.lt_irrefl a hab
  have hperm : (sortedNames names).Perm (sortedNames names') :=
    (List.perm_ext_iff_of_nodup (hnodup _) (hnodup _)).2 fun n => by simp [h]
  refine hperm.eq_of_pairwise ?_ (pairwise_sortedNames _) (pairwise_sortedNames _)
  intro a b _ _ hab hba
  exact absurd (String.lt_trans hab hba) (String.lt_irrefl a)

end SortedNames

end Scanner

/-! ## Scans on a class path -/

section Eval

variable {source : ClassSource} {mentioned : List String}
  {hload : ∀ name, Answer.supertypes (source.load name) ⊆ mentioned} (p : Policy)

theorem Policy.eval_checkType (name : String) :
    (p.checkType name).eval source.load hload = (source.load name).map (p.typeFinding name) :=
  Query.eval_map ..

theorem Policy.eval_checkMember (owner name : String) (descriptor : Option String) :
    (p.checkMember owner name descriptor).eval source.load hload =
      (source.resolveMember owner (Scanner.memberQuery name descriptor)).map
        (p.memberFinding owner name descriptor) := by
  unfold Policy.checkMember
  rw [Query.eval_map, ClassSource.eval_resolve, ← ClassSource.resolveMember_eq]

end Eval

namespace Scanner

variable {s : Scanner} {c : ClassFile} {scan : ClassScan}

theorem checkType_eq (s : Scanner) (name : String) :
    s.checkType name = (s.source.load name).map (s.policy.typeFinding name) :=
  Policy.eval_checkType ..

/-- A member is resolved, and the policy decides on what was found. -/
theorem checkMember_eq (s : Scanner) (owner name : String) (descriptor : Option String) :
    s.checkMember owner name descriptor =
      (s.source.resolveMember owner (memberQuery name descriptor)).map
        (s.policy.memberFinding owner name descriptor) := Policy.eval_checkMember ..

/-- A site is checked by its subject. -/
theorem check_eq (s : Scanner) (className : String) (site : Site) :
    s.check className site =
      match site.subject with
      | .type name => s.checkType name
      | .fieldDecl owner name =>
        .ok ⟨(s.policy.fieldRule? owner name).map (.rule · owner false), []⟩
      | .member owner name descriptor => s.checkMember owner name descriptor
      | .malformed descriptor => .error (.classFile className (.invalidDescriptor descriptor)) := by
  unfold check Policy.check
  cases site.subject <;> rfl

/-- A scan checks the sites, one after the other. -/
theorem scan_eq (s : Scanner) (c : ClassFile) :
    s.scan c = ((c.sites s.suppression).mapM (s.check c.name)).map
      (classScan c (c.sites s.suppression)) := by
  refine (Query.eval_map ..).trans ?_
  rw [Query.eval_mapM]
  rfl

/-- A scan that succeeds has a finding for each of its sites. -/
theorem exists_findings (h : s.scan c = .ok scan) : ∃ findings,
    (c.sites s.suppression).mapM (s.check c.name) = .ok findings ∧
      scan = classScan c (c.sites s.suppression) findings := by
  rw [scan_eq] at h
  obtain ⟨findings, hfindings, rfl⟩ := Result.map_eq_ok.1 h
  exact ⟨findings, hfindings, rfl⟩

end Scanner

namespace Policy

variable {source : ClassSource} {mentioned : List String}
  {hload : ∀ name, Answer.supertypes (source.load name) ⊆ mentioned} (p : Policy)

theorem eval_check (suppression : Suppression) (className : String) (site : Site) :
    (p.check className site).eval source.load hload =
      Scanner.check ⟨p, source, suppression⟩ className site := by
  rw [Scanner.check_eq]
  unfold check
  cases site.subject with
  | type name =>
    dsimp only
    rw [Scanner.checkType_eq, eval_checkType]
  | fieldDecl owner name => rfl
  | member owner name descriptor =>
    dsimp only
    rw [Scanner.checkMember_eq, eval_checkMember]
  | malformed descriptor => rfl

/-- A scan gives the same whatever names the answers may mention. -/
theorem eval_scan (suppression : Suppression) (c : ClassFile) :
    (p.scan suppression c).eval source.load hload = Scanner.scan ⟨p, source, suppression⟩ c := by
  rw [Scanner.scan_eq]
  unfold scan
  rw [Query.eval_map, Query.eval_mapM]
  simp only [eval_check p suppression]

end Policy

namespace Scanner

variable {s s' : Scanner} {c : ClassFile} {scan : ClassScan}

/-! ## The classes of violations -/

/-- A violation is reported for the class that is scanned. -/
theorem className_of_mem_violations (h : s.scan c = .ok scan) {v : Violation}
    (hv : v ∈ scan.violations) :
    v.className = c.name := by
  obtain ⟨findings, _, rfl⟩ := exists_findings h
  obtain ⟨⟨site, finding⟩, _, hhit⟩ := List.mem_filterMap.1 hv
  obtain ⟨hit, _, rfl⟩ := Option.map_eq_some_iff.1 hhit
  rfl

/-! ## Dependence on the class path -/

theorem check_congr (hpolicy : s.policy = s'.policy) (hsource : s.source.SameLoads s'.source)
    (className : String) (site : Site) : s.check className site = s'.check className site := by
  rw [check_eq, check_eq]
  cases site.subject with
  | type name => simp only [checkType_eq, hsource name, hpolicy]
  | fieldDecl owner name => simp only [hpolicy]
  | member owner name descriptor =>
    simp only [checkMember_eq, ClassSource.resolveMember_congr hsource, hpolicy]
  | malformed descriptor => rfl

/-- A scan depends on the source by its answers only. -/
theorem scan_congr (hpolicy : s.policy = s'.policy) (hsource : s.source.SameLoads s'.source)
    (hsuppression : s.suppression = s'.suppression) (c : ClassFile) : s.scan c = s'.scan c := by
  have hcheck : s.check c.name = s'.check c.name :=
    funext fun site => check_congr hpolicy hsource c.name site
  rw [scan_eq, scan_eq, hsuppression, hcheck]

end Scanner

end JvmAudit
