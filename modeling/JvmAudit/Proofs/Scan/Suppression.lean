import JvmAudit.Proofs.Scan.Basic
import JvmAudit.Proofs.Scan.Monotone
import Mathlib.Data.List.Flatten

/-!
# What suppression hides

A scan of a class is put together from its header, its fields and its methods, one behind the other,
and a pattern for exempt elements takes out whole elements and nothing else. So with more patterns a
scan still succeeds, and reports some of what it reported before.

What is hidden has no influence on the rest: two classes that differ only in exempt members have the
same scan, as long as the line of the class is the same. That line is the smallest one of all
bodies, also of the exempt ones.

## Main results

* `ClassFile.sites_sublist`: more patterns leave fewer sites, in the same order
* `Scanner.scan_congr_of_exempt`: exempt members may be anything
* `Scanner.scan_hides_exempt`: both, and what becomes of the other members
-/

namespace JvmAudit

open Result

namespace Suppression

/-- An element is exempt iff one of its annotations matches a pattern. -/
theorem exempts_iff {s : Suppression} {annotations : List String} :
    s.exempts annotations = true ↔ ∃ a ∈ annotations, ∃ p ∈ s.patterns, p.accepts a = true := by
  simp [exempts]

/-- More patterns exempt more elements. -/
theorem exempts_of_subset {s s' : Suppression} (h : s.patterns ⊆ s'.patterns)
    {annotations : List String}
    (he : s.exempts annotations = true) : s'.exempts annotations = true := by
  obtain ⟨a, ha, p, hp, hacc⟩ := exempts_iff.1 he
  exact exempts_iff.2 ⟨a, ha, p, h hp, hacc⟩

theorem not_exempts_of_subset {s s' : Suppression} (h : s.patterns ⊆ s'.patterns)
    {annotations : List String}
    (he : s'.exempts annotations = false) : s.exempts annotations = false := by
  rw [← Bool.not_eq_true] at he ⊢
  exact fun hs => he (exempts_of_subset h hs)

theorem patterns_subset_add (s : Suppression) (pattern : String) :
    s.patterns ⊆ (s.add pattern).patterns := by
  unfold add
  simp only
  split
  · exact List.Subset.refl _
  · exact List.subset_append_left _ _

theorem patterns_subset_foldl_add (s : Suppression) (patterns : List String) :
    s.patterns ⊆ (patterns.foldl add s).patterns := by
  induction patterns generalizing s with
  | nil => exact List.Subset.refl _
  | cons pattern patterns ih =>
    exact List.Subset.trans (patterns_subset_add s pattern) (ih (s.add pattern))

end Suppression

namespace ClassFile

variable {c c' : ClassFile} {exempt exempt' : Suppression}

/-! ## Sites that are left -/

/-- An exempt class has no sites. -/
theorem sites_of_exempt (h : exempt.exempts c.annotations = true) : c.sites exempt = [] := by
  rw [sites, if_pos h]

/-- The sites of a class that is not exempt: its header, and those of the members that are not
exempt. -/
theorem sites_of_not_exempt (h : exempt.exempts c.annotations = false) :
    c.sites exempt = c.headerSites ++
      (c.fields.filter (!exempt.exempts ·.annotations)).flatMap c.fieldSites ++
      (c.methods.filter (!exempt.exempts ·.annotations)).flatMap c.methodSites := by
  rw [sites, if_neg (by simp [h])]

/-- With more patterns fewer members are left, in the same order. -/
theorem filter_exempts_sublist {α : Type} (annotations : α → List String)
    (h : exempt.patterns ⊆ exempt'.patterns) (members : List α) :
    (members.filter fun m => !exempt'.exempts (annotations m)).Sublist
      (members.filter fun m => !exempt.exempts (annotations m)) := by
  refine List.monotone_filter_right members fun m hm => ?_
  rw [Bool.not_eq_true'] at hm ⊢
  exact Suppression.not_exempts_of_subset h hm

/-- More patterns leave fewer sites, in the same order. -/
theorem sites_sublist (h : exempt.patterns ⊆ exempt'.patterns) (c : ClassFile) :
    (c.sites exempt').Sublist (c.sites exempt) := by
  cases hc' : exempt'.exempts c.annotations with
  | true =>
    rw [sites_of_exempt hc']
    exact List.nil_sublist _
  | false =>
    rw [sites_of_not_exempt hc', sites_of_not_exempt (Suppression.not_exempts_of_subset h hc')]
    have hfields := (filter_exempts_sublist (·.annotations) h c.fields).flatMap c.fieldSites
    have hmethods := (filter_exempts_sublist (·.annotations) h c.methods).flatMap c.methodSites
    exact ((List.Sublist.refl _).append hfields).append hmethods

/-! ## Classes that differ in exempt members -/

/-- Two members are the same, or both are exempt. -/
def SameOrExempt {α : Type} (exempt : Suppression) (annotations : α → List String)
    (m m' : α) : Prop :=
  m = m' ∨ exempt.exempts (annotations m) = true ∧ exempt.exempts (annotations m') = true

/-- Two classes that may differ in exempt members, besides flags and version. -/
structure SameUnlessExempt (exempt : Suppression) (c c' : ClassFile) : Prop where
  name : c'.name = c.name
  sourceFile : c'.sourceFile = c.sourceFile
  superClass : c'.superClass = c.superClass
  interfaces : c'.interfaces = c.interfaces
  annotations : c'.annotations = c.annotations
  fields : List.Forall₂ (SameOrExempt exempt (·.annotations)) c.fields c'.fields
  methods : List.Forall₂ (SameOrExempt exempt (·.annotations)) c.methods c'.methods

/-- Members that are exempt may differ: the others are left. -/
theorem filter_eq_of_sameOrExempt {α : Type} {annotations : α → List String}
    {members members' : List α}
    (h : List.Forall₂ (SameOrExempt exempt annotations) members members') :
    (members'.filter fun m => !exempt.exempts (annotations m)) =
      members.filter fun m => !exempt.exempts (annotations m) := by
  induction h with
  | nil => rfl
  | cons hm _ ih =>
    rcases hm with rfl | ⟨he, he'⟩
    · rw [List.filter_cons, List.filter_cons, ih]
    · rw [List.filter_cons_of_neg (by simp [he']), List.filter_cons_of_neg (by simp [he]), ih]

/-- Exempt members have no sites, so only the line of the class may tell them apart. -/
theorem sites_congr (h : SameUnlessExempt exempt c c') (hline : c'.firstLine = c.firstLine) :
    c'.sites exempt = c.sites exempt := by
  have hclassLine : c'.classLine = c.classLine := by rw [classLine, classLine, hline]
  have hlocation : c'.memberLocation = c.memberLocation := by
    funext member
    rw [memberLocation, memberLocation, h.name]
  have hheader : c'.headerSites = c.headerSites := by
    simp only [headerSites, supertypes, h.superClass, h.interfaces, h.annotations,
      h.name, hclassLine]
  have hfieldSites : c'.fieldSites = c.fieldSites := by
    funext f
    simp only [fieldSites, h.name, hlocation, hclassLine]
  have hmethodSites : c'.methodSites = c.methodSites := by
    funext m
    simp only [methodSites, hlocation, hclassLine]
  rw [sites, sites, h.annotations, filter_eq_of_sameOrExempt h.fields,
    filter_eq_of_sameOrExempt h.methods, hheader, hfieldSites, hmethodSites]

end ClassFile

namespace Scanner

variable {p : Policy} {source : ClassSource} {exempt exempt' : Suppression} {c c' : ClassFile}

/-- What an exempt member looks like does not matter, except for the first line of the class. -/
theorem scan_congr_of_exempt (h : ClassFile.SameUnlessExempt exempt c c')
    (hline : c'.firstLine = c.firstLine) :
    (Scanner.mk p source exempt).scan c' = (Scanner.mk p source exempt).scan c := by
  have hviolation : violation c' = violation c := by
    funext site hit
    rw [violation, violation, h.name, h.sourceFile]
  have hscan : classScan c' = classScan c := by
    funext sites findings
    rw [classScan, classScan, hviolation]
  rw [scan_eq, scan_eq, show (Scanner.mk p source exempt).suppression = exempt from rfl,
    ClassFile.sites_congr h hline, h.name, hscan]

/-! ## Scans with more patterns -/

/-- What is found at a site, where the class path does not fail. -/
def findingAt (p : Policy) (source : ClassSource) (c : ClassFile) (site : Site) : Finding :=
  ((Scanner.mk p source .empty).check c.name site).toOption.getD ⟨none, []⟩

/-- The violations at some sites of a class. -/
def violationsAt (p : Policy) (source : ClassSource) (c : ClassFile) (sites : List Site) :
    List Violation :=
  sites.filterMap fun site => (findingAt p source c site).hit.map (violation c site)

/-- The classes that are missed at some sites of a class. -/
def missedAt (p : Policy) (source : ClassSource) (c : ClassFile) (sites : List Site) :
    List String :=
  sortedNames (sites.flatMap fun site => (findingAt p source c site).missing)

/-- If a scan succeeds, each of its sites can be checked. -/
theorem check_of_scan {scan : ClassScan} (h : (Scanner.mk p source exempt).scan c = .ok scan) :
    ∀ site ∈ c.sites exempt, (Scanner.mk p source .empty).check c.name site =
      .ok (findingAt p source c site) := by
  intro site hsite
  obtain ⟨findings, hfindings, _⟩ := exists_findings h
  obtain ⟨finding, hfinding⟩ := ok_of_mem_mapM hfindings hsite
  -- which elements are exempt plays no part in the check of a site
  have hcheck : (Scanner.mk p source .empty).check c.name site = .ok finding := hfinding
  simp [findingAt, hcheck, Except.toOption]

/-- If each site can be checked, a scan gives what they give, one behind the other. -/
theorem scan_eq_at
    (h : ∀ site ∈ c.sites exempt, (Scanner.mk p source .empty).check c.name site =
      .ok (findingAt p source c site)) :
    (Scanner.mk p source exempt).scan c =
      .ok ⟨violationsAt p source c (c.sites exempt), missedAt p source c (c.sites exempt)⟩ :=
  scan_of_check (s := ⟨p, source, exempt⟩) h

/-- The violations of the header of a class, of its fields and of its methods, one element after the
other, without the members that are exempt. -/
def violationsOf (p : Policy) (source : ClassSource) (c : ClassFile) (exempt : Suppression) :
    List Violation :=
  violationsAt p source c c.headerSites ++
    (c.fields.filter (!exempt.exempts ·.annotations)).flatMap
    (fun f => violationsAt p source c (c.fieldSites f)) ++
    (c.methods.filter (!exempt.exempts ·.annotations)).flatMap fun m =>
    violationsAt p source c (c.methodSites m)

theorem violationsAt_sites (h : exempt.exempts c.annotations = false) :
    violationsAt p source c (c.sites exempt) = violationsOf p source c exempt := by
  rw [ClassFile.sites_of_not_exempt h]
  simp only [violationsOf, violationsAt, List.filterMap_append, List.filterMap_flatMap]

/-- Fewer sites miss fewer classes. -/
theorem missedAt_subset {sites sites' : List Site} (h : sites' ⊆ sites) :
    missedAt p source c sites' ⊆ missedAt p source c sites := by
  intro name hname
  simp only [missedAt, mem_sortedNames, List.mem_flatMap] at hname ⊢
  obtain ⟨site, hsite, hm⟩ := hname
  exact ⟨site, h hsite, hm⟩

/-- **Suppression hides exempt elements and nothing else.** If a scan succeeds, it also succeeds
with further patterns. It then reports some of the violations that it reported, unchanged and in the
same order, and misses no other classes. An exempt class has none at all; otherwise there remain
those of the header and, one after the other, those of the members that are not exempt, each member
with all that it had.

Exempt members may be replaced by other exempt ones: as long as the line of the class stays the
same, the scan does. -/
theorem scan_hides_exempt (p : Policy) (source : ClassSource) (c : ClassFile) (exempt : Suppression)
    (patterns : List String) :
    (∀ scan, (Scanner.mk p source exempt).scan c = .ok scan →
      ∃ scan', (Scanner.mk p source (patterns.foldl .add exempt)).scan c = .ok scan' ∧
        scan'.violations.Sublist scan.violations ∧ scan'.missing ⊆ scan.missing ∧
        ((patterns.foldl .add exempt).exempts c.annotations = true → scan' = ⟨[], []⟩) ∧
        ((patterns.foldl .add exempt).exempts c.annotations = false →
          scan.violations = violationsOf p source c exempt ∧
          scan'.violations = violationsOf p source c (patterns.foldl .add exempt))) ∧
    ∀ c', ClassFile.SameUnlessExempt exempt c c' → c'.firstLine = c.firstLine →
      (Scanner.mk p source exempt).scan c' = (Scanner.mk p source exempt).scan c := by
  have hpatterns := Suppression.patterns_subset_foldl_add exempt patterns
  refine ⟨fun scan hscan => ?_, fun c' => scan_congr_of_exempt⟩
  have hsites := ClassFile.sites_sublist hpatterns c
  have hcheck := check_of_scan hscan
  have hcheck' : ∀ site ∈ c.sites (patterns.foldl .add exempt),
      (Scanner.mk p source .empty).check c.name site = .ok (findingAt p source c site) :=
    fun site hsite => hcheck site (hsites.subset hsite)
  rw [scan_eq_at hcheck] at hscan
  cases hscan
  refine ⟨_, scan_eq_at hcheck', hsites.filterMap _, missedAt_subset hsites.subset, ?_, ?_⟩
  · intro hc
    rw [ClassFile.sites_of_exempt hc]
    simp only [violationsAt, missedAt, sortedNames, List.filterMap_nil, List.flatMap_nil,
      List.mergeSort_nil]
    rfl
  · intro hc'
    exact ⟨violationsAt_sites (Suppression.not_exempts_of_subset hpatterns hc'),
      violationsAt_sites hc'⟩

end Scanner

/-! ## Two calls, one of them in an exempt method -/

namespace InheritedCall

def loud : MethodDecl :=
  ⟨"loud", "()V", 1, [], [], some ⟨[⟨0, .method "lib.Derived" "run" "()V" false⟩], [⟨0, 7⟩]⟩⟩

def quiet : MethodDecl :=
  ⟨"quiet", "()V", 1, ["app.Silent"], [],
    some ⟨[⟨0, .method "lib.Derived" "run" "()V" false⟩], [⟨0, 9⟩]⟩⟩

/-- Takes the place of `quiet`; its descriptor cannot be read. -/
def garbled : MethodDecl := ⟨"other", "(", 1, ["lib.Base", "app.Silent"], ["gone.Class"], none⟩

def callers (second : MethodDecl) : ClassFile :=
  ⟨"app.Calls", 1, 52, none, some "lib.Derived", [], [], [], [loud, second]⟩

theorem sameUnlessExempt_callers :
    ClassFile.SameUnlessExempt (.ofList ["app.Silent"]) (callers quiet) (callers garbled) := by
  refine ⟨rfl, rfl, rfl, rfl, rfl, .nil, .cons (.inl rfl) (.cons (.inr ?_) .nil)⟩
  exact ⟨by decide +kernel, by decide +kernel⟩

theorem checkable_callers : (callers quiet).Checkable .empty := by
  have hsites : (callers quiet).sites .empty =
      [⟨"app.Calls", 7, .type "lib.Derived"⟩,
        ⟨"app.Calls#loud()", 7, .member "lib.Derived" "run" (some "()V")⟩,
        ⟨"app.Calls#quiet()", 9, .type "app.Silent"⟩,
        ⟨"app.Calls#quiet()", 9, .member "lib.Derived" "run" (some "()V")⟩] := by decide +kernel
  unfold ClassFile.Checkable
  rw [hsites]
  simp

theorem scan_hides_exempt_callers : ∃ scan scan',
    (Scanner.mk ⟨rules, false⟩ source .empty).scan (callers quiet) = .ok scan ∧
    (Scanner.mk ⟨rules, false⟩ source (.ofList ["app.Silent"])).scan (callers quiet) = .ok scan' ∧
    (Scanner.mk ⟨rules, false⟩ source (.ofList ["app.Silent"])).scan (callers garbled) = .ok scan' ∧
    scan'.violations.Sublist scan.violations ∧ scan'.missing ⊆ scan.missing ∧
    scan.violations = scan'.violations ++
      Scanner.violationsAt ⟨rules, false⟩ source (callers quiet)
        ((callers quiet).methodSites quiet) := by
  obtain ⟨scan, hscan⟩ := Scanner.exists_scan_ok readable_source checkable_callers ⟨rules, false⟩
  obtain ⟨scan', hscan', hsub, hmissing, _, hparts⟩ :=
    (Scanner.scan_hides_exempt ⟨rules, false⟩ source (callers quiet) .empty ["app.Silent"]).1
    scan hscan
  have hgarbled :=
    (Scanner.scan_hides_exempt ⟨rules, false⟩ source (callers quiet) (.ofList ["app.Silent"]) []).2
    (callers garbled) sameUnlessExempt_callers rfl
  obtain ⟨hall, hleft⟩ := hparts (by decide +kernel)
  refine ⟨scan, scan', hscan, hscan', hgarbled.trans hscan', hsub, hmissing, ?_⟩
  have hmethods : (callers quiet).methods.filter (!Suppression.empty.exempts ·.annotations) =
      [loud, quiet] := by
    decide +kernel
  have hmethods' : (callers quiet).methods.filter
      (!(Suppression.add .empty "app.Silent").exempts ·.annotations) = [loud] := by decide +kernel
  rw [hall, hleft, Scanner.violationsOf, Scanner.violationsOf, List.foldl_cons, List.foldl_nil,
    hmethods, hmethods']
  simp [callers]

end InheritedCall

end JvmAudit
