import JvmAudit.Assembler.Class
import JvmAudit.Proofs.Checker.Reachable
import JvmAudit.Proofs.Classpath.Sharing
import JvmAudit.Proofs.Report.Groups
import JvmAudit.Proofs.Scan.Basic

/-!
# What a run gives

A run gives the first failure of the class path, or a report of all queued classes. The order in
which classes were queued does not matter for what is found, only for the order in which it is
reported.

The scans of a run share the resolver of the check, which has remembered what was looked up to bind
the rules, before any class was queued. Neither this nor how the scans interleave matters: each scan
gives what it gives on the class path with the queued classes in front (`Checker.scans_fst`,
`Checker.exists_result_sharedScans`).

## Main results

* `Checker.Inv.exists_run_of_ok`, `Checker.Inv.exists_run_of_error`: a run in terms of the scans
* `Checker.run_result`: the result of a run and its report
-/

namespace JvmAudit.Checker

variable {c c' : Checker} {rules : RuleSet} {scanOf : ClassFile → ClassScan}

/-! ## Binding the rules -/

/-- Rules that can be bound can be bound to the class path alone. -/
theorem Inv.exists_rules (hi : c.Inv) (h : (c.perform freeze).1 = .ok ()) :
    ∃ rules, c.book.freeze ⟨[], c.source.containers⟩ c.options.failOnUnresolvableSignatures =
      .ok rules := by
  by_cases hs : c.stage = .configured
  · rw [perform_freeze, if_pos hs] at h
    rw [← hi.source_eq hs, ← binding_fst hi.resolver]
    cases hb : c.binding.1 with
    | ok rules => exact ⟨rules, rfl⟩
    | error e =>
      rw [hb] at h
      cases h
  · obtain ⟨rules, _, hr⟩ := hi.bound hs
    exact ⟨rules, hr⟩

/-- Binding the rules, or having them bound, changes only the rules, the stage and what is
remembered. -/
theorem Inv.exists_freeze_of_ok (hi : c.Inv)
    (hr : c.book.freeze ⟨[], c.source.containers⟩ c.options.failOnUnresolvableSignatures =
      .ok rules) :
    ∃ resolver stage, c.resolver.Learns resolver ∧
      c.perform freeze = (.ok (), { c with resolver, rules := some rules, stage }) := by
  rw [perform_freeze]
  by_cases hs : c.stage = .configured
  · rw [← hi.source_eq hs, ← binding_fst hi.resolver] at hr
    rw [if_pos hs, hr]
    exact ⟨_, _, c.learns_binding, rfl⟩
  · obtain ⟨rules', hrules', hr'⟩ := hi.bound hs
    rw [hr] at hr'
    cases hr'
    rw [if_neg hs, ← hrules']
    exact ⟨c.resolver, c.stage, .refl _, rfl⟩

/-! ## Scans -/

/-- The scans of a run are those on the class path, whatever is remembered. -/
theorem scans_fst (hr : c.resolver.Sound) (rules : RuleSet) :
    (c.scans rules).1 = c.queue.map (c.scanner rules).scan := by
  refine (hr.run_fst _ _).trans ?_
  rw [Inquiry.eval_mapM]
  exact List.map_congr_left fun cls _ => Policy.eval_scan ..

/-- The scan of one of the queued classes. -/
def scanAt (c : Checker) (rules : RuleSet) (i : Fin c.queue.length) :
    Query c.resolver.mentioned ClasspathError ClassScan :=
  Policy.scan ⟨rules, c.options.forbidInternalRuntime⟩ c.suppression (c.queue.get i)

/-- The scans of all queued classes, side by side. -/
def sharedScans (c : Checker) (rules : RuleSet) : Sharing (Fin c.queue.length) :=
  .start c.resolver fun i => (c.scanAt rules i).run.asks

/-- Scans that are side by side end, whatever the schedule is, and give what they give one after the
other. -/
theorem exists_result_sharedScans (hr : c.resolver.Sound) (rules : RuleSet)
    (i : Fin c.queue.length) :
    ∃ bound, ∀ schedule, bound ≤ schedule.count i →
      (c.scanAt rules i).run.result? (((c.sharedScans rules).run schedule).callers i).answers =
        (c.scans rules).1[i.val]? := by
  have hload := Resolver.supertypes_source_load_subset (List.Subset.refl c.resolver.mentioned)
  have heval : (c.scanAt rules i).run.eval c.source.load hload =
      (c.scanner rules).scan (c.queue.get i) := Policy.eval_scan ..
  refine ⟨4 * ((c.scanAt rules i).run.asked c.source.load hload).length, fun schedule hn => ?_⟩
  have hresult := (Sharing.inv_start hr fun i => (c.scanAt rules i).run.asks).result_run rfl hn
  rw [scans_fst hr, List.getElem?_map, List.getElem?_eq_getElem i.isLt]
  exact hresult.trans (congrArg some heval)

/-! ## Runs -/

/-- How a report makes a run end. -/
def outcome (options : CheckerOptions) (report : Report) : Except CheckerError Report :=
  match failure? options report with
  | some e => .error e
  | none => .ok report

theorem mapM_scans (hr : c.resolver.Sound) (rules : RuleSet) :
    (c.scans rules).1.mapM id = c.queue.mapM (c.scanner rules).scan := by
  rw [scans_fst hr, List.mapM_map]
  rfl

theorem finish_of_error (hr : c.resolver.Sound) (hrules : c.rules = some rules) {e : ClasspathError}
    (h : c.queue.mapM (c.scanner rules).scan = .error e) :
    c.finish = (.error (.ofClasspath e),
      { c with resolver := (c.scans rules).2, stage := .ran }) := by
  rw [← mapM_scans hr] at h
  unfold finish
  simp only [scans, hrules] at h ⊢
  rw [h]

theorem finish_of_ok (hr : c.resolver.Sound) (hrules : c.rules = some rules)
    {scans : List ClassScan} (h : c.queue.mapM (c.scanner rules).scan = .ok scans) :
    c.finish = (outcome c.options (reportOf rules scans), { c with
      resolver := (c.scans rules).2, stage := .ran, report := reportOf rules scans }) := by
  rw [← mapM_scans hr] at h
  unfold finish outcome
  simp only [Checker.scans, hrules] at h ⊢
  simp only [h]
  cases failure? c.options (reportOf rules scans) <;> rfl

theorem scanner_congr {resolver : Resolver} (stage : Stage) (h : c.resolver.Learns resolver) :
    { c with resolver, rules := some rules, stage }.scanner rules = c.scanner rules := by
  unfold scanner source
  rw [h.source_eq]

section

variable (hi : c.Inv) (hran : c.stage ≠ .ran)
  (hr : c.book.freeze ⟨[], c.source.containers⟩ c.options.failOnUnresolvableSignatures = .ok rules)

include hi hran hr

/-- The first class whose scan fails decides, and there is no report. -/
theorem Inv.exists_run_of_error {e : ClasspathError}
    (h : c.queue.mapM (c.scanner rules).scan = .error e) :
    ∃ resolver, c.resolver.Learns resolver ∧ c.perform run = (.error (.ofClasspath e),
      { c with resolver, rules := some rules, stage := .ran }) := by
  obtain ⟨resolver, stage, hlearns, hf⟩ := hi.exists_freeze_of_ok hr
  rw [← scanner_congr stage hlearns] at h
  rw [perform_run, if_neg hran, hf]
  exact ⟨_, hlearns.trans (learns_scans { c with resolver, rules := some rules, stage } rules),
    finish_of_error (hlearns.sound hi.resolver) rfl h⟩

/-- If all scans succeed, their report is kept, and decides. -/
theorem Inv.exists_run_of_ok {scans : List ClassScan}
    (h : c.queue.mapM (c.scanner rules).scan = .ok scans) :
    ∃ resolver, c.resolver.Learns resolver ∧
      c.perform run = (outcome c.options (reportOf rules scans), { c with
        resolver, rules := some rules, stage := .ran, report := reportOf rules scans }) := by
  obtain ⟨resolver, stage, hlearns, hf⟩ := hi.exists_freeze_of_ok hr
  rw [← scanner_congr stage hlearns] at h
  rw [perform_run, if_neg hran, hf]
  exact ⟨_, hlearns.trans (learns_scans { c with resolver, rules := some rules, stage } rules),
    finish_of_ok (hlearns.sound hi.resolver) rfl h⟩

end

/-! ## Reports -/

theorem mem_missingClasses_reportOf {l : List ClassFile} {n : String} :
    n ∈ (reportOf rules (l.map scanOf)).missingClasses ↔ ∃ cls ∈ l, n ∈ (scanOf cls).missing := by
  simp [reportOf]

theorem violations_reportOf (l : List ClassFile) :
    (reportOf rules (l.map scanOf)).violations = l.flatMap fun cls => (scanOf cls).violations := by
  simp [reportOf, List.flatMap_map]

/-- Missing classes count before violations. -/
theorem outcome_eq (options : CheckerOptions) (r : Report) :
    outcome options r =
      if options.failOnMissingClasses = true ∧ r.missingClasses ≠ [] then
        .error (.missingClasses r.missingClasses)
      else if options.failOnViolation = true ∧ r.violations ≠ [] then
        .error (.policy r.violations.length)
      else .ok r := by
  unfold outcome failure?
  simp only [Bool.and_eq_true, Bool.not_eq_true', List.isEmpty_eq_false_iff]
  by_cases hm : options.failOnMissingClasses = true ∧ r.missingClasses ≠ []
  · rw [if_pos hm, if_pos hm]
  · rw [if_neg hm, if_neg hm]
    by_cases hv : options.failOnViolation = true ∧ r.violations ≠ []
    · rw [if_pos hv, if_pos hv]
    · rw [if_neg hv, if_neg hv]

/-- How a run fails depends only on the missing classes and the number of violations. -/
theorem outcome_eq_error_iff_of_length_eq {r r' : Report} (options : CheckerOptions)
    (hm : r.missingClasses = r'.missingClasses)
    (hv : r.violations.length = r'.violations.length) (e : CheckerError) :
    outcome options r = .error e ↔ outcome options r' = .error e := by
  have he : r.violations = [] ↔ r'.violations = [] := by
    rw [← List.length_eq_zero_iff, ← List.length_eq_zero_iff, hv]
  simp only [outcome_eq, hm, hv, ne_eq, he]
  split
  · rfl
  · split <;> simp

/-! ## The order of the queue -/

/-- Two checks that differ at most in the order of their classes. -/
structure SameTask (c c' : Checker) : Prop where
  options : c.options = c'.options
  book : c.book = c'.book
  suppression : c.suppression = c'.suppression
  containers : c.source.containers = c'.source.containers
  queue : c.queue.Perm c'.queue

theorem SameTask.scan_eq (h : c.SameTask c') (hi : c.Inv) (hi' : c'.Inv) (rules : RuleSet)
    (cls : ClassFile) :
    (c.scanner rules).scan cls = (c'.scanner rules).scan cls := by
  have hperm : c.source.overlays.Perm c'.source.overlays := by
    rw [hi.overlays, hi'.overlays]
    exact (List.reverse_perm _).trans (h.queue.trans (List.reverse_perm _).symm)
  have hnames : (c.source.overlays.map (·.name)).Nodup := by
    rw [hi.overlays, List.map_reverse, List.nodup_reverse]
    exact hi.names
  have hloads := ClassSource.sameLoads_of_perm hperm hnames h.containers
  exact Scanner.scan_congr (by simp [scanner, h.options]) hloads h.suppression cls

/-- The reports of two orders of a queue. -/
theorem reportOf_perm (rules : RuleSet) {l l' : List ClassFile} (h : l.Perm l')
    (hn : (l.map (·.name)).Nodup)
    (hb : ∀ cls ∈ l, ∀ v ∈ (scanOf cls).violations, v.className = cls.name) :
    (reportOf rules (l.map scanOf)).missingClasses =
      (reportOf rules (l'.map scanOf)).missingClasses ∧
    (reportOf rules (l.map scanOf)).violations.Perm (reportOf rules (l'.map scanOf)).violations ∧
    (reportOf rules (l.map scanOf)).byClass.Perm (reportOf rules (l'.map scanOf)).byClass := by
  refine ⟨Scanner.sortedNames_congr fun n => ?_, (h.map scanOf).flatMap_right _, ?_⟩
  · exact ((h.map scanOf).flatMap_right _).mem_iff
  · rw [Report.byClass_of_blocks (violations_reportOf l) hn hb,
      Report.byClass_of_blocks (violations_reportOf l')
      ((h.map _).nodup_iff.1 hn) fun cls hcls => hb cls (h.mem_iff.2 hcls)]
    exact h.filterMap _

/-- **What a run gives.** If the scan of a queued class fails, the first such failure is the result
and there is no report. Otherwise there is a report of all queued classes, class by class in the
order of the queue, and it decides: missing classes count before violations.

The scans may be made one after the other or side by side, on the resolver with all that it has
remembered: each gives what it gives on the class path with the queued classes in front.

The order in which classes are queued changes neither what is found nor how the run ends. -/
theorem run_result (hc : c.Reachable) (hran : c.stage ≠ .ran)
    (hfreeze : (c.perform freeze).1 = .ok ()) :
    ∃ rules frozen, c.perform freeze = (.ok (), frozen) ∧ frozen.rules = some rules ∧
      (frozen.scans rules).1 = c.queue.map (c.scanner rules).scan ∧
      (∀ i, ∃ bound, ∀ schedule, bound ≤ schedule.count i →
        (frozen.scanAt rules i).run.result?
          (((frozen.sharedScans rules).run schedule).callers i).answers =
            (frozen.scans rules).1[i.val]?) ∧
      (∀ front cls back e, c.queue = front ++ cls :: back →
        (∀ k ∈ front, ∃ scan, (c.scanner rules).scan k = .ok scan) →
        (c.scanner rules).scan cls = .error e →
        (c.perform run).1 = .error (.ofClasspath e) ∧ (c.perform run).2.report = .empty) ∧
      ∀ scanOf : ClassFile → ClassScan,
        (∀ cls ∈ c.queue, (c.scanner rules).scan cls = .ok (scanOf cls)) →
        ∃ report, (c.perform run).2.report = report ∧
          report.violations = c.queue.flatMap (fun cls => (scanOf cls).violations) ∧
          (report.byClass.map (·.className)).Nodup ∧
          report.missingClasses.Pairwise (· < ·) ∧
          (∀ n, n ∈ report.missingClasses ↔ ∃ cls ∈ c.queue, n ∈ (scanOf cls).missing) ∧
          report.classesChecked = c.queue.length ∧
          report.unresolvedSignatures = rules.unresolved ∧
          (c.perform run).1 =
            (if c.options.failOnMissingClasses = true ∧ report.missingClasses ≠ [] then
              .error (.missingClasses report.missingClasses)
            else if c.options.failOnViolation = true ∧ report.violations ≠ [] then
              .error (.policy report.violations.length)
            else .ok report) ∧
          ∀ c', c'.Reachable → c'.stage ≠ .ran → c.SameTask c' →
            ∃ report', (c'.perform run).2.report = report' ∧
              report'.missingClasses = report.missingClasses ∧
              report'.violations.Perm report.violations ∧
              report'.byClass.Perm report.byClass ∧
              report'.classesChecked = report.classesChecked ∧
              report'.unresolvedSignatures = report.unresolvedSignatures ∧
              ∀ e, (c'.perform run).1 = .error e ↔ (c.perform run).1 = .error e := by
  have hi := hc.inv
  obtain ⟨rules, hr⟩ := hi.exists_rules hfreeze
  obtain ⟨resolver, stage, hlearns, hf⟩ := hi.exists_freeze_of_ok hr
  have hsound := hlearns.sound hi.resolver
  refine ⟨rules, _, hf, rfl, ?_, exists_result_sharedScans hsound rules, ?_, ?_⟩
  · rw [scans_fst hsound, scanner_congr stage hlearns]
  · intro front cls back e hq hfront he
    obtain ⟨_, _, hrun⟩ := hi.exists_run_of_error hran hr
      (Result.mapM_eq_error.2 ⟨front, cls, back, hq, hfront, he⟩)
    rw [hrun]
    exact ⟨rfl, hi.report hran⟩
  · intro scanOf hscans
    have hblocks : ∀ cls ∈ c.queue, ∀ v ∈ (scanOf cls).violations, v.className = cls.name :=
      fun cls hcls v hv => Scanner.className_of_mem_violations (hscans cls hcls) hv
    obtain ⟨_, _, hrun⟩ := hi.exists_run_of_ok hran hr (Result.mapM_eq_ok_map hscans)
    rw [hrun]
    refine ⟨_, rfl, violations_reportOf _,
      Report.nodup_classNames_of_blocks (violations_reportOf _) hi.names hblocks,
      Scanner.pairwise_sortedNames _, fun n => mem_missingClasses_reportOf, by simp [reportOf], rfl,
      outcome_eq .., ?_⟩
    intro c' hc' hran' htask
    have hi' := hc'.inv
    have hr' : c'.book.freeze ⟨[], c'.source.containers⟩ c'.options.failOnUnresolvableSignatures =
        .ok rules := by
      rw [← htask.book, ← htask.containers, ← htask.options, hr]
    have hscans' : ∀ cls ∈ c'.queue, (c'.scanner rules).scan cls = .ok (scanOf cls) := by
      intro cls hcls
      rw [← htask.scan_eq hi hi', hscans cls (htask.queue.mem_iff.2 hcls)]
    obtain ⟨_, _, hrun'⟩ := hi'.exists_run_of_ok hran' hr' (Result.mapM_eq_ok_map hscans')
    obtain ⟨hmissing, hviolations, hgroups⟩ := reportOf_perm rules htask.queue hi.names hblocks
    rw [hrun']
    refine ⟨_, rfl, hmissing.symm, hviolations.symm, hgroups.symm, ?_, rfl, ?_⟩
    · simp [reportOf, htask.queue.length_eq]
    · rw [← htask.options]
      exact outcome_eq_error_iff_of_length_eq c.options hmissing.symm hviolations.length_eq.symm

/-! ## Two classes -/

namespace TwoClasses

open InheritedCall (baseFile)

/-- The class path has a class that the rule is about. -/
def files : FileTree :=
  ⟨.dir [("classes", .dir [("lib", .dir [("Base.class", .file (.ok ⟨baseFile.toArray⟩))])])], []⟩

/-- A method that makes the forbidden call. -/
def callOf (name : String) : Assembler.MemberSpec :=
  .method (.ofBody name "()V" [.invoke .invokestatic "lib.Base" "run" "()V", .plain .voidReturn])

def lower : Bytes := (Assembler.ClassSpec.build { Assembler.ClassSpec.ofName "app.Lower" with
  superClass := some "lib.Base", members := [callOf "main"] }).data

/-- Another class with the name of that on the class path, below a class that is missing. -/
def upper : Bytes := (Assembler.ClassSpec.build { Assembler.ClassSpec.ofName "lib.Base" with
  superClass := some "lib.Gone", members := [callOf "run"] }).data

def start : Checker := .new ⟨[], [.directory "classes" files]⟩ .default

/-- The rule is bound before a class is queued, so the class on the class path is remembered. -/
def bound : Checker := (start.after (.addText "lib.Base#run()")).after .hasNoSignatures

def lowerFirst : Checker :=
  (bound.after (.addClass "Lower.class" lower)).after (.addClass "Base.class" upper)

def upperFirst : Checker :=
  (bound.after (.addClass "Base.class" upper)).after (.addClass "Lower.class" lower)

def theRule : RuleSet := lowerFirst.rules.getD .empty

theorem reachable_start : start.Reachable :=
  .new (show ofClasspath files [⟨.directory, "classes"⟩] .default = .ok start from rfl)

theorem reachable_bound : bound.Reachable := .call (.call reachable_start _) _

theorem sameTask : lowerFirst.SameTask upperFirst := by
  refine ⟨by decide +kernel, by decide +kernel, by decide +kernel, ?_, by decide +kernel⟩
  have hcalls : ∀ call call' : Call,
      ((bound.after call).after call').source.containers = bound.source.containers :=
    fun call call' => (moves_call _ call').containers_eq.trans (moves_call _ call).containers_eq
  exact (hcalls _ _).trans (hcalls _ _).symm

/-- What was remembered when the rule was bound is not what is queued later, and does not matter. -/
theorem run_result_two_classes :
    lowerFirst.resolver.names = ["lib.Base"] ∧
    ∃ report report', (lowerFirst.perform run).2.report = report ∧
      (upperFirst.perform run).2.report = report' ∧
      report.violations.map (·.className) = ["app.Lower", "lib.Base"] ∧
      report.classesChecked = 2 ∧ (report.byClass.map (·.className)).Nodup ∧
      "lib.Gone" ∈ report.missingClasses ∧
      (lowerFirst.perform run).1 = .error (.missingClasses report.missingClasses) ∧
      report'.missingClasses = report.missingClasses ∧ report'.violations.Perm report.violations ∧
      ∀ e, (upperFirst.perform run).1 = .error e ↔ (lowerFirst.perform run).1 = .error e := by
  have hlower : lowerFirst.Reachable := .call (.call reachable_bound _) _
  have hupper : upperFirst.Reachable := .call (.call reachable_bound _) _
  obtain ⟨rules, frozen, hf, hrules, _, _, _, hreport⟩ :=
    run_result hlower (by decide +kernel) (by decide +kernel)
  have hbound : (lowerFirst.perform freeze).2.rules = some theRule := by decide +kernel
  rw [hf, hrules] at hbound
  cases hbound
  obtain ⟨report, hrun, hviolations, hgroups, _, hmissing, hcount, _, hresult, horder⟩ :=
    hreport (fun cls => ((lowerFirst.scanner theRule).scan cls).toOption.getD ⟨[], []⟩)
      (by decide +kernel)
  obtain ⟨report', hrun', hsame, hperm, _, _, _, houtcome⟩ :=
    horder upperFirst hupper (by decide +kernel) sameTask
  have hgone : "lib.Gone" ∈ report.missingClasses := (hmissing _).2 (by decide +kernel)
  refine ⟨by decide +kernel, report, report', hrun, hrun', ?_, hcount.trans (by decide +kernel),
    hgroups, hgone, ?_, hsame, hperm, houtcome⟩
  · rw [hviolations]
    decide +kernel
  · rw [hresult, if_pos ⟨by decide +kernel, List.ne_nil_of_mem hgone⟩]

end TwoClasses

end JvmAudit.Checker
