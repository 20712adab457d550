import JvmAudit.Proofs.Checker.Refusal

/-!
# Checks without rules

If there are no rules and internal runtime classes are allowed, no use is a violation, in whichever
way it is matched. A check that says so once (`Checker.hasNoSignatures`) has its rules bound, and
from then on they cannot change (`Checker.IsSilent`). The report of a check is always that of its
present rules and classes (`Checker.IsReported`), so whatever is called later, nothing is reported,
and the run can be left out.

## Main results

* `Scanner.violations_eq_nil`: scans without rules
* `Checker.Reachable.isReported`: what the report of a check is
* `Checker.nothing_reported`: runs of a check without rules
-/

namespace JvmAudit

/-! ## Matching without rules -/

namespace Policy

variable {p : Policy}

/-- Nothing is forbidden. -/
structure IsSilent (p : Policy) : Prop where
  exact : p.rules.exact = []
  globs : p.rules.globs = []
  annotated : p.rules.annotated = []
  ban : p.banInternalRuntime = false

/-- Without rules, and with internal classes allowed, nothing is forbidden. -/
theorem isSilent_of_isEmpty {rules : RuleSet} (h : rules.isEmpty = true) :
    (Policy.mk rules false).IsSilent := by
  have hsize : rules.exact.length + rules.globs.length + rules.annotated.length = 0 := by
    simpa [RuleSet.isEmpty, RuleSet.size] using h
  simp only [Nat.add_eq_zero_iff, List.length_eq_zero_iff] at hsize
  obtain ⟨⟨hexact, hglobs⟩, hannotated⟩ := hsize
  exact ⟨hexact, hglobs, hannotated, rfl⟩

namespace IsSilent

theorem lookup (h : p.IsSilent) (key : String) : p.rules.exact.lookup key = none := by
  simp [h.exact]

theorem internalHit? (h : p.IsSilent) (name : String) : p.internalHit? name = none := by
  simp [Policy.internalHit?, h.ban]

theorem annotated? (h : p.IsSilent) (annotations : List String) :
    p.rules.annotated? annotations = none := by
  simp [RuleSet.annotated?, h.annotated]

theorem typeHit? (h : p.IsSilent) (name : String) (c : ClassFile) : p.typeHit? name c = none := by
  simp [Policy.typeHit?, typeRule?, RuleSet.type?, h.lookup, h.globs, h.annotated?, h.internalHit?]

theorem fieldRule? (h : p.IsSilent) (owner name : String) : p.fieldRule? owner name = none := by
  simp [Policy.fieldRule?, RuleSet.member?, h.lookup, h.globs]

theorem firstRule? (h : p.IsSilent) (key : String → String) (classes : List String) :
    Policy.firstRule? (fun c => p.rules.exact.lookup (key c)) classes = none := by
  simp [Policy.firstRule?, h.lookup]

/-- A silent policy hits no member, at any stage of the search. -/
theorem memberHit? (h : p.IsSilent) (u : MemberUse) : p.memberHit? u = none := by
  have hoverload : p.overloadMatch? u = none :=
    Option.bind_eq_none_iff.2 fun _ _ => h.firstRule? _ _
  have hname : p.nameMatch? u = none := h.firstRule? _ _
  have howner : p.ownerMatch? u = none := h.firstRule? _ _
  have hglob : p.globRuleMatch? u = none := by simp [globRuleMatch?, h.globs]
  have hannotated : p.annotatedMatch? u = none := by
    refine Option.bind_eq_none_iff.2 fun holder _ => ?_
    cases u.annotations? <;> simp [h.annotated?]
  simp [Policy.memberHit?, memberMatch?, hoverload, hname, howner, hglob, hannotated,
    h.internalHit?]

end IsSilent

end Policy

/-! ## Scans without rules -/

namespace Scanner

variable {s : Scanner}

/-- No site is a hit. -/
theorem hit_eq_none (h : s.policy.IsSilent) {className : String} {site : Site} {f : Finding}
    (hf : s.check className site = .ok f) : f.hit = none := by
  rw [check_eq] at hf
  cases hsubject : site.subject with
  | type name =>
    simp only [hsubject, checkType_eq] at hf
    obtain ⟨found, _, rfl⟩ := Result.map_eq_ok.1 hf
    cases found with
    | none => rfl
    | some c => exact h.typeHit? name c
  | fieldDecl owner name =>
    simp only [hsubject] at hf
    cases hf
    simp [h.fieldRule?]
  | member owner name descriptor =>
    simp only [hsubject, checkMember_eq] at hf
    obtain ⟨resolution, _, rfl⟩ := Result.map_eq_ok.1 hf
    cases resolution with
    | unresolvable owner => rfl
    | resolved lineage declarer missing => exact h.memberHit? _
  | malformed descriptor =>
    simp only [hsubject] at hf
    cases hf

/-- Without rules a scan finds no violation, whatever is exempt. -/
theorem violations_eq_nil (h : s.policy.IsSilent) {c : ClassFile} {scan : ClassScan}
    (hscan : s.scan c = .ok scan) : scan.violations = [] := by
  obtain ⟨findings, hfindings, rfl⟩ := exists_findings hscan
  refine List.filterMap_eq_nil_iff.2 ?_
  rintro ⟨site, f⟩ hmem
  obtain ⟨site', _, hf⟩ := Result.exists_of_mem_mapM hfindings (List.of_mem_zip hmem).2
  simp [hit_eq_none h hf]

end Scanner

/-! ## Reports -/

namespace Checker

variable {c c' : Checker}

theorem report_freeze (c : Checker) : (c.perform freeze).2.report = c.report := by
  obtain ⟨resolver, rules, stage, _, hf, _⟩ := exists_perform_freeze c
  rw [hf]

/-- Loading rules does not change the report. -/
theorem report_load (c : Checker) {α : Type} (operation : Operation) (load : RuleBook.Load α) :
    (c.perform (require operation >>= fun _ => onBook load)).2.report = c.report := by
  rw [perform_require_bind, perform_onBook]
  split <;> rfl

theorem report_addClass (c : Checker) (origin : String) (data : Bytes) :
    (c.perform (addClass origin data)).2.report = c.report := by
  rw [perform_addClass]
  by_cases hran : c.stage = .ran
  · rw [if_pos hran]
  · rw [if_neg hran]
    have hfreeze := report_freeze c
    cases hf : c.perform freeze with
    | mk result c' =>
      rw [hf] at hfreeze
      cases result with
      | error e => exact hfreeze
      | ok u =>
        cases ClassFile.parse .full data with
        | error e => exact hfreeze
        | ok cls =>
          show (c'.enqueue cls).report = c.report
          unfold enqueue
          split <;> exact hfreeze

/-- Only a run makes a report. -/
theorem report_after (c : Checker) {call : Call} (h : call ≠ .run) :
    (c.after call).report = c.report := by
  cases call with
  | suppress pattern =>
    show (c.perform (require .suppress >>= fun _ => _)).2.report = c.report
    rw [perform_require_bind]
    split <;> rfl
  | setTarget version => exact report_load c _ _
  | addText text => exact report_load c _ _
  | addFile files path => exact report_load c _ _
  | addBundled name target => exact report_load c _ _
  | hasNoSignatures =>
    have hfreeze := report_freeze c
    show (c.perform (freeze >>= fun _ => _)).2.report = c.report
    rw [perform_bind]
    cases hf : c.perform freeze with
    | mk result c' =>
      rw [hf] at hfreeze
      cases result <;> exact hfreeze
  | addClass origin data => exact report_addClass c origin data
  | addClassFile files path =>
    show (c.perform (Checker.addClassFile files path)).2.report = c.report
    cases hread : files.read path with
    | ok data =>
      rw [perform_addClassFile_of_ok hread]
      exact report_addClass c path _
    | error e => rw [perform_addClassFile_of_error hread]
  | run => exact absurd rfl h

/-- A report is that of the scans of the queued classes. -/
def IsReported (c : Checker) : Prop :=
  ∃ rules scans, c.rules = some rules ∧ c.queue.mapM (c.scanner rules).scan = .ok scans ∧
    c.report = reportOf rules scans

/-- A run leaves a report only if all scans succeed. -/
theorem report_after_run (hi : c.Inv) (hran : c.stage ≠ .ran) :
    (c.after .run).report = .empty ∨ (c.after .run).IsReported := by
  show (c.perform run).2.report = .empty ∨ (c.perform run).2.IsReported
  rcases hi.run_cases hran with
    ⟨e, _, hrun⟩ | ⟨rules, resolver, hlearns, ⟨e, hrun⟩ | ⟨scans, hscans, hrun⟩⟩ <;> rw [hrun]
  · exact .inl (hi.report hran)
  · exact .inl (hi.report hran)
  · refine .inr ⟨rules, scans, rfl, ?_, rfl⟩
    rw [← scanner_congr .ran hlearns] at hscans
    exact hscans

/-- What the report of a check is: nothing yet, or what the present rules give for the present
classes. -/
theorem Reachable.isReported (hc : c.Reachable) : c.report = .empty ∨ c.IsReported := by
  induction hc with
  | new h =>
    unfold ofClasspath at h
    split at h
    · cases h
      exact .inl rfl
    · cases h
  | @call c hc call ih =>
    by_cases hran : c.stage = .ran
    · -- after the run nothing changes, so the report stays that of the same classes
      rw [after_of_ran hc.inv hran]
      exact ih
    · rcases eq_or_ne call .run with rfl | hcall
      · exact report_after_run hc.inv hran
      · rw [report_after c hcall]
        exact .inl (hc.inv.report hran)

/-! ## Checks without rules -/

/-- The rules are bound, and forbid nothing. -/
structure IsSilent (c : Checker) (rules : RuleSet) : Prop where
  bound : c.rules = some rules
  isEmpty : rules.isEmpty = true
  ban : c.options.forbidInternalRuntime = false

theorem IsSilent.policy {rules : RuleSet} (h : c.IsSilent rules) :
    (c.scanner rules).policy.IsSilent := by
  unfold scanner
  rw [h.ban]
  exact Policy.isSilent_of_isEmpty h.isEmpty

/-- Whatever is scanned under a silent policy, nothing is reported. -/
theorem IsSilent.violations_reportOf {rules : RuleSet} (h : c.IsSilent rules)
    {scans : List ClassScan} (hscans : c.queue.mapM (c.scanner rules).scan = .ok scans) :
    (reportOf rules scans).violations = [] := by
  refine List.flatMap_eq_nil_iff.2 fun scan hmem => ?_
  obtain ⟨cls, _, hscan⟩ := Result.exists_of_mem_mapM hscans hmem
  exact Scanner.violations_eq_nil h.policy hscan

/-- Without rules there is nothing in a report, however the check came about. -/
theorem IsSilent.violations_report {rules : RuleSet} (h : c.IsSilent rules) (hc : c.Reachable) :
    c.report.violations = [] := by
  rcases hc.isReported with hempty | ⟨rules', scans, hrules, hscans, hreport⟩
  · rw [hempty]
    rfl
  · obtain rfl : rules = rules' := Option.some.inj (h.bound.symm.trans hrules)
    rw [hreport]
    exact h.violations_reportOf hscans

/-- The question whether there is anything to check for, answered from the rules that are bound. -/
theorem perform_hasNoSignatures (hf : c.perform freeze = (.ok (), c')) :
    c.perform hasNoSignatures =
      (.ok ((c'.rules.map RuleSet.isEmpty).getD true && !c'.options.forbidInternalRuntime),
        c') := by
  unfold hasNoSignatures
  rw [perform_bind, hf]
  rfl

/-- If there is nothing to check for, the policy is silent from then on. -/
theorem isSilent_of_hasNoSignatures (hi : c.Inv) (h : (c.perform hasNoSignatures).1 = .ok true) :
    (c.after .hasNoSignatures).stage ≠ .configured ∧
    ∃ rules, (c.after .hasNoSignatures).IsSilent rules := by
  cases hf : c.perform freeze with
  | mk result c' =>
    cases result with
    | error e =>
      rw [(perform_of_freeze_error (by rw [hf])).1] at h
      cases h
    | ok u =>
      have hperform := perform_hasNoSignatures hf
      have hafter : c.after .hasNoSignatures = c' := congrArg Prod.snd hperform
      have hbound := (stage_of_freeze hf).1
      obtain ⟨rules, hrules, _⟩ := ((moves_call c .hasNoSignatures).inv hi).bound (hafter ▸ hbound)
      rw [hafter] at hrules ⊢
      rw [hperform] at h
      have hanswer := Except.ok.inj h
      simp only [hrules, Option.map_some, Option.getD_some, Bool.and_eq_true,
        Bool.not_eq_true'] at hanswer
      exact ⟨hbound, rules, hrules, hanswer.1, hanswer.2⟩

/-- What was bound once forbids nothing later. -/
theorem IsSilent.afterAll {rules : RuleSet} (h : c.IsSilent rules) (hbound : c.stage ≠ .configured)
    (calls : List Call) : (c.afterAll calls).IsSilent rules := by
  refine ⟨((follows_afterAll c calls).bound hbound).2.trans h.bound, h.isEmpty, ?_⟩
  rw [options_afterAll]
  exact h.ban

/-- What a run without rules gives: a failure of the class path, or a report without violations, and
then only missing classes can make it fail. -/
theorem IsSilent.perform_run {rules : RuleSet} (h : c.IsSilent rules) (hi : c.Inv)
    (hran : c.stage ≠ .ran) :
    (∃ cls ∈ c.queue, ∃ e, (c.scanner rules).scan cls = .error e ∧
      (c.perform run).1 = .error (.ofClasspath e)) ∨
    (∀ cls ∈ c.queue, ∃ scan, (c.scanner rules).scan cls = .ok scan) ∧
      ∃ report, (c.perform run).2.report = report ∧ report.violations = [] ∧
        report.classesChecked = c.queue.length ∧
        ((c.perform run).1 = .ok report ∨
          (c.perform run).1 = .error (.missingClasses report.missingClasses)) := by
  obtain ⟨rules', hrules', hr⟩ := hi.bound (hi.rules_isSome_iff.1 (by simp [h.bound]))
  obtain rfl : rules = rules' := Option.some.inj (h.bound.symm.trans hrules')
  cases hscans : c.queue.mapM (c.scanner rules).scan with
  | error e =>
    obtain ⟨front, cls, back, hq, _, he⟩ := Result.mapM_eq_error.1 hscans
    obtain ⟨_, _, hrun⟩ := hi.exists_run_of_error hran hr hscans
    exact .inl ⟨cls, by simp [hq], e, he, by rw [hrun]⟩
  | ok scans =>
    have hviolations := h.violations_reportOf hscans
    have hlength : scans.length = c.queue.length := (Result.mapM_eq_ok.1 hscans).length_eq.symm
    obtain ⟨_, _, hrun⟩ := hi.exists_run_of_ok hran hr hscans
    rw [hrun]
    refine .inr ⟨fun cls hcls => Result.ok_of_mem_mapM hscans hcls, reportOf rules scans, rfl,
      hviolations, hlength, ?_⟩
    simp only [outcome_eq]
    by_cases hm : c.options.failOnMissingClasses = true ∧ (reportOf rules scans).missingClasses ≠ []
    · rw [if_pos hm]
      exact .inr rfl
    · rw [if_neg hm, if_neg (by simp [hviolations])]
      exact .inl rfl

/-- **A check without rules can be left out.** A check says that it has no rules. Then whatever is
called next, classes queued and annotations exempt, there is no violation in its report. If a run is
possible, it fails because a queued class cannot be scanned, or it reports on all queued classes
without a violation, and then only missing classes can make it fail. -/
theorem nothing_reported (hc : c.Reachable) (h : (c.perform hasNoSignatures).1 = .ok true)
    (calls : List Call) (hd : (c.after .hasNoSignatures).afterAll calls = c') :
    c'.report.violations = [] ∧
    (c'.stage ≠ .ran → ∃ rules, c'.rules = some rules ∧
      ((∃ cls ∈ c'.queue, ∃ e, (c'.scanner rules).scan cls = .error e ∧
          (c'.perform run).1 = .error (.ofClasspath e)) ∨
        (∀ cls ∈ c'.queue, ∃ scan, (c'.scanner rules).scan cls = .ok scan) ∧
          ∃ report, (c'.perform run).2.report = report ∧ report.violations = [] ∧
            report.classesChecked = c'.queue.length ∧
            ((c'.perform run).1 = .ok report ∨
              (c'.perform run).1 = .error (.missingClasses report.missingClasses)))) := by
  subst hd
  obtain ⟨hbound, rules, hsilent⟩ := isSilent_of_hasNoSignatures hc.inv h
  have hsilent := hsilent.afterAll hbound calls
  have hreachable := (hc.call .hasNoSignatures).afterAll calls
  exact ⟨hsilent.violations_report hreachable, fun hran => ⟨rules, hsilent.bound,
    hsilent.perform_run hreachable.inv hran⟩⟩

namespace TwoClasses

/-- The classes are queued after the question, with an annotation that exempts. -/
def calls : List Call := [.suppress "app.Exempt", .addClass "Lower.class" lower,
  .addClass "Base.class" upper]

def asked : Checker := (start.after .hasNoSignatures).afterAll calls

theorem nothing_reported_asked :
    (start.perform hasNoSignatures).1 = .ok true ∧ asked.stage ≠ .ran ∧
    ∃ report, (asked.perform run).2.report = report ∧ report.violations = [] ∧
      report.classesChecked = 2 := by
  have hstart : (start.perform hasNoSignatures).1 = .ok true := by decide +kernel
  have hran : asked.stage ≠ .ran := by decide +kernel
  have hscans : ∀ cls ∈ asked.queue, ((asked.scanner .empty).scan cls).isOk = true := by
    decide +kernel
  have hcalls : (start.after .hasNoSignatures).afterAll calls = asked := rfl
  obtain ⟨rules, hrules, hrun⟩ := (nothing_reported reachable_start hstart calls hcalls).2 hran
  obtain rfl : RuleSet.empty = rules := Option.some.inj (.trans (by decide +kernel) hrules)
  refine ⟨hstart, hran, ?_⟩
  rcases hrun with ⟨cls, hcls, e, he, _⟩ | ⟨_, report, hreport, hviolations, hcount, _⟩
  · have hok := hscans cls hcls
    rw [he] at hok
    cases hok
  · exact ⟨report, hreport, hviolations, hcount.trans (by decide +kernel)⟩

end TwoClasses

end Checker

end JvmAudit
