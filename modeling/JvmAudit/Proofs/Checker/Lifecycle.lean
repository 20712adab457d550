import JvmAudit.Proofs.Checker.Run
import JvmAudit.Proofs.Rule.Loading

/-!
# The life of a check

The stages of a check come in one order, and each stage says what the check holds: bound rules from
the second stage on, queued classes in the third one, a report after the run only. A call that fails
leaves behind at most that the rules were bound, and what was looked up for that.

That the stage goes forward only, and that rules are fixed once they are bound, is shown for one
move and carried over to any sequence of calls (`Checker.follows_afterAll`).

## Main results

* `Checker.follows_afterAll`: what later calls cannot change
* `Checker.lifecycle`: what holds in every check that can be made
-/

namespace JvmAudit

/-- The place of a stage in the order of stages. -/
def Stage.rank : Stage → Nat
  | .configured => 0
  | .signaturesLoaded => 1
  | .classesQueued => 2
  | .ran => 3

theorem Stage.rank_pos_iff {stage : Stage} : 0 < stage.rank ↔ stage ≠ .configured := by
  cases stage <;> simp [Stage.rank]

namespace Checker

open Result

variable {c c' : Checker} {e : CheckerError}

/-! ## What later calls cannot change -/

/-- A check that another one may have become: its stage is not an earlier one, and rules that were
bound are the same. -/
structure Follows (c c' : Checker) : Prop where
  rank_le : c.stage.rank ≤ c'.stage.rank
  bound : c.stage ≠ .configured → c'.book = c.book ∧ c'.rules = c.rules

theorem Follows.refl (c : Checker) : Follows c c := ⟨Nat.le_refl _, fun _ => ⟨rfl, rfl⟩⟩

theorem Follows.trans {a b d : Checker} (hab : Follows a b) (hbd : Follows b d) : Follows a d := by
  refine ⟨Nat.le_trans hab.rank_le hbd.rank_le, fun ha => ?_⟩
  have hb : b.stage ≠ .configured :=
    Stage.rank_pos_iff.1 (Nat.lt_of_lt_of_le (Stage.rank_pos_iff.2 ha) hab.rank_le)
  obtain ⟨hbook, hrules⟩ := hab.bound ha
  obtain ⟨hbook', hrules'⟩ := hbd.bound hb
  exact ⟨hbook'.trans hbook, hrules'.trans hrules⟩

/-- A move goes to a later stage or stays, and does not change rules that are bound. -/
theorem Move.follows (h : Move c c') : Follows c c' := by
  cases h with
  | suppress _ pattern => exact ⟨Nat.le_refl _, fun _ => ⟨rfl, rfl⟩⟩
  | load h _ => exact ⟨Nat.le_refl _, fun hs => absurd h hs⟩
  | lookUp _ => exact ⟨Nat.le_refl _, fun _ => ⟨rfl, rfl⟩⟩
  | freeze h _ => exact ⟨by simp [h, Stage.rank], fun hs => absurd h hs⟩
  | enqueue h hran cls _ =>
    refine ⟨?_, fun _ => ⟨rfl, rfl⟩⟩
    show c.stage.rank ≤ 2
    cases hs : c.stage with
    | ran => exact absurd hs hran
    | _ => simp [Stage.rank]
  | finish h hran report =>
    refine ⟨?_, fun _ => ⟨rfl, rfl⟩⟩
    show c.stage.rank ≤ 3
    cases c.stage <;> simp [Stage.rank]

theorem Moves.follows (h : Moves c c') : Follows c c' := by
  induction h with
  | refl => exact .refl c
  | tail _ hm ih => exact ih.trans hm.follows

/-- A check after calls, whether or not they succeed. -/
def afterAll (c : Checker) (calls : List Call) : Checker := calls.foldl after c

/-- The same for any sequence of calls. -/
theorem follows_afterAll (c : Checker) (calls : List Call) : Follows c (c.afterAll calls) := by
  unfold afterAll
  induction calls generalizing c with
  | nil => exact .refl c
  | cons call calls ih => exact (moves_call c call).follows.trans (ih (c.after call))

theorem Moves.options_eq (h : Moves c c') : c'.options = c.options := by
  induction h with
  | refl => rfl
  | tail _ hm ih => cases hm <;> exact ih

/-- The options never change. -/
theorem options_afterAll (c : Checker) (calls : List Call) :
    (c.afterAll calls).options = c.options := by
  unfold afterAll
  induction calls generalizing c with
  | nil => rfl
  | cons call calls ih => exact (ih (c.after call)).trans (moves_call c call).options_eq

theorem Reachable.afterAll (hc : c.Reachable) (calls : List Call) :
    (c.afterAll calls).Reachable := by
  unfold Checker.afterAll
  induction calls generalizing c with
  | nil => exact hc
  | cons call calls ih => exact ih (hc.call call)

/-! ## Calls that fail -/

/-- Rules that cannot be bound: nothing changes but what is remembered, and no call goes on. -/
theorem perform_freeze_of_error (h : (c.perform freeze).1 = .error e) :
    c.stage = .configured ∧ c.perform freeze = (.error e, { c with resolver := c.binding.2 }) := by
  rw [perform_freeze] at h ⊢
  by_cases hs : c.stage = .configured
  · rw [if_pos hs] at h ⊢
    cases hb : c.binding.1 with
    | ok rules =>
      rw [hb] at h
      cases h
    | error e' =>
      rw [hb] at h
      cases h
      exact ⟨hs, rfl⟩
  · rw [if_neg hs] at h
    cases h

/-- Binding the rules changes the rules, what is remembered, and the stage only from the first to
the second one. -/
theorem exists_perform_freeze (c : Checker) :
    ∃ resolver rules stage, c.resolver.Learns resolver ∧
      (c.perform freeze).2 = { c with resolver, rules, stage } ∧
      (stage = c.stage ∨ c.stage = .configured ∧ stage = .signaturesLoaded) := by
  rw [perform_freeze]
  by_cases hs : c.stage = .configured
  · rw [if_pos hs]
    cases c.binding.1 with
    | ok rules =>
      exact ⟨_, some rules, .signaturesLoaded, c.learns_binding, rfl, .inr ⟨hs, rfl⟩⟩
    | error e => exact ⟨_, c.rules, c.stage, c.learns_binding, rfl, .inl rfl⟩
  · rw [if_neg hs]
    exact ⟨c.resolver, c.rules, c.stage, .refl _, rfl, .inl rfl⟩

/-- A class that cannot be queued leaves at most bound rules behind, and what was looked up. -/
theorem exists_perform_addClass_of_error {origin : String} {data : Bytes}
    (h : (c.perform (addClass origin data)).1 = .error e) :
    ∃ resolver rules stage, c.resolver.Learns resolver ∧
      (c.perform (addClass origin data)).2 = { c with resolver, rules, stage } ∧
      (stage = c.stage ∨ c.stage = .configured ∧ stage = .signaturesLoaded) := by
  rw [perform_addClass] at h ⊢
  by_cases hran : c.stage = .ran
  · rw [if_pos hran]
    exact ⟨c.resolver, c.rules, c.stage, .refl _, rfl, .inl rfl⟩
  · rw [if_neg hran] at h ⊢
    have hfreeze := exists_perform_freeze c
    cases hf : c.perform freeze with
    | mk result c' =>
      rw [hf] at h hfreeze
      cases result with
      | error e' => exact hfreeze
      | ok u =>
        cases hp : ClassFile.parse .full data with
        | error e' => exact hfreeze
        | ok cls =>
          rw [hp] at h
          cases h

/-- Rules that cannot be loaded change nothing. -/
theorem perform_load_of_error {operation : Operation} (source : RuleBook.Source)
    (h : (c.perform (require operation >>= fun _ => onBook source.load)).1 = .error e) :
    (c.perform (require operation >>= fun _ => onBook source.load)).2 = c := by
  rw [perform_require_bind] at h ⊢
  by_cases hop : operation.allowed c.stage = true
  · rw [if_pos hop, perform_onBook] at h ⊢
    cases hcontents : source.contents c.book.target with
    | error e' => rw [RuleBook.Source.run_load_of_error hcontents]
    | ok given =>
      rw [RuleBook.Source.run_load_of_ok hcontents] at h
      cases h
  · rw [if_neg hop]

/-- If the rules cannot be bound, neither can anything be done that needs them. -/
theorem perform_of_freeze_error (h : (c.perform freeze).1 = .error e) :
    c.perform hasNoSignatures = (.error e, { c with resolver := c.binding.2 }) ∧
      (∀ origin data,
        c.perform (addClass origin data) = (.error e, { c with resolver := c.binding.2 })) ∧
      c.perform run = (.error e, { c with resolver := c.binding.2 }) := by
  obtain ⟨hs, hf⟩ := perform_freeze_of_error h
  have hran : c.stage ≠ .ran := by simp [hs]
  refine ⟨?_, fun origin data => ?_, ?_⟩
  · unfold hasNoSignatures
    rw [perform_bind, hf]
  · rw [perform_addClass, if_neg hran, hf]
  · rw [perform_run, if_neg hran, hf]

/-! ## Runs always have rules -/

theorem ofClasspath_ne_invalidState (e : ClasspathError) (operation : Operation) (stage : Stage) :
    CheckerError.ofClasspath e ≠ .invalidState operation stage := by
  unfold CheckerError.ofClasspath
  split <;> simp

theorem ofRuleBook_ne_invalidState (e : RuleBookError) (operation : Operation) (stage : Stage) :
    CheckerError.ofRuleBook e ≠ .invalidState operation stage := by
  cases e with
  | classpath e => exact ofClasspath_ne_invalidState e operation stage
  | _ => simp [CheckerError.ofRuleBook]

/-- No report is turned into a refusal by stage. -/
theorem outcome_ne_invalidState (options : CheckerOptions) (r : Report) (operation : Operation)
    (stage : Stage) : outcome options r ≠ .error (.invalidState operation stage) := by
  rw [outcome_eq]
  split
  · simp
  · split <;> simp

/-- Binding is never refused because of the stage. -/
theorem perform_freeze_ne_invalidState (c : Checker) (operation : Operation) (stage : Stage) :
    (c.perform freeze).1 ≠ .error (.invalidState operation stage) := by
  rw [perform_freeze]
  split
  · split
    · simp
    · simpa using ofRuleBook_ne_invalidState _ operation stage
  · simp

/-- How a run ends: the rules cannot be bound, or a scan fails, or there is a report. -/
theorem Inv.run_cases (hi : c.Inv) (hran : c.stage ≠ .ran) :
    (∃ e, (c.perform freeze).1 = .error e ∧
      c.perform run = (.error e, { c with resolver := c.binding.2 })) ∨
    ∃ rules resolver, c.resolver.Learns resolver ∧
      ((∃ e, c.perform run = (.error (.ofClasspath e),
          { c with resolver, rules := some rules, stage := .ran })) ∨
        ∃ scans, c.queue.mapM (c.scanner rules).scan = .ok scans ∧
          c.perform run = (outcome c.options (reportOf rules scans), { c with
            resolver, rules := some rules, stage := .ran, report := reportOf rules scans })) := by
  cases hf : (c.perform freeze).1 with
  | error e => exact .inl ⟨e, rfl, (perform_of_freeze_error hf).2.2⟩
  | ok u =>
    obtain ⟨rules, hr⟩ := hi.exists_rules hf
    cases hscans : c.queue.mapM (c.scanner rules).scan with
    | error e =>
      obtain ⟨resolver, hlearns, hrun⟩ := hi.exists_run_of_error hran hr hscans
      exact .inr ⟨rules, resolver, hlearns, .inl ⟨e, hrun⟩⟩
    | ok scans =>
      obtain ⟨resolver, hlearns, hrun⟩ := hi.exists_run_of_ok hran hr hscans
      exact .inr ⟨rules, resolver, hlearns, .inr ⟨scans, hscans, hrun⟩⟩

/-- A run is refused only after another run: the rules are always there. -/
theorem Inv.run_refused_iff (hi : c.Inv) (operation : Operation) (stage : Stage) :
    (c.perform run).1 = .error (.invalidState operation stage) ↔ c.stage = .ran ∧ operation = .run ∧
    stage = .ran := by
  constructor
  · intro h
    by_cases hran : c.stage = .ran
    · rw [perform_run, if_pos hran] at h
      cases h
      exact ⟨hran, rfl, rfl⟩
    · exfalso
      rcases hi.run_cases hran with
        ⟨e, hf, hrun⟩ | ⟨rules, resolver, _, ⟨e, hrun⟩ | ⟨scans, _, hrun⟩⟩ <;> rw [hrun] at h
      · cases h
        exact perform_freeze_ne_invalidState c operation stage hf
      · exact ofClasspath_ne_invalidState _ operation stage (Except.error.inj h)
      · exact outcome_ne_invalidState _ _ operation stage h
  · rintro ⟨hran, rfl, rfl⟩
    rw [perform_run, if_pos hran]

/-! ## The life of a check -/

/-- There are bound rules exactly from the second stage on. -/
theorem Inv.rules_isSome_iff (hi : c.Inv) : c.rules.isSome = true ↔ c.stage ≠ .configured := by
  constructor
  · intro h hs
    rw [(hi.configured hs).1] at h
    cases h
  · intro hs
    obtain ⟨rules, hrules, _⟩ := hi.bound hs
    rw [hrules]
    rfl

/-- The classes that come before those of the class path are the queued ones. -/
theorem Inv.overlay?_eq_some_iff (hi : c.Inv) {name : String} {cls : ClassFile} :
    c.source.overlay? name = some cls ↔ cls ∈ c.queue ∧ cls.name = name := by
  have hnames : (c.source.overlays.map (·.name)).Nodup := by
    rw [hi.overlays, List.map_reverse, List.nodup_reverse]
    exact hi.names
  rw [ClassSource.overlay?_eq_some_iff hnames, hi.overlays, List.mem_reverse]

/-- **The life of a check.** Whatever calls were made, and whether or not they succeeded:

* there are bound rules from the second stage on, so a run never finds them missing;
* classes are queued in the third stage, and none before; their names are different, they are the
  names that are taken, and exactly these classes stand in front of the class path;
* there is a report after the run only;
* the stage never goes back, and rules that were bound never change, nor does the book they come
  from.

A call that fails: rules that cannot be loaded leave everything as it was. Rules that cannot be
bound leave everything as it was but what is remembered of the class path. A class that cannot be
queued does so too, but the rules may be bound now. -/
theorem lifecycle (hc : c.Reachable) :
    (c.rules.isSome = true ↔ c.stage ≠ .configured) ∧
    (∀ operation stage, (c.perform run).1 = .error (.invalidState operation stage) ↔
      c.stage = .ran ∧ operation = .run ∧ stage = .ran) ∧
    (c.stage = .configured ∨ c.stage = .signaturesLoaded → c.queue = []) ∧
    (c.stage = .classesQueued → c.queue ≠ []) ∧
    (c.queue.map (·.name)).Nodup ∧
    (∀ name, name ∈ c.queued ↔ ∃ cls ∈ c.queue, cls.name = name) ∧
    (∀ name cls, c.source.overlay? name = some cls ↔ cls ∈ c.queue ∧ cls.name = name) ∧
    (c.stage ≠ .ran → c.report = .empty) ∧
    (∀ calls, c.stage.rank ≤ (c.afterAll calls).stage.rank ∧
      (c.stage ≠ .configured →
        (c.afterAll calls).book = c.book ∧ (c.afterAll calls).rules = c.rules)) ∧
    (∀ origin data e, (c.perform (addClass origin data)).1 = .error e →
      ∃ resolver rules stage, c.resolver.Learns resolver ∧
        (c.perform (addClass origin data)).2 = { c with resolver, rules, stage } ∧
        (stage = c.stage ∨ c.stage = .configured ∧ stage = .signaturesLoaded)) ∧
    (∀ text e, (c.perform (addText text)).1 = .error e → (c.perform (addText text)).2 = c) ∧
    (∀ files path e, (c.perform (addFile files path)).1 = .error e →
      (c.perform (addFile files path)).2 = c) ∧
    (∀ name target e, (c.perform (addBundled name target)).1 = .error e →
      (c.perform (addBundled name target)).2 = c) ∧
    ∀ e, (c.perform freeze).1 = .error e → ∃ resolver, c.resolver.Learns resolver ∧
      c.perform freeze = (.error e, { c with resolver }) ∧
      c.perform hasNoSignatures = (.error e, { c with resolver }) ∧
      (∀ origin data, c.perform (addClass origin data) = (.error e, { c with resolver })) ∧
      c.perform run = (.error e, { c with resolver }) := by
  have hi := hc.inv
  refine ⟨hi.rules_isSome_iff, hi.run_refused_iff, ?_, hi.classesQueued, hi.names, fun name => ?_,
    fun _ _ => hi.overlay?_eq_some_iff, hi.report, fun calls => ?_,
    fun _ _ _ => exists_perform_addClass_of_error,
    fun text _ => perform_load_of_error (.text _ text),
    fun files path _ => perform_load_of_error (.file files path),
    fun name target _ => perform_load_of_error (.bundled name target), fun e h => ?_⟩
  · rintro (hs | hs)
    · exact (hi.configured hs).2
    · exact hi.signaturesLoaded hs
  · simp [hi.queued]
  · exact ⟨(follows_afterAll c calls).rank_le, (follows_afterAll c calls).bound⟩
  · exact ⟨_, c.learns_binding, (perform_freeze_of_error h).2, perform_of_freeze_error h⟩

/-- Two classes are queued, then a class file that is cut off. -/
theorem TwoClasses.lifecycle_cut_class :
    lowerFirst.rules.isSome = true ∧ lowerFirst.queue ≠ [] ∧
    (∀ name, name ∈ lowerFirst.queued ↔ ∃ cls ∈ lowerFirst.queue, cls.name = name) ∧
    (∀ name cls, lowerFirst.source.overlay? name = some cls ↔
      cls ∈ lowerFirst.queue ∧ cls.name = name) ∧
    lowerFirst.report = .empty ∧
    (∀ calls, 2 ≤ (lowerFirst.afterAll calls).stage.rank ∧
      (lowerFirst.afterAll calls).rules = lowerFirst.rules) ∧
    (lowerFirst.perform (addClass "Cut.class" [0xCA])).1 =
      .error (.classFormat "Cut.class" .unexpectedEof) ∧
    ∃ resolver rules, resolver.source = lowerFirst.source ∧
      (lowerFirst.perform (addClass "Cut.class" [0xCA])).2 =
        { lowerFirst with resolver, rules } := by
  have hstage : lowerFirst.stage = .classesQueued := by decide +kernel
  have hcut : (lowerFirst.perform (addClass "Cut.class" [0xCA])).1 =
      .error (.classFormat "Cut.class" .unexpectedEof) := by decide +kernel
  obtain ⟨hrules, _, _, hqueue, _, hqueued, hoverlay, hreport, hlater, hadd, _⟩ :=
    lifecycle (c := lowerFirst) (.call (.call reachable_bound _) _)
  refine ⟨hrules.2 (by simp [hstage]), hqueue hstage, hqueued, hoverlay, hreport (by simp [hstage]),
    ?_, hcut, ?_⟩
  · intro calls
    obtain ⟨hrank, hbound⟩ := hlater calls
    rw [hstage] at hrank
    exact ⟨hrank, (hbound (by simp [hstage])).2⟩
  · obtain ⟨resolver, rules, stage, hlearns, hafter, hs | ⟨hs, _⟩⟩ := hadd _ _ _ hcut
    · exact ⟨resolver, rules, hlearns.source_eq, by rw [hafter, hs]⟩
    · simp [hstage] at hs

end Checker

end JvmAudit
