import JvmAudit.Checker.Basic
import JvmAudit.Proofs.Classpath.Cache
import JvmAudit.Proofs.Rule.RuleSet
import Mathlib.Logic.Relation

/-!
# Checks that can be made

A check is made on a class path and then changed by calls, in any order, whether they succeed or
fail. What a call does to a check is a sequence of few kinds of moves (`Checker.Move`), so what each
move keeps holds for every check that can be made (`Checker.Reachable.inv`). In particular, what was
looked up to bind the rules stays right when classes are queued later.

## Main results

* `Checker.moves_call`: each call is a sequence of moves
* `Checker.Reachable.inv`: the invariant of a check
-/

namespace JvmAudit.Checker

/-- The calls that can change a check. -/
inductive Call where
  | suppress (pattern : String)
  | setTarget (version : String)
  | addText (text : String)
  | addFile (files : FileTree) (path : String)
  | addBundled (name : String) (target : Option String)
  | hasNoSignatures
  | addClass (origin : String) (data : Bytes)
  | addClassFile (files : FileTree) (path : String)
  | run

/-- A check after a call. -/
def after (c : Checker) : Call → Checker
  | .suppress pattern => (c.perform (suppress pattern)).2
  | .setTarget version => (c.perform (setTarget version)).2
  | .addText text => (c.perform (addText text)).2
  | .addFile files path => (c.perform (addFile files path)).2
  | .addBundled name target => (c.perform (addBundled name target)).2
  | .hasNoSignatures => (c.perform hasNoSignatures).2
  | .addClass origin data => (c.perform (addClass origin data)).2
  | .addClassFile files path => (c.perform (addClassFile files path)).2
  | .run => (c.perform run).2

/-- The checks that can be made, whether or not the calls succeed. -/
inductive Reachable : Checker → Prop
  | new {files : FileTree} {classpath : Classpath} {options : CheckerOptions} {c : Checker}
    (h : ofClasspath files classpath options = .ok c) : Reachable c
  | call {c : Checker} (h : Reachable c) (call : Call) : Reachable (c.after call)

/-! ## What the computations do -/

variable {c c' : Checker} {α β : Type}

/-- Calls in sequence: the second one sees the check that the first one leaves, unless that
fails. -/
theorem perform_bind (c : Checker) (x : CheckM α) (f : α → CheckM β) :
    c.perform (x >>= f) =
      match c.perform x with
      | (.ok a, c') => c'.perform (f a)
      | (.error e, c') => (.error e, c') := by
  cases h : c.perform x with
  | mk result c' =>
    cases result with
    | ok a => exact Result.run_bind_ok h
    | error e => exact Result.run_bind_error h

/-- An operation that is not allowed at the stage fails, and nothing changes. -/
theorem perform_require (c : Checker) (operation : Operation) :
    c.perform (require operation) =
      (if operation.allowed c.stage then .ok () else .error (.invalidState operation c.stage),
        c) := by
  show c.perform (if operation.allowed c.stage then pure () else throw _) = _
  split <;> rfl

/-- A call that is not allowed changes nothing. -/
theorem perform_require_bind (c : Checker) (operation : Operation) (f : Unit → CheckM α) :
    c.perform (require operation >>= f) =
      if operation.allowed c.stage then c.perform (f ())
        else (.error (.invalidState operation c.stage), c) := by
  rw [perform_bind, perform_require]
  by_cases h : operation.allowed c.stage = true
  · rw [if_pos h, if_pos h]
  · rw [if_neg h, if_neg h]

/-- A load changes the book only. -/
theorem perform_onBook (c : Checker) (load : RuleBook.Load α) :
    c.perform (onBook load) =
      ((c.book.run load).1.mapError .ofRuleBook, { c with book := (c.book.run load).2 }) := by
  unfold onBook
  rw [perform_bind]
  rw [show c.perform get = (.ok c, c) from rfl]
  cases hrun : c.book.run load with
  | mk result book =>
    simp only [hrun]
    cases result <;> rfl

/-- What binding the rules gives, and the resolver afterwards. -/
def binding (c : Checker) : Except RuleBookError RuleSet × Resolver :=
  c.resolver.answer (c.book.bind c.options.failOnUnresolvableSignatures).run

theorem learns_binding (c : Checker) : c.resolver.Learns c.binding.2 := Resolver.learns_answer ..

/-- The rules are bound to the class path, whatever is remembered. -/
theorem binding_fst (hr : c.resolver.Sound) :
    c.binding.1 = c.book.freeze c.source c.options.failOnUnresolvableSignatures := by
  rw [RuleBook.freeze_eq]
  exact (hr.run_fst _ _).trans (RuleBook.eval_bind ..)

/-- Rules are bound once. If they cannot be bound, only what was looked up is remembered. -/
theorem perform_freeze (c : Checker) :
    c.perform freeze =
      if c.stage = .configured then
        match c.binding.1 with
        | .ok rules => (.ok (),
          { c with resolver := c.binding.2, rules := some rules, stage := .signaturesLoaded })
        | .error e => (.error (.ofRuleBook e), { c with resolver := c.binding.2 })
      else (.ok (), c) := by
  unfold freeze binding
  rw [perform_bind, show c.perform get = (.ok c, c) from rfl]
  by_cases h : c.stage = .configured
  · simp only [if_pos h]
    cases c.resolver.answer (c.book.bind c.options.failOnUnresolvableSignatures).run with
    | mk result resolver => cases result <;> rfl
  · simp only [if_neg h]
    rfl

/-- Classes can be added, and a run started, until one was started. -/
theorem allowed_of_ne_ran {stage : Stage} (h : stage ≠ .ran) :
    Operation.addClass.allowed stage = true ∧ Operation.run.allowed stage = true := by
  cases stage with
  | ran => exact absurd rfl h
  | _ => exact ⟨rfl, rfl⟩

/-- To queue a class binds the rules first. They stay bound if the class cannot be read. -/
theorem perform_addClass (c : Checker) (origin : String) (data : Bytes) :
    c.perform (addClass origin data) =
      if c.stage = .ran then (.error (.invalidState .addClass .ran), c)
      else
        match c.perform freeze with
        | (.ok (), c') =>
          match ClassFile.parse .full data with
          | .ok cls => (.ok (), c'.enqueue cls)
          | .error e => (.error (.ofClassFile origin e), c')
        | (.error e, c') => (.error e, c') := by
  unfold addClass
  rw [perform_require_bind, perform_bind]
  by_cases h : c.stage = .ran
  · rw [if_neg (by rw [h]; decide), if_pos h, h]
  · rw [if_pos (allowed_of_ne_ran h).1, if_neg h]
    cases c.perform freeze with
    | mk result c' =>
      cases result with
      | error e => rfl
      | ok u => cases ClassFile.parse .full data <;> rfl

theorem learns_scans (c : Checker) (rules : RuleSet) : c.resolver.Learns (c.scans rules).2 :=
  Resolver.learns_answer ..

/-- A run leaves a report behind, or none, and what it has looked up. -/
theorem exists_finish (c : Checker) : ∃ resolver report, c.resolver.Learns resolver ∧
    c.finish.2 = { c with resolver, stage := .ran, report } := by
  unfold finish
  cases hrules : c.rules with
  | none => exact ⟨c.resolver, c.report, .refl _, rfl⟩
  | some rules =>
    have hlearns := c.learns_scans rules
    simp only [scans] at hlearns ⊢
    split
    · exact ⟨_, c.report, hlearns, rfl⟩
    · split
      · exact ⟨_, _, hlearns, rfl⟩
      · exact ⟨_, _, hlearns, rfl⟩

/-- A run binds the rules first, and then scans. -/
theorem perform_run (c : Checker) :
    c.perform run =
      if c.stage = .ran then (.error (.invalidState .run .ran), c)
      else
        match c.perform freeze with
        | (.ok (), c') => c'.finish
        | (.error e, c') => (.error e, c') := by
  unfold run
  rw [perform_require_bind, perform_bind]
  by_cases h : c.stage = .ran
  · rw [if_neg (by rw [h]; decide), if_pos h, h]
  · rw [if_pos (allowed_of_ne_ran h).2, if_neg h]
    cases c.perform freeze with
    | mk result c' => cases result <;> rfl

/-! ## Moves -/

/-- What can happen to a check. -/
inductive Move : Checker → Checker → Prop
  | suppress {c : Checker} (h : c.stage ≠ .ran) (pattern : String) :
      Move c { c with suppression := c.suppression.add pattern }
  | load {c : Checker} {book : RuleBook} (h : c.stage = .configured)
    (hb : c.book.Reachable → book.Reachable) : Move c { c with book }
  | lookUp {c : Checker} {resolver : Resolver} (h : c.resolver.Learns resolver) :
      Move c { c with resolver }
  | freeze {c : Checker} {rules : RuleSet} (h : c.stage = .configured)
    (hr : c.resolver.Sound →
      c.book.freeze c.source c.options.failOnUnresolvableSignatures = .ok rules) :
    Move c { c with rules := some rules, stage := .signaturesLoaded }
  | enqueue {c : Checker} (h : c.stage ≠ .configured) (hran : c.stage ≠ .ran) (cls : ClassFile)
    (hnew : cls.name ∉ c.queued) : Move c (c.push cls)
  | finish {c : Checker} (h : c.stage ≠ .configured) (hran : c.stage ≠ .ran) (report : Report) :
      Move c { c with stage := .ran, report }

/-- Any number of moves. -/
abbrev Moves : Checker → Checker → Prop := Relation.ReflTransGen Move

/-- A call that loads rules: it does so before the rules are bound, and nothing later. -/
theorem moves_load {operation : Operation} {load : RuleBook.Load α}
    (hop : ∀ stage, operation.allowed stage = true → stage = .configured)
    (hb : c.book.Reachable → (c.book.run load).2.Reachable) :
    Moves c (c.perform (require operation >>= fun _ => onBook load)).2 := by
  rw [perform_require_bind, perform_onBook]
  by_cases h : operation.allowed c.stage = true
  · rw [if_pos h]
    exact .single (.load (hop _ h) hb)
  · rw [if_neg h]

theorem moves_freeze (c : Checker) : Moves c (c.perform freeze).2 := by
  rw [perform_freeze]
  by_cases h : c.stage = .configured
  · rw [if_pos h]
    cases hb : c.binding.1 with
    | ok rules =>
      have hmove : Move c { c with rules := some rules, stage := .signaturesLoaded } :=
        .freeze h fun hr => (binding_fst hr).symm.trans hb
      exact (Relation.ReflTransGen.single hmove).tail (.lookUp c.learns_binding)
    | error e => exact .single (.lookUp c.learns_binding)
  · rw [if_neg h]

/-- After the rules were bound, the stage is another one, and the last one only if it was before. -/
theorem stage_of_freeze (h : c.perform freeze = (.ok (), c')) :
    c'.stage ≠ .configured ∧ (c'.stage = .ran → c.stage = .ran) := by
  rw [perform_freeze] at h
  by_cases hs : c.stage = .configured
  · rw [if_pos hs] at h
    cases hb : c.binding.1 with
    | ok rules =>
      rw [hb] at h
      cases h
      simp
    | error e =>
      rw [hb] at h
      cases h
  · rw [if_neg hs] at h
    cases h
    exact ⟨hs, id⟩

theorem moves_enqueue (h : c.stage ≠ .configured) (hran : c.stage ≠ .ran) (cls : ClassFile) :
    Moves c (c.enqueue cls) := by
  unfold enqueue
  split
  · exact .refl
  · next hnew => exact .single (.enqueue h hran cls hnew)

/-- To queue a class is a sequence of moves, also if it fails. -/
theorem moves_addClass (c : Checker) (origin : String) (data : Bytes) :
    Moves c (c.perform (addClass origin data)).2 := by
  rw [perform_addClass]
  by_cases h : c.stage = .ran
  · rw [if_pos h]
  · rw [if_neg h]
    have hfreeze := moves_freeze c
    cases hf : c.perform freeze with
    | mk result c' =>
      rw [hf] at hfreeze
      cases result with
      | error e => exact hfreeze
      | ok u =>
        obtain ⟨hconf, hran⟩ := stage_of_freeze hf
        cases ClassFile.parse .full data with
        | ok cls => exact hfreeze.trans (moves_enqueue hconf (fun hs => h (hran hs)) cls)
        | error e => exact hfreeze

theorem moves_run (c : Checker) : Moves c (c.perform run).2 := by
  rw [perform_run]
  by_cases h : c.stage = .ran
  · rw [if_pos h]
  · rw [if_neg h]
    have hfreeze := moves_freeze c
    cases hf : c.perform freeze with
    | mk result c' =>
      rw [hf] at hfreeze
      cases result with
      | error e => exact hfreeze
      | ok u =>
        obtain ⟨hconf, hran⟩ := stage_of_freeze hf
        obtain ⟨resolver, report, hlearns, hfinish⟩ := exists_finish c'
        have hmove : Move c' { c' with stage := .ran, report } :=
          .finish hconf (fun hs => h (hran hs)) report
        show Moves c c'.finish.2
        rw [hfinish]
        exact (hfreeze.tail hmove).tail (.lookUp hlearns)

/-- Each call is a sequence of moves. -/
theorem moves_call (c : Checker) (call : Call) : Moves c (c.after call) := by
  have hload : ∀ operation ∈ [Operation.setTarget, .parseText, .parseFile, .parseBundled], ∀ stage,
      operation.allowed stage = true → stage = .configured := by
    intro operation hmem stage h
    simp only [List.mem_cons, List.not_mem_nil, or_false] at hmem
    cases stage with
    | configured => rfl
    | _ => rcases hmem with rfl | rfl | rfl | rfl <;> cases h
  cases call with
  | suppress pattern =>
    show Moves c (c.perform (require .suppress >>= fun _ => _)).2
    rw [perform_require_bind]
    by_cases h : c.stage = .ran
    · rw [if_neg (by rw [h]; decide)]
    · split
      · exact .single (.suppress h pattern)
      · exact .refl
  | setTarget version => exact moves_load (hload _ (by simp)) fun h => .setTarget h _
  | addText text => exact moves_load (hload _ (by simp)) fun h => .addText h _ _
  | addFile files path => exact moves_load (hload _ (by simp)) fun h => .addFile h _ _
  | addBundled name target => exact moves_load (hload _ (by simp)) fun h => .addBundled h _ _
  | hasNoSignatures =>
    have hfreeze := moves_freeze c
    show Moves c (c.perform (freeze >>= fun _ => _)).2
    rw [perform_bind]
    cases hf : c.perform freeze with
    | mk result c' =>
      rw [hf] at hfreeze
      cases result <;> exact hfreeze
  | addClass origin data => exact moves_addClass c origin data
  | addClassFile files path =>
    show Moves c (c.perform (Checker.addClassFile files path)).2
    unfold Checker.addClassFile
    cases files.read path with
    | ok data => exact moves_addClass c path _
    | error e => exact .refl
  | run => exact moves_run c

/-- The class path behind the queued classes never changes. -/
theorem Moves.containers_eq (h : Moves c c') : c'.source.containers = c.source.containers := by
  induction h with
  | refl => rfl
  | tail _ hmove ih =>
    cases hmove with
    | lookUp h => rw [← ih, source, h.source_eq]
    | suppress | load | freeze | enqueue | finish => exact ih

/-! ## The invariant -/

/-- What holds for every check that can be made. -/
structure Inv (c : Checker) : Prop where
  book : c.book.Reachable
  /-- What is remembered is right, whenever it was looked up. -/
  resolver : c.resolver.Sound
  /-- The queued classes come before those of the class path. -/
  overlays : c.source.overlays = c.queue.reverse
  names : (c.queue.map (·.name)).Nodup
  /-- The names that are taken are those of the queued classes. -/
  queued : c.queued = (c.queue.map (·.name)).reverse
  /-- Before the rules are bound there are no rules and no classes. -/
  configured : c.stage = .configured → c.rules = none ∧ c.queue = []
  signaturesLoaded : c.stage = .signaturesLoaded → c.queue = []
  classesQueued : c.stage = .classesQueued → c.queue ≠ []
  /-- The rules were bound to the class path alone. -/
  bound : c.stage ≠ .configured → ∃ rules, c.rules = some rules ∧
    c.book.freeze ⟨[], c.source.containers⟩ c.options.failOnUnresolvableSignatures = .ok rules
  report : c.stage ≠ .ran → c.report = .empty

theorem inv_new {source : ClassSource} (h : source.overlays = []) (options : CheckerOptions) :
    Inv (.new source options) where
  book := .refl
  resolver := Resolver.sound_ofSource source
  overlays := h
  names := .nil
  queued := rfl
  configured _ := ⟨rfl, rfl⟩
  signaturesLoaded hs := nomatch hs
  classesQueued hs := nomatch hs
  bound hs := absurd rfl hs
  report _ := rfl

/-- A check on which the rules are not bound yet has its class path as it was opened. -/
theorem Inv.source_eq (hi : c.Inv) (h : c.stage = .configured) :
    c.source = ⟨[], c.source.containers⟩ := by
  have ho := hi.overlays
  rw [(hi.configured h).2] at ho
  cases hs : c.source with
  | mk overlays containers =>
    rw [hs] at ho
    rw [show overlays = [] from ho]

/-- A class with a new name can be queued. -/
theorem Inv.push (hi : c.Inv) (h : c.stage ≠ .configured) (hran : c.stage ≠ .ran) {cls : ClassFile}
    (hnew : cls.name ∉ c.queued) : (c.push cls).Inv where
  book := hi.book
  resolver := hi.resolver.addOverlay cls
  overlays := by simp [Checker.push, Resolver.addOverlay, ClassSource.addOverlay, hi.overlays]
  names := by
    rw [hi.queued, List.mem_reverse] at hnew
    simp only [Checker.push, List.map_append, List.map_cons, List.map_nil, List.nodup_append]
    refine ⟨hi.names, by simp, ?_⟩
    rintro a ha b hb rfl
    rw [List.mem_singleton.1 hb] at ha
    exact hnew ha
  queued := by simp [Checker.push, hi.queued]
  configured hs := nomatch hs
  signaturesLoaded hs := nomatch hs
  classesQueued _ := by simp [Checker.push]
  bound _ := hi.bound h
  report _ := hi.report hran

/-- Each move keeps the invariant. -/
theorem Move.inv (h : Move c c') (hi : c.Inv) : c'.Inv := by
  cases h with
  | suppress _ pattern => exact { hi with }
  | load h hb => exact { hi with book := hb hi.book, bound := fun hs => absurd h hs }
  | @lookUp resolver h =>
    refine { hi with
      resolver := h.sound hi.resolver
      overlays := (congrArg ClassSource.overlays h.source_eq).trans hi.overlays
      bound := ?_ }
    show _ → ∃ rules, _ ∧ c.book.freeze ⟨[], resolver.source.containers⟩ _ = _
    rw [h.source_eq]
    exact hi.bound
  | freeze h hr =>
    refine { hi with
      configured := fun hs => nomatch hs
      signaturesLoaded := fun _ => (hi.configured h).2
      classesQueued := fun hs => nomatch hs
      bound := fun _ => ⟨_, rfl, ?_⟩
      report := fun _ => hi.report (by simp [h]) }
    -- nothing is queued yet, so the class path has no classes in front
    rw [hi.source_eq h] at hr
    exact hr hi.resolver
  | enqueue h hran cls hnew => exact hi.push h hran hnew
  | finish h hran report =>
    exact { hi with
      configured := fun hs => nomatch hs
      signaturesLoaded := fun hs => nomatch hs
      classesQueued := fun hs => nomatch hs
      bound := fun _ => hi.bound h
      report := fun hs => absurd rfl hs }

theorem Moves.inv (h : Moves c c') (hi : c.Inv) : c'.Inv := by
  induction h with
  | refl => exact hi
  | tail _ hm ih => exact hm.inv ih

/-- The invariant holds of every check that can be reached. -/
theorem Reachable.inv (h : c.Reachable) : c.Inv := by
  induction h with
  | new h =>
    unfold ofClasspath at h
    split at h
    · next source hs =>
      cases h
      obtain ⟨containers, _, hc⟩ := Result.bind_eq_ok.1 hs
      cases hc
      exact inv_new rfl _
    · cases h
  | call _ call ih => exact (moves_call _ call).inv ih

end JvmAudit.Checker
