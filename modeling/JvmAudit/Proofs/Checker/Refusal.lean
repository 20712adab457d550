import JvmAudit.Proofs.Checker.Lifecycle

/-!
# Calls at the wrong stage

Rules can be loaded until they are bound, and after the run nothing can be done any more. A call at
the wrong stage is refused: it fails with the operation and the stage, and changes nothing. This
does not depend on its arguments, with one exception. A class file is read before the stage is
looked at, so if it cannot be read, that is what the call fails with.

## Main results

* `Checker.after_of_ran`: the last stage is final
* `Checker.refused_iff_stage`: when calls are refused
-/

namespace JvmAudit.Checker

variable {c : Checker} {α : Type}

/-- A computation fails because the operation is not allowed now, and changes nothing. -/
def Refuses (c : Checker) (action : CheckM α) (operation : Operation) : Prop :=
  c.perform action = (.error (.invalidState operation c.stage), c)

/-! ## Operations and stages -/

theorem allowed_suppress_iff (stage : Stage) :
    Operation.suppress.allowed stage = true ↔ stage ≠ .ran := by
  cases stage <;> simp [Operation.allowed]

/-- Whatever loads rules is allowed only before they are bound. -/
theorem allowed_load_iff {operation : Operation}
    (h : operation ∈ [Operation.setTarget, .parseText, .parseFile, .parseBundled]) (stage : Stage) :
    operation.allowed stage = true ↔ stage = .configured := by
  simp only [List.mem_cons, List.not_mem_nil, or_false] at h
  rcases h with rfl | rfl | rfl | rfl <;> cases stage <;> simp [Operation.allowed]

/-- A computation that starts with looking at the stage, and does not do so again, is refused if the
operation is not allowed. -/
theorem refuses_require_bind_iff {operation : Operation} {f : Unit → CheckM α}
    (hf : (c.perform (f ())).1 ≠ .error (.invalidState operation c.stage)) :
    c.Refuses (require operation >>= f) operation ↔ ¬operation.allowed c.stage = true := by
  unfold Refuses
  rw [perform_require_bind]
  by_cases h : operation.allowed c.stage = true
  · rw [if_pos h]
    simp only [h, not_true_eq_false, iff_false]
    intro hperform
    exact hf (congrArg Prod.fst hperform)
  · rw [if_neg h]
    simp [h]

/-! ## Calls -/

/-- A load itself never fails because of the stage. -/
theorem perform_onBook_ne_invalidState (c : Checker) (load : RuleBook.Load α)
    (operation : Operation) (stage : Stage) :
    (c.perform (onBook load)).1 ≠ .error (.invalidState operation stage) := by
  rw [perform_onBook]
  cases (c.book.run load).1 with
  | ok a => simp [Except.mapError]
  | error e => simpa [Except.mapError] using ofRuleBook_ne_invalidState e operation stage

/-- Rules can be loaded until they are bound. -/
theorem refuses_load_iff {operation : Operation}
    (hop : operation ∈ [Operation.setTarget, .parseText, .parseFile, .parseBundled])
    (load : RuleBook.Load α) :
    c.Refuses (require operation >>= fun _ => onBook load) operation ↔ c.stage ≠ .configured := by
  rw [refuses_require_bind_iff (perform_onBook_ne_invalidState c load _ _), allowed_load_iff hop]

/-- Suppressions can be added until the run. -/
theorem refuses_suppress_iff (c : Checker) (pattern : String) :
    c.Refuses (suppress pattern) .suppress ↔ c.stage = .ran := by
  unfold suppress
  have hadd : (c.perform (modify fun c => { c with suppression := c.suppression.add pattern })).1 =
    .ok () := rfl
  rw [refuses_require_bind_iff (by simp [hadd]), allowed_suppress_iff, not_not]

theorem ofClassFile_ne_invalidState (path : String) (e : ClassError) (operation : Operation)
    (stage : Stage) :
    CheckerError.ofClassFile path e ≠ .invalidState operation stage := by
  cases e <;> simp [CheckerError.ofClassFile]

/-- A class is refused by stage only after the run, whether its bytes can be read or not. -/
theorem refuses_addClass_iff (c : Checker) (origin : String) (data : Bytes) :
    c.Refuses (addClass origin data) .addClass ↔ c.stage = .ran := by
  unfold Refuses
  rw [perform_addClass]
  by_cases h : c.stage = .ran
  · rw [if_pos h]
    simp [h]
  · rw [if_neg h]
    simp only [h, iff_false]
    have hfreeze := perform_freeze_ne_invalidState c .addClass c.stage
    cases hf : c.perform freeze with
    | mk result c' =>
      rw [hf] at hfreeze
      cases result with
      | error e =>
        intro hperform
        exact hfreeze (congrArg Prod.fst hperform)
      | ok u =>
        cases ClassFile.parse .full data with
        | ok cls => simp
        | error e =>
          intro hperform
          exact ofClassFile_ne_invalidState origin e _ _
            (Except.error.inj (congrArg Prod.fst hperform))

/-- A file that can be read is queued by its bytes. -/
theorem perform_addClassFile_of_ok {files : FileTree} {path : String} {data : ByteArray}
    (h : files.read path = .ok data) (c : Checker) :
    c.perform (addClassFile files path) = c.perform (addClass path data.toList) := by
  unfold addClassFile
  rw [h]

/-- A file that cannot be read is noticed at every stage. -/
theorem perform_addClassFile_of_error {files : FileTree} {path : String} {e : FileError}
    (h : files.read path = .error e) (c : Checker) :
    c.perform (addClassFile files path) = (.error (.io path e), c) := by
  unfold addClassFile
  rw [h]
  rfl

/-- A file is read before the stage is looked at, so a file that cannot be read is not refused by
stage. -/
theorem refuses_addClassFile_iff (c : Checker) (files : FileTree) (path : String) :
    c.Refuses (addClassFile files path) .addClass ↔ c.stage = .ran ∧
    ∃ data, files.read path = .ok data := by
  rw [Refuses]
  cases h : files.read path with
  | ok data =>
    rw [perform_addClassFile_of_ok h, ← Refuses, refuses_addClass_iff]
    simp
  | error e =>
    rw [perform_addClassFile_of_error h]
    simp

/-- A second run is refused. -/
theorem Inv.refuses_run_iff (hi : c.Inv) : c.Refuses run .run ↔ c.stage = .ran := by
  constructor
  · intro h
    exact ((hi.run_refused_iff _ _).1 (congrArg Prod.fst h)).1
  · intro h
    unfold Refuses
    rw [perform_run, if_pos h, h]

/-- **When calls are refused.** Exempting, queueing and running are refused after the run. What has
to do with loading rules is refused as soon as the rules are bound. Neither depends on the
arguments, but that a class file that cannot be read is not refused: the failure to read it comes
first, and nothing changes either. -/
theorem refused_iff_stage (hc : c.Reachable) :
    (∀ pattern, c.Refuses (suppress pattern) .suppress ↔ c.stage = .ran) ∧
    (∀ version, c.Refuses (setTarget version) .setTarget ↔ c.stage ≠ .configured) ∧
    (∀ text, c.Refuses (addText text) .parseText ↔ c.stage ≠ .configured) ∧
    (∀ files path, c.Refuses (addFile files path) .parseFile ↔ c.stage ≠ .configured) ∧
    (∀ name target, c.Refuses (addBundled name target) .parseBundled ↔ c.stage ≠ .configured) ∧
    (∀ origin data, c.Refuses (addClass origin data) .addClass ↔ c.stage = .ran) ∧
    (∀ files path, c.Refuses (addClassFile files path) .addClass ↔
      c.stage = .ran ∧ ∃ data, files.read path = .ok data) ∧
    (∀ files path e, files.read path = .error e →
      c.perform (addClassFile files path) = (.error (.io path e), c)) ∧
    (c.Refuses run .run ↔ c.stage = .ran) :=
  ⟨refuses_suppress_iff c, fun _ => refuses_load_iff (by simp) _,
    fun _ => refuses_load_iff (by simp) _, fun _ _ => refuses_load_iff (by simp) _,
    fun _ _ => refuses_load_iff (by simp) _, refuses_addClass_iff c, refuses_addClassFile_iff c,
    fun _ _ _ h => perform_addClassFile_of_error h c, hc.inv.refuses_run_iff⟩

/-! ## The last stage -/

/-- After the run nothing changes any more. -/
theorem after_of_ran (hi : c.Inv) (h : c.stage = .ran) (call : Call) : c.after call = c := by
  have hbound : c.stage ≠ .configured := by simp [h]
  have hrefused :
      ∀ {α : Type} {action : CheckM α} {operation : Operation}, c.Refuses action operation →
      (c.perform action).2 = c := fun hr => congrArg Prod.snd hr
  cases call with
  | suppress pattern => exact hrefused ((refuses_suppress_iff c pattern).2 h)
  | setTarget version => exact hrefused ((refuses_load_iff (by simp) _).2 hbound)
  | addText text => exact hrefused ((refuses_load_iff (by simp) _).2 hbound)
  | addFile files path => exact hrefused ((refuses_load_iff (by simp) _).2 hbound)
  | addBundled name target => exact hrefused ((refuses_load_iff (by simp) _).2 hbound)
  | hasNoSignatures =>
    show (c.perform (freeze >>= fun _ => _)).2 = c
    rw [perform_bind, perform_freeze, if_neg hbound]
    rfl
  | addClass origin data => exact hrefused ((refuses_addClass_iff c origin data).2 h)
  | addClassFile files path =>
    show (c.perform (Checker.addClassFile files path)).2 = c
    cases hread : files.read path with
    | ok data => exact hrefused ((refuses_addClassFile_iff c files path).2 ⟨h, data, hread⟩)
    | error e => rw [perform_addClassFile_of_error hread]
  | run => exact hrefused (hi.refuses_run_iff.2 h)

namespace TwoClasses

/-- Everything is called after a run, and rules are loaded after a class was queued. -/
theorem refused_iff_stage_two_classes :
    (∀ pattern, (lowerFirst.after .run).Refuses (suppress pattern) .suppress) ∧
    (∀ version, (lowerFirst.after .run).Refuses (setTarget version) .setTarget) ∧
    (∀ text, (lowerFirst.after .run).Refuses (addText text) .parseText) ∧
    (∀ origin data, (lowerFirst.after .run).Refuses (addClass origin data) .addClass) ∧
    (lowerFirst.after .run).Refuses run .run ∧
    (lowerFirst.after .run).perform (addClassFile .empty "c/None.class") =
      (.error (.io "c/None.class" .notFound), lowerFirst.after .run) ∧
    (∀ text, lowerFirst.Refuses (addText text) .parseText) ∧
    (∀ name target, lowerFirst.Refuses (addBundled name target) .parseBundled) ∧
    ¬lowerFirst.Refuses run .run := by
  have hqueued : lowerFirst.stage = .classesQueued := by decide +kernel
  have hran : (lowerFirst.after .run).stage = .ran := by decide +kernel
  have hreachable : lowerFirst.Reachable := .call (.call reachable_bound _) _
  obtain ⟨_, _, htext, _, hbundled, _, _, _, hrun⟩ := refused_iff_stage hreachable
  obtain ⟨hsuppress', htarget', htext', _, _, hclass', _, hfile', hrun'⟩ :=
    refused_iff_stage (.call hreachable .run)
  refine ⟨fun pattern => (hsuppress' pattern).2 hran,
    fun version => (htarget' version).2 (by simp [hran]),
    fun text => (htext' text).2 (by simp [hran]),
    fun origin data => (hclass' origin data).2 hran, hrun'.2 hran, hfile' _ _ _ (by decide +kernel),
    fun text => (htext text).2 (by simp [hqueued]),
    fun name target => (hbundled name target).2 (by simp [hqueued]), ?_⟩
  rw [hrun, hqueued]
  decide

/-- A class file that cannot be read is not refused after a run. -/
theorem unreadable_file_not_refused :
    ¬∀ c : Checker, c.Reachable → c.stage = .ran →
    ∀ files path, c.Refuses (addClassFile files path) .addClass := by
  intro h
  have hrefused :=
    h (start.after .run) (.call reachable_start .run) (by decide +kernel) .empty "c/None.class"
  obtain ⟨_, data, hread⟩ := (refuses_addClassFile_iff _ _ _).1 hrefused
  have herror : FileTree.empty.read "c/None.class" = .error .notFound := by decide +kernel
  rw [herror] at hread
  cases hread

end TwoClasses

end JvmAudit.Checker
