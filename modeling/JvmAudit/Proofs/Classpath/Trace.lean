import JvmAudit.Classpath.Lineage
import JvmAudit.Proofs.Classpath.Inquiry
import JvmAudit.Proofs.Result

/-!
# Walks, one look-up at a time

A step of a walk may look up several names, since it goes on past those that are missing. Here a
walk on a class path is cut into its look-ups: `Walk.request?` is the next name it asks for, and the
answer says how it goes on (`ClassSource.next_of_request`). `Walk.Trace` lists the look-ups of a
whole walk in order, and every walk has one (`Walk.exists_trace`).

A walk is a computation that carries bounds for the names that it may ask for. They are there so
that it ends, and do not change what it gives (`Walk.result_next`, `Walk.eval_collectFrom`).
-/

namespace JvmAudit

namespace Walk

/-- A look-up that a walk makes. -/
structure Request where
  name : String
  /-- Whether the name is that of a superclass. -/
  ofSuper : Bool
  /-- The walk while it waits for the answer. -/
  walk : Walk

/-- The look-up of the first interface that was not seen. -/
def requestInterface? (seen missing : List String) : List String → Option Request
  | [] => none
  | name :: queue =>
    if seen.contains name then requestInterface? seen missing queue
    else some ⟨name, false, ⟨none, queue, name :: seen, missing⟩⟩

/-- The next look-up, if there is any. -/
def request? (w : Walk) : Option Request :=
  match w.nextSuper with
  | none => requestInterface? w.seen w.missing w.queue
  | some name =>
    if w.seen.contains name then requestInterface? w.seen (w.missing ++ [name]) w.queue
    else some ⟨name, true, { w with nextSuper := none, seen := name :: w.seen }⟩

/-- The walk when nothing is left to look up. -/
def ended (w : Walk) : Walk := ⟨none, [], w.seen, w.missing ++ w.nextSuper.toList⟩

/-- The walk after a look-up that found nothing. -/
def Request.missed (r : Request) : Walk := { r.walk with missing := r.walk.missing ++ [r.name] }

/-- The walk after a look-up that found a class. -/
def Request.found (r : Request) (c : ClassFile) : Walk :=
  { r.walk with
    nextSuper := if r.ofSuper then c.superClass else none
    queue := r.walk.queue ++ c.interfaces }

/-! ## Steps, without their bounds -/

/-- What a step gives, and the state it leads to. -/
def Step.result {names : List String} {bound : Nat} (step : Step names bound) : Outcome × Walk :=
  (step.outcome, step.walk)

section Bounds

variable {mentioned mentioned' names names' : List String} {bound bound' : Nat}
  {load : String → Answer}
  {hload : ∀ name, Answer.supertypes (load name) ⊆ mentioned}
  {hload' : ∀ name, Answer.supertypes (load name) ⊆ mentioned'}
  {hm : mentioned ⊆ names} {hm' : mentioned' ⊆ names'}

/-- The bounds of a walk over interfaces do not matter. -/
theorem result_nextInterface (seen missing queue : List String) (hq : queue ⊆ names)
    (hq' : queue ⊆ names') (hn : unseen names seen ≤ bound) (hn' : unseen names' seen ≤ bound') :
    ((nextInterface hm seen missing queue hq hn).eval load hload).result =
      ((nextInterface hm' seen missing queue hq' hn').eval load hload').result := by
  induction queue generalizing seen missing with
  | nil => rfl
  | cons name queue ih =>
    rw [nextInterface, nextInterface]
    by_cases hseen : name ∈ seen
    · rw [dif_pos hseen, dif_pos hseen]
      exact ih ..
    · rw [dif_neg hseen, dif_neg hseen]
      rcases hl : load name with e | found
      · rw [Inquiry.eval_look_bind hl, Inquiry.eval_look_bind hl]
        rfl
      · rw [Inquiry.eval_look_bind hl, Inquiry.eval_look_bind hl]
        cases found with
        | none => exact ih ..
        | some c => rfl

/-- The bounds of a step do not matter. -/
theorem result_next (w : Walk) (hw : w.pending ⊆ names) (hw' : w.pending ⊆ names') :
    ((next hm w hw).eval load hload).result = ((next hm' w hw').eval load hload').result := by
  obtain ⟨nextSuper, queue, seen, missing⟩ := w
  cases nextSuper with
  | none => exact result_nextInterface ..
  | some name =>
    simp only [next]
    by_cases hseen : name ∈ seen
    · rw [dif_pos hseen, dif_pos hseen]
      exact result_nextInterface ..
    · rw [dif_neg hseen, dif_neg hseen]
      rcases hl : load name with e | found
      · rw [Inquiry.eval_look_bind hl, Inquiry.eval_look_bind hl]
        rfl
      · rw [Inquiry.eval_look_bind hl, Inquiry.eval_look_bind hl]
        cases found with
        | none => exact result_nextInterface ..
        | some c => rfl

end Bounds

end Walk

/-! ## Steps and look-ups -/

namespace ClassSource

/-- A step of a walk on a class path. -/
def next (s : ClassSource) (w : Walk) : Walk.Outcome × Walk :=
  (s.answer (Walk.next (List.subset_append_right w.pending s.mentioned) w
    (List.subset_append_left _ _))).result

end ClassSource

/-- The step that starts with a look-up. -/
def Walk.Request.step (s : ClassSource) (r : Walk.Request) : Walk.Outcome × Walk :=
  match s.load r.name with
  | .error e => (.error e, r.walk)
  | .ok none => s.next r.missed
  | .ok (some c) => (.ok (some c), r.found c)

namespace ClassSource

open Walk

variable {s : ClassSource} {w : Walk} {r : Walk.Request} {seen missing queue : List String}

/-- The result of a step depends neither on the names that bound the walk nor on the proofs about
them. -/
theorem result_next_eq {mentioned names : List String}
    {hload : ∀ name, Answer.supertypes (s.load name) ⊆ mentioned} {hm : mentioned ⊆ names}
    (hw : w.pending ⊆ names) : ((Walk.next hm w hw).eval s.load hload).result = s.next w :=
  result_next ..

/-- A walk without a superclass goes over the interfaces. -/
theorem result_nextInterface_eq {mentioned names : List String} {bound : Nat}
    {hload : ∀ name, Answer.supertypes (s.load name) ⊆ mentioned} {hm : mentioned ⊆ names}
    (hq : queue ⊆ names) (hn : unseen names seen ≤ bound) :
    ((nextInterface hm seen missing queue hq hn).eval s.load hload).result =
      s.next ⟨none, queue, seen, missing⟩ := result_nextInterface ..

theorem next_interface_of_mem {name : String} (h : name ∈ seen) :
    s.next ⟨none, name :: queue, seen, missing⟩ = s.next ⟨none, queue, seen, missing⟩ := by
  unfold next answer
  simp only [Walk.next, nextInterface, dif_pos h]
  exact result_nextInterface ..

theorem next_super_of_mem {name : String} (h : name ∈ seen) :
    s.next ⟨some name, queue, seen, missing⟩ = s.next ⟨none, queue, seen, missing ++ [name]⟩ := by
  unfold next answer
  simp only [Walk.next, dif_pos h]
  exact result_nextInterface ..

theorem next_interface_of_notMem {name : String} (h : name ∉ seen) :
    s.next ⟨none, name :: queue, seen, missing⟩ =
      Request.step s ⟨name, false, ⟨none, queue, name :: seen, missing⟩⟩ := by
  unfold next answer Request.step
  simp only [Walk.next, nextInterface, dif_neg h]
  rcases hl : s.load name with e | found
  · rw [Inquiry.eval_look_bind hl]
    rfl
  · rw [Inquiry.eval_look_bind hl]
    cases found with
    | none => exact result_nextInterface_eq ..
    | some c => rfl

theorem next_super_of_notMem {name : String} (h : name ∉ seen) :
    s.next ⟨some name, queue, seen, missing⟩ =
      Request.step s ⟨name, true, ⟨none, queue, name :: seen, missing⟩⟩ := by
  unfold next answer Request.step
  simp only [Walk.next, dif_neg h]
  rcases hl : s.load name with e | found
  · rw [Inquiry.eval_look_bind hl]
    rfl
  · rw [Inquiry.eval_look_bind hl]
    cases found with
    | none => exact result_nextInterface_eq ..
    | some c => rfl

/-- If the queue has a name that was not seen, the walk looks up the first such name. -/
theorem next_interface_of_request (h : requestInterface? seen missing queue = some r) :
    s.next ⟨none, queue, seen, missing⟩ = r.step s := by
  induction queue with
  | nil => cases h
  | cons name queue ih =>
    unfold requestInterface? at h
    split at h
    · next hseen =>
      rw [next_interface_of_mem (by simpa using hseen)]
      exact ih h
    · next hseen =>
      cases h
      exact next_interface_of_notMem (by simpa using hseen)

theorem next_interface_of_end (h : requestInterface? seen missing queue = none) :
    s.next ⟨none, queue, seen, missing⟩ = (.ok none, ⟨none, [], seen, missing⟩) := by
  induction queue with
  | nil => rfl
  | cons name queue ih =>
    unfold requestInterface? at h
    split at h
    · next hseen =>
      rw [next_interface_of_mem (by simpa using hseen)]
      exact ih h
    · cases h

/-- A step is made of look-ups: one, or after one that finds nothing the next step. -/
theorem next_of_request (h : w.request? = some r) : s.next w = r.step s := by
  obtain ⟨nextSuper, queue, seen, missing⟩ := w
  cases nextSuper with
  | none => exact next_interface_of_request h
  | some name =>
    by_cases hseen : name ∈ seen
    · rw [next_super_of_mem hseen]
      exact next_interface_of_request (by simpa [request?, hseen] using h)
    · obtain rfl : r = ⟨name, true, ⟨none, queue, name :: seen, missing⟩⟩ := by
        simpa [request?, hseen] using h.symm
      exact next_super_of_notMem hseen

/-- Without a look-up the walk is at its end. -/
theorem next_of_end (h : w.request? = none) : s.next w = (.ok none, w.ended) := by
  obtain ⟨nextSuper, queue, seen, missing⟩ := w
  cases nextSuper with
  | none =>
    rw [next_interface_of_end h]
    simp [ended]
  | some name =>
    by_cases hseen : name ∈ seen
    · rw [next_super_of_mem hseen, next_interface_of_end (by simpa [request?, hseen] using h)]
      rfl
    · simp [request?, hseen] at h

/-- A failure of the look-up is the result of the step. -/
theorem next_of_load_error {e : ClasspathError} (h : w.request? = some r)
    (hl : s.load r.name = .error e) :
    s.next w = (.error e, r.walk) := by
  rw [next_of_request h, Request.step, hl]

/-- A name that is not found is noted, and the walk goes on. -/
theorem next_of_load_none (h : w.request? = some r) (hl : s.load r.name = .ok none) :
    s.next w = s.next r.missed := by
  rw [next_of_request h, Request.step, hl]

/-- A class that is found is the result of the step, and its supertypes are next. -/
theorem next_of_load {c : ClassFile} (h : w.request? = some r) (hl : s.load r.name = .ok (some c)) :
    s.next w = (.ok (some c), r.found c) := by
  rw [next_of_request h, Request.step, hl]

end ClassSource

namespace Walk

/-! ## What a walk asks for -/

/-- A walk asks for its next superclass, or, if that was seen or there is none, for an interface;
those before it in the queue were seen. -/
inductive Asks : Walk → Request → Prop
  | superclass {name : String} {queue seen missing : List String} (hname : name ∉ seen) :
    Asks ⟨some name, queue, seen, missing⟩ ⟨name, true, ⟨none, queue, name :: seen, missing⟩⟩
  | interface {last : Option String} {skipped : List String}
    {name : String} {queue seen missing : List String}
    (hlast : last.toList ⊆ seen) (hskipped : skipped ⊆ seen) (hname : name ∉ seen) :
    Asks ⟨last, skipped ++ name :: queue, seen, missing⟩
      ⟨name, false, ⟨none, queue, name :: seen, missing ++ last.toList⟩⟩

theorem asks_of_requestInterface {last : Option String}
    {seen missing queue : List String} {r : Request} (hlast : last.toList ⊆ seen)
    (h : requestInterface? seen (missing ++ last.toList) queue = some r) :
    Asks ⟨last, queue, seen, missing⟩ r := by
  have hqueue : ∃ skipped name rest, queue = skipped ++ name :: rest ∧
    skipped ⊆ seen ∧ name ∉ seen ∧
      r = ⟨name, false, ⟨none, rest, name :: seen, missing ++ last.toList⟩⟩ := by
    induction queue with
    | nil => cases h
    | cons name queue ih =>
      unfold requestInterface? at h
      split at h
      · next hseen =>
        obtain ⟨skipped, name', rest, rfl, hskipped, hname, hr⟩ := ih h
        refine ⟨name :: skipped, name', rest, rfl, ?_, hname, hr⟩
        exact List.cons_subset.2 ⟨by simpa using hseen, hskipped⟩
      · next hseen =>
        cases h
        exact ⟨[], name, queue, rfl, List.nil_subset _, by simpa using hseen, rfl⟩
  obtain ⟨skipped, name, rest, rfl, hskipped, hname, rfl⟩ := hqueue
  exact .interface hlast hskipped hname

/-- The request that a walk makes can be told from its state. -/
theorem asks_of_request {w : Walk} {r : Request} (h : w.request? = some r) : Asks w r := by
  obtain ⟨nextSuper, queue, seen, missing⟩ := w
  cases nextSuper with
  | none => exact asks_of_requestInterface (by simp) (by simpa [request?] using h)
  | some name =>
    by_cases hseen : name ∈ seen
    · exact asks_of_requestInterface (by simpa using hseen) (by simpa [request?, hseen] using h)
    · obtain rfl : r = ⟨name, true, ⟨none, queue, name :: seen, missing⟩⟩ := by
        simpa [request?, hseen] using h.symm
      exact .superclass hseen

/-- If nothing is left to look up, all names in the queue were seen. -/
theorem requestInterface_eq_none {seen missing queue : List String}
    (h : requestInterface? seen missing queue = none) :
    queue ⊆ seen := by
  induction queue with
  | nil => exact List.nil_subset _
  | cons name queue ih =>
    unfold requestInterface? at h
    split at h
    · next hseen => exact List.cons_subset.2 ⟨by simpa using hseen, ih h⟩
    · cases h

/-- A walk is at its end when all that it could ask for was seen. -/
theorem pending_subset_of_request {w : Walk} (h : w.request? = none) : w.pending ⊆ w.seen := by
  unfold request? at h
  unfold pending
  split at h
  · next hn => simpa [hn] using requestInterface_eq_none h
  · next name hn =>
    split at h
    · next hseen =>
      rw [hn, Option.toList_some, List.singleton_append]
      exact List.cons_subset.2 ⟨by simpa using hseen, requestInterface_eq_none h⟩
    · cases h

namespace Asks

variable {w : Walk} {r : Request}

theorem seen (h : Asks w r) : r.walk.seen = r.name :: w.seen := by
  cases h <;> rfl

theorem name_notMem (h : Asks w r) : r.name ∉ w.seen := by
  cases h with
  | superclass hname => exact hname
  | interface _ _ hname => exact hname

theorem name_mem (h : Asks w r) : r.name ∈ w.pending := by
  cases h <;> simp [pending]

theorem queue_subset (h : Asks w r) : r.walk.pending ⊆ w.pending := by
  cases h with
  | superclass => exact List.subset_append_right _ _
  | interface =>
    intro x hx
    simp only [pending, Option.toList_none, List.nil_append, List.mem_append, List.mem_cons] at hx ⊢
    exact .inr (.inr (.inr hx))

end Asks

/-! ## Walks end -/

section End

variable {s : ClassSource} {w : Walk} {r : Request}

/-- The supertypes of a class that is found are among the names that bound the walk. -/
theorem pending_found_subset_of_request {c : ClassFile} {names : List String}
    (h : w.request? = some r)
    (hc : s.load r.name = .ok (some c)) (hm : s.mentioned ⊆ names) (hw : w.pending ⊆ names) :
    (r.found c).pending ⊆ names := by
  have hqueue : r.walk.queue ⊆ names := fun _ hx =>
    hw ((asks_of_request h).queue_subset (List.mem_append_right _ hx))
  have hsupers := ClassSource.supertypes_subset_mentioned hc
  unfold Request.found
  split
  · exact pending_found_subset hm hqueue hsupers
  · exact pending_interface_subset hm hqueue hsupers

/-- A look-up leaves fewer names to see. -/
theorem unseen_lt_of_request {names : List String} {w' : Walk} (hw : w.pending ⊆ names)
    (h : w.request? = some r) (hw' : w'.seen = r.walk.seen) :
    unseen names w'.seen < unseen names w.seen := by
  have ha := asks_of_request h
  rw [hw', ha.seen]
  exact unseen_cons_lt (hw ha.name_mem) ha.name_notMem

/-- A walk on a class path ends: what holds for a state if it holds after its next look-up holds for
all. -/
theorem request_induction (s : ClassSource) {motive : Walk → Prop}
    (h : ∀ w, (∀ r, w.request? = some r → motive r.missed) →
      (∀ r c, w.request? = some r → s.load r.name = .ok (some c) → motive (r.found c)) → motive w)
    (w : Walk) : motive w := by
  have hall : ∀ names, s.mentioned ⊆ names → ∀ n w, w.pending ⊆ names → unseen names w.seen = n →
      motive w := by
    intro names hm n
    induction n using Nat.strongRecOn with
    | ind n ih =>
      rintro w hw rfl
      refine h w (fun r hr => ?_) (fun r c hr hc => ?_)
      · exact ih _ (unseen_lt_of_request hw hr rfl) _
          (fun _ hx => hw ((asks_of_request hr).queue_subset hx)) rfl
      · exact ih _ (unseen_lt_of_request hw hr rfl) _
          (pending_found_subset_of_request hr hc hm hw) rfl
  exact hall (w.pending ++ s.mentioned) (List.subset_append_right _ _) _ w
    (List.subset_append_left _ _) rfl

/-- What holds for a state if it holds after a step to a class holds for all. -/
theorem step_induction (s : ClassSource) {motive : Walk → Prop}
    (h : ∀ w, (∀ c w', s.next w = (.ok (some c), w') → motive w') → motive w) (w : Walk) :
    motive w := by
  have hboth : motive w ∧ ∀ c w', s.next w = (.ok (some c), w') → motive w' := by
    induction w using request_induction s with
    | h w hmissed hfound =>
      have hnext : ∀ c w', s.next w = (.ok (some c), w') → motive w' := by
        intro c w' hn
        cases hr : w.request? with
        | none =>
          rw [ClassSource.next_of_end hr] at hn
          cases hn
        | some r =>
          rcases hl : s.load r.name with e | found
          · rw [ClassSource.next_of_load_error hr hl] at hn
            cases hn
          · cases found with
            | none =>
              rw [ClassSource.next_of_load_none hr hl] at hn
              exact (hmissed r hr).2 c w' hn
            | some d =>
              rw [ClassSource.next_of_load hr hl] at hn
              cases hn
              exact (hfound r _ hr hl).1
      exact ⟨h w hnext, hnext⟩
  exact hboth.1

end End

/-! ## The names that are asked for -/

section Asked

variable {mentioned names : List String} {bound : Nat} {load : String → Answer}
  {hload : ∀ name, Answer.supertypes (load name) ⊆ mentioned} {hm : mentioned ⊆ names}

theorem seen_nextInterface (seen missing queue : List String) (hq : queue ⊆ names)
    (hn : unseen names seen ≤ bound) :
    ((nextInterface hm seen missing queue hq hn).eval load hload).walk.seen =
      ((nextInterface hm seen missing queue hq hn).asked load hload).reverse ++ seen := by
  induction queue generalizing seen missing with
  | nil => rfl
  | cons name queue ih =>
    rw [nextInterface]
    by_cases hseen : name ∈ seen
    · rw [dif_pos hseen]
      exact ih ..
    · rw [dif_neg hseen]
      rcases hl : load name with e | found
      · rw [Inquiry.eval_look_bind hl, Inquiry.asked_look_bind hl]
        rfl
      · rw [Inquiry.eval_look_bind hl, Inquiry.asked_look_bind hl]
        cases found with
        | none => exact (ih ..).trans (by simp)
        | some c => rfl

/-- A step marks as seen exactly the names that it asks for. -/
theorem seen_next (w : Walk) (hw : w.pending ⊆ names) :
    ((next hm w hw).eval load hload).walk.seen =
      ((next hm w hw).asked load hload).reverse ++ w.seen := by
  obtain ⟨nextSuper, queue, seen, missing⟩ := w
  cases nextSuper with
  | none => exact seen_nextInterface ..
  | some name =>
    simp only [next]
    by_cases hseen : name ∈ seen
    · rw [dif_pos hseen]
      exact seen_nextInterface ..
    · rw [dif_neg hseen]
      rcases hl : load name with e | found
      · rw [Inquiry.eval_look_bind hl, Inquiry.asked_look_bind hl]
        rfl
      · rw [Inquiry.eval_look_bind hl, Inquiry.asked_look_bind hl]
        cases found with
        | none => exact (seen_nextInterface ..).trans (by simp)
        | some c => rfl

/-- A walk marks as seen exactly the names that it asks for. -/
theorem seen_collectFrom (stop : ClassFile → Bool) (w : Walk) (hw : w.pending ⊆ names)
    (visited : List ClassFile) :
    ((collectFrom hm stop w hw visited).eval load hload).2.seen =
      ((collectFrom hm stop w hw visited).asked load hload).reverse ++ w.seen := by
  have hnext : ((next hm w hw).eval load hload).walk.seen = _ := seen_next w hw
  rw [collectFrom, Inquiry.eval_bind, Inquiry.asked_bind]
  split
  · simpa using hnext
  · simpa using hnext
  · split
    · simpa using hnext
    · rw [seen_collectFrom, hnext]
      simp
termination_by unseen names w.seen
decreasing_by exact Step.unseen_lt _ _ (by assumption)

/-- A walk asks for exactly the names that it has seen at its end, in this order. -/
theorem asked_collect (stop : ClassFile → Bool) (name : String) :
    (collect stop name).asked load hload =
      ((collect stop name).eval load hload).2.seen.reverse := by
  unfold collect
  rw [seen_collectFrom]
  simp [start]

end Asked

/-! ## Whole walks -/

section Collect

variable {mentioned names : List String} {load : String → Answer}
  {hload : ∀ name, Answer.supertypes (load name) ⊆ mentioned} {hm : mentioned ⊆ names}
  {stop : ClassFile → Bool} {w w' : Walk} {hw : w.pending ⊆ names} {visited : List ClassFile}

theorem eval_collectFrom_of_error {e : ClasspathError}
    (h : ((next hm w hw).eval load hload).result = (.error e, w')) :
    (collectFrom hm stop w hw visited).eval load hload = (.error e, w') := by
  obtain ⟨ho, rfl⟩ := Prod.mk.inj h
  rw [collectFrom, Inquiry.eval_bind]
  split
  · next e' he' =>
    cases ho.symm.trans he'
    rfl
  · next he' => cases ho.symm.trans he'
  · next he' => cases ho.symm.trans he'

theorem eval_collectFrom_of_none (h : ((next hm w hw).eval load hload).result = (.ok none, w')) :
    (collectFrom hm stop w hw visited).eval load hload = (.ok visited.reverse, w') := by
  obtain ⟨ho, rfl⟩ := Prod.mk.inj h
  rw [collectFrom, Inquiry.eval_bind]
  split
  · next he' => cases ho.symm.trans he'
  · rfl
  · next he' => cases ho.symm.trans he'

/-- If a step finds a class, the walk stops there or goes on behind it. -/
theorem eval_collectFrom_of_some {c : ClassFile}
    (h : ((next hm w hw).eval load hload).result = (.ok (some c), w')) :
    ∃ hw' : w'.pending ⊆ names, (collectFrom hm stop w hw visited).eval load hload =
      if stop c then (.ok (c :: visited).reverse, w')
      else (collectFrom hm stop w' hw' (c :: visited)).eval load hload := by
  obtain ⟨ho, rfl⟩ := Prod.mk.inj h
  refine ⟨Step.within _ c ho, ?_⟩
  rw [collectFrom, Inquiry.eval_bind]
  split
  · next he' => cases ho.symm.trans he'
  · next he' => cases ho.symm.trans he'
  · next he' =>
    cases ho.symm.trans he'
    split <;> rfl

end Collect

end Walk

namespace ClassSource

open Walk

/-- A walk on a class path, from a state on. -/
def collectFrom (s : ClassSource) (stop : ClassFile → Bool) (w : Walk) (visited : List ClassFile) :
    Except ClasspathError (List ClassFile) × Walk :=
  s.answer (Walk.collectFrom (List.subset_append_right w.pending s.mentioned) stop w
    (List.subset_append_left _ _) visited)

/-- A walk on a class path: the classes up to the first that satisfies a condition, and the state
reached. -/
def collect (s : ClassSource) (stop : ClassFile → Bool) (name : String) :
    Except ClasspathError (List ClassFile) × Walk := s.answer (Walk.collect stop name)

variable {s : ClassSource} {stop : ClassFile → Bool} {w w' : Walk} {visited : List ClassFile}

/-- The bounds of a walk do not matter. -/
theorem eval_collectFrom_congr {mentioned mentioned' names names' : List String}
    {hload : ∀ name, Answer.supertypes (s.load name) ⊆ mentioned}
    {hload' : ∀ name, Answer.supertypes (s.load name) ⊆ mentioned'}
    {hm : mentioned ⊆ names} {hm' : mentioned' ⊆ names'} (w : Walk) (hw : w.pending ⊆ names)
    (hw' : w.pending ⊆ names') (visited : List ClassFile) :
    (Walk.collectFrom hm stop w hw visited).eval s.load hload =
      (Walk.collectFrom hm' stop w hw' visited).eval s.load hload' := by
  induction w using step_induction s generalizing visited with
  | h w ih =>
    rcases hn : s.next w with ⟨outcome, v⟩
    have hl : ((Walk.next hm w hw).eval s.load hload).result = _ := (result_next_eq hw).trans hn
    have hr : ((Walk.next hm' w hw').eval s.load hload').result = _ := (result_next_eq hw').trans hn
    rcases outcome with e | _ | c
    · rw [eval_collectFrom_of_error hl, eval_collectFrom_of_error hr]
    · rw [eval_collectFrom_of_none hl, eval_collectFrom_of_none hr]
    · obtain ⟨hv, hleft⟩ := eval_collectFrom_of_some hl
      obtain ⟨hv', hright⟩ := eval_collectFrom_of_some hr
      rw [hleft, hright, ih c v hn hv hv']

/-- A walk with any bound on the names gives what the walk on the source gives. -/
theorem eval_collectFrom {mentioned names : List String}
    {hload : ∀ name, Answer.supertypes (s.load name) ⊆ mentioned} {hm : mentioned ⊆ names}
    (hw : w.pending ⊆ names) :
    (Walk.collectFrom hm stop w hw visited).eval s.load hload = s.collectFrom stop w visited :=
  eval_collectFrom_congr ..

theorem eval_collect {mentioned : List String}
    {hload : ∀ name, Answer.supertypes (s.load name) ⊆ mentioned} (name : String) :
    (Walk.collect stop name).eval s.load hload = s.collect stop name := eval_collectFrom_congr ..

/-- A walk starts at its class and has visited nothing. -/
theorem collect_eq (s : ClassSource) (stop : ClassFile → Bool) (name : String) :
    s.collect stop name = s.collectFrom stop (.start name) [] := eval_collectFrom ..

/-! What becomes of a walk, by its next step. -/

theorem collectFrom_of_error {e : ClasspathError} (h : s.next w = (.error e, w')) :
    s.collectFrom stop w visited = (.error e, w') := eval_collectFrom_of_error h

theorem collectFrom_of_none (h : s.next w = (.ok none, w')) :
    s.collectFrom stop w visited = (.ok visited.reverse, w') := eval_collectFrom_of_none h

/-- One round of a walk that finds a class. -/
theorem collectFrom_of_some {c : ClassFile} (h : s.next w = (.ok (some c), w')) :
    s.collectFrom stop w visited =
      if stop c then (.ok (c :: visited).reverse, w')
      else s.collectFrom stop w' (c :: visited) := by
  obtain ⟨hw', heval⟩ := eval_collectFrom_of_some h
  exact heval.trans (by rw [eval_collectFrom hw'])

/-- What a walk gives depends on its next step only. -/
theorem collectFrom_of_next_eq (h : s.next w = s.next w') :
    s.collectFrom stop w visited = s.collectFrom stop w' visited := by
  rcases hn : s.next w' with ⟨outcome, v⟩
  rw [hn] at h
  rcases outcome with e | _ | c
  · rw [collectFrom_of_error h, collectFrom_of_error hn]
  · rw [collectFrom_of_none h, collectFrom_of_none hn]
  · rw [collectFrom_of_some h, collectFrom_of_some hn]

end ClassSource

namespace Walk

/-! ## Traces -/

/-- The names that a walk looks up, in order, and what it gives: the classes up to the first that
satisfies the condition, or a failure, and the state reached. -/
inductive Trace (s : ClassSource) (stop : ClassFile → Bool) :
    Walk → List String → Except ClasspathError (List ClassFile) → Walk → Prop
  | ended {w : Walk} (h : w.request? = none) : Trace s stop w [] (.ok []) w.ended
  | failed {w : Walk} {r : Request} {e : ClasspathError} (hr : w.request? = some r)
    (hl : s.load r.name = .error e) : Trace s stop w [r.name] (.error e) r.walk
  | missed {w w' : Walk} {r : Request} {names : List String}
    {result : Except ClasspathError (List ClassFile)} (hr : w.request? = some r)
    (hl : s.load r.name = .ok none) (ht : Trace s stop r.missed names result w') :
    Trace s stop w (r.name :: names) result w'
  | stopped {w : Walk} {r : Request} {c : ClassFile} (hr : w.request? = some r)
    (hl : s.load r.name = .ok (some c)) (hc : stop c) :
      Trace s stop w [r.name] (.ok [c]) (r.found c)
  | found {w w' : Walk} {r : Request} {c : ClassFile} {names : List String}
    {result : Except ClasspathError (List ClassFile)} (hr : w.request? = some r)
    (hl : s.load r.name = .ok (some c)) (hc : ¬ stop c)
    (ht : Trace s stop (r.found c) names result w') :
    Trace s stop w (r.name :: names) (result.map (c :: ·)) w'

section Trace

variable {s : ClassSource} {stop : ClassFile → Bool} {w : Walk}

/-- A walk from any state has a trace. -/
theorem exists_trace_from (s : ClassSource) (stop : ClassFile → Bool) (w : Walk) :
    ∃ log result w', Trace s stop w log result w' := by
  induction w using request_induction s with
  | h w hmissed hfound =>
    cases hr : w.request? with
    | none => exact ⟨_, _, _, .ended hr⟩
    | some r =>
      rcases hl : s.load r.name with e | _ | c
      · exact ⟨_, _, _, .failed hr hl⟩
      · obtain ⟨log, result, w', ht⟩ := hmissed r hr
        exact ⟨_, _, _, .missed hr hl ht⟩
      · by_cases hstop : stop c
        · exact ⟨_, _, _, .stopped hr hl hstop⟩
        · obtain ⟨log, result, w', ht⟩ := hfound r c hr hl
          exact ⟨_, _, _, .found hr hl hstop ht⟩

namespace Trace

variable {w' : Walk} {log : List String} {result : Except ClasspathError (List ClassFile)}

/-- A trace says what a walk gives. -/
theorem collectFrom_eq (h : Trace s stop w log result w') (visited : List ClassFile) :
    s.collectFrom stop w visited = (result.map (visited.reverse ++ ·), w') := by
  induction h generalizing visited with
  | ended hr =>
    rw [ClassSource.collectFrom_of_none (ClassSource.next_of_end hr)]
    simp [Except.map]
  | failed hr hl => exact ClassSource.collectFrom_of_error (ClassSource.next_of_load_error hr hl)
  | missed hr hl _ ih =>
    rw [← ih]
    exact ClassSource.collectFrom_of_next_eq (ClassSource.next_of_load_none hr hl)
  | stopped hr hl hc =>
    rw [ClassSource.collectFrom_of_some (ClassSource.next_of_load hr hl), if_pos hc]
    simp [Except.map]
  | @found _ _ _ c _ result hr hl hc _ ih =>
    rw [ClassSource.collectFrom_of_some (ClassSource.next_of_load hr hl), if_neg hc, ih]
    cases result <;> simp [Except.map]

theorem collect_eq {name : String} (h : Trace s stop (start name) log result w') :
    s.collect stop name = (result, w') := by
  rw [ClassSource.collect_eq, h.collectFrom_eq]
  cases result <;> simp [Except.map]

/-- A walk marks as seen exactly the names that it looks up. -/
theorem seen (h : Trace s stop w log result w') : w'.seen = log.reverse ++ w.seen := by
  induction h with
  | ended => rfl
  | failed hr => exact (asks_of_request hr).seen
  | missed hr _ _ ih =>
    rw [ih, List.reverse_cons, List.append_assoc,
      List.singleton_append, ← (asks_of_request hr).seen]
    rfl
  | stopped hr => exact (asks_of_request hr).seen
  | found hr _ _ _ ih =>
    rw [ih, List.reverse_cons, List.append_assoc,
      List.singleton_append, ← (asks_of_request hr).seen]
    rfl

end Trace

/-- Every walk has a trace. -/
theorem exists_trace (s : ClassSource) (stop : ClassFile → Bool) (name : String) :
    ∃ log result w', Trace s stop (start name) log result w' ∧
    s.collect stop name = (result, w') := by
  obtain ⟨log, result, w', ht⟩ := exists_trace_from s stop (start name)
  exact ⟨log, result, w', ht, ht.collect_eq⟩

end Trace

end Walk

end JvmAudit
