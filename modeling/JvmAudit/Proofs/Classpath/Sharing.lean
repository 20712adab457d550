import JvmAudit.Proofs.Classpath.Cache
import Mathlib.Data.List.Induction
import Mathlib.Logic.Function.Basic

/-!
# Callers that share a resolver

Several callers look classes up in one resolver at the same time. A look-up takes up to four steps:
the classes at hand, what is remembered, the containers, and remembering what was found there. The
steps of different callers interleave as a schedule says (`Sharing.run`), so two callers may read
the same file, and the one that is done first counts. Something may have been remembered before,
also before classes were put at hand.

What a step can do is said once (`Caller.Moves`), and everything else follows from that: what is
remembered is what the containers have, every look-up gives what there is, and a caller gets to the
end of its computation.
-/

namespace JvmAudit

/-! ## Callers -/

/-- How far a look-up is. -/
inductive Phase where
  | idle
  /-- The class is not at hand. -/
  | notAtHand (name : String)
  /-- It is not remembered either. -/
  | notRemembered (name : String)
  /-- The containers were searched. -/
  | searched (name : String) (found : Option ClassFile)

/-- A computation that looks classes up in a shared resolver. -/
structure Caller where
  /-- What is asked for after some answers; none at the end. -/
  asks : List Answer → Option String
  phase : Phase
  /-- The names that were asked for, and the answers. -/
  log : List (String × Answer)

namespace Caller

/-- The answers so far. -/
def answers (c : Caller) : List Answer := c.log.map (·.2)

/-- The name that is asked for now. -/
def asked? (c : Caller) : Option String := c.asks c.answers

/-- The look-up is complete. -/
def complete (c : Caller) (name : String) (answer : Answer) : Caller :=
  { c with phase := .idle, log := c.log ++ [(name, answer)] }

/-- A step of a caller. -/
def step (r : Resolver) (c : Caller) : Resolver × Caller :=
  match c.phase with
  | .idle =>
    match c.asked? with
    | none => (r, c)
    | some name =>
      match r.source.overlay? name with
      | some cls => (r, c.complete name (.ok (some cls)))
      | none => (r, { c with phase := .notAtHand name })
  | .notAtHand name =>
    match r.cache.lookup name with
    | some found => (r, c.complete name (.ok found))
    | none => (r, { c with phase := .notRemembered name })
  | .notRemembered name =>
    match r.loadUncached name with
    | .error e => (r, c.complete name (.error e))
    | .ok found => (r, { c with phase := .searched name found })
  | .searched name found =>
    -- what another caller has remembered meanwhile stays, and is the answer
    let r' := r.insert name found
    (r', c.complete name (.ok ((r'.cache.lookup name).getD found)))

end Caller

/-- Callers that share a resolver. -/
structure Sharing (ι : Type) where
  resolver : Resolver
  callers : ι → Caller

namespace Sharing

variable {ι : Type} [DecidableEq ι]

/-- No caller has looked anything up yet. -/
def start (r : Resolver) (asks : ι → List Answer → Option String) : Sharing ι :=
  ⟨r, fun i => ⟨asks i, .idle, []⟩⟩

/-- A step of one of the callers. -/
def step (x : Sharing ι) (i : ι) : Sharing ι :=
  ⟨((x.callers i).step x.resolver).1, Function.update x.callers i ((x.callers i).step x.resolver).2⟩

/-- The steps of a schedule. -/
def run (x : Sharing ι) (schedule : List ι) : Sharing ι := schedule.foldl step x

end Sharing

/-! ## What a step can do -/

namespace Phase

/-- The number of steps that were made. -/
def rank : Phase → Nat
  | idle => 0
  | notAtHand _ => 1
  | notRemembered _ => 2
  | searched .. => 3

theorem rank_le (p : Phase) : p.rank ≤ 3 := by
  cases p <;> simp [rank]

/-- What a caller knows in a phase. -/
def Sound (source : ClassSource) (asked : Option String) : Phase → Prop
  | idle => True
  | notAtHand name => asked = some name ∧ source.overlay? name = none
  | notRemembered name => asked = some name ∧ source.overlay? name = none
  | searched name found =>
    asked = some name ∧ source.overlay? name = none ∧ source.load name = .ok found

end Phase

/-- What a caller has is right: each name in the log was asked for, and each answer is what there
is. -/
structure Caller.Sound (source : ClassSource) (c : Caller) : Prop where
  answers : ∀ p ∈ c.log, source.load p.1 = p.2
  asked : ∀ front p back, c.log = front ++ p :: back → c.asks (front.map (·.2)) = some p.1
  phase : c.phase.Sound source c.asked?

namespace Caller

variable {source : ClassSource} {r r' : Resolver} {c c' : Caller}

/-- The steps of a caller: it is at its end, it goes on with a look-up, it completes a look-up, or
it completes one and what it found is remembered. -/
inductive Moves (source : ClassSource) (r : Resolver) (c : Caller) : Resolver → Caller → Prop
  | rest (h : c.asked? = none) : Moves source r c r c
  | advance {phase : Phase} (hphase : phase.Sound source c.asked?)
    (hrank : phase.rank = c.phase.rank + 1) :
    Moves source r c r { c with phase }
  | complete {name : String} {answer : Answer} (hname : c.asked? = some name)
    (hload : source.load name = answer)
    (hkey : ∀ found, answer = .ok found → source.overlay? name = none → name ∈ r.names) :
    Moves source r c r (c.complete name answer)
  | remember {name : String} {found : Option ClassFile} (hname : c.asked? = some name)
    (ho : source.overlay? name = none) (hload : source.load name = .ok found)
    (hnew : name ∉ r.names) :
    Moves source r c { r with cache := (name, found) :: r.cache } (c.complete name (.ok found))

/-- Every step of a caller is one of the moves. -/
theorem moves_step (hs : r.source = source) (hr : r.Sound) (hc : c.Sound source) :
    Moves source r c (c.step r).1 (c.step r).2 := by
  obtain ⟨asks, phase, log⟩ := c
  have hphase := hc.phase
  have hloadFrom : ∀ {name}, source.overlay? name = none →
      r.loadUncached name = source.load name := by
    intro name ho
    rw [ClassSource.load_of_no_overlay ho, Resolver.loadUncached, hs]
  unfold step
  cases phase with
  | idle =>
    simp only [hs]
    split
    · next hask => exact .rest hask
    · next name hask =>
      split
      · next cls ho =>
        refine .complete hask (ClassSource.load_of_overlay ho) ?_
        intro found _ hno
        rw [ho] at hno
        cases hno
      · next ho => exact .advance ⟨hask, ho⟩ rfl
  | notAtHand name =>
    obtain ⟨hask, ho⟩ := hphase
    simp only
    split
    · next found hfound =>
      have hmem := Resolver.mem_of_lookup hfound
      refine .complete hask ?_ fun _ _ _ => List.mem_map_of_mem hmem
      rw [← hloadFrom ho, hr.entries _ hmem]
    · exact .advance ⟨hask, ho⟩ rfl
  | notRemembered name =>
    obtain ⟨hask, ho⟩ := hphase
    simp only [hloadFrom ho]
    split
    · next e he => exact .complete hask he (by simp)
    · next found hfound => exact .advance ⟨hask, ho, hfound⟩ rfl
  | searched name found =>
    obtain ⟨hask, ho, hload⟩ := hphase
    simp only [Resolver.insert]
    split
    · next hsome =>
      -- another caller was faster; what it has remembered is the same
      obtain ⟨found', hfound'⟩ := Option.isSome_iff_exists.1 hsome
      have hsame := hr.entries _ (Resolver.mem_of_lookup hfound')
      rw [hloadFrom ho, hload] at hsame
      cases hsame
      rw [hfound']
      exact .complete hask hload fun _ _ _ => Resolver.lookup_isSome_iff.1 hsome
    · next hnone =>
      simp only [List.lookup_cons_self, Option.getD_some]
      exact .remember hask ho hload fun hmem => hnone (Resolver.lookup_isSome_iff.2 hmem)

/-! ## What a step keeps -/

/-- A look-up that ends with the answer of the source keeps the caller sound. -/
theorem Sound.complete {name : String} {answer : Answer} (hc : c.Sound source)
    (hname : c.asked? = some name)
    (hload : source.load name = answer) : (c.complete name answer).Sound source := by
  refine ⟨?_, ?_, trivial⟩
  · intro p hp
    rcases List.mem_append.1 hp with hp | hp
    · exact hc.answers p hp
    · rw [List.mem_singleton.1 hp]
      exact hload
  · intro front p back hlog
    rcases List.eq_nil_or_concat' back with rfl | ⟨back, last, rfl⟩
    · obtain ⟨rfl, hp⟩ := List.append_inj' hlog rfl
      rw [← List.head_eq_of_cons_eq hp]
      exact hname
    · refine hc.asked front p back ?_
      rw [← List.cons_append, ← List.append_assoc] at hlog
      exact (List.append_inj' hlog rfl).1

namespace Moves

theorem sound (h : Moves source r c r' c') (hc : c.Sound source) : c'.Sound source := by
  cases h with
  | rest => exact hc
  | advance hphase => exact ⟨hc.answers, hc.asked, hphase⟩
  | complete hname hload => exact hc.complete hname hload
  | remember hname _ hload => exact hc.complete hname hload

theorem source_eq (h : Moves source r c r' c') : r'.source = r.source := by
  cases h <;> rfl

/-- No move puts anything wrong into the memory. -/
theorem resolver_sound (h : Moves source r c r' c') (hs : r.source = source) (hr : r.Sound) :
    r'.Sound := by
  cases h with
  | rest | advance | complete => exact hr
  | remember _ ho hload hnew =>
    refine ⟨List.forall_mem_cons.2 ⟨?_, hr.entries⟩, List.nodup_cons.2 ⟨hnew, hr.names_nodup⟩⟩
    subst hs
    exact (ClassSource.load_of_no_overlay ho).symm.trans hload

theorem asks_eq (h : Moves source r c r' c') : c'.asks = c.asks := by
  cases h <;> rfl

theorem log_prefix (h : Moves source r c r' c') : c.log <+: c'.log := by
  cases h with
  | rest | advance => exact List.prefix_rfl
  | complete | remember => exact List.prefix_append _ _

/-- What is remembered stays. -/
theorem lookup (h : Moves source r c r' c') {name : String} {found : Option ClassFile}
    (hl : r.cache.lookup name = some found) : r'.cache.lookup name = some found := by
  cases h with
  | rest | advance | complete => exact hl
  | @remember new _ _ _ _ hnew =>
    have hne : name ≠ new := by
      rintro rfl
      exact hnew (List.mem_map_of_mem (Resolver.mem_of_lookup hl))
    rw [List.lookup_cons, beq_eq_false_iff_ne.2 hne]
    exact hl

/-- Only a look-up that succeeds changes the resolver. -/
theorem resolver_eq_or (h : Moves source r c r' c') :
    r' = r ∨ ∃ name found, c'.log = c.log ++ [(name, .ok found)] := by
  cases h with
  | rest | advance | complete => exact .inl rfl
  | remember => exact .inr ⟨_, _, rfl⟩

theorem names_subset (h : Moves source r c r' c') : r.names ⊆ r'.names := by
  cases h with
  | rest | advance | complete => exact List.Subset.refl _
  | remember => exact List.subset_cons_self _ _

/-- What is new in the memory was answered to this caller. -/
theorem mem_log_of_mem_names (h : Moves source r c r' c') {name : String} (hn : name ∈ r'.names) :
    name ∈ r.names ∨ source.overlay? name = none ∧ ∃ found, (name, .ok found) ∈ c'.log := by
  cases h with
  | rest | advance | complete => exact .inl hn
  | @remember new found _ ho _ _ =>
    rcases List.mem_cons.1 hn with rfl | hn
    · exact .inr ⟨ho, found, by simp [Caller.complete]⟩
    · exact .inl hn

/-- What was answered to this caller from the containers is in the memory. -/
theorem mem_names_of_mem_log (h : Moves source r c r' c') {name : String} {found : Option ClassFile}
    (ho : source.overlay? name = none) (hl : (name, .ok found) ∈ c'.log) :
    (name, .ok found) ∈ c.log ∨ name ∈ r'.names := by
  cases h with
  | rest | advance => exact .inl hl
  | complete _ _ hkey =>
    rcases List.mem_append.1 hl with hl | hl
    · exact .inl hl
    · obtain ⟨rfl, rfl⟩ := Prod.mk.inj (List.mem_singleton.1 hl)
      exact .inr (hkey found rfl ho)
  | remember =>
    rcases List.mem_append.1 hl with hl | hl
    · exact .inl hl
    · obtain ⟨rfl, _⟩ := Prod.mk.inj (List.mem_singleton.1 hl)
      exact .inr List.mem_cons_self

end Moves

/-- The number of steps that were made, if each look-up had taken all of them. -/
def progress (c : Caller) : Nat := 4 * c.log.length + c.phase.rank

/-- Every move makes progress, as long as the caller asks for something. -/
theorem Moves.progress_lt (h : Moves source r c r' c') (hask : c.asked? ≠ none) :
    c.progress < c'.progress := by
  have hrank := c.phase.rank_le
  cases h with
  | rest h => exact absurd h hask
  | advance _ h =>
    unfold progress
    dsimp only
    omega
  | complete | remember =>
    show _ < 4 * (c.log ++ [_]).length + 0
    rw [List.length_append, List.length_singleton]
    unfold progress
    omega

/-- A caller that is at its end stays there. -/
theorem Moves.eq_of_asked (h : Moves source r c r' c') (hask : c.asked? = none) : c' = c := by
  cases h with
  | rest => rfl
  | @advance phase hphase hrank =>
    rw [hask] at hphase
    cases phase with
    | idle => cases hrank
    | notAtHand | notRemembered | searched => cases hphase.1
  | complete hname | remember hname =>
    rw [hask] at hname
    cases hname

/-- Steps of one caller that no other one interrupts. -/
def steps (r : Resolver) (c : Caller) : Nat → Resolver × Caller
  | 0 => (r, c)
  | n + 1 => steps (c.step r).1 (c.step r).2 n

/-- The steps of a look-up are together a load. -/
theorem exists_steps_load {name : String} (hidle : c.phase = .idle) (hask : c.asked? = some name) :
    ∃ n ≤ 4, c.steps r n = ((r.load name).2, c.complete name (r.load name).1) := by
  obtain ⟨asks, phase, log⟩ := c
  cases hidle
  unfold Resolver.load
  cases ho : r.source.overlay? name with
  | some cls => exact ⟨1, by omega, by simp [steps, step, hask, ho]⟩
  | none =>
    cases hl : r.cache.lookup name with
    | some found => exact ⟨2, by omega, by simp [steps, step, hask, ho, hl, Caller.complete]⟩
    | none =>
      cases hu : r.loadUncached name with
      | error e => exact ⟨3, by omega, by simp [steps, step, hask, ho, hl, hu, Caller.complete]⟩
      | ok found =>
        refine ⟨4, by omega, ?_⟩
        simp [steps, step, hask, ho, hl, hu, Caller.complete, Resolver.insert]

/-! ## Computations -/

section Computations

variable {α : Type} {bound : List String} {q : Inquiry bound α}
  {hload : ∀ name, Answer.supertypes (source.load name) ⊆ bound}

/-- The log of a caller lists the names that its computation asks for, in order. -/
theorem Sound.log_eq (hc : c.Sound source) (hq : c.asks = q.asks)
    (front back : List (String × Answer)) (hlog : c.log = front ++ back) :
    front = ((q.asked source.load hload).take front.length).map fun name =>
      (name, source.load name) := by
  induction front using List.reverseRecOn generalizing back with
  | nil => rfl
  | append_singleton front p ih =>
    rw [List.append_assoc] at hlog
    have hfront := ih _ hlog
    have hasked : q.asks (front.map (·.2)) = some p.1 := hq ▸ hc.asked front p back hlog
    have hanswers : front.map (·.2) =
        ((q.asked source.load hload).take front.length).map source.load := by
      conv_lhs => rw [hfront]
      rw [List.map_map]
      rfl
    rw [hanswers, q.asks_take] at hasked
    have hp : source.load p.1 = p.2 := hc.answers p (by rw [hlog]; simp)
    rw [List.length_append, List.length_singleton, List.take_add_one, hasked,
      List.map_append, ← hfront]
    simp [hp]

variable (hload) (hc : c.Sound source) (hq : c.asks = q.asks)

include hc hq

theorem Sound.answers_eq :
    c.answers = ((q.asked source.load hload).take c.log.length).map source.load := by
  have hlog : c.log = ((q.asked source.load hload).take c.log.length).map fun name =>
    (name, source.load name) :=
    hc.log_eq hq c.log [] (List.append_nil _).symm
  unfold Caller.answers
  conv_lhs => rw [hlog]
  rw [List.map_map]
  rfl

/-- A sound caller asks for the next name that the computation asks for on the source. -/
theorem Sound.asked_eq : c.asked? = (q.asked source.load hload)[c.log.length]? := by
  unfold asked?
  rw [hq, hc.answers_eq hload hq]
  exact q.asks_take _

/-- A caller that is at its end has the result that its computation has on the source. -/
theorem Sound.result_of_end (hend : c.asked? = none) :
    q.result? c.answers = some (q.eval source.load hload) := by
  rw [hc.asked_eq hload hq] at hend
  rw [hc.answers_eq hload hq, List.take_of_length_le (List.getElem?_eq_none_iff.1 hend)]
  exact q.result?_asked

/-- A caller can have no other result. -/
theorem Sound.result_eq {a : α} (ha : q.result? c.answers = some a) :
    a = q.eval source.load hload := by
  have hend : c.asked? = none := by
    unfold asked?
    rw [hq]
    exact Inquiry.asks_of_result ha
  rw [hc.result_of_end hload hq hend] at ha
  exact (Option.some.inj ha).symm

theorem Sound.progress_lt_of_asked (hask : c.asked? ≠ none) :
    c.progress < 4 * (q.asked source.load hload).length := by
  rw [hc.asked_eq hload hq, ne_eq, List.getElem?_eq_none_iff] at hask
  have hrank := c.phase.rank_le
  unfold progress
  omega

end Computations

end Caller

/-! ## Schedules -/

namespace Sharing

variable {ι : Type} [DecidableEq ι] {r : Resolver} {asks : ι → List Answer → Option String}
  {x : Sharing ι}
  {i : ι}

/-- What holds whatever the schedule is, if the callers start with the resolver `r`. -/
structure Inv (r : Resolver) (asks : ι → List Answer → Option String) (x : Sharing ι) : Prop where
  source_eq : x.resolver.source = r.source
  resolver : x.resolver.Sound
  callers : ∀ i, (x.callers i).Sound r.source
  asks_eq : ∀ i, (x.callers i).asks = asks i
  mem_names : ∀ name, name ∈ x.resolver.names ↔ name ∈ r.names ∨
    r.source.overlay? name = none ∧ ∃ i found, (name, .ok found) ∈ (x.callers i).log

omit [DecidableEq ι] in
theorem inv_start (hr : r.Sound) (asks : ι → List Answer → Option String) :
    Inv r asks (start r asks) := by
  refine ⟨rfl, hr, fun i => ⟨by simp [start], ?_, trivial⟩, fun _ => rfl, by simp [start]⟩
  intro front p back hlog
  simp [start] at hlog

/-- In a shared run each step is a move of one caller. -/
theorem Inv.moves (h : Inv r asks x) (i : ι) :
    Caller.Moves r.source x.resolver (x.callers i) (x.step i).resolver ((x.step i).callers i) := by
  have hself : (x.step i).callers i = ((x.callers i).step x.resolver).2 :=
    Function.update_self _ _ _
  rw [hself]
  exact Caller.moves_step h.source_eq h.resolver (h.callers i)

theorem step_callers_of_ne {j : ι} (hj : j ≠ i) : (x.step i).callers j = x.callers j :=
  Function.update_of_ne hj _ _

/-- A step of one caller keeps the invariant of all. -/
theorem Inv.step (h : Inv r asks x) (i : ι) : Inv r asks (x.step i) := by
  have hm := h.moves i
  have hlog : ∀ j, (x.callers j).log <+: ((x.step i).callers j).log := by
    intro j
    by_cases hj : j = i
    · rw [hj]
      exact hm.log_prefix
    · exact step_callers_of_ne (x := x) hj ▸ List.prefix_rfl
  refine ⟨hm.source_eq.trans h.source_eq, hm.resolver_sound h.source_eq h.resolver, ?_, ?_, ?_⟩
  · intro j
    by_cases hj : j = i
    · rw [hj]
      exact hm.sound (h.callers i)
    · rw [step_callers_of_ne hj]
      exact h.callers j
  · intro j
    by_cases hj : j = i
    · rw [hj, hm.asks_eq, h.asks_eq]
    · rw [step_callers_of_ne hj, h.asks_eq]
  · intro name
    constructor
    · intro hn
      rcases hm.mem_log_of_mem_names hn with hn | ⟨ho, found, hf⟩
      · rcases (h.mem_names name).1 hn with hn | ⟨ho, j, found, hf⟩
        · exact .inl hn
        · exact .inr ⟨ho, j, found, (hlog j).subset hf⟩
      · exact .inr ⟨ho, i, found, hf⟩
    · rintro (hn | ⟨ho, j, found, hf⟩)
      · exact hm.names_subset ((h.mem_names name).2 (.inl hn))
      · have hold : (name, .ok found) ∈ (x.callers j).log ∨ name ∈ (x.step i).resolver.names := by
          by_cases hj : j = i
          · subst hj
            exact hm.mem_names_of_mem_log ho hf
          · rw [step_callers_of_ne hj] at hf
            exact .inl hf
        rcases hold with hold | hn
        · exact hm.names_subset ((h.mem_names name).2 (.inr ⟨ho, j, found, hold⟩))
        · exact hn

/-- The invariant holds after every schedule. -/
theorem Inv.run (h : Inv r asks x) (schedule : List ι) : Inv r asks (x.run schedule) := by
  induction schedule generalizing x with
  | nil => exact h
  | cons i rest ih => exact ih (h.step i)

/-- What is remembered stays. -/
theorem Inv.lookup_run (h : Inv r asks x) (schedule : List ι) {name : String}
    {found : Option ClassFile} (hl : x.resolver.cache.lookup name = some found) :
    (x.run schedule).resolver.cache.lookup name = some found := by
  induction schedule generalizing x with
  | nil => exact hl
  | cons i rest ih => exact ih (h.step i) ((h.moves i).lookup hl)

/-- A caller that asks for nothing more stays as it is. -/
theorem Inv.callers_run_of_asked (h : Inv r asks x) (hask : (x.callers i).asked? = none)
    (schedule : List ι) :
    (x.run schedule).callers i = x.callers i := by
  induction schedule generalizing x with
  | nil => rfl
  | cons j rest ih =>
    have hstep : (x.step j).callers i = x.callers i := by
      by_cases hj : i = j
      · subst hj
        exact (h.moves i).eq_of_asked hask
      · exact step_callers_of_ne hj
    rw [← hstep] at hask ⊢
    exact ih (h.step j) hask

/-- A caller that is not at its end gets further with each of its steps. -/
theorem Inv.progress_run (h : Inv r asks x) (schedule : List ι) (i : ι) :
    ((x.run schedule).callers i).asked? = none ∨
      (x.callers i).progress + schedule.count i ≤ ((x.run schedule).callers i).progress := by
  induction schedule generalizing x with
  | nil => exact .inr (Nat.le_refl _)
  | cons j rest ih =>
    by_cases hask : (x.callers i).asked? = none
    · rw [h.callers_run_of_asked hask]
      exact .inl hask
    · refine (ih (h.step j)).imp_right fun hrest => Nat.le_trans ?_ hrest
      by_cases hj : i = j
      · subst hj
        have hlt := (h.moves i).progress_lt hask
        rw [List.count_cons_self]
        omega
      · have hcount : (j :: rest).count i = rest.count i := List.count_cons_of_ne (Ne.symm hj)
        exact Nat.le_of_eq (by rw [step_callers_of_ne hj, hcount])

/-- A caller gets to the end of its computation in a bounded number of its own steps. -/
theorem Inv.result_run {α : Type} {bound : List String} {q : Inquiry bound α}
    {hload : ∀ name, Answer.supertypes (r.source.load name) ⊆ bound} (h : Inv r asks x)
    (hi : asks i = q.asks)
    {schedule : List ι} (hn : 4 * (q.asked r.source.load hload).length ≤ schedule.count i) :
    q.result? ((x.run schedule).callers i).answers = some (q.eval r.source.load hload) := by
  have hrun := h.run schedule
  have hasks : ((x.run schedule).callers i).asks = q.asks := (hrun.asks_eq i).trans hi
  refine (hrun.callers i).result_of_end hload hasks ?_
  rcases h.progress_run schedule i with hend | hle
  · exact hend
  · by_contra hend
    have hlt := (hrun.callers i).progress_lt_of_asked hload hasks hend
    omega

theorem run_replicate (x : Sharing ι) (i : ι) (n : Nat) :
    ((x.run (List.replicate n i)).resolver, (x.run (List.replicate n i)).callers i) =
      (x.callers i).steps x.resolver n := by
  induction n generalizing x with
  | zero => rfl
  | succ n ih =>
    have hself : (x.step i).callers i = ((x.callers i).step x.resolver).2 :=
      Function.update_self _ _ _
    have hstep := ih (x.step i)
    rw [hself] at hstep
    exact hstep

/-- A look-up that is not interrupted is a load. -/
theorem exists_run_load {name : String} (hidle : (x.callers i).phase = .idle)
    (hask : (x.callers i).asked? = some name) :
    ∃ n ≤ 4, (x.run (List.replicate n i)).resolver = (x.resolver.load name).2 ∧
      (x.run (List.replicate n i)).callers i =
        (x.callers i).complete name (x.resolver.load name).1 := by
  obtain ⟨n, hn, hload⟩ := Caller.exists_steps_load (r := x.resolver) hidle hask
  rw [← run_replicate] at hload
  exact ⟨n, hn, Prod.mk.inj hload⟩

end Sharing

end JvmAudit
