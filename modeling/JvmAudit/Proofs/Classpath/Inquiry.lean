import JvmAudit.Classpath.Inquiry

/-!
# What a computation asks for

With answers from a function a computation asks for certain names, one after the other
(`Inquiry.asked`). It can also be given answer by answer: what it asks for after some answers
(`Inquiry.asks`), and its result when there are enough of them (`Inquiry.result?`). With the answers
of a function this comes to the same names and the same result (`Inquiry.asks_take`,
`Inquiry.result?_asked`).
-/

namespace JvmAudit

namespace Inquiry

variable {names : List String} {α β : Type} {load : String → Answer}
  {hload : ∀ name, Answer.supertypes (load name) ⊆ names}

/-- The names that a computation asks for, one after the other. -/
def asked (load : String → Answer) (hload : ∀ name, Answer.supertypes (load name) ⊆ names) :
    Inquiry names α → List String
  | .done _ => []
  | .ask name next => name :: (next (load name) (hload name)).asked load hload

@[simp] theorem asked_pure (a : α) : (pure a : Inquiry names α).asked load hload = [] := rfl

@[simp] theorem asked_bind (q : Inquiry names α) (f : α → Inquiry names β) :
    (q >>= f).asked load hload =
      q.asked load hload ++ (f (q.eval load hload)).asked load hload := by
  show (q.bind f).asked load hload = _
  induction q with
  | done a => rfl
  | ask name next ih => exact congrArg (name :: ·) (ih _ _)

/-- A computation that starts with a look-up goes on with the answer. -/
theorem eval_look_bind {name : String} {answer : Answer} (h : load name = answer)
    (f : { answer : Answer // Answer.supertypes answer ⊆ names } → Inquiry names α) :
    (look name >>= f).eval load hload = (f ⟨answer, h ▸ hload name⟩).eval load hload := by
  subst h
  rfl

theorem asked_look_bind {name : String} {answer : Answer} (h : load name = answer)
    (f : { answer : Answer // Answer.supertypes answer ⊆ names } → Inquiry names α) :
    (look name >>= f).asked load hload = name :: (f ⟨answer, h ▸ hload name⟩).asked load hload := by
  subst h
  rfl

/-- Computations one after the other give what each of them gives. -/
theorem eval_mapM (f : β → Inquiry names α) (l : List β) :
    (l.mapM f).eval load hload = l.map fun b => (f b).eval load hload := by
  induction l with
  | nil => rfl
  | cons b l ih => simp only [List.mapM_cons, eval_bind, ih, eval_pure, List.map_cons]

/-! ## Answer by answer -/

/-- The name that is asked for after some answers. An answer with other supertypes than expected
ends the computation. -/
def asks : Inquiry names α → List Answer → Option String
  | .done _, _ => none
  | .ask name _, [] => some name
  | .ask _ next, answer :: rest =>
    if h : Answer.supertypes answer ⊆ names then (next answer h).asks rest else none

/-- The result after some answers, if they are enough. -/
def result? : Inquiry names α → List Answer → Option α
  | .done a, _ => some a
  | .ask _ _, [] => none
  | .ask _ next, answer :: rest =>
    if h : Answer.supertypes answer ⊆ names then (next answer h).result? rest else none

variable (q : Inquiry names α)

/-- After the answers to the first names, the next one is asked for. -/
theorem asks_take (n : Nat) :
    q.asks (((q.asked load hload).take n).map load) = (q.asked load hload)[n]? := by
  induction q generalizing n with
  | done a => rfl
  | ask name next ih =>
    cases n with
    | zero => rfl
    | succ n => exact (dif_pos (hload name)).trans (ih _ _ n)

/-- After the answers to all names, there is the result. -/
theorem result?_asked : q.result? ((q.asked load hload).map load) = some (q.eval load hload) := by
  induction q with
  | done a => rfl
  | ask name next ih => exact (dif_pos (hload name)).trans (ih _ _)

/-- A computation with a result asks for nothing more. -/
theorem asks_of_result {q : Inquiry names α} {answers : List Answer} {a : α}
    (h : q.result? answers = some a) : q.asks answers = none := by
  induction q generalizing answers with
  | done b => rfl
  | ask name next ih =>
    cases answers with
    | nil => cases h
    | cons answer rest =>
      unfold result? at h
      unfold asks
      split at h
      · next hsub =>
        rw [dif_pos hsub]
        exact ih _ _ h
      · cases h

end Inquiry

end JvmAudit
