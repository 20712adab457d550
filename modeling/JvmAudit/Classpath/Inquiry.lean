import JvmAudit.Classpath.Source

/-!
# Computations that look classes up

A computation that looks classes up does not say who answers: it asks for a name and goes on with
the answer (`Inquiry`). So the same computation can be carried out on a source of classes
(`ClassSource.answer`), with a memory for what was looked up, or step by step among others.

The supertypes of all classes in the answers come from a finite list of names, which is a parameter;
else a computation that follows supertypes might not end.
-/

namespace JvmAudit

/-- What a look-up gives: a failure, a class, or nothing. -/
abbrev Answer := Except ClasspathError (Option ClassFile)

/-- The supertypes of the class in an answer. -/
def Answer.supertypes : Answer → List String
  | .ok (some c) => c.supertypes
  | _ => []

/-- A computation that looks classes up, with supertypes from a list of names only. -/
inductive Inquiry (names : List String) (α : Type) where
  | done (a : α)
  /-- Asks for a class. -/
  | ask (name : String) (next : (answer : Answer) → Answer.supertypes answer ⊆ names →
    Inquiry names α)

namespace Inquiry

variable {names : List String} {α β : Type} {load : String → Answer}
  {hload : ∀ name, Answer.supertypes (load name) ⊆ names}

/-- A computation that goes on with the result of another one. -/
protected def bind (q : Inquiry names α) (f : α → Inquiry names β) : Inquiry names β :=
  match q with
  | .done a => f a
  | .ask name next => .ask name fun answer h => (next answer h).bind f

instance : Monad (Inquiry names) where
  pure := .done
  bind := Inquiry.bind

/-- To do nothing afterwards changes nothing. -/
protected theorem bind_done (q : Inquiry names α) : q.bind .done = q := by
  induction q with
  | done a => rfl
  | ask name next ih => simp only [Inquiry.bind, ih]

/-- It does not matter how a sequence of computations is grouped. -/
protected theorem bind_assoc {γ : Type} (q : Inquiry names α) (f : α → Inquiry names β)
    (g : β → Inquiry names γ) : (q.bind f).bind g = q.bind fun a => (f a).bind g := by
  induction q with
  | done a => rfl
  | ask name next ih => simp only [Inquiry.bind, ih]

instance : LawfulMonad (Inquiry names) :=
  .mk' _ Inquiry.bind_done (fun _ _ => rfl) Inquiry.bind_assoc

/-- Looks up a class. -/
def look (name : String) : Inquiry names { answer : Answer // Answer.supertypes answer ⊆ names } :=
  .ask name fun answer h => .done ⟨answer, h⟩

/-- The result if a function answers. -/
def eval (load : String → Answer) (hload : ∀ name, Answer.supertypes (load name) ⊆ names) :
    Inquiry names α → α
  | .done a => a
  | .ask name next => (next (load name) (hload name)).eval load hload

@[simp] theorem eval_pure (a : α) : (pure a : Inquiry names α).eval load hload = a := rfl

@[simp] theorem eval_look (name : String) :
    (look name : Inquiry names _).eval load hload = ⟨load name, hload name⟩ := rfl

/-- A sequence is evaluated step by step. -/
@[simp] theorem eval_bind (q : Inquiry names α) (f : α → Inquiry names β) :
    (q >>= f).eval load hload = (f (q.eval load hload)).eval load hload := by
  show (q.bind f).eval load hload = _
  induction q with
  | done a => rfl
  | ask name next ih => exact ih _ _

@[simp] theorem eval_map (q : Inquiry names α) (f : α → β) :
    (f <$> q).eval load hload = f (q.eval load hload) := by
  rw [map_eq_pure_bind, eval_bind]
  rfl

end Inquiry

/-- A computation that looks classes up and may fail. -/
abbrev Query (names : List String) (ε : Type) := ExceptT ε (Inquiry names)

namespace Query

variable {names : List String} {ε ε' α β : Type} {load : String → Answer}
  {hload : ∀ name, Answer.supertypes (load name) ⊆ names}

/-- Looks up a class. -/
def look (name : String) : Query names ClasspathError (Option ClassFile) :=
  ExceptT.mk do return (← Inquiry.look name).1

/-- A result that needs no look-up. -/
def ofExcept (x : Except ε α) : Query names ε α := ExceptT.mk (return x)

/-- The result if a function answers. -/
def eval (load : String → Answer) (hload : ∀ name, Answer.supertypes (load name) ⊆ names)
    (q : Query names ε α) : Except ε α := q.run.eval load hload

@[simp] theorem eval_pure (a : α) : (pure a : Query names ε α).eval load hload = .ok a := rfl

@[simp] theorem eval_throw (e : ε) : (throw e : Query names ε α).eval load hload = .error e := rfl

/-- To look a name up gives the answer, or fails with it. -/
@[simp] theorem eval_look (name : String) :
    (look name : Query names _ _).eval load hload = load name := rfl

/-- A sequence of queries is evaluated step by step, up to the first failure. -/
@[simp] theorem eval_bind (q : Query names ε α) (f : α → Query names ε β) :
    (q >>= f).eval load hload = q.eval load hload >>= fun a => (f a).eval load hload := by
  show (q.run >>= ExceptT.bindCont f).eval load hload = _
  rw [Inquiry.eval_bind]
  show _ = (q.run.eval load hload) >>= _
  cases q.run.eval load hload <;> rfl

@[simp] theorem eval_ofExcept (x : Except ε α) :
    (ofExcept x : Query names ε α).eval load hload = x := rfl

@[simp] theorem eval_map (f : α → β) (q : Query names ε α) :
    (f <$> q).eval load hload = (q.eval load hload).map f := by
  rw [map_eq_pure_bind, eval_bind]
  cases q.eval load hload <;> rfl

/-- Failures are translated after the evaluation. -/
@[simp] theorem eval_adapt (q : Query names ε α) (f : ε → ε') :
    Query.eval load hload (ExceptT.adapt f q) = (q.eval load hload).mapError f :=
  Inquiry.eval_map ..

/-- A list of queries is evaluated one by one. -/
theorem eval_mapM (f : α → Query names ε β) (l : List α) :
    (l.mapM f).eval load hload = l.mapM fun a => (f a).eval load hload := by
  induction l with
  | nil => rfl
  | cons a l ih => simp only [List.mapM_cons, eval_bind, ih, eval_pure]; rfl

/-- A loop of queries is evaluated round by round. -/
theorem eval_foldlM (f : β → α → Query names ε β) (b : β) (l : List α) :
    (l.foldlM f b).eval load hload = l.foldlM (fun b a => (f b a).eval load hload) b := by
  induction l generalizing b with
  | nil => rfl
  | cons a l ih => simp only [List.foldlM_cons, eval_bind, ih]

end Query

namespace ClassSource

/-- All answers of a source have supertypes that are mentioned. -/
theorem supertypes_load_subset (s : ClassSource) (name : String) :
    Answer.supertypes (s.load name) ⊆ s.mentioned := by
  cases h : s.load name with
  | error e => exact List.nil_subset _
  | ok found =>
    cases found with
    | none => exact List.nil_subset _
    | some c => exact supertypes_subset_mentioned h

/-- Carries out a computation on a source of classes. -/
def answer {α : Type} (s : ClassSource) (q : Inquiry s.mentioned α) : α :=
  q.eval s.load s.supertypes_load_subset

end ClassSource

end JvmAudit
