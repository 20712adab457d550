import JvmAudit.Classpath.Inquiry

/-!
# Lineage

The walk from a class over its ancestors: first the class and its superclasses, then the interfaces
of all of them, breadth first, each name at most once. Names that cannot be loaded, and a name that
closes a cycle of superclasses, are noted as missing. The walk loads a class only when it gets
there, and can go on after a failure.

## Termination

One step (`Walk.next`) goes by the queue of interfaces. A whole walk ends because each step that
gives a class marks a name as seen that was not seen before, and all names come from a finite list.
-/

namespace JvmAudit

/-- The state of a walk. -/
structure Walk where
  /-- The next superclass. -/
  nextSuper : Option String
  /-- The interfaces that were met and not yet visited. -/
  queue : List String
  /-- The names that were asked for. -/
  seen : List String
  missing : List String
  deriving Repr

namespace Walk

/-- The walk that starts at a class. -/
def start (name : String) : Walk := ⟨some name, [], [], []⟩

/-- The names that may be asked for next. -/
def pending (w : Walk) : List String := w.nextSuper.toList ++ w.queue

/-- What a step of a walk gives: a failure, a class, or nothing at the end of the walk. -/
abbrev Outcome := Except ClasspathError (Option ClassFile)

/-- The number of names of a list that were not seen. -/
def unseen (names seen : List String) : Nat := names.countP (· ∉ seen)

theorem unseen_cons_lt {names seen : List String} {name : String} (hm : name ∈ names)
    (hn : name ∉ seen) :
    unseen names (name :: seen) < unseen names seen := by
  unfold unseen
  induction names with
  | nil => cases hm
  | cons x rest ih =>
    have hle : rest.countP (· ∉ name :: seen) ≤ rest.countP (· ∉ seen) := by
      refine List.countP_mono_left fun y _ hy => ?_
      simp only [decide_eq_true_eq] at hy ⊢
      exact fun h => hy (List.mem_cons_of_mem _ h)
    rw [List.countP_cons, List.countP_cons]
    rcases List.mem_cons.1 hm with rfl | hm
    · simp only [hn, List.mem_cons_self, not_true_eq_false, decide_false,
        Bool.false_eq_true, if_false, not_false_eq_true, decide_true, if_true]
      omega
    · have := ih hm
      by_cases hx : x ∈ seen
      · simpa [hx, List.mem_cons_of_mem name hx] using this
      · by_cases hx' : x ∈ name :: seen <;> simp only [hx, hx', not_true_eq_false, decide_false,
          Bool.false_eq_true, if_false, not_false_eq_true, decide_true, if_true] <;> omega

/-- What a step gives, and the state it leads to. All names come from a list; if the step gives a
class, fewer than `bound` of them are left that were not seen. -/
structure Step (names : List String) (bound : Nat) where
  outcome : Outcome
  walk : Walk
  within : ∀ c, outcome = .ok (some c) → walk.pending ⊆ names
  unseen_lt : ∀ c, outcome = .ok (some c) → unseen names walk.seen < bound

namespace Step

variable {names : List String} {bound : Nat}

/-- A look-up failed. -/
def failed (e : ClasspathError) (walk : Walk) : Step names bound := ⟨.error e, walk, nofun, nofun⟩

/-- Nothing is left to visit. -/
def ended (walk : Walk) : Step names bound := ⟨.ok none, walk, nofun, nofun⟩

/-- A class was found. -/
def found (c : ClassFile) (walk : Walk) (hw : walk.pending ⊆ names)
    (hn : unseen names walk.seen < bound) :
    Step names bound := ⟨.ok (some c), walk, fun _ _ => hw, fun _ _ => hn⟩

end Step

section Next

variable {mentioned names : List String} (hm : mentioned ⊆ names)

include hm in
theorem pending_found_subset {c : ClassFile} {queue seen missing : List String} (hq : queue ⊆ names)
    (hc : c.supertypes ⊆ mentioned) :
    pending ⟨c.superClass, queue ++ c.interfaces, seen, missing⟩ ⊆ names := by
  intro x hx
  simp only [pending, List.mem_append] at hx
  rcases hx with hx | hx | hx
  · exact hm (hc (List.mem_append_left _ hx))
  · exact hq hx
  · exact hm (hc (List.mem_append_right _ hx))

include hm in
theorem pending_interface_subset {c : ClassFile} {queue seen missing : List String}
    (hq : queue ⊆ names) (hc : c.supertypes ⊆ mentioned) :
    pending ⟨none, queue ++ c.interfaces, seen, missing⟩ ⊆ names :=
  List.append_subset.2 ⟨List.nil_subset _,
    List.append_subset.2 ⟨hq, fun _ hx => hm (hc (List.mem_append_right _ hx))⟩⟩

/-- Visits interfaces until one can be loaded. -/
def nextInterface {bound : Nat} (seen missing : List String) :
    (queue : List String) → queue ⊆ names → unseen names seen ≤ bound →
    Inquiry mentioned (Step names bound)
  | [], _, _ => return .ended ⟨none, [], seen, missing⟩
  | name :: queue, hq, hn =>
    have hrest := List.subset_of_cons_subset hq
    if hseen : name ∈ seen then nextInterface seen missing queue hrest hn
    else do
      have hlt := Nat.lt_of_lt_of_le (unseen_cons_lt (hq List.mem_cons_self) hseen) hn
      match ← Inquiry.look name with
      | ⟨.error e, _⟩ => return .failed e ⟨none, queue, name :: seen, missing⟩
      | ⟨.ok none, _⟩ =>
        nextInterface (name :: seen) (missing ++ [name]) queue hrest (Nat.le_of_lt hlt)
      | ⟨.ok (some c), hc⟩ =>
        return .found c ⟨none, queue ++ c.interfaces, name :: seen, missing⟩
          (pending_interface_subset hm hrest hc) hlt

/-- Goes to the next class that can be loaded. -/
def next (w : Walk) (hw : w.pending ⊆ names) :
    Inquiry mentioned (Step names (unseen names w.seen)) :=
  have hqueue := (List.append_subset.1 hw).2
  match hsuper : w.nextSuper with
  | none => nextInterface hm w.seen w.missing w.queue hqueue (Nat.le_refl _)
  | some name =>
    if hseen : name ∈ w.seen then
      nextInterface hm w.seen (w.missing ++ [name]) w.queue hqueue (Nat.le_refl _)
    else do
      have hlt := unseen_cons_lt (hw (by simp [pending, hsuper])) hseen
      match ← Inquiry.look name with
      | ⟨.error e, _⟩ => return .failed e { w with nextSuper := none, seen := name :: w.seen }
      | ⟨.ok none, _⟩ =>
        nextInterface hm (name :: w.seen) (w.missing ++ [name]) w.queue hqueue (Nat.le_of_lt hlt)
      | ⟨.ok (some c), hc⟩ =>
        return .found c
          { w with
            nextSuper := c.superClass, queue := w.queue ++ c.interfaces, seen := name :: w.seen }
          (pending_found_subset hm hqueue hc) hlt

/-- Walks on until a class satisfies a condition, and gives the classes up to that one (all, if
there is none), behind `visited`, which is in reverse order, and the state reached. -/
def collectFrom (stop : ClassFile → Bool) (w : Walk) (hw : w.pending ⊆ names)
    (visited : List ClassFile) :
    Inquiry mentioned (Except ClasspathError (List ClassFile) × Walk) := do
  let step ← next hm w hw
  match h : step.outcome with
  | .error e => return (.error e, step.walk)
  | .ok none => return (.ok visited.reverse, step.walk)
  | .ok (some c) =>
    if stop c then return (.ok (c :: visited).reverse, step.walk)
    else collectFrom stop step.walk (step.within c h) (c :: visited)
termination_by unseen names w.seen
decreasing_by exact step.unseen_lt c h

end Next

/-- The classes that a walk gives, up to the first that satisfies a condition, and the state
reached. -/
def collect {mentioned : List String} (stop : ClassFile → Bool) (name : String) :
    Inquiry mentioned (Except ClasspathError (List ClassFile) × Walk) :=
  collectFrom (List.subset_cons_self name mentioned) stop (start name) (by simp [pending, start]) []

end Walk

/-- A class and its ancestors. -/
structure Lineage where
  /-- In the order of the walk. -/
  classes : List ClassFile
  missing : List String
  deriving DecidableEq, Repr

/-- How a member is asked for. -/
inductive MemberQuery where
  | field (name : String)
  | method (name descriptor : String)
  /-- A method whatever its result, by the parameter part of its descriptor. -/
  | overload (name params : String)
  /-- Any member of that name. -/
  | named (name : String)
  deriving DecidableEq, Repr

/-- Whether a class declares the member. -/
def MemberQuery.declaredIn (q : MemberQuery) (c : ClassFile) : Bool :=
  match q with
  | .field name => (c.field? name).isSome
  | .method name descriptor => (c.method? name descriptor).isSome
  | .overload name params => (c.overload? name params).isSome
  | .named name => c.declaresNamed name

/-- What became of the search for a member. -/
inductive MemberResolution where
  /-- The owner was loaded: the classes that were visited, the last of which declares the member
  unless `declarer` is none, and the ancestors that were missing up to there. -/
  | resolved (lineage : List ClassFile) (declarer : Option Nat) (missing : List String)
  /-- The owner is missing. -/
  | unresolvable (owner : String)
  deriving DecidableEq, Repr

/-- A class and all its ancestors. -/
def Lineage.ofName {mentioned : List String} (name : String) :
    Query mentioned ClasspathError Lineage :=
  ExceptT.mk do
    match ← Walk.collect (fun _ => false) name with
    | (.ok classes, w) => return .ok ⟨classes, w.missing⟩
    | (.error e, _) => return .error e

/-- Walks from the owner to the first class that declares the member. -/
def MemberQuery.resolve {mentioned : List String} (query : MemberQuery) (owner : String) :
    Query mentioned ClasspathError MemberResolution :=
  ExceptT.mk do
    match ← Walk.collect query.declaredIn owner with
    | (.error e, _) => return .error e
    | (.ok [], _) => return .ok (.unresolvable owner)
    | (.ok classes, w) =>
      return .ok (.resolved classes (classes.findIdx? query.declaredIn) w.missing)

namespace ClassSource

/-- A class and all its ancestors. -/
def lineage (s : ClassSource) (name : String) : Except ClasspathError Lineage :=
  s.answer (Lineage.ofName name).run

/-- Walks from the owner to the first class that declares a member. -/
def resolveMember (s : ClassSource) (owner : String) (query : MemberQuery) :
    Except ClasspathError MemberResolution := s.answer (query.resolve owner).run

end ClassSource

end JvmAudit
