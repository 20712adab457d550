import JvmAudit.Classpath.Lineage

/-!
# Remembered look-ups

A source of classes that remembers what it has looked up in its containers, also names that are
missing. A class at hand is not remembered, and neither is a failure. What is remembered does not
change when more classes are put at hand; these come first.
-/

namespace JvmAudit

/-- A source of classes and what was found in its containers. -/
structure Resolver where
  source : ClassSource
  /-- Looked-up names and what was found, the latest first. -/
  cache : List (String × Option ClassFile)

namespace Resolver

/-- A resolver that has not looked up anything. -/
def ofSource (source : ClassSource) : Resolver := ⟨source, []⟩

/-- Looks up a class that is neither at hand nor remembered. -/
def loadUncached (r : Resolver) (name : String) : Answer :=
  ClassSource.loadFrom (internalName name) r.source.containers

/-- Remembers what was found, unless something is remembered already. -/
def insert (r : Resolver) (name : String) (found : Option ClassFile) : Resolver :=
  if (r.cache.lookup name).isSome then r else { r with cache := (name, found) :: r.cache }

/-- Loads a class: one that is at hand, else what is remembered, else what the containers have. -/
def load (r : Resolver) (name : String) : Answer × Resolver :=
  match r.source.overlay? name with
  | some c => (.ok (some c), r)
  | none =>
    match r.cache.lookup name with
    | some found => (.ok found, r)
    | none =>
      match r.loadUncached name with
      | .ok found => (.ok found, r.insert name found)
      | .error e => (.error e, r)

/-- The number of remembered names. -/
def cachedCount (r : Resolver) : Nat := r.cache.length

/-- Adds a class at hand. -/
def addOverlay (r : Resolver) (c : ClassFile) : Resolver :=
  { r with source := r.source.addOverlay c }

/-! ## Computations -/

/-- The names of supertypes in answers. -/
def mentioned (r : Resolver) : List String :=
  r.source.mentioned ++ r.cache.flatMap fun p => Answer.supertypes (.ok p.2)

theorem supertypes_loadUncached_subset (r : Resolver) (name : String) :
    Answer.supertypes (r.loadUncached name) ⊆ r.source.mentioned := by
  cases h : r.loadUncached name with
  | error e => exact List.nil_subset _
  | ok found =>
    cases found with
    | none => exact List.nil_subset _
    | some c => exact ClassSource.supertypes_subset_mentioned_of_loadFrom h

theorem mentioned_insert_subset (r : Resolver) (name : String) {found : Option ClassFile}
    (h : Answer.supertypes (.ok found) ⊆ r.mentioned) :
    (r.insert name found).mentioned ⊆ r.mentioned := by
  unfold insert
  split
  · exact List.Subset.refl _
  · refine List.append_subset.2 ⟨List.subset_append_left _ _, ?_⟩
    rw [List.flatMap_cons]
    exact List.append_subset.2 ⟨h, List.subset_append_right _ _⟩

/-- What a look-up gives, and what is remembered afterwards, mentions no other names. -/
theorem load_within (r : Resolver) (name : String) :
    Answer.supertypes (r.load name).1 ⊆ r.mentioned ∧ (r.load name).2.mentioned ⊆ r.mentioned := by
  have hsource : ∀ names, names ⊆ r.source.mentioned → names ⊆ r.mentioned := fun _ h =>
    List.Subset.trans h (List.subset_append_left _ _)
  unfold load
  split
  · next c hc =>
    have hload : r.source.load name = .ok (some c) := ClassSource.load_of_overlay hc
    exact ⟨hsource _ (ClassSource.supertypes_subset_mentioned hload), List.Subset.refl _⟩
  · split
    · next found hfound =>
      refine ⟨List.Subset.trans ?_ (List.subset_append_right _ _), List.Subset.refl _⟩
      obtain ⟨front, back, hsplit, _⟩ := List.lookup_eq_some_iff.1 hfound
      rw [hsplit, List.flatMap_append, List.flatMap_cons]
      exact fun _ hx => List.mem_append_right _ (List.mem_append_left _ hx)
    · have huncached := hsource _ (r.supertypes_loadUncached_subset name)
      split
      · next found hfound =>
        rw [hfound] at huncached
        exact ⟨huncached, r.mentioned_insert_subset name huncached⟩
      · exact ⟨List.nil_subset _, List.Subset.refl _⟩

/-- Carries out a computation, look-up by look-up, and gives the result and the resolver
afterwards. -/
def run {names : List String} {α : Type} :
    Inquiry names α → (r : Resolver) → r.mentioned ⊆ names → α × Resolver
  | .done a, r, _ => (a, r)
  | .ask name next, r, hr =>
    have h := r.load_within name
    run (next (r.load name).1 (List.Subset.trans h.1 hr)) (r.load name).2 (List.Subset.trans h.2 hr)

/-- Carries out a computation. -/
def answer {α : Type} (r : Resolver) (q : Inquiry r.mentioned α) : α × Resolver :=
  run q r (List.Subset.refl _)

/-- A step of a walk. -/
def next (r : Resolver) (w : Walk) : Walk.Outcome × Walk × Resolver :=
  let (step, r) := r.answer
    (Walk.next (List.subset_append_right w.pending r.mentioned) w (List.subset_append_left _ _))
  (step.outcome, step.walk, r)

/-- A class and its ancestors. -/
def lineage (r : Resolver) (name : String) : Except ClasspathError Lineage × Resolver :=
  r.answer (Lineage.ofName name).run

/-- The search for a member. -/
def resolveMember (r : Resolver) (owner : String) (query : MemberQuery) :
    Except ClasspathError MemberResolution × Resolver :=
  r.answer (query.resolve owner).run

end Resolver

end JvmAudit
