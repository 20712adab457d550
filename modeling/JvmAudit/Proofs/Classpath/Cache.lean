import JvmAudit.Classpath.Cache
import JvmAudit.Proofs.Classpath.Walk

/-!
# What is remembered changes nothing

A resolver remembers what its containers have for a name. That does not depend on the classes at
hand, so it stays right when more classes are put at hand (`Resolver.Sound.addOverlay`), whenever it
was looked up. A computation on a resolver gives what it gives on the source of classes
(`Resolver.Sound.run_fst`), and leaves behind what loading the names leaves that it asks for
(`Resolver.Sound.run_snd`).
-/

namespace JvmAudit

namespace Resolver

/-- The names that are remembered. -/
def names (r : Resolver) : List String := r.cache.map (·.1)

/-- What is remembered is what the containers have, once for each name. -/
structure Sound (r : Resolver) : Prop where
  entries : ∀ p ∈ r.cache, r.loadUncached p.1 = .ok p.2
  names_nodup : r.names.Nodup

/-- The resolver after loading some classes. -/
def loadAll (r : Resolver) (names : List String) : Resolver :=
  names.foldl (fun r name => (r.load name).2) r

variable {r : Resolver} {name : String} {found : Option ClassFile}

/-- A new resolver remembers nothing, so nothing wrong. -/
theorem sound_ofSource (source : ClassSource) : (ofSource source).Sound := ⟨nofun, List.nodup_nil⟩

/-- Classes that are put at hand later do not matter for what is remembered. -/
theorem Sound.addOverlay (h : r.Sound) (c : ClassFile) : (r.addOverlay c).Sound :=
  ⟨h.entries, h.names_nodup⟩

theorem mem_of_lookup (h : r.cache.lookup name = some found) : (name, found) ∈ r.cache := by
  obtain ⟨front, back, hsplit, _⟩ := List.lookup_eq_some_iff.1 h
  rw [hsplit]
  simp

theorem lookup_isSome_iff : (r.cache.lookup name).isSome ↔ name ∈ r.names := by
  rw [Option.isSome_iff_ne_none, ne_eq, List.lookup_eq_none_iff]
  simp only [names, bne_iff_ne, ne_eq, List.mem_map]
  grind

theorem source_insert (r : Resolver) (name : String) (found : Option ClassFile) :
    (r.insert name found).source = r.source := by
  unfold insert
  split <;> rfl

/-- What was looked up may be remembered. -/
theorem Sound.insert (h : r.Sound) (hfound : r.loadUncached name = .ok found) :
    (r.insert name found).Sound := by
  unfold Resolver.insert
  split
  · exact h
  · next hnew =>
    refine ⟨List.forall_mem_cons.2 ⟨hfound, h.entries⟩, List.nodup_cons.2 ⟨?_, h.names_nodup⟩⟩
    exact fun hmem => hnew (lookup_isSome_iff.2 hmem)

/-! ## Loads -/

/-- A look-up leaves the source as it is. -/
theorem source_load (r : Resolver) (name : String) : (r.load name).2.source = r.source := by
  unfold load
  split
  · rfl
  · split
    · rfl
    · split
      · exact source_insert ..
      · rfl

/-- A look-up leaves the memory sound. -/
theorem Sound.load (h : r.Sound) (name : String) : (r.load name).2.Sound := by
  unfold Resolver.load
  split
  · exact h
  · split
    · exact h
    · split
      · next hfound => exact h.insert hfound
      · exact h

/-- A look-up gives what the source has. -/
theorem Sound.load_fst (h : r.Sound) (name : String) : (r.load name).1 = r.source.load name := by
  unfold Resolver.load
  cases ho : r.source.overlay? name with
  | some c => exact (ClassSource.load_of_overlay ho).symm
  | none =>
    rw [ClassSource.load_of_no_overlay ho]
    cases hl : r.cache.lookup name with
    | some found => exact (h.entries _ (mem_of_lookup hl)).symm
    | none =>
      dsimp only
      cases hu : r.loadUncached name <;> exact hu.symm

/-! ## Computations -/

section Run

variable {bound : List String} {α : Type}

theorem supertypes_source_load_subset (hr : r.mentioned ⊆ bound) (name : String) :
    Answer.supertypes (r.source.load name) ⊆ bound := fun _ hx =>
  hr (List.mem_append_left _ (r.source.supertypes_load_subset name hx))

theorem source_run (q : Inquiry bound α) (r : Resolver) (hr : r.mentioned ⊆ bound) :
    (run q r hr).2.source = r.source := by
  induction q generalizing r with
  | done a => rfl
  | ask name next ih => exact (ih _ _ _ _).trans (source_load r name)

/-- Any computation leaves the memory sound. -/
theorem Sound.run (h : r.Sound) (q : Inquiry bound α) (hr : r.mentioned ⊆ bound) :
    (Resolver.run q r hr).2.Sound := by
  induction q generalizing r with
  | done a => exact h
  | ask name next ih => exact ih _ _ (h.load name) _

/-- A computation gives what it gives on the source. -/
theorem Sound.run_fst (h : r.Sound) (q : Inquiry bound α) (hr : r.mentioned ⊆ bound) :
    (Resolver.run q r hr).1 = q.eval r.source.load (supertypes_source_load_subset hr) := by
  induction q generalizing r with
  | done a => rfl
  | ask name next ih =>
    have hload := h.load_fst name
    have hsource := source_load r name
    show (Resolver.run _ (r.load name).2 _).1 = _
    rw [ih _ _ (h.load name)]
    simp only [Inquiry.eval, hload, hsource]

/-- A computation leaves behind what loading leaves. -/
theorem Sound.run_snd (h : r.Sound) (q : Inquiry bound α) (hr : r.mentioned ⊆ bound) :
    (Resolver.run q r hr).2 =
      r.loadAll (q.asked r.source.load (supertypes_source_load_subset hr)) := by
  induction q generalizing r with
  | done a => rfl
  | ask name next ih =>
    have hload := h.load_fst name
    have hsource := source_load r name
    show (Resolver.run _ (r.load name).2 _).2 = _
    rw [ih _ _ (h.load name)]
    simp only [Inquiry.asked, hload, hsource]
    rfl

end Run

/-- A resolver that another one may become by looking classes up. -/
structure Learns (r r' : Resolver) : Prop where
  source_eq : r'.source = r.source
  sound : r.Sound → r'.Sound

theorem Learns.refl (r : Resolver) : r.Learns r := ⟨rfl, id⟩

theorem Learns.trans {a b c : Resolver} (hab : a.Learns b) (hbc : b.Learns c) : a.Learns c :=
  ⟨hbc.source_eq.trans hab.source_eq, fun h => hbc.sound (hab.sound h)⟩

/-- A computation only adds to the memory. -/
theorem learns_answer {α : Type} (r : Resolver) (q : Inquiry r.mentioned α) :
    r.Learns (r.answer q).2 := ⟨source_run q r _, fun h => h.run q _⟩

/-- The lineage is that on the source. -/
theorem Sound.lineage_fst (h : r.Sound) (name : String) :
    (r.lineage name).1 = r.source.lineage name := by
  rw [ClassSource.lineage_eq]
  exact (h.run_fst _ _).trans (ClassSource.eval_lineage ..)

/-- The search for a member gives what it gives on the source. -/
theorem Sound.resolveMember_fst (h : r.Sound) (owner : String) (query : MemberQuery) :
    (r.resolveMember owner query).1 = r.source.resolveMember owner query := by
  rw [ClassSource.resolveMember_eq]
  exact (h.run_fst _ _).trans (ClassSource.eval_resolve ..)

/-- The lineage leaves behind what the names do that the walk looks up. -/
theorem Sound.lineage_snd (h : r.Sound) (name : String) :
    (r.lineage name).2 = r.loadAll (r.source.collect (fun _ => false) name).2.seen.reverse := by
  refine (h.run_snd _ _).trans (congrArg r.loadAll ?_)
  exact (ClassSource.asked_lineage ..)

/-- The search for a member leaves behind what the names do that the walk looks up. -/
theorem Sound.resolveMember_snd (h : r.Sound) (owner : String) (query : MemberQuery) :
    (r.resolveMember owner query).2 =
      r.loadAll (r.source.collect query.declaredIn owner).2.seen.reverse := by
  refine (h.run_snd _ _).trans (congrArg r.loadAll ?_)
  exact (ClassSource.asked_resolve ..)

/-- A step of a walk is that on the source. -/
theorem Sound.next_eq (h : r.Sound) (w : Walk) :
    ((r.next w).1, (r.next w).2.1) = r.source.next w := by
  have hstep := h.run_fst (Walk.next (List.subset_append_right w.pending r.mentioned) w
    (List.subset_append_left _ _)) (List.Subset.refl _)
  exact (congrArg Walk.Step.result hstep).trans (ClassSource.result_next_eq _)

end Resolver

end JvmAudit
