import JvmAudit.Proofs.Classpath.Supply
import JvmAudit.Proofs.Classpath.Trace
import JvmAudit.Proofs.Pointwise
import JvmAudit.Proofs.Search
import Mathlib.Data.List.Nodup

/-!
# Walks over ancestors

A walk looks at the class path only by loading names. So it fails only where a name cannot be looked
up, and it succeeds if every name can (`ClassSource.Readable`), and two class paths that load the
same classes give the same walks (`SameLoads`).

A search stops at the first class with some property. It finds one iff the walk, step by step, comes
to one (`Walk.Reaches`, `Walk.exists_mem_collectFrom_iff`).
-/

namespace JvmAudit

namespace ClassSource

/-- Both class paths load the same classes. -/
def SameLoads (s s' : ClassSource) : Prop := ∀ name, s.load name = s'.load name

theorem overlay?_eq_some_iff {s : ClassSource} (hn : (s.overlays.map (·.name)).Nodup)
    {name : String}
    {c : ClassFile} : s.overlay? name = some c ↔ c ∈ s.overlays ∧ c.name = name := by
  unfold overlay?
  constructor
  · intro h
    exact ⟨List.mem_of_find?_eq_some h, by simpa using List.find?_some h⟩
  · rintro ⟨hc, rfl⟩
    have hsome : s.overlays.find? (·.name == c.name) ≠ none :=
      Finds.find?.complete c ⟨hc, beq_self_eq_true _⟩
    obtain ⟨d, hd⟩ := Option.ne_none_iff_exists'.1 hsome
    have hname : d.name = c.name := by simpa using List.find?_some hd
    rw [hd, List.inj_on_of_nodup_map hn (List.mem_of_find?_eq_some hd) hc hname]

/-- The order of classes at hand does not matter if they have different names. -/
theorem sameLoads_of_perm {s s' : ClassSource} (ho : s.overlays.Perm s'.overlays)
    (hn : (s.overlays.map (·.name)).Nodup) (hc : s.containers = s'.containers) :
    s.SameLoads s' := by
  intro name
  have hn' : (s'.overlays.map (·.name)).Nodup := (ho.map _).nodup_iff.1 hn
  have hoverlay : s.overlay? name = s'.overlay? name := by
    ext c
    rw [overlay?_eq_some_iff hn, overlay?_eq_some_iff hn', ho.mem_iff]
  unfold load
  rw [hoverlay, hc]

end ClassSource

namespace Walk

variable {s s' : ClassSource}

/-! ## Walks that fail, and walks that succeed -/

/-- A walk fails only where a name cannot be looked up. -/
theorem Trace.exists_of_error {stop : ClassFile → Bool} {w w' : Walk} {log : List String}
    {result : Except ClasspathError (List ClassFile)} (h : Trace s stop w log result w')
    {e : ClasspathError} (he : result = .error e) : ∃ name, s.load name = .error e := by
  induction h with
  | ended => cases he
  | @failed _ r _ _ hl =>
    cases he
    exact ⟨r.name, hl⟩
  | missed _ _ _ ih => exact ih he
  | stopped => cases he
  | @found _ _ _ _ _ result _ _ _ _ ih =>
    cases result with
    | error e' => exact ih he
    | ok classes => cases he

/-- A walk on a class path that can be read succeeds. -/
theorem Trace.exists_ok (hs : s.Readable) {stop : ClassFile → Bool} {w w' : Walk}
    {log : List String}
    {result : Except ClasspathError (List ClassFile)} (h : Trace s stop w log result w') :
    ∃ classes, result = .ok classes := by
  cases result with
  | ok classes => exact ⟨classes, rfl⟩
  | error e =>
    obtain ⟨name, hload⟩ := h.exists_of_error rfl
    exact absurd hload (hs.load_ne_error name e)

/-! ## Classes that a walk comes to -/

section Reaches

variable {w w' : Walk} {c d : ClassFile}

/-- A walk comes to a class, if no step up to there fails. -/
inductive Reaches (s : ClassSource) : Walk → ClassFile → Prop
  | here {w w' : Walk} {c : ClassFile} (h : s.next w = (.ok (some c), w')) : Reaches s w c
  | later {w w' : Walk} {c d : ClassFile} (h : s.next w = (.ok (some d), w'))
    (hr : Reaches s w' c) : Reaches s w c

theorem Reaches.exists_next (h : Reaches s w c) : ∃ d w', s.next w = (.ok (some d), w') := by
  cases h with
  | here h => exact ⟨_, _, h⟩
  | later h _ => exact ⟨_, _, h⟩

theorem reaches_iff_of_next (h : s.next w = (.ok (some d), w')) :
    Reaches s w c ↔ c = d ∨ Reaches s w' c := by
  constructor
  · intro hr
    cases hr with
    | here h' =>
      rw [h] at h'
      cases h'
      exact .inl rfl
    | later h' hr =>
      rw [h] at h'
      cases h'
      exact .inr hr
  · rintro (rfl | hr)
    · exact .here h
    · exact .later h hr

/-- A walk that stops at the first class with some property finds one iff it comes to one. -/
theorem exists_mem_collectFrom_iff {stop : ClassFile → Bool} (w : Walk) (visited : List ClassFile)
    {classes : List ClassFile} (h : (s.collectFrom stop w visited).1 = .ok classes) :
    (∃ c ∈ classes, stop c = true) ↔
      (∃ c ∈ visited, stop c = true) ∨ ∃ c, Reaches s w c ∧ stop c = true := by
  induction w using step_induction s generalizing visited with
  | h w ih =>
    rcases hn : s.next w with ⟨e | _ | c, w'⟩
    · rw [ClassSource.collectFrom_of_error hn] at h
      cases h
    · rw [ClassSource.collectFrom_of_none hn] at h
      cases h
      have hend : ¬∃ c, Reaches s w c ∧ stop c = true := by
        rintro ⟨c, hr, _⟩
        obtain ⟨d, w'', hn'⟩ := hr.exists_next
        rw [hn] at hn'
        cases hn'
      simp [hend]
    · rw [ClassSource.collectFrom_of_some hn] at h
      by_cases hc : stop c = true
      · rw [if_pos hc] at h
        cases h
        exact ⟨fun _ => .inr ⟨c, .here hn, hc⟩, fun _ => ⟨c, by simp, hc⟩⟩
      · rw [if_neg hc] at h
        rw [ih c w' hn _ h]
        constructor
        · rintro (⟨d, hd, hstop⟩ | ⟨d, hr, hstop⟩)
          · rcases List.mem_cons.1 hd with rfl | hd
            · exact absurd hstop hc
            · exact .inl ⟨d, hd, hstop⟩
          · exact .inr ⟨d, .later hn hr, hstop⟩
        · rintro (⟨d, hd, hstop⟩ | ⟨d, hr, hstop⟩)
          · exact .inl ⟨d, List.mem_cons_of_mem _ hd, hstop⟩
          · rcases (reaches_iff_of_next hn).1 hr with rfl | hr
            · exact absurd hstop hc
            · exact .inr ⟨d, hr, hstop⟩

theorem request_start (name : String) :
    (start name).request? = some ⟨name, true, ⟨none, [], [name], []⟩⟩ := rfl

/-- A walk from a class that cannot be loaded comes to nothing. -/
theorem Reaches.exists_load {name : String} (h : Reaches s (start name) c) :
    ∃ d, s.load name = .ok (some d) := by
  obtain ⟨d, w', hn⟩ := h.exists_next
  rcases hl : s.load name with e | _ | d
  · rw [ClassSource.next_of_load_error (request_start name) hl] at hn
    cases hn
  · rw [ClassSource.next_of_load_none (request_start name) hl, ClassSource.next_of_end rfl] at hn
    cases hn
  · exact ⟨d, rfl⟩

end Reaches

/-! ## Walks on class paths that load the same classes -/

/-- A walk depends on the names that it looks up and on no other one. -/
theorem Trace.congr {stop : ClassFile → Bool} {w w' : Walk} {log : List String}
    {result : Except ClasspathError (List ClassFile)} (h : Trace s stop w log result w')
    (hs : ∀ name ∈ log, s'.load name = s.load name) : Trace s' stop w log result w' := by
  induction h with
  | ended hr => exact .ended hr
  | failed hr hl => exact .failed hr ((hs _ List.mem_cons_self).trans hl)
  | missed hr hl _ ih =>
    obtain ⟨hname, hrest⟩ := List.forall_mem_cons.1 hs
    exact .missed hr (hname.trans hl) (ih hrest)
  | stopped hr hl hc => exact .stopped hr ((hs _ List.mem_cons_self).trans hl) hc
  | found hr hl hc _ ih =>
    obtain ⟨hname, hrest⟩ := List.forall_mem_cons.1 hs
    exact .found hr (hname.trans hl) hc (ih hrest)

/-- A walk depends on the source by its answers only. -/
theorem collect_congr (h : s.SameLoads s') (stop : ClassFile → Bool) (name : String) :
    s.collect stop name = s'.collect stop name := by
  obtain ⟨log, result, w, ht, hc⟩ := exists_trace s stop name
  rw [hc, (ht.congr fun n _ => (h n).symm).collect_eq]

end Walk

/-! ## The lineage and the search for a member -/

namespace MemberQuery

/-- What a walk from the owner means for the search. -/
def resolution (query : MemberQuery) (owner : String) :
    Except ClasspathError (List ClassFile) × Walk → Except ClasspathError MemberResolution
  | (.error e, _) => .error e
  | (.ok [], _) => .ok (.unresolvable owner)
  | (.ok classes, w) => .ok (.resolved classes (classes.findIdx? query.declaredIn) w.missing)

end MemberQuery

namespace ClassSource

variable {s s' : ClassSource} {mentioned : List String}
  {hload : ∀ name, Answer.supertypes (s.load name) ⊆ mentioned}

theorem eval_lineage (s : ClassSource) {hload : ∀ name, Answer.supertypes (s.load name) ⊆ mentioned}
    (name : String) :
    (Lineage.ofName name).eval s.load hload =
      (match s.collect (fun _ => false) name with
      | (.ok classes, w) => .ok ⟨classes, w.missing⟩
      | (.error e, _) => .error e) := by
  show Inquiry.eval s.load hload (Walk.collect _ name >>= fun _ => _) = _
  rw [Inquiry.eval_bind, eval_collect]
  rcases s.collect (fun _ => false) name with ⟨_ | classes, w⟩ <;> rfl

/-- The lineage asks for what the walk looks up. -/
theorem asked_lineage (s : ClassSource)
    {hload : ∀ name, Answer.supertypes (s.load name) ⊆ mentioned} (name : String) :
    (Lineage.ofName name).run.asked s.load hload =
      (s.collect (fun _ => false) name).2.seen.reverse := by
  show Inquiry.asked s.load hload (Walk.collect _ name >>= fun _ => _) = _
  rw [Inquiry.asked_bind, Walk.asked_collect, eval_collect]
  rcases s.collect (fun _ => false) name with ⟨_ | classes, w⟩ <;> exact List.append_nil _

/-- A lineage is what a walk that does not stop gives. -/
theorem lineage_eq (s : ClassSource) (name : String) :
    s.lineage name =
      (match s.collect (fun _ => false) name with
      | (.ok classes, w) => .ok ⟨classes, w.missing⟩
      | (.error e, _) => .error e) := s.eval_lineage name

theorem eval_resolve (s : ClassSource) {hload : ∀ name, Answer.supertypes (s.load name) ⊆ mentioned}
    (owner : String) (query : MemberQuery) :
    (query.resolve owner).eval s.load hload =
      query.resolution owner (s.collect query.declaredIn owner) := by
  show Inquiry.eval s.load hload (Walk.collect _ owner >>= fun _ => _) = _
  rw [Inquiry.eval_bind, eval_collect]
  rcases s.collect query.declaredIn owner with ⟨_ | classes, w⟩
  · rfl
  · cases classes <;> rfl

/-- The search for a member asks for what the walk looks up. -/
theorem asked_resolve (s : ClassSource)
    {hload : ∀ name, Answer.supertypes (s.load name) ⊆ mentioned}
    (owner : String) (query : MemberQuery) :
    (query.resolve owner).run.asked s.load hload =
      (s.collect query.declaredIn owner).2.seen.reverse := by
  show Inquiry.asked s.load hload (Walk.collect _ owner >>= fun _ => _) = _
  rw [Inquiry.asked_bind, Walk.asked_collect, eval_collect]
  rcases s.collect query.declaredIn owner with ⟨_ | classes, w⟩
  · exact List.append_nil _
  · cases classes <;> exact List.append_nil _

/-- A member is resolved by the walk up to the class that declares it. -/
theorem resolveMember_eq (s : ClassSource) (owner : String) (query : MemberQuery) :
    s.resolveMember owner query = query.resolution owner (s.collect query.declaredIn owner) :=
  s.eval_resolve owner query

theorem resolveMember_congr (h : s.SameLoads s') (owner : String) (query : MemberQuery) :
    s.resolveMember owner query = s'.resolveMember owner query := by
  rw [resolveMember_eq, resolveMember_eq, Walk.collect_congr h]

/-- The search for a member of a class that can be loaded gives its lineage. -/
theorem resolveMember_of_load (hs : s.Readable) {owner : String} {c : ClassFile}
    (h : s.load owner = .ok (some c)) (query : MemberQuery) :
    ∃ lineage declarer missing, s.resolveMember owner query =
      .ok (.resolved lineage declarer missing) := by
  rw [resolveMember_eq, collect_eq, collectFrom_of_some (next_of_load (Walk.request_start owner) h)]
  split
  · exact ⟨_, _, _, rfl⟩
  · obtain ⟨log, result, w, ht⟩ := Walk.exists_trace_from s query.declaredIn _
    obtain ⟨classes, rfl⟩ := ht.exists_ok hs
    rw [ht.collectFrom_eq]
    exact ⟨_, _, _, rfl⟩

/-- The search for a member of a class that is missing gives the class. -/
theorem resolveMember_of_load_none {owner : String} (h : s.load owner = .ok none)
    (query : MemberQuery) :
    s.resolveMember owner query = .ok (.unresolvable owner) := by
  have hnext : s.next (.start owner) = (.ok none, ⟨none, [], [owner], [owner]⟩) := by
    rw [next_of_load_none (Walk.request_start owner) h]
    exact next_of_end rfl
  rw [resolveMember_eq, collect_eq, collectFrom_of_none hnext]
  rfl

/-- A member cannot be resolved only if some class cannot be read. -/
theorem exists_of_resolveMember_error {owner : String} {query : MemberQuery}
    {e : ClasspathError} (h : s.resolveMember owner query = .error e) :
    ∃ name, s.load name = .error e := by
  obtain ⟨log, result, w, ht, hc⟩ := Walk.exists_trace s query.declaredIn owner
  rw [resolveMember_eq, hc] at h
  rcases result with e' | _ | ⟨c, classes⟩
  · cases h
    exact ht.exists_of_error rfl
  · cases h
  · cases h

theorem resolveMember_ok (hs : s.Readable) (owner : String) (query : MemberQuery) :
    ∃ resolution, s.resolveMember owner query = .ok resolution := by
  cases h : s.resolveMember owner query with
  | ok resolution => exact ⟨resolution, rfl⟩
  | error e =>
    obtain ⟨name, hload⟩ := exists_of_resolveMember_error h
    exact absurd hload (hs.load_ne_error name e)

end ClassSource

end JvmAudit
