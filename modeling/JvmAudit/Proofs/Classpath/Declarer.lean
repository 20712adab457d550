import JvmAudit.Proofs.Classpath.Lineage

/-!
# The class that declares a member

The search for a member goes the same way as the walk that gives the lineage, and stops at the first
class that declares the member. So it finds the front of the lineage up to that class, and the names
that were missing up to there (`ClassSource.missingBefore`). It depends on the names that it looks
up and on no other one: what comes behind the declaring class may be missing or impossible to read
(`Walk.Trace.congr`).

## Main results

* `Walk.Trace.stopping`: a walk that stops, as a part of the walk that does not
* `Resolver.resolveMember_front`: what the search for a member gives
-/

namespace JvmAudit

/-! ## Names that are missing before another one -/

namespace ClassSource

variable {s : ClassSource} {chain interfaces before after : List String} {name : String}

/-- The names that are found missing before a name is looked up. The superclass that closes a cycle
is noted when the walk leaves the chain. -/
def missingBefore (s : ClassSource) (chain interfaces : List String) (name : String) :
    List String :=
  if name ∈ chain then (chain.takeWhile (· != name)).filter s.isMissing
  else s.missingIn chain (interfaces.takeWhile (· != name))

theorem takeWhile_ne (h : name ∉ before) :
    (before ++ name :: after).takeWhile (· != name) = before := by
  rw [List.takeWhile_append_of_pos, List.takeWhile_cons_of_neg (by simp), List.append_nil]
  intro x hx
  simp only [bne_iff_ne, ne_eq]
  rintro rfl
  exact h hx

/-- Before a class of the chain only classes of the chain can be missing. -/
theorem missingBefore_of_chain (h : name ∉ before) :
    s.missingBefore (before ++ name :: after) interfaces name = before.filter s.isMissing := by
  unfold missingBefore
  rw [if_pos (by simp), takeWhile_ne h]

/-- Before an interface all of the chain was looked up, and the interfaces that are nearer. -/
theorem missingBefore_of_interface (hc : name ∉ chain) (h : name ∉ before) :
    s.missingBefore chain (before ++ name :: after) name = s.missingIn chain before := by
  unfold missingBefore
  rw [if_neg hc, takeWhile_ne h]

theorem missingBefore_prefix :
    s.missingBefore chain interfaces name <+: s.missingIn chain interfaces := by
  unfold missingBefore missingIn
  by_cases h : name ∈ chain
  · rw [if_pos h, List.append_assoc]
    exact ((List.takeWhile_prefix _).filter _).trans (List.prefix_append _ _)
  · rw [if_neg h]
    exact (List.prefix_append_right_inj _).2 ((List.takeWhile_prefix _).filter _)

end ClassSource

/-! ## Walks up to a look-up -/

namespace Walk

variable {s : ClassSource} {stop : ClassFile → Bool} {start : String}
  {chain visited names log : List String}
  {v w w' : Walk} {r : Request} {result : Except ClasspathError (List ClassFile)}
    {classes : List ClassFile}

/-- Look-ups that do not fail, from one state of a walk to another. -/
inductive Steps (s : ClassSource) : Walk → List String → Walk → Prop
  | refl {w : Walk} : Steps s w [] w
  | answered {w v : Walk} {r : Request} {names : List String} (hr : w.request? = some r)
    (h : Steps s (r.answered s) names v) : Steps s w (r.name :: names) v

theorem Surveying.steps (h : Surveying s start chain visited w) (hsteps : Steps s w names v) :
    ∃ visited, Surveying s start chain visited v := by
  induction hsteps generalizing visited with
  | refl => exact ⟨visited, h⟩
  | answered hr _ ih => exact ih (h.answered hr)

/-- After any number of steps a walk is in one of its two phases. -/
theorem Climbing.steps (h : Climbing s start chain w) (hsteps : Steps s w names v) :
    (∃ chain, Climbing s start chain v) ∨ ∃ chain visited, Surveying s start chain visited v := by
  induction hsteps generalizing chain with
  | refl => exact .inl ⟨chain, h⟩
  | answered hr hsteps ih =>
    cases asks_of_request hr with
    | superclass hname => exact ih (h.superclass hname)
    | interface hlast hskipped hname =>
      exact .inr ⟨chain, ((h.surveying hlast).interface hskipped hname).steps hsteps⟩

/-- What is missing when an interface is looked up. -/
theorem Surveying.missing_request (h : Surveying s start chain visited v) (hr : v.request? = some r)
    (hrun : Run s (r.answered s) names w') :
    ∃ interfaces, Surveyed s start chain interfaces w' ∧
    r.walk.missing = s.missingBefore chain interfaces r.name := by
  obtain ⟨interfaces, ⟨rest, rfl⟩, hw⟩ := (h.answered hr).run_extends hrun
  refine ⟨_, hw, ?_⟩
  have hnew := (asks_of_request hr).name_notMem
  rw [h.seen, List.mem_reverse, List.mem_append, not_or] at hnew
  rw [List.append_assoc, List.singleton_append,
    ClassSource.missingBefore_of_interface hnew.1 hnew.2, ← h.missing]
  cases asks_of_request hr with
  | superclass hname => exact absurd (h.last (by simp)) hname
  | interface => rfl

/-- What is missing when a name is looked up, in terms of the whole walk. -/
theorem Steps.missing_request (hsteps : Steps s (.start start) log v) (hr : v.request? = some r)
    (hrun : Run s (r.answered s) names w') :
    ∃ chain interfaces, Surveyed s start chain interfaces w' ∧
      r.walk.missing = s.missingBefore chain interfaces r.name := by
  rcases (climbing_start s start).steps hsteps with ⟨chain, h⟩ | ⟨chain, visited, h⟩
  · have hnew := (asks_of_request hr).name_notMem
    rw [h.seen, List.mem_reverse] at hnew
    cases asks_of_request hr with
    | superclass hname =>
      obtain ⟨_, interfaces, ⟨rest, rfl⟩, hw⟩ := (h.superclass hname).run_extends hrun
      refine ⟨_, interfaces, hw, ?_⟩
      rw [List.append_assoc, List.singleton_append, ClassSource.missingBefore_of_chain hnew]
      exact h.missing
    | interface hlast _ _ => exact ⟨chain, (h.surveying hlast).missing_request hr hrun⟩
  · exact ⟨chain, h.missing_request hr hrun⟩

/-! ## Walks that stop -/

/-- A walk that stops at the first class with some property goes as the walk that does not stop, to
the end or up to the look-up that finds such a class. -/
theorem Trace.stopping (stop : ClassFile → Bool) (h : Trace s (fun _ => false) w log result w')
    (hok : result = .ok classes) :
    (∀ c ∈ classes, stop c = false) ∧ Trace s stop w log (.ok classes) w' ∨
    ∃ before after v r front c, log = before ++ r.name :: after ∧ Steps s w before v ∧
    v.request? = some r ∧
      Run s (r.answered s) after w' ∧ stop c = true ∧
      Trace s stop w (before ++ [r.name]) (.ok (front ++ [c])) (r.found c) := by
  induction h generalizing classes with
  | ended hr =>
    cases hok
    exact .inl ⟨by simp, .ended hr⟩
  | failed => cases hok
  | @missed _ _ r _ _ hr hl _ ih =>
    rcases ih hok with ⟨hnone, ht⟩ | ⟨before, after, v, r', front, c, rfl, hsteps,
      hr', hrun, hc, ht⟩
    · exact .inl ⟨hnone, .missed hr hl ht⟩
    · rw [(asks_of_request hr).missed_eq hl] at hsteps
      exact .inr ⟨r.name :: before, after, v, r', front, c, rfl, .answered hr hsteps, hr', hrun, hc,
        .missed hr hl ht⟩
  | stopped _ _ hc => cases hc
  | @found w _ r d names _ hr hl _ ht ih =>
    obtain ⟨rest, hrest, rfl⟩ := Result.map_eq_ok.1 hok
    by_cases hd : stop d = true
    · obtain ⟨hrun, _⟩ := ht.run_of_ok hrest
      rw [(asks_of_request hr).found_eq hl] at hrun
      exact .inr ⟨[], names, w, r, [], d, rfl, .refl, hr, hrun, hd, .stopped hr hl hd⟩
    · rcases ih hrest with ⟨hnone, ht⟩ | ⟨before, after, v, r', front, c, rfl, hsteps,
        hr', hrun, hc, ht⟩
      · exact .inl ⟨List.forall_mem_cons.2 ⟨by simpa using hd, hnone⟩, .found hr hl hd ht⟩
      · rw [(asks_of_request hr).found_eq hl] at hsteps
        exact .inr ⟨r.name :: before, after, v, r', d :: front, c, rfl, .answered hr hsteps,
          hr', hrun, hc, .found hr hl hd ht⟩

/-- A walk that finds what it looks for does so with its last look-up. -/
theorem Trace.found_last (h : Trace s stop w log result w') (hok : result = .ok classes) :
    (∀ c ∈ classes, stop c = false) ∨
    ∃ before name c, log = before ++ [name] ∧ s.load name = .ok (some c) ∧ stop c = true ∧
      (∀ d ∈ before.filterMap s.classAt, stop d = false) ∧
      classes = before.filterMap s.classAt ++ [c] := by
  induction h generalizing classes with
  | ended =>
    cases hok
    exact .inl (by simp)
  | failed => cases hok
  | @missed _ _ r _ _ hr hl _ ih =>
    rcases ih hok with hnone | ⟨before, name, c, rfl, hload, hc, hbefore, rfl⟩
    · exact .inl hnone
    · refine .inr ⟨r.name :: before, name, c, rfl, hload, hc, ?_, ?_⟩
      · rwa [List.filterMap_cons_none (ClassSource.classAt_of_load_none hl)]
      · rw [List.filterMap_cons_none (ClassSource.classAt_of_load_none hl)]
  | @stopped _ r c _ hl hc =>
    cases hok
    exact .inr ⟨[], r.name, c, rfl, hl, hc, by simp, rfl⟩
  | @found _ _ r d _ _ hr hl hd _ ih =>
    rw [Bool.not_eq_true] at hd
    obtain ⟨rest, hrest, rfl⟩ := Result.map_eq_ok.1 hok
    rcases ih hrest with hnone | ⟨before, name, c, rfl, hload, hc, hbefore, rfl⟩
    · exact .inl (List.forall_mem_cons.2 ⟨hd, hnone⟩)
    · refine .inr ⟨r.name :: before, name, c, rfl, hload, hc, ?_, ?_⟩
      · rw [List.filterMap_cons_some (ClassSource.classAt_of_load hl)]
        exact List.forall_mem_cons.2 ⟨hd, hbefore⟩
      · rw [List.filterMap_cons_some (ClassSource.classAt_of_load hl)]
        rfl

/-- If a walk stops at a class, no class before it satisfies the condition. -/
theorem Trace.found_of_stop {before : List String} {name : String} {front : List ClassFile}
    {c : ClassFile}
    (h : Trace s stop w (before ++ [name]) (.ok (front ++ [c])) w') (hc : stop c = true) :
    (∀ d ∈ front, stop d = false) ∧ front = before.filterMap s.classAt ∧
    s.load name = .ok (some c) := by
  rcases h.found_last rfl with hnone | ⟨before', name', c', hlog, hload, _, hbefore, hclasses⟩
  · rw [hnone c (by simp)] at hc
    cases hc
  · obtain ⟨rfl, hname⟩ := List.append_inj' hlog rfl
    obtain ⟨rfl, hlast⟩ := List.append_inj' hclasses rfl
    cases hname
    cases hlast
    exact ⟨hbefore, rfl, hload⟩

theorem Surveyed.log_eq {interfaces : List String} (hw : Surveyed s start chain interfaces w')
    (h : Trace s stop (.start start) log result w') : log = chain ++ interfaces := by
  have hseen : w'.seen = log.reverse := by simpa [Walk.start] using h.seen
  rw [hw.seen] at hseen
  exact (List.reverse_injective hseen).symm

end Walk

/-! ## The search for a member -/

namespace MemberQuery

variable {query : MemberQuery} {classes front back : List ClassFile} {c : ClassFile}

theorem resolution_of_ne_nil (h : classes ≠ []) (owner : String) (w : Walk) :
    query.resolution owner (.ok classes, w) =
      .ok (.resolved classes (classes.findIdx? query.declaredIn) w.missing) := by
  cases classes with
  | nil => exact absurd rfl h
  | cons c classes => rfl

theorem findIdx?_eq_length (hfront : ∀ d ∈ front, query.declaredIn d = false)
    (hc : query.declaredIn c = true) :
    (front ++ c :: back).findIdx? query.declaredIn = some front.length := by
  rw [List.findIdx?_append, List.findIdx?_eq_none_iff.2 hfront, List.findIdx?_cons, hc]
  simp

end MemberQuery

namespace Resolver

/-- The names that the search for a member looks up, in order. -/
def requested (r : Resolver) (owner : String) (query : MemberQuery) : List String :=
  (r.source.collect query.declaredIn owner).2.seen.reverse

variable {r r' : Resolver} {owner : String} {query : MemberQuery} {log : List String} {w : Walk}
  {result : Except ClasspathError (List ClassFile)}

theorem requested_of_trace (h : Walk.Trace r.source query.declaredIn (.start owner) log result w) :
    r.requested owner query = log := by
  unfold requested
  rw [h.collect_eq, h.seen]
  simp [Walk.start]

/-- What is requested is what is looked up. -/
theorem exists_trace_requested (r : Resolver) (owner : String) (query : MemberQuery) :
    ∃ result w,
      Walk.Trace r.source query.declaredIn (.start owner) (r.requested owner query) result w := by
  obtain ⟨log, result, w, ht, _⟩ := Walk.exists_trace r.source query.declaredIn owner
  exact ⟨result, w, by rwa [requested_of_trace ht]⟩

/-- The member is resolved from where the walk has stopped. -/
theorem resolveMember_of_trace (hr : r.Sound)
    (h : Walk.Trace r.source query.declaredIn (.start owner) log result w) :
    (r.resolveMember owner query).1 = query.resolution owner (result, w) := by
  rw [hr.resolveMember_fst, ClassSource.resolveMember_eq, h.collect_eq]

/-- The search depends on the names that it looks up, and looks up the same ones if these are the
same. -/
theorem resolveMember_congr (hr : r.Sound) (hr' : r'.Sound)
    (h : ∀ name ∈ r.requested owner query, r'.source.load name = r.source.load name) :
    (r'.resolveMember owner query).1 = (r.resolveMember owner query).1 ∧
      r'.requested owner query = r.requested owner query := by
  obtain ⟨log, result, w, ht, _⟩ := Walk.exists_trace r.source query.declaredIn owner
  rw [requested_of_trace ht] at h ⊢
  have ht' := ht.congr h
  exact ⟨by rw [resolveMember_of_trace hr' ht', resolveMember_of_trace hr ht],
    requested_of_trace ht'⟩

/-- If the lineage of the owner can be given, the search for a member gives a front of it. -/
theorem resolveMember_of_lineage (hr : r.Sound) {l : Lineage} (hl : (r.lineage owner).1 = .ok l)
    (query : MemberQuery) :
    ∃ chain interfaces, r.source.IsLineage owner chain interfaces ∧
      l = ⟨(chain ++ interfaces).filterMap r.source.classAt, r.source.missingIn chain interfaces⟩ ∧
      (∀ c, r.source.load owner = .ok (some c) → l.classes.findIdx? query.declaredIn = none →
        (r.resolveMember owner query).1 = .ok (.resolved l.classes none l.missing)) ∧
      ∀ i, l.classes.findIdx? query.declaredIn = some i →
        ∃ before name after, chain ++ interfaces = before ++ name :: after ∧
          before.filterMap r.source.classAt = l.classes.take i ∧
          r.source.classAt name = l.classes[i]? ∧
          r.requested owner query = before ++ [name] ∧
          (r.resolveMember owner query).1 =
            .ok (.resolved (l.classes.take (i + 1)) (some i)
              (r.source.missingBefore chain interfaces name)) := by
  obtain ⟨log, result, w, ht, hcollect⟩ := Walk.exists_trace r.source (fun _ => false) owner
  rw [hr.lineage_fst, ClassSource.lineage_eq, hcollect] at hl
  cases result with
  | error e => cases hl
  | ok classes =>
    cases hl
    obtain ⟨hrun, rfl⟩ := ht.run_of_ok rfl
    rcases ht.stopping query.declaredIn rfl with ⟨hnone, ht'⟩ |
      ⟨before, after, v, q, front, c, rfl, hsteps, hq, hrest, hc, ht'⟩
    · -- nothing declares the member, so the search gets to the end
      obtain ⟨chain, interfaces, hw⟩ := (Walk.climbing_start r.source owner).run hrun
      obtain rfl := hw.log_eq ht
      have hindex := List.findIdx?_eq_none_iff.2 hnone
      refine ⟨chain, interfaces, hw.isLineage, by rw [hw.missing], ?_, ?_⟩
      · intro c hload _
        have hmem : owner ∈ chain := List.mem_of_mem_head? hw.isLineage.isSuperChain.head
        have hne : (chain ++ interfaces).filterMap r.source.classAt ≠ [] := List.ne_nil_of_mem
          (List.mem_filterMap.2 ⟨owner, List.mem_append_left _ hmem,
            ClassSource.classAt_of_load hload⟩)
        rw [resolveMember_of_trace hr ht', MemberQuery.resolution_of_ne_nil hne, hindex]
      · intro i hi
        rw [hindex] at hi
        cases hi
    · obtain ⟨chain, interfaces, hw, hmissing⟩ := hsteps.missing_request hq hrest
      have hlog := hw.log_eq ht
      obtain ⟨hfront, rfl, hload⟩ := ht'.found_of_stop hc
      have hclasses : (before ++ q.name :: after).filterMap r.source.classAt =
          before.filterMap r.source.classAt ++ c :: after.filterMap r.source.classAt := by
        rw [List.filterMap_append, List.filterMap_cons_some (ClassSource.classAt_of_load hload)]
      have hindex :
          (before.filterMap r.source.classAt ++ c :: after.filterMap r.source.classAt).findIdx?
          query.declaredIn = some _ := MemberQuery.findIdx?_eq_length hfront hc
      refine ⟨chain, interfaces, hw.isLineage, by rw [hw.missing, hlog], ?_, ?_⟩
      · intro d _ hnone
        rw [hclasses, hindex] at hnone
        cases hnone
      · intro i hi
        rw [hclasses] at hi ⊢
        rw [hindex] at hi
        cases hi
        refine ⟨before, q.name, after, hlog.symm, by simp, ?_, requested_of_trace ht', ?_⟩
        · simp [ClassSource.classAt_of_load hload]
        · rw [resolveMember_of_trace hr ht', MemberQuery.resolution_of_ne_nil (by simp),
            MemberQuery.findIdx?_eq_length hfront hc]
          simp [Walk.Request.found, hmissing, List.take_append]

/-- A search that finds the member does so with its last look-up, and not before. -/
theorem requested_of_declarer (hr : r.Sound) {lineage : List ClassFile} {i : Nat}
    {missing : List String}
    (h : (r.resolveMember owner query).1 = .ok (.resolved lineage (some i) missing)) :
    ∃ before name c, r.requested owner query = before ++ [name] ∧
    r.source.load name = .ok (some c) ∧
      query.declaredIn c = true ∧
      (∀ d ∈ before.filterMap r.source.classAt, query.declaredIn d = false) ∧
      lineage = before.filterMap r.source.classAt ++ [c] ∧
      i = (before.filterMap r.source.classAt).length := by
  obtain ⟨log, result, w, ht, _⟩ := Walk.exists_trace r.source query.declaredIn owner
  rw [resolveMember_of_trace hr ht] at h
  cases result with
  | error e => cases h
  | ok classes =>
    by_cases hnil : classes = []
    · rw [hnil] at h
      cases h
    · rw [MemberQuery.resolution_of_ne_nil hnil] at h
      injection h with h
      injection h with hlineage hindex
      subst hlineage
      rcases ht.found_last rfl with hnone | ⟨before, name, c, rfl, hload, hc, hbefore, rfl⟩
      · rw [List.findIdx?_eq_none_iff.2 hnone] at hindex
        cases hindex
      · rw [MemberQuery.findIdx?_eq_length hbefore hc] at hindex
        cases hindex
        exact ⟨before, name, c, requested_of_trace ht, hload, hc, hbefore, rfl, rfl⟩

theorem load_ne_error (hr : r.Sound) {l : Lineage} (hl : (r.lineage owner).1 = .ok l)
    (e : ClasspathError) :
    r.source.load owner ≠ .error e := by
  intro hload
  have ht : Walk.Trace r.source (fun _ => false) (.start owner) _ _ _ :=
    .failed (Walk.request_start owner) hload
  rw [hr.lineage_fst, ClassSource.lineage_eq, ht.collect_eq] at hl
  cases hl

/-- **The search for a member is a front of the lineage.** If the lineage of the owner can be given,
so can the result: the owner, if it is missing; the whole lineage, if no class of it declares the
member; otherwise the classes up to the first that does, with the names that were found missing
before that class was looked up.

Whether or not the lineage can be given, a search that finds the member looks up nothing behind the
class that declares it. Another class path with the same answers to what was looked up leads to the
same result and the same look-ups, whatever it has, or fails with, for other names. What was
remembered before does not matter. -/
theorem resolveMember_front (r : Resolver) (hr : r.Sound) (owner : String) (query : MemberQuery) :
    (∀ l, (r.lineage owner).1 = .ok l →
      ∃ chain interfaces, r.source.IsLineage owner chain interfaces ∧
        l = ⟨(chain ++ interfaces).filterMap r.source.classAt,
          r.source.missingIn chain interfaces⟩ ∧
        (r.source.load owner = .ok none ∧
          (r.resolveMember owner query).1 = .ok (.unresolvable owner) ∨
          (∃ c, r.source.load owner = .ok (some c)) ∧
          (l.classes.findIdx? query.declaredIn = none →
            (r.resolveMember owner query).1 = .ok (.resolved l.classes none l.missing)) ∧
          ∀ i, l.classes.findIdx? query.declaredIn = some i →
            ∃ before name after, chain ++ interfaces = before ++ name :: after ∧
              before.filterMap r.source.classAt = l.classes.take i ∧
              r.source.classAt name = l.classes[i]? ∧
              r.requested owner query = before ++ [name] ∧
              r.source.missingBefore chain interfaces name <+: l.missing ∧
              (r.resolveMember owner query).1 = .ok (.resolved (l.classes.take (i + 1)) (some i)
                (r.source.missingBefore chain interfaces name)))) ∧
    (∃ result w,
      Walk.Trace r.source query.declaredIn (.start owner) (r.requested owner query) result w ∧
      (r.resolveMember owner query).2 = r.loadAll (r.requested owner query)) ∧
    ∀ lineage i missing,
      (r.resolveMember owner query).1 = .ok (.resolved lineage (some i) missing) →
      (∃ before name c, r.requested owner query = before ++ [name] ∧
        r.source.load name = .ok (some c) ∧ query.declaredIn c = true ∧
        (∀ d ∈ before.filterMap r.source.classAt, query.declaredIn d = false) ∧
        lineage = before.filterMap r.source.classAt ++ [c] ∧
        i = (before.filterMap r.source.classAt).length) ∧
      ∀ r' : Resolver, r'.Sound →
        (∀ name ∈ r.requested owner query, r'.source.load name = r.source.load name) →
        (r'.resolveMember owner query).1 = (r.resolveMember owner query).1 ∧
          r'.requested owner query = r.requested owner query := by
  obtain ⟨result, w, ht⟩ := exists_trace_requested r owner query
  refine ⟨?_, ⟨result, w, ht, hr.resolveMember_snd owner query⟩, fun _ _ _ hfound =>
    ⟨requested_of_declarer hr hfound, fun _ hr' h => resolveMember_congr hr hr' h⟩⟩
  intro l hl
  obtain ⟨chain, interfaces, hlineage, hclasses, hnone, hsome⟩ :=
    resolveMember_of_lineage hr hl query
  refine ⟨chain, interfaces, hlineage, hclasses, ?_⟩
  cases hload : r.source.load owner with
  | error e => exact absurd hload (load_ne_error hr hl e)
  | ok found =>
    cases found with
    | none =>
      refine .inl ⟨rfl, ?_⟩
      rw [hr.resolveMember_fst, ClassSource.resolveMember_of_load_none hload query]
    | some c =>
      refine .inr ⟨⟨c, rfl⟩, hnone c hload, fun i hi => ?_⟩
      obtain ⟨before, name, after, hsplit, hbefore, hname, hrequested, hresult⟩ := hsome i hi
      refine ⟨before, name, after, hsplit, hbefore, hname, hrequested, ?_, hresult⟩
      rw [hclasses]
      exact ClassSource.missingBefore_prefix

end Resolver

/-! A constant of an interface, with names that are missing before and behind it. The superclass is
read from a directory and the interface from an archive. If there is a file for a name behind the
interface and it is no class file, then the lineage cannot be given, but the constant is found all
the same. -/

namespace InheritedConstant

def leaf : ClassFile :=
  ⟨"app.Leaf", 1, 52, none, some "app.Mid", ["lib.Lost", "app.Limits", "lib.Later"], [], [], []⟩

/-- The superclass. -/
def mid : Bytes := (Assembler.ClassSpec.build
  { Assembler.ClassSpec.ofName "app.Mid" with superClass := some "lib.Gone" }).data

/-- The interface. -/
def limits : Bytes := (Assembler.ClassSpec.build
  { Assembler.ClassSpec.ofName "app.Limits" with
    superClass := none, members := [.field "MAX" "I" []] }).data

def directory : Container := .directory "classes"
  ⟨.dir [("classes", .dir [("app", .dir [("Mid.class", .file (.ok ⟨mid.toArray⟩))])])], []⟩

def resolver : Resolver :=
  .ofSource ⟨[leaf], [directory, .archive "lib.jar" "" (.ofList [("app/Limits.class", limits)])]⟩

/-- With a file that is no class file. -/
def damaged : Resolver := .ofSource ⟨[leaf], [directory,
  .archive "lib.jar" "" (.ofList [("app/Limits.class", limits), ("lib/Later.class", [])])]⟩

/-- The names of the classes, the index of the one that declares the member, and what was
missing. -/
def summary : MemberResolution → List String × Option Nat × List String
  | .resolved lineage declarer missing => (lineage.map (·.name), declarer, missing)
  | .unresolvable owner => ([], none, [owner])

theorem resolveMember_front_leaf :
    (resolver.source.lineage "app.Leaf").map (fun l => (l.classes.map (·.name), l.missing)) =
      .ok (["app.Leaf", "app.Mid", "app.Limits"], ["lib.Gone", "lib.Lost", "lib.Later"]) ∧
    (∃ chain interfaces name c, resolver.source.IsLineage "app.Leaf" chain interfaces ∧
      resolver.source.classAt name = some c ∧ c.name = "app.Limits" ∧
      resolver.source.missingBefore chain interfaces name = ["lib.Gone", "lib.Lost"]) ∧
    (damaged.lineage "app.Leaf").1 = .error (.classFile "lib.jar!/lib/Later.class" .unexpectedEof) ∧
    (damaged.resolveMember "app.Leaf" (.field "MAX")).1 =
      (resolver.resolveMember "app.Leaf" (.field "MAX")).1 := by
  have hsound : resolver.Sound := Resolver.sound_ofSource _
  have hdamaged : damaged.Sound := Resolver.sound_ofSource _
  have hlineage :
      (resolver.source.lineage "app.Leaf").map (fun l => (l.classes.map (·.name), l.missing)) =
      .ok (["app.Leaf", "app.Mid", "app.Limits"], ["lib.Gone", "lib.Lost", "lib.Later"]) := by
    decide +kernel
  have hindex : (resolver.source.lineage "app.Leaf").map (fun l =>
      l.classes.findIdx? (MemberQuery.declaredIn (.field "MAX"))) = .ok (some 2) := by
    decide +kernel
  have hsearch : (resolver.source.resolveMember "app.Leaf" (.field "MAX")).map summary =
      .ok (["app.Leaf", "app.Mid", "app.Limits"], some 2, ["lib.Gone", "lib.Lost"]) := by
    decide +kernel
  have hrequested : resolver.requested "app.Leaf" (.field "MAX") =
      ["app.Leaf", "app.Mid", "lib.Gone", "lib.Lost", "app.Limits"] := by decide +kernel
  have hloads : ∀ name ∈ ["app.Leaf", "app.Mid", "lib.Gone", "lib.Lost", "app.Limits"],
      damaged.source.load name = resolver.source.load name := by decide +kernel
  have hfailure : (damaged.source.lineage "app.Leaf").map (fun l => l.missing) =
      .error (.classFile "lib.jar!/lib/Later.class" .unexpectedEof) := by decide +kernel
  obtain ⟨hfront, _, hfound⟩ :=
    Resolver.resolveMember_front resolver hsound "app.Leaf" (.field "MAX")
  obtain ⟨l, hl, hl'⟩ := Result.map_eq_ok.1 hlineage
  obtain ⟨hnames, _⟩ := Prod.mk.inj hl'
  rw [hl] at hindex
  obtain ⟨chain, interfaces, hlin, _, ⟨hnone, _⟩ | ⟨_, _, hdeclared⟩⟩ :=
    hfront l (by rw [hsound.lineage_fst, hl])
  · have hleaf : resolver.source.load "app.Leaf" = .ok (some leaf) :=
      ClassSource.load_of_overlay rfl
    rw [hleaf] at hnone
    cases hnone
  · obtain ⟨before, name, after, _, _, hname, _, _, hmember⟩ := hdeclared 2 (Except.ok.inj hindex)
    have hsearch' := hsearch
    rw [← hsound.resolveMember_fst, hmember] at hsearch'
    obtain ⟨hclasses, hrest⟩ := Prod.mk.inj (Except.ok.inj hsearch')
    obtain ⟨_, hmissing⟩ := Prod.mk.inj hrest
    have hc : (l.classes[2]?).map (·.name) = some "app.Limits" := by
      rw [← List.getElem?_map, hnames]; rfl
    obtain ⟨c, hc, hcname⟩ := Option.map_eq_some_iff.1 hc
    refine ⟨hlineage, ⟨chain, interfaces, name, c, hlin, hname.trans hc, hcname, hmissing⟩, ?_, ?_⟩
    · rw [hdamaged.lineage_fst]
      cases hd : damaged.source.lineage "app.Leaf" with
      | error e =>
        rw [hd] at hfailure
        exact congrArg _ (Except.error.inj hfailure)
      | ok l =>
        rw [hd] at hfailure
        cases hfailure
    · exact ((hfound _ _ _ hmember).2 damaged hdamaged (by rwa [hrequested])).1

end InheritedConstant

end JvmAudit
