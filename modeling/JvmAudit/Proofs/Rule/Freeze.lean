import JvmAudit.Proofs.Rule.RuleSet
import JvmAudit.Proofs.Scan.Basic
import Mathlib.Data.List.Perm.Subperm

/-!
# Strict and lenient binding

Where a rule goes when a book is bound to a class path is said without the search that decides it: a
rule about one class is found if a walk from that class comes to a class that declares the member
(`Rule.IsFound`, `Places`). The search stops at the first such class, and so does not see failures
behind it.

A book that can be bound leniently is bound strictly in the same way, unless a rule is not found
that must be (`freeze_strict_or_lenient`).
-/

namespace JvmAudit

open Result

/-! ## Rules that are found -/

/-- A class declares what a rule about one of its members forbids. -/
def RuleTarget.DeclaredIn (c : ClassFile) : RuleTarget → Prop
  | .overload name params =>
    ∃ m ∈ c.methods, m.name = name ∧ paramsPart m.descriptor = paramsText params
  | .member name => (∃ f ∈ c.fields, f.name = name) ∨ ∃ m ∈ c.methods, m.name = name
  | .type => True
  | .annotated => True

namespace Rule

variable {s : ClassSource} {r : Rule}

/-- A rule about one class. -/
def IsPlain (r : Rule) : Prop := r.target ≠ .annotated ∧ r.owner.isGlob = false

/-- The class of a rule can be loaded and, for a rule about a member, a walk from there comes to a
class that declares it. -/
def IsFound (s : ClassSource) (r : Rule) : Prop :=
  (∃ c, s.load r.owner.text = .ok (some c)) ∧
    (r.target.member?.isSome = true → ∃ c, Walk.Reaches s (.start r.owner.text) c ∧
      r.target.DeclaredIn c)

/-- A rule about one class that is not found. -/
def IsUnresolved (s : ClassSource) (r : Rule) : Prop := r.IsPlain ∧ ¬r.IsFound s

/-- The search for a member gives no reason iff a walk comes to a class that declares it. -/
theorem memberReason?_eq_none_iff {owner : String} {query : MemberQuery}
    {resolution : MemberResolution}
    (h : s.resolveMember owner query = .ok resolution) (name : String) :
    memberReason? owner name resolution = none ↔
      ∃ c, Walk.Reaches s (.start owner) c ∧ query.declaredIn c = true := by
  rw [ClassSource.resolveMember_eq, ClassSource.collect_eq] at h
  rcases hcollect : s.collectFrom query.declaredIn (.start owner) [] with ⟨outcome, w⟩
  rw [hcollect] at h
  cases outcome with
  | error e => cases h
  | ok classes =>
    have hfound := Walk.exists_mem_collectFrom_iff _ _ (congrArg Prod.fst hcollect)
    simp only [List.not_mem_nil, false_and, exists_false, false_or] at hfound
    rw [← hfound]
    cases classes with
    | nil =>
      -- not even the owner was loaded
      cases h
      simp [memberReason?]
    | cons c classes =>
      cases h
      cases hidx : List.findIdx? query.declaredIn (c :: classes) with
      | some i =>
        have hsome : (List.findIdx? query.declaredIn (c :: classes)).isSome = true := by
          rw [hidx]; rfl
        rw [List.findIdx?_isSome, List.any_eq_true] at hsome
        exact iff_of_true rfl hsome
      | none =>
        -- the reason depends on whether ancestors are missing, that there is one does not
        have hno : ¬∃ d ∈ c :: classes, query.declaredIn d = true := by
          rintro ⟨d, hd, hdeclared⟩
          exact absurd hdeclared (by simp [List.findIdx?_eq_none_iff.1 hidx d hd])
        cases w.missing with
        | nil => exact iff_of_false (by simp [memberReason?]) hno
        | cons name names => exact iff_of_false (by simp [memberReason?]) hno

theorem declaredIn_overload_iff {c : ClassFile} {name : String} {params : List FieldType} :
    (MemberQuery.overload name (RuleTarget.paramsText params)).declaredIn c = true ↔
      (RuleTarget.overload name params).DeclaredIn c := by
  simp [MemberQuery.declaredIn, ClassFile.overload?, ClassFile.isOverload, RuleTarget.DeclaredIn]

theorem declaredIn_named_iff {c : ClassFile} {name : String} :
    (MemberQuery.named name).declaredIn c = true ↔ (RuleTarget.member name).DeclaredIn c := by
  simp [MemberQuery.declaredIn, ClassFile.declaresNamed, ClassFile.field?, RuleTarget.DeclaredIn]

/-- A rule about a member is found iff a class that can be reached from its owner declares the
member. -/
theorem reasonOn_eq_ok_of_memberQuery? {name : String} {query : MemberQuery}
    {reason : Option UnresolvedReason}
    (hq : r.memberQuery? = some (name, query)) (h : r.reasonOn s = .ok reason) :
    reason = none ↔ ∃ c, Walk.Reaches s (.start r.owner.text) c ∧ query.declaredIn c = true := by
  unfold reasonOn at h
  rw [hq] at h
  obtain ⟨resolution, hresolve, rfl⟩ := map_eq_ok.1 h
  exact memberReason?_eq_none_iff hresolve name

/-- A rule about a class is found iff the class is. -/
theorem reasonOn_eq_ok_of_no_member {reason : Option UnresolvedReason} (hq : r.memberQuery? = none)
    (h : r.reasonOn s = .ok reason) : reason = none ↔ ∃ c, s.load r.owner.text = .ok (some c) := by
  unfold reasonOn at h
  rw [hq] at h
  obtain ⟨found, hload, rfl⟩ := map_eq_ok.1 h
  rw [hload]
  cases found <;> simp [ownerReason?]

/-- A rule is not resolved for some reason iff it is not found. -/
theorem reasonOn_eq_none_iff {reason : Option UnresolvedReason} (h : r.reasonOn s = .ok reason) :
    reason = none ↔ r.IsFound s := by
  have hmember : (∃ c, Walk.Reaches s (.start r.owner.text) c ∧ r.target.DeclaredIn c) →
      ∃ c, s.load r.owner.text = .ok (some c) := fun ⟨_, hr, _⟩ => hr.exists_load
  unfold IsFound
  cases htarget : r.target with
  | overload name params =>
    rw [htarget] at hmember
    rw [reasonOn_eq_ok_of_memberQuery? (by rw [memberQuery?, htarget]) h]
    simp only [declaredIn_overload_iff]
    exact ⟨fun hf => ⟨hmember hf, fun _ => hf⟩, fun hf => hf.2 rfl⟩
  | member name =>
    rw [htarget] at hmember
    rw [reasonOn_eq_ok_of_memberQuery? (by rw [memberQuery?, htarget]) h]
    simp only [declaredIn_named_iff]
    exact ⟨fun hf => ⟨hmember hf, fun _ => hf⟩, fun hf => hf.2 rfl⟩
  | type | annotated =>
    rw [reasonOn_eq_ok_of_no_member (by rw [memberQuery?, htarget]) h]
    simp [RuleTarget.member?]

end Rule

/-! ## Where a rule goes -/

namespace RuleBook

variable {s : ClassSource} {strict : Bool} {p : PendingRule} {ps : List PendingRule}
  {set set' : RuleSet}

/-- What becomes of a rule: it is about annotations, its owner is a pattern, it is found, or it is
not. -/
theorem bindingOf_cases {r : Rule} {binding : Rule.Binding} (h : bindingOf s r = .ok binding) :
    binding = .annotated ∧ r.target = .annotated ∨
      binding = .glob ∧ r.target ≠ .annotated ∧ r.owner.isGlob = true ∨
      binding = .exact ∧ r.IsPlain ∧ r.IsFound s ∨
      ∃ reason, binding = .unresolved reason ∧ r.IsUnresolved s := by
  unfold bindingOf at h
  by_cases ht : r.target = .annotated
  · rw [if_pos ht] at h
    cases h
    exact .inl ⟨rfl, ht⟩
  · rw [if_neg ht] at h
    by_cases hg : r.owner.isGlob = true
    · rw [if_pos hg] at h
      cases h
      exact .inr (.inl ⟨rfl, ht, hg⟩)
    · rw [if_neg hg] at h
      have hplain : r.IsPlain := ⟨ht, by simpa using hg⟩
      obtain ⟨reason, hreason, h⟩ := map_eq_ok.1 h
      have hfound := Rule.reasonOn_eq_none_iff hreason
      cases reason with
      | none => exact .inr (.inr (.inl ⟨h.symm, hplain, hfound.1 rfl⟩))
      | some reason => exact .inr (.inr (.inr ⟨reason, h.symm, hplain, mt hfound.2 (by simp)⟩))

/-- The rules that are dropped are those that are not found. -/
theorem drops_iff {binding : Rule.Binding} (h : bindingOf s p.rule = .ok binding) :
    drops s p = true ↔ p.rule.IsUnresolved s := by
  rcases bindingOf_cases h with ⟨rfl, ht⟩ | ⟨rfl, ht, hg⟩ | ⟨rfl, hp, hf⟩ | ⟨reason, rfl, hu⟩
  · simp [drops, h, Rule.IsUnresolved, Rule.IsPlain, ht]
  · simp [drops, h, Rule.IsUnresolved, Rule.IsPlain, hg]
  · simp [drops, h, Rule.IsUnresolved, hf]
  · simp [drops, h, hu]

theorem becomes_exact_iff {binding : Rule.Binding} (h : bindingOf s p.rule = .ok binding) :
    becomes s .exact p = true ↔ p.rule.IsPlain ∧ p.rule.IsFound s := by
  rcases bindingOf_cases h with ⟨rfl, ht⟩ | ⟨rfl, ht, hg⟩ | ⟨rfl, hp, hf⟩ | ⟨reason, rfl, hp, hf⟩
  · simp [becomes, h, Rule.IsPlain, ht]
  · simp [becomes, h, Rule.IsPlain, hg]
  · simp [becomes, h, hp, hf]
  · simp [becomes, h, hf]

theorem becomes_glob_iff :
    becomes s .glob p = true ↔ p.rule.target ≠ .annotated ∧ p.rule.owner.isGlob = true := by
  refine ⟨owner_of_becomes_glob, fun ⟨ht, hg⟩ => ?_⟩
  simp [becomes, bindingOf, ht, hg]

theorem becomes_annotated_iff : becomes s .annotated p = true ↔ p.rule.target = .annotated := by
  refine ⟨target_of_becomes, fun ht => ?_⟩
  simp [becomes, bindingOf, ht]

open Classical in
/-- Where the rules go that are bound to a class path, in their order. -/
structure Places (s : ClassSource) (ps : List PendingRule) (set : RuleSet) : Prop where
  exact : set.exact =
    (ps.filter fun p => p.rule.IsPlain ∧ p.rule.IsFound s).map fun p => (p.rule.key, p.rule)
  globs : set.globs =
    (ps.filter fun p => p.rule.target ≠ .annotated ∧ p.rule.owner.isGlob = true).map (·.rule)
  annotated : set.annotated = (ps.filter fun p => p.rule.target = .annotated).map (·.rule)
  unresolved : set.unresolved = (ps.filter fun p => p.rule.IsUnresolved s).map (·.rule.display)

/-- If each rule can be bound, all of them are in their places. -/
theorem Binds.places (h : Binds s ps .empty set)
    (hok : ∀ p ∈ ps, ∃ binding, bindingOf s p.rule = .ok binding) :
    Places s ps set := by
  classical
  refine ⟨?_, ?_, ?_, ?_⟩
  · rw [h.exact, RuleSet.empty, List.nil_append]
    congr 1
    refine List.filter_congr fun p hp => ?_
    obtain ⟨binding, hb⟩ := hok p hp
    rw [Bool.eq_iff_iff, becomes_exact_iff hb, decide_eq_true_iff]
  · rw [h.globs, RuleSet.empty, List.nil_append]
    congr 1
    refine List.filter_congr fun p _ => ?_
    rw [Bool.eq_iff_iff, becomes_glob_iff, decide_eq_true_iff]
  · rw [h.annotated, RuleSet.empty, List.nil_append]
    congr 1
    refine List.filter_congr fun p _ => ?_
    rw [Bool.eq_iff_iff, becomes_annotated_iff, decide_eq_true_iff]
  · rw [h.unresolved, RuleSet.empty, List.nil_append]
    congr 1
    refine List.filter_congr fun p hp => ?_
    obtain ⟨binding, hb⟩ := hok p hp
    rw [Bool.eq_iff_iff, drops_iff hb, decide_eq_true_iff]

/-! ## One rule after the other -/

/-- The keys of a set, not sorted. -/
def keysOf (set : RuleSet) : List String :=
  set.exact.map (·.1) ++ set.globs.map Rule.key ++ set.annotated.map Rule.key

/-- Each rule is counted once, among those in force or among the unresolved ones. -/
theorem size_place {r : Rule} (hnew : r.key ∉ set.exact.map (·.1)) (binding : Rule.Binding) :
    (place set r binding).size + (place set r binding).unresolved.length =
      set.size + set.unresolved.length + 1 := by
  unfold RuleSet.size
  cases binding with
  | exact => simp only [place, put_of_notMem hnew, List.length_append, List.length_singleton]; omega
  | glob => simp only [place, List.length_append, List.length_singleton]; omega
  | annotated => simp only [place, List.length_append, List.length_singleton]; omega
  | unresolved reason => simp only [place, List.length_append, List.length_singleton]; omega

/-- No key is in force that is not that of a rule. -/
theorem keysOf_place {r : Rule} (hnew : r.key ∉ set.exact.map (·.1)) (binding : Rule.Binding) :
    (keysOf (place set r binding)).Subperm (r.key :: keysOf set) := by
  unfold keysOf
  cases binding with
  | exact =>
    refine List.Perm.subperm ?_
    simp only [place, put_of_notMem hnew, List.map_append, List.map_cons, List.map_nil,
      List.append_assoc, List.cons_append, List.nil_append]
    exact List.perm_middle
  | glob =>
    refine List.Perm.subperm ?_
    simp only [place, List.map_append, List.map_cons, List.map_nil]
    rw [← List.append_assoc, List.append_assoc _ [r.key], List.singleton_append]
    exact List.perm_middle
  | annotated =>
    refine List.Perm.subperm ?_
    simp only [place, List.map_append, List.map_cons, List.map_nil]
    rw [← List.append_assoc]
    exact List.perm_append_singleton _ _
  | unresolved reason => exact (List.sublist_cons_self _ _).subperm

/-- Each rule goes to one place, and brings at most its own key. -/
theorem size_foldlM (hkeys : (ps.map (·.rule.key)).Nodup)
    (hnew : ∀ p ∈ ps, p.rule.key ∉ set.exact.map (·.1))
    (h : ps.foldlM (freezeRule s strict) set = .ok set') :
    set'.size + set'.unresolved.length = set.size + set.unresolved.length + ps.length ∧
      (keysOf set').Subperm (ps.map (·.rule.key) ++ keysOf set) := by
  induction ps generalizing set with
  | nil =>
    cases h
    exact ⟨rfl, List.Subperm.refl _⟩
  | cons p ps ih =>
    rw [List.foldlM_cons] at h
    obtain ⟨mid, hmid, h⟩ := bind_eq_ok.1 h
    have hp := hnew p List.mem_cons_self
    have hrest := (binds_freezeRule hp hmid).notMem_of_cons hkeys hnew
    obtain ⟨binding, _, rfl⟩ := exists_place_of_freezeRule hmid
    obtain ⟨hsize, hsub⟩ := ih (List.nodup_cons.1 hkeys).2 hrest h
    have hplace := size_place hp binding
    refine ⟨by rw [hsize, List.length_cons]; omega, hsub.trans ?_⟩
    rw [List.map_cons, List.cons_append]
    refine List.Subperm.trans ?_ List.perm_middle.subperm
    exact (List.subperm_append_left _).2 (keysOf_place hp binding)

/-- All rules of a book are accounted for. -/
theorem size_freeze {book : RuleBook} (hbook : Reachable book)
    (h : book.freeze s strict = .ok set) :
    set.size + set.unresolved.length = book.rules.length ∧
      (keysOf set).Subperm (book.rules.map (·.rule.key)) := by
  rw [freeze_eq] at h
  simpa [RuleSet.empty, RuleSet.size, keysOf] using
    size_foldlM hbook.sound.rules_nodup (by simp [RuleSet.empty]) h

/-- The keys that are in force are listed in order, each once. -/
theorem keys_sorted {book : RuleBook} (hbook : Reachable book)
    (h : book.freeze s strict = .ok set) :
    set.keys.Pairwise (· < ·) := by
  obtain ⟨some, hperm, hsub⟩ := (size_freeze hbook h).2
  have hnodup : (keysOf set).Nodup := hperm.nodup_iff.1 (hsub.nodup hbook.sound.rules_nodup)
  have hne : set.keys.Pairwise (· ≠ ·) := (List.mergeSort_perm (keysOf set) _).nodup_iff.2 hnodup
  have hle : set.keys.Pairwise (· ≤ ·) := Scanner.pairwise_mergeSort_le (keysOf set)
  exact (hle.and hne).imp fun h => Std.lt_of_le_of_ne h.1 h.2

/-! ## Strict binding -/

theorem freezeRule_lenient {binding : Rule.Binding} (h : bindingOf s p.rule = .ok binding)
    (set : RuleSet) :
    freezeRule s false set p = .ok (place set p.rule binding) := by
  rw [freezeRule_of_ok h]
  cases binding with
  | exact | glob | annotated | unresolved reason => rfl

/-- Lenient binding fails only if the class path cannot be read. -/
theorem exists_foldlM_lenient
    (hs : ∀ e, ps.foldlM (freezeRule s false) set ≠ .error (.classpath e)) :
    (∀ p ∈ ps, ∃ binding, bindingOf s p.rule = .ok binding) ∧
      ∃ set', ps.foldlM (freezeRule s false) set = .ok set' := by
  induction ps generalizing set with
  | nil => exact ⟨by simp, set, rfl⟩
  | cons p ps ih =>
    rw [List.foldlM_cons] at hs ⊢
    cases hb : bindingOf s p.rule with
    | error e =>
      rw [freezeRule_of_error hb] at hs
      exact absurd rfl (hs e)
    | ok binding =>
      rw [freezeRule_lenient hb] at hs ⊢
      obtain ⟨hall, set', hset'⟩ := ih hs
      exact ⟨List.forall_mem_cons.2 ⟨⟨binding, hb⟩, hall⟩, set', hset'⟩

theorem exists_reason_of_drops (h : drops s p = true) :
    ∃ reason, bindingOf s p.rule = .ok (.unresolved reason) := by
  unfold drops at h
  split at h
  · exact ⟨_, by assumption⟩
  · cases h

/-- If only lenient rules are dropped, strict binding is the same as lenient binding. -/
theorem foldlM_strict (h : ∀ p ∈ ps, drops s p = true → p.lenient = true) (set : RuleSet) :
    ps.foldlM (freezeRule s true) set = ps.foldlM (freezeRule s false) set := by
  induction ps generalizing set with
  | nil => rfl
  | cons p ps ih =>
    have hrule : freezeRule s true set p = freezeRule s false set p := by
      have hp := h p List.mem_cons_self
      unfold drops at hp
      cases hb : bindingOf s p.rule with
      | error e => rw [freezeRule_of_error hb, freezeRule_of_error hb]
      | ok binding =>
        rw [freezeRule_of_ok hb, freezeRule_of_ok hb]
        cases binding with
        | unresolved reason =>
          rw [hb] at hp
          simp [settle, hp rfl]
        | exact | glob | annotated => rfl
    rw [List.foldlM_cons, List.foldlM_cons, hrule]
    congr 1
    funext mid
    exact ih (fun q hq => h q (List.mem_cons_of_mem _ hq)) mid

/-- The first rule that is dropped and must not be makes strict binding fail. -/
theorem exists_freeze_error {book : RuleBook} (hlenient : book.freeze s false = .ok set)
    (hdrops : ∀ p ∈ book.rules, (drops s p = true ↔ p.rule.IsUnresolved s))
    (h : ∃ p ∈ book.rules, p.rule.IsUnresolved s ∧ p.lenient = false) :
    ∃ front p back reason, book.rules = front ++ p :: back ∧
      (∀ q ∈ front, q.rule.IsUnresolved s → q.lenient = true) ∧ p.rule.IsUnresolved s ∧
      p.lenient = false ∧
      book.freeze s true = .error (.unresolvable p.origin p.line p.rule.display reason) := by
  obtain ⟨p, hfind⟩ : ∃ p, book.rules.find? (fun p => drops s p && !p.lenient) = some p := by
    obtain ⟨p, hp, hu, hl⟩ := h
    refine Option.isSome_iff_exists.1 (List.find?_isSome.2 ⟨p, hp, ?_⟩)
    simp [(hdrops p hp).2 hu, hl]
  obtain ⟨hp, front, back, hrules, hfront⟩ := List.find?_eq_some_iff_append.1 hfind
  simp only [Bool.and_eq_true, Bool.not_eq_true'] at hp
  have hfront : ∀ q ∈ front, drops s q = true → q.lenient = true := by
    intro q hq hd
    simpa [hd] using hfront q hq
  obtain ⟨reason, hreason⟩ := exists_reason_of_drops hp.1
  refine ⟨front, p, back, reason, hrules, ?_, ?_, hp.2, ?_⟩
  · intro q hq hu
    exact hfront q hq ((hdrops q (by simp [hrules, hq])).2 hu)
  · exact (hdrops p (by simp [hrules])).1 hp.1
  · -- up to that rule, strict binding does what lenient binding does
    rw [freeze_eq, hrules, List.foldlM_append] at hlenient ⊢
    obtain ⟨mid, hmid, _⟩ := bind_eq_ok.1 hlenient
    refine bind_eq_error.2 (.inr ⟨mid, (foldlM_strict hfront _).trans hmid, ?_⟩)
    have hrule : freezeRule s true mid p =
        .error (.unresolvable p.origin p.line p.rule.display reason) := by
      rw [freezeRule_of_ok hreason]
      simp [settle, hp.2]
    rw [List.foldlM_cons, hrule]
    rfl

/-- **Strict and lenient binding agree.** If the class path can be read as far as the rules ask,
lenient binding succeeds. Each rule then goes to one place, in the order of registration: rules
about annotations and rules with a pattern to theirs, and a rule about one class to the exact rules
if it is found and to the unresolved ones if it is not. The keys of the rules that can match are
sorted, each once.

Strict binding gives the same set if all unresolved rules are lenient. Otherwise it fails, and names
the first unresolved rule that is not. -/
theorem freeze_strict_or_lenient {book : RuleBook} {s : ClassSource} (hbook : Reachable book)
    (hs : ∀ e, book.freeze s false ≠ .error (.classpath e)) :
    ∃ set, book.freeze s false = .ok set ∧ Places s book.rules set ∧
      set.size + set.unresolved.length = book.rules.length ∧ set.keys.Pairwise (· < ·) ∧
      (book.freeze s true = .ok set ↔ ∀ p ∈ book.rules, p.rule.IsUnresolved s → p.lenient = true) ∧
      ((∃ p ∈ book.rules, p.rule.IsUnresolved s ∧ p.lenient = false) →
        ∃ front p back reason, book.rules = front ++ p :: back ∧
          (∀ q ∈ front, q.rule.IsUnresolved s → q.lenient = true) ∧ p.rule.IsUnresolved s ∧
          p.lenient = false ∧
          book.freeze s true = .error (.unresolvable p.origin p.line p.rule.display reason)) := by
  obtain ⟨hok, set, hset⟩ := exists_foldlM_lenient fun e => freeze_eq book s false ▸ hs e
  rw [← freeze_eq] at hset
  have hdrops : ∀ p ∈ book.rules, (drops s p = true ↔ p.rule.IsUnresolved s) := by
    intro p hp
    obtain ⟨binding, hb⟩ := hok p hp
    exact drops_iff hb
  have hfails := exists_freeze_error hset hdrops
  refine ⟨set, hset, (binds_freeze hbook.sound hset).places hok, (size_freeze hbook hset).1,
    keys_sorted hbook hset, ⟨?_, ?_⟩, hfails⟩
  · intro hstrict p hp hu
    by_contra hl
    obtain ⟨_, _, _, _, _, _, _, _, herror⟩ := hfails ⟨p, hp, hu, by simpa using hl⟩
    rw [hstrict] at herror
    cases herror
  · intro hall
    have hlenient : ∀ p ∈ book.rules, drops s p = true → p.lenient = true :=
      fun p hp hd => hall p hp ((hdrops p hp).1 hd)
    rw [freeze_eq, foldlM_strict hlenient, ← freeze_eq]
    exact hset

end RuleBook

/-! ## A member that is not declared -/

namespace MissingMember

open InheritedCall (source)

def lenientBook : RuleBook :=
  (RuleBook.empty.run
    (RuleBook.addText "may" "@ignoreUnresolvable\nlib.Gone\nlib.*#run\n@lib.Marker")).2

def book : RuleBook :=
  (lenientBook.run (RuleBook.addText "must" "lib.Derived#run()\nlib.Derived#walk\nlib.Gone#run")).2

theorem freeze_strict_or_lenient_walk : ∃ set, book.freeze source false = .ok set ∧
    RuleBook.Places source book.rules set ∧ set.size + set.unresolved.length = 6 ∧
    set.keys.Pairwise (· < ·) ∧
    ∃ p ∈ book.rules, p.origin = "must" ∧ p.line = 2 ∧ p.rule.display = "lib.Derived#walk" ∧
      p.rule.IsUnresolved source ∧ p.lenient = false := by
  have hbook : RuleBook.Reachable book := .addText (.addText .refl _ _) _ _
  have hlength : book.rules.length = 6 := by decide +kernel
  have hlenient : (book.freeze source false).isOk = true := by decide +kernel
  have hstrict : book.freeze source true =
      .error (.unresolvable "must" 2 "lib.Derived#walk" (.missingMember "walk" "lib.Derived")) := by
    decide +kernel
  have hs : ∀ e, book.freeze source false ≠ .error (.classpath e) := by
    intro e he
    rw [he] at hlenient
    cases hlenient
  obtain ⟨set, hset, hplaces, hsize, hkeys, hagree, hfails⟩ :=
    RuleBook.freeze_strict_or_lenient hbook hs
  refine ⟨set, hset, hplaces, hlength ▸ hsize, hkeys, ?_⟩
  have hnot : ¬∀ p ∈ book.rules, p.rule.IsUnresolved source → p.lenient = true := by
    intro hall
    rw [hagree.2 hall] at hstrict
    cases hstrict
  push Not at hnot
  obtain ⟨q, hq, hu, hl⟩ := hnot
  obtain ⟨front, p, back, reason, hrules, _, hp, hpl, herror⟩ :=
    hfails ⟨q, hq, hu, by simpa using hl⟩
  rw [hstrict] at herror
  simp only [Except.error.injEq, RuleBookError.unresolvable.injEq] at herror
  obtain ⟨horigin, hline, htext, _⟩ := herror
  exact ⟨p, by simp [hrules], horigin.symm, hline.symm, htext.symm, hp, hpl⟩

end MissingMember

end JvmAudit
