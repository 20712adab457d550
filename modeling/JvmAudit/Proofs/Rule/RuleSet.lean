import JvmAudit.Proofs.Classpath.Walk
import JvmAudit.Proofs.Rule.Book
import JvmAudit.Proofs.Search
import JvmAudit.Rule.RuleSet

/-!
# Bound rules

What binding the rules of a book gives (`Binds`, `binds_freeze`), and what the look-ups by key find.
A rule would take the place of another one with the same key, but the rules of a book have different
keys. Keys are texts, so a look-up could find a rule about something else with the same text. For
class names without a `#` it does not, because no owner of a rule has one
(`RuleSet.Sound.type?_eq_some_iff`, `member?_eq_some_iff`).
-/

namespace JvmAudit

open Result

/-! ## Binding on a class path -/

section Eval

variable {s : ClassSource} {mentioned : List String}
  {hload : ∀ name, Answer.supertypes (s.load name) ⊆ mentioned}

/-- The reason for which a rule about one class is not found on a class path. -/
def Rule.reasonOn (s : ClassSource) (r : Rule) : Except ClasspathError (Option UnresolvedReason) :=
  match r.memberQuery? with
  | some (name, query) =>
    (s.resolveMember r.owner.text query).map (memberReason? r.owner.text name)
  | none => (s.load r.owner.text).map (ownerReason? r.owner.text)

theorem Rule.eval_unresolved? (r : Rule) : r.unresolved?.eval s.load hload = r.reasonOn s := by
  unfold unresolved? reasonOn
  cases r.memberQuery? with
  | none => exact Query.eval_map ..
  | some member =>
    refine (Query.eval_map ..).trans ?_
    rw [ClassSource.eval_resolve, ← ClassSource.resolveMember_eq]

namespace RuleBook

/-- What becomes of a rule on a class path. -/
def bindingOf (s : ClassSource) (r : Rule) : Except ClasspathError Rule.Binding :=
  if r.target = .annotated then .ok .annotated
  else if r.owner.isGlob then .ok .glob
  else (r.reasonOn s).map Rule.Binding.ofReason

/-- Binds one rule to a class path. -/
def freezeRule (s : ClassSource) (strict : Bool) (set : RuleSet) (p : PendingRule) :
    Except RuleBookError RuleSet :=
  (bindingOf s p.rule).mapError .classpath >>= settle strict set p

theorem eval_binding (r : Rule) : r.binding.eval s.load hload = bindingOf s r := by
  unfold Rule.binding bindingOf
  split
  · rfl
  · split
    · rfl
    · rw [Query.eval_map, Rule.eval_unresolved?]

/-- To bind a book is to bind its rules, one after the other. -/
theorem eval_bind (book : RuleBook) (strict : Bool) :
    (book.bind strict).eval s.load hload = book.rules.foldlM (freezeRule s strict) .empty := by
  unfold RuleBook.bind
  rw [Query.eval_foldlM]
  congr 1
  funext set p
  unfold bindRule freezeRule
  rw [Query.eval_bind, Query.eval_adapt, eval_binding]
  rfl

/-- The rules of a book are bound one after the other. -/
theorem freeze_eq (book : RuleBook) (s : ClassSource) (strict : Bool) :
    book.freeze s strict = book.rules.foldlM (freezeRule s strict) .empty := eval_bind ..

theorem freezeRule_of_error {strict : Bool} {set : RuleSet} {p : PendingRule} {e : ClasspathError}
    (h : bindingOf s p.rule = .error e) : freezeRule s strict set p = .error (.classpath e) := by
  unfold freezeRule
  rw [h]
  rfl

theorem freezeRule_of_ok {strict : Bool} {set : RuleSet} {p : PendingRule} {binding : Rule.Binding}
    (h : bindingOf s p.rule = .ok binding) :
    freezeRule s strict set p = settle strict set p binding := by
  unfold freezeRule
  rw [h]
  rfl

/-- A rule that is bound is put in its place. -/
theorem exists_place_of_freezeRule {strict : Bool} {set set' : RuleSet} {p : PendingRule}
    (h : freezeRule s strict set p = .ok set') :
    ∃ binding, bindingOf s p.rule = .ok binding ∧ set' = place set p.rule binding := by
  cases hb : bindingOf s p.rule with
  | error e =>
    rw [freezeRule_of_error hb] at h
    cases h
  | ok binding =>
    rw [freezeRule_of_ok hb] at h
    refine ⟨binding, rfl, ?_⟩
    cases binding with
    | unresolved reason =>
      simp only [settle] at h
      split at h
      · cases h
      · exact (Except.ok.inj h).symm
    | exact | glob | annotated => exact (Except.ok.inj h).symm

end RuleBook

end Eval

namespace RuleBook

/-- Whether a rule becomes this when it is bound to a class path. -/
def becomes (s : ClassSource) (binding : Rule.Binding) (p : PendingRule) : Bool :=
  bindingOf s p.rule = .ok binding

/-- Whether a rule is dropped when it is bound to a class path. -/
def drops (s : ClassSource) (p : PendingRule) : Bool :=
  match bindingOf s p.rule with
  | .ok (.unresolved _) => true
  | _ => false

/-- The second set is the first one with more rules bound to a class path, in their order. -/
structure Binds (s : ClassSource) (ps : List PendingRule) (before after : RuleSet) : Prop where
  exact : after.exact = before.exact ++ (ps.filter (becomes s .exact)).map fun p =>
    (p.rule.key, p.rule)
  globs : after.globs = before.globs ++ (ps.filter (becomes s .glob)).map (·.rule)
  annotated : after.annotated = before.annotated ++ (ps.filter (becomes s .annotated)).map (·.rule)
  unresolved : after.unresolved = before.unresolved ++ (ps.filter (drops s)).map (·.rule.display)

theorem Binds.refl (s : ClassSource) (set : RuleSet) : Binds s [] set set :=
  ⟨by simp, by simp, by simp, by simp⟩

/-- To bind some rules and then others is to bind all of them. -/
theorem Binds.trans {s : ClassSource} {ps qs : List PendingRule} {a b c : RuleSet}
    (h : Binds s ps a b) (h' : Binds s qs b c) : Binds s (ps ++ qs) a c where
  exact := by rw [h'.exact, h.exact]; simp
  globs := by rw [h'.globs, h.globs]; simp
  annotated := by rw [h'.annotated, h.annotated]; simp
  unresolved := by rw [h'.unresolved, h.unresolved]; simp

/-- A rule with a new key is put behind the others. -/
theorem put_of_notMem {key : String} {r : Rule} {exact : List (String × Rule)}
    (h : key ∉ exact.map (·.1)) : RuleSet.put key r exact = exact ++ [(key, r)] := by
  induction exact with
  | nil => rfl
  | cons e rest ih =>
    rw [List.map_cons, List.mem_cons, not_or] at h
    obtain ⟨hne, hrest⟩ := h
    rw [RuleSet.put, if_neg (Ne.symm hne), ih hrest, List.cons_append]

/-- One rule is put in its place. Its key is new, so nothing is replaced. -/
theorem binds_freezeRule {s : ClassSource} {strict : Bool} {before after : RuleSet}
    {p : PendingRule}
    (hnew : p.rule.key ∉ before.exact.map (·.1)) (h : freezeRule s strict before p = .ok after) :
    Binds s [p] before after := by
  obtain ⟨binding, hb, rfl⟩ := exists_place_of_freezeRule h
  cases binding with
  | unresolved | exact | glob | annotated =>
    constructor <;> simp [becomes, drops, hb, place, put_of_notMem hnew]

/-- Rules with different keys that a set has none of still are new to it after the first one is
bound. -/
theorem Binds.notMem_of_cons {s : ClassSource} {p : PendingRule} {ps : List PendingRule}
    {before mid : RuleSet} (h : Binds s [p] before mid) (hkeys : ((p :: ps).map (·.rule.key)).Nodup)
    (hnew : ∀ q ∈ p :: ps, q.rule.key ∉ before.exact.map (·.1)) :
    ∀ q ∈ ps, q.rule.key ∉ mid.exact.map (·.1) := by
  intro q hq hmem
  rw [h.exact, List.map_append, List.mem_append, List.map_map] at hmem
  rcases hmem with hmem | hmem
  · exact hnew q (List.mem_cons_of_mem _ hq) hmem
  · have hsame : q.rule.key ∈ [p].map (·.rule.key) := (List.filter_sublist.map _).subset hmem
    rw [List.map_singleton, List.mem_singleton] at hsame
    exact (List.nodup_cons.1 hkeys).1 (List.mem_map.2 ⟨q, hq, hsame⟩)

/-- Rules with different keys are all put in their places. -/
theorem binds_foldlM {s : ClassSource} {strict : Bool} {ps : List PendingRule}
    {before after : RuleSet}
    (hkeys : (ps.map (·.rule.key)).Nodup) (hnew : ∀ p ∈ ps, p.rule.key ∉ before.exact.map (·.1))
    (h : ps.foldlM (freezeRule s strict) before = .ok after) : Binds s ps before after := by
  induction ps generalizing before with
  | nil =>
    cases h
    exact .refl s _
  | cons p ps ih =>
    rw [List.foldlM_cons] at h
    obtain ⟨mid, hm, h⟩ := bind_eq_ok.1 h
    have hfirst := binds_freezeRule (hnew p List.mem_cons_self) hm
    exact hfirst.trans (ih (List.nodup_cons.1 hkeys).2 (hfirst.notMem_of_cons hkeys hnew) h)

/-- A bound book has the rules of the book, each in the place that the class path gives it. No rule
takes the place of another one, since they have different keys. -/
theorem binds_freeze {book : RuleBook} {s : ClassSource} {strict : Bool} {set : RuleSet}
    (hbook : Sound book) (h : book.freeze s strict = .ok set) : Binds s book.rules .empty set := by
  rw [freeze_eq] at h
  exact binds_foldlM hbook.rules_nodup (by simp [RuleSet.empty]) h

theorem target_of_becomes {s : ClassSource} {p : PendingRule} (h : becomes s .annotated p = true) :
    p.rule.target = .annotated := by
  simp only [becomes, decide_eq_true_eq] at h
  unfold bindingOf at h
  split at h
  · assumption
  · split at h
    · cases h
    · obtain ⟨reason, _, h⟩ := map_eq_ok.1 h
      cases reason <;> cases h

/-- Only rules with a pattern for an owner are tried one by one. -/
theorem owner_of_becomes_glob {s : ClassSource} {p : PendingRule} (h : becomes s .glob p = true) :
    p.rule.target ≠ .annotated ∧ p.rule.owner.isGlob = true := by
  simp only [becomes, decide_eq_true_eq] at h
  unfold bindingOf at h
  split at h
  · cases h
  · next ht =>
    split at h
    · next hg => exact ⟨ht, hg⟩
    · obtain ⟨reason, _, h⟩ := map_eq_ok.1 h
      cases reason <;> cases h

/-- Only rules without a pattern are looked up by key. -/
theorem owner_of_becomes_exact {s : ClassSource} {p : PendingRule} (h : becomes s .exact p = true) :
    p.rule.target ≠ .annotated ∧ p.rule.owner.isGlob = false := by
  simp only [becomes, decide_eq_true_eq] at h
  unfold bindingOf at h
  split at h
  · cases h
  · next ht =>
    split at h
    · cases h
    · next hg => exact ⟨ht, by simpa using hg⟩

end RuleBook

namespace RuleSet

/-- The rules about one class. -/
def exactRules (set : RuleSet) : List Rule := set.exact.map (·.2)

/-- The rules that can match. -/
def rules (set : RuleSet) : List Rule := set.exactRules ++ set.globs ++ set.annotated

/-- A set that comes from a book that can be made. -/
def Frozen (set : RuleSet) : Prop :=
  ∃ book source strict, RuleBook.Reachable book ∧ book.freeze source strict = .ok set

/-- What is known of the rules of a set. -/
structure Sound (set : RuleSet) : Prop where
  wellFormed : ∀ r ∈ set.rules, r.WellFormed
  keys_eq : set.exact.map (·.1) = set.exactRules.map Rule.key
  keys_nodup : (set.exact.map (·.1)).Nodup
  exact_owner : ∀ r ∈ set.exactRules, r.target ≠ .annotated ∧ r.owner.isGlob = false
  globs_owner : ∀ r ∈ set.globs, r.target ≠ .annotated ∧ r.owner.isGlob = true
  annotated_target : ∀ r ∈ set.annotated, r.target = .annotated

/-- Rules that were bound are sound: each of them is where the search expects it. -/
theorem Frozen.sound {set : RuleSet} (h : set.Frozen) : set.Sound := by
  obtain ⟨book, source, strict, hr, h⟩ := h
  have hs := hr.sound
  have hb := RuleBook.binds_freeze hs h
  have hexact : set.exactRules =
      (book.rules.filter (RuleBook.becomes source .exact)).map (·.rule) := by
    simp [exactRules, hb.exact, RuleSet.empty]
  have hglobs : set.globs = (book.rules.filter (RuleBook.becomes source .glob)).map (·.rule) := by
    simp [hb.globs, RuleSet.empty]
  have hannotated : set.annotated =
      (book.rules.filter (RuleBook.becomes source .annotated)).map (·.rule) := by
    simp [hb.annotated, RuleSet.empty]
  have hkeys : set.exact.map (·.1) = set.exactRules.map Rule.key := by
    simp [exactRules, hb.exact, RuleSet.empty]
  have hmem :
      ∀ {binding r}, r ∈ (book.rules.filter (RuleBook.becomes source binding)).map (·.rule) →
      ∃ p ∈ book.rules, RuleBook.becomes source binding p = true ∧ p.rule = r := by
    intro binding r hm
    obtain ⟨p, hp, rfl⟩ := List.mem_map.1 hm
    obtain ⟨hp, hbp⟩ := List.mem_filter.1 hp
    exact ⟨p, hp, hbp, rfl⟩
  refine ⟨?_, hkeys, ?_, ?_, ?_, ?_⟩
  · intro r hm
    simp only [rules, List.mem_append, hexact, hglobs, hannotated] at hm
    rcases hm with (hm | hm) | hm <;>
      · obtain ⟨p, hp, _, rfl⟩ := hmem hm
        exact hs.wellFormed p hp
  · rw [hkeys, hexact, List.map_map]
    exact (List.filter_sublist.map _).nodup hs.rules_nodup
  · intro r hm
    obtain ⟨p, _, hp, rfl⟩ := hmem (hexact ▸ hm)
    exact RuleBook.owner_of_becomes_exact hp
  · intro r hm
    obtain ⟨p, _, hp, rfl⟩ := hmem (hglobs ▸ hm)
    exact RuleBook.owner_of_becomes_glob hp
  · intro r hm
    obtain ⟨p, _, hp, rfl⟩ := hmem (hannotated ▸ hm)
    exact RuleBook.target_of_becomes hp

end RuleSet

/-! ## Keys -/

/-- What stands behind the `#` of a rule about a member, with parameters in descriptor form. -/
def RuleTarget.memberText? : RuleTarget → Option String
  | .overload name params => some (name ++ paramsText params)
  | .member name => some name
  | .type => none
  | .annotated => none

/-- A text without parenthesis gives a member by its name alone. -/
theorem RuleTarget.memberText?_eq_name_iff {t : RuleTarget} {name : String}
    (hname : '(' ∉ name.toList) :
    t.memberText? = some name ↔ t = .member name := by
  cases t with
  | overload n params =>
    refine ⟨fun h => ?_, fun h => by cases h⟩
    rw [← Option.some.inj h] at hname
    simp [paramsText] at hname
  | member n => simp [memberText?]
  | type => simp [memberText?]
  | annotated => simp [memberText?]

/-- A text with parentheses gives an overload. -/
theorem RuleTarget.memberText?_eq_overload_iff {t : RuleTarget} {name params : String}
    (ht : t.WellFormed) (hname : '(' ∉ name.toList) (hparams : params.toList.head? = some '(') :
    t.memberText? = some (name ++ params) ↔ ∃ types, t = .overload name types ∧
    paramsText types = params := by
  obtain ⟨rest, hrest⟩ := List.head?_eq_some_iff.1 hparams
  cases t with
  | overload n types =>
    constructor
    · intro h
      have heq : n.toList ++ '(' :: (types.flatMap FieldType.render ++ [')']) =
          name.toList ++ '(' :: rest := by
        have := congrArg String.toList (Option.some.inj h)
        simpa [paramsText, hrest] using this
      obtain ⟨hn, hp⟩ := (Text.append_cons_inj ht.1.paren_notMem hname).1 heq
      refine ⟨types, by rw [String.toList_inj.1 hn], ?_⟩
      rw [← String.toList_inj, hrest, ← hp]
      simp [paramsText]
    · rintro ⟨types', h, rfl⟩
      cases h
      rfl
  | member n =>
    refine ⟨fun h => ?_, by simp⟩
    have hn := IsMemberName.paren_notMem ht
    rw [Option.some.inj h, String.toList_append, hrest] at hn
    simp at hn
  | type => simp [memberText?]
  | annotated => simp [memberText?]

theorem Rule.toList_memberKey (owner text : String) :
    (Rule.memberKey owner text).toList = owner.toList ++ '#' :: text.toList := by
  simp [Rule.memberKey]

/-- A key can be taken apart again, since class names have no `#`. -/
theorem Rule.memberKey_inj {o t o' t' : String} (ho : '#' ∉ o.toList) (ho' : '#' ∉ o'.toList) :
    Rule.memberKey o t = Rule.memberKey o' t' ↔ o = o' ∧ t = t' := by
  rw [← String.toList_inj, toList_memberKey, toList_memberKey, Text.append_cons_inj ho ho',
    String.toList_inj, String.toList_inj]

theorem Rule.key_of_memberText? {r : Rule} {t : String} (h : r.target.memberText? = some t) :
    r.key = Rule.memberKey r.owner.text t := by
  unfold Rule.key
  cases ht : r.target with
  | overload name params =>
    rw [ht] at h
    cases h
    simp [Rule.memberKey, String.append_assoc]
  | member name =>
    rw [ht] at h
    cases h
    rfl
  | type => simp [ht, RuleTarget.memberText?] at h
  | annotated => simp [ht, RuleTarget.memberText?] at h

theorem Rule.hash_notMem_key {r : Rule} (hr : r.WellFormed) (h : r.target.memberText? = none) :
    '#' ∉ r.key.toList := by
  have ho := hr.owner.hash_notMem
  unfold Rule.key
  cases ht : r.target with
  | overload name params => simp [ht, RuleTarget.memberText?] at h
  | member name => simp [ht, RuleTarget.memberText?] at h
  | type => exact ho
  | annotated => simpa using ho

/-- The key of a rule names a member of a class iff the rule does. -/
theorem Rule.key_eq_memberKey_iff {r : Rule} {o t : String} (hr : r.WellFormed)
    (ho : '#' ∉ o.toList) :
    r.key = Rule.memberKey o t ↔ r.owner.text = o ∧ r.target.memberText? = some t := by
  cases hm : r.target.memberText? with
  | some t' => rw [key_of_memberText? hm, memberKey_inj hr.owner.hash_notMem ho, Option.some.injEq]
  | none =>
    refine ⟨fun h => ?_, by simp⟩
    have hk := hash_notMem_key hr hm
    rw [h, toList_memberKey] at hk
    simp at hk

/-- The key of a rule is the name of a class iff the rule is about that class. -/
theorem Rule.key_eq_className_iff {r : Rule} {name : String} (ha : r.target ≠ .annotated)
    (hn : '#' ∉ name.toList) : r.key = name ↔ r.target = .type ∧ r.owner.text = name := by
  cases hm : r.target.memberText? with
  | some t =>
    have ht : r.target ≠ .type := by
      intro h
      simp [h, RuleTarget.memberText?] at hm
    rw [key_of_memberText? hm]
    refine ⟨fun h => ?_, fun h => absurd h.1 ht⟩
    rw [← h, toList_memberKey] at hn
    simp at hn
  | none =>
    have ht : r.target = .type := by
      cases h : r.target with
      | overload _ _ => simp [h, RuleTarget.memberText?] at hm
      | member _ => simp [h, RuleTarget.memberText?] at hm
      | type => rfl
      | annotated => exact absurd h ha
    simp [Rule.key, ht]

/-! ## Look-ups -/

theorem NamePattern.accepts_iff_of_not_isGlob {p : NamePattern} {name : String}
    (h : p.isGlob = false) :
    p.accepts name = true ↔ p.text = name := by
  cases p with
  | exact n => simp [NamePattern.accepts, NamePattern.text]
  | glob g => cases h

namespace RuleSet.Sound

variable {set : RuleSet}

/-- A look-up by key finds the rule with that key. -/
theorem lookup_eq_some_iff (hs : set.Sound) {key : String} {r : Rule} :
    set.exact.lookup key = some r ↔ r ∈ set.exactRules ∧ r.key = key := by
  have hkeys : ∀ e ∈ set.exact, e.1 = e.2.key := by
    have h := hs.keys_eq
    rw [exactRules, List.map_map] at h
    exact List.map_inj_left.1 h
  rw [List.lookup_eq_some_iff]
  constructor
  · rintro ⟨front, back, he, _⟩
    have hm : (key, r) ∈ set.exact := by rw [he]; simp
    exact ⟨List.mem_map.2 ⟨_, hm, rfl⟩, (hkeys _ hm).symm⟩
  · rintro ⟨hm, rfl⟩
    obtain ⟨⟨k, r'⟩, hmem, rfl⟩ := List.mem_map.1 hm
    obtain ⟨front, back, he⟩ := List.append_of_mem hmem
    have hk : k = r'.key := hkeys (k, r') hmem
    refine ⟨front, back, by rw [he, hk], ?_⟩
    intro e hf
    have hnd := hs.keys_nodup
    rw [he, List.map_append, List.nodup_append] at hnd
    have hne := hnd.2.2 e.1 (List.mem_map.2 ⟨e, hf, rfl⟩) k (by simp)
    simpa [← hk] using hne.symm

/-- The look-up by the name of a class finds the rule about that class. -/
theorem type?_eq_some_iff (hs : set.Sound) {name : String} {r : Rule} (hn : '#' ∉ name.toList) :
    set.type? name = some r ↔ r ∈ set.exactRules ∧ r.target = .type ∧
    r.owner.accepts name = true := by
  rw [type?, hs.lookup_eq_some_iff]
  refine and_congr_right fun hm => ?_
  obtain ⟨ha, hg⟩ := hs.exact_owner r hm
  rw [Rule.key_eq_className_iff ha hn, NamePattern.accepts_iff_of_not_isGlob hg]

/-- The look-up by a class and what stands behind the `#` finds the rule that says so. -/
theorem member?_eq_some_iff (hs : set.Sound) {owner text : String} {r : Rule}
    (ho : '#' ∉ owner.toList) :
    set.member? owner text = some r ↔
      r ∈ set.exactRules ∧ r.owner.accepts owner = true ∧ r.target.memberText? = some text := by
  rw [member?, hs.lookup_eq_some_iff]
  refine and_congr_right fun hm => ?_
  have hr : r.WellFormed := hs.wellFormed r (List.mem_append_left _ (List.mem_append_left _ hm))
  rw [Rule.key_eq_memberKey_iff hr ho,
    NamePattern.accepts_iff_of_not_isGlob (hs.exact_owner r hm).2]

end RuleSet.Sound

/-- An overload is looked up by its name and parameters, written one behind the other. -/
theorem RuleSet.overload?_eq_member? (set : RuleSet) (owner name params : String) :
    set.overload? owner name params = set.member? owner (name ++ params) := by
  simp [RuleSet.overload?, RuleSet.member?, Rule.memberKey, String.append_assoc]

end JvmAudit
