import JvmAudit.Proofs.Classpath.Walk
import JvmAudit.Proofs.Rule.Overload
import JvmAudit.Proofs.Scan.Basic
import JvmAudit.Proofs.Scan.Hit

/-!
# Precedence of rules

Of all rules that apply to the use of a member, the one that is found comes first in the order of
precedence: rules about the overload, nearest class first; rules about the name, nearest class
first; rules about the owner, then about the declaring class; rules with patterns in the order of
registration; rules about an annotation of the member, then of the class that holds it.

The order is given by a rank for each rule (`Policy.rank`), which does not speak of the searches.
-/

namespace JvmAudit

/-- A place in the order of precedence: the tier of a rule, and its place in the tier by two
criteria. -/
structure Rank where
  tier : Nat
  place : Nat
  order : Nat
  deriving DecidableEq, Repr

/-- Whether a place comes before another one. -/
def Rank.Before (a b : Rank) : Prop :=
  a.tier < b.tier ∨ a.tier = b.tier ∧ (a.place < b.place ∨ a.place = b.place ∧ a.order < b.order)

namespace Policy

/-- Whether a rule is about an annotation of the member itself. -/
def MemberUse.marks (u : MemberUse) (r : Rule) : Bool :=
  (u.annotations?.getD []).any r.owner.accepts

/-- The place of a rule in the order of precedence for a use. -/
def rank (p : Policy) (u : MemberUse) (r : Rule) : Rank :=
  if r.target = .annotated then ⟨4, if u.marks r then 0 else 1, p.rules.annotated.idxOf r⟩
  else if r.owner.isGlob then ⟨3, p.rules.globs.idxOf r, 0⟩
  else
    match r.target with
    | .overload .. => ⟨0, u.lineageNames.idxOf r.owner.text, 0⟩
    | .member _ => ⟨1, u.lineageNames.idxOf r.owner.text, 0⟩
    | _ => ⟨2, u.owners.idxOf r.owner.text, 0⟩

/-! ## What comes first in a list -/

/-- The first element with a property comes before all others with it. -/
theorem idxOf_lt_of_first {α : Type} [DecidableEq α] {P : α → Prop} {front back : List α} {a b : α}
    (hfront : ∀ x ∈ front, ¬P x) (ha : P a) (hb : P b) (hne : b ≠ a) :
    (front ++ a :: back).idxOf a < (front ++ a :: back).idxOf b := by
  have hab : (a == b) = false := by simpa using hne.symm
  rw [List.idxOf_append, if_neg fun hm => hfront a hm ha, List.idxOf_append,
    if_neg fun hm => hfront b hm hb, List.idxOf_cons_self, List.idxOf_cons, hab]
  simp

/-- The class for which a rule is found comes before every class for which there is another rule. -/
theorem idxOf_lt_of_firstRule? {find : String → Option Rule} {classes : List String} {r r' : Rule}
    {c c' : String}
    (h : firstRule? find classes = some (r, c)) (h' : find c' = some r') (hne : r' ≠ r) :
    classes.idxOf c < classes.idxOf c' := by
  obtain ⟨front, x, back, rfl, hx, hfront⟩ := List.findSome?_eq_some_iff.1 h
  obtain ⟨r₀, hr, he⟩ := Option.map_eq_some_iff.1 hx
  cases he
  refine idxOf_lt_of_first (P := fun x => find x ≠ none) ?_ (by simp [hr]) (by simp [h']) ?_
  · intro y hy
    simpa using hfront y hy
  · rintro rfl
    rw [hr] at h'
    exact hne (Option.some.inj h').symm

/-- A rule that `find?` gives comes before every other rule with the property. -/
theorem idxOf_lt_of_find? {rules : List Rule} {test : Rule → Bool} {r r' : Rule}
    (h : rules.find? test = some r)
    (h' : test r' = true) (hne : r' ≠ r) : rules.idxOf r < rules.idxOf r' := by
  obtain ⟨hr, front, back, rfl, hfront⟩ := List.find?_eq_some_iff_append.1 h
  refine idxOf_lt_of_first (P := fun x => test x = true) ?_ hr h' hne
  intro y hy
  simpa using hfront y hy

/-! ## The rank of what is found -/

section Rank

variable {p : Policy} {u : MemberUse} {r : Rule} {c : String}

/-- Rules about annotations come last, those for the member before those for its class. -/
theorem rank_annotated (h : r.target = .annotated) :
    p.rank u r = ⟨4, if u.marks r then 0 else 1, p.rules.annotated.idxOf r⟩ := by
  rw [rank, if_pos h]

/-- Rules with patterns stand in the order in which they were bound. -/
theorem rank_glob (h : r.target ≠ .annotated) (hg : r.owner.isGlob = true) :
    p.rank u r = ⟨3, p.rules.globs.idxOf r, 0⟩ := by
  rw [rank, if_neg h, if_pos hg]

/-- The rank of a rule about the overload of a class. -/
theorem rank_overload (hs : p.rules.Sound) (hm : r ∈ p.rules.exactRules)
    (ha : r.owner.accepts c = true)
    {name : String} {params : List FieldType} (ht : r.target = .overload name params) :
    p.rank u r = ⟨0, u.lineageNames.idxOf c, 0⟩ := by
  obtain ⟨hne, hg⟩ := hs.exact_owner r hm
  rw [rank, if_neg hne, if_neg (by simp [hg]), ht, (NamePattern.accepts_iff_of_not_isGlob hg).1 ha]

/-- The rank of a rule about a name of a class. -/
theorem rank_member (hs : p.rules.Sound) (hm : r ∈ p.rules.exactRules)
    (ha : r.owner.accepts c = true) {name : String} (ht : r.target = .member name) :
    p.rank u r = ⟨1, u.lineageNames.idxOf c, 0⟩ := by
  obtain ⟨hne, hg⟩ := hs.exact_owner r hm
  rw [rank, if_neg hne, if_neg (by simp [hg]), ht, (NamePattern.accepts_iff_of_not_isGlob hg).1 ha]

/-- The rank of a rule about a class. -/
theorem rank_type (hs : p.rules.Sound) (hm : r ∈ p.rules.exactRules) (ha : r.owner.accepts c = true)
    (ht : r.target = .type) : p.rank u r = ⟨2, u.owners.idxOf c, 0⟩ := by
  obtain ⟨hne, hg⟩ := hs.exact_owner r hm
  rw [rank, if_neg hne, if_neg (by simp [hg]), ht, (NamePattern.accepts_iff_of_not_isGlob hg).1 ha]

end Rank

/-- The names in a use say what they seem to say: no class name has a `#`, the name of the member
has no opening parenthesis, and parameters start with one. -/
structure MemberUse.Plain (u : MemberUse) : Prop where
  lineage : ∀ c ∈ u.lineageNames, '#' ∉ c.toList
  owners : ∀ c ∈ u.owners, '#' ∉ c.toList
  name : '(' ∉ u.name.toList
  params : ∀ params, u.params? = some params → params.toList.head? = some '('

/-- Where a rule that applies is found if no other one comes first, and its rank. -/
inductive InTier (p : Policy) (u : MemberUse) (r : Rule) : Rank → Prop
  | overload {c params : String} (hu : u.params? = some params) (hc : c ∈ u.lineageNames)
    (h : p.rules.overload? c u.name params = some r) : InTier p u r ⟨0, u.lineageNames.idxOf c, 0⟩
  | name {c : String} (hc : c ∈ u.lineageNames) (h : p.rules.member? c u.name = some r) :
    InTier p u r ⟨1, u.lineageNames.idxOf c, 0⟩
  | owner {c : String} (hc : c ∈ u.owners) (h : p.rules.type? c = some r) :
    InTier p u r ⟨2, u.owners.idxOf c, 0⟩
  | glob {c : String} (h : r ∈ p.rules.globs)
    (ha : u.Applies r c) : InTier p u r ⟨3, p.rules.globs.idxOf r, 0⟩
  | annotated {c : String} (h : r ∈ p.rules.annotated) (ha : u.Applies r c) :
    InTier p u r ⟨4, if u.marks r then 0 else 1, p.rules.annotated.idxOf r⟩

variable {p : Policy} {u : MemberUse} {r : Rule} {c : String}

/-- A rule that applies has a place in the search, which is given by its rank. -/
theorem inTier_of_applies (hs : p.rules.Sound) (hu : u.Plain) (hm : r ∈ p.rules.rules)
    (ha : u.Applies r c) :
    InTier p u r (p.rank u r) := by
  by_cases ht : r.target = .annotated
  · rw [rank_annotated ht]
    exact .annotated (hs.mem_annotated_iff.2 ⟨hm, ht⟩) ha
  rcases (hs.mem_rules_iff ht).1 hm with hm | hm
  · cases htarget : r.target with
    | overload name params =>
      obtain ⟨rfl, hp, hc, ho⟩ := (MemberUse.applies_overload htarget).1 ha
      rw [rank_overload hs hm ho htarget]
      refine .overload hp hc ?_
      rw [RuleSet.overload?_eq_member?, hs.member?_eq_some_iff (hu.lineage c hc)]
      exact ⟨hm, ho, by rw [htarget]; rfl⟩
    | member name =>
      obtain ⟨rfl, hc, ho⟩ := (MemberUse.applies_member htarget).1 ha
      rw [rank_member hs hm ho htarget]
      refine .name hc ((hs.member?_eq_some_iff (hu.lineage c hc)).2 ⟨hm, ho, by rw [htarget]; rfl⟩)
    | type =>
      obtain ⟨hc, ho⟩ := (MemberUse.applies_type htarget).1 ha
      rw [rank_type hs hm ho htarget]
      exact .owner hc ((hs.type?_eq_some_iff (hu.owners c hc)).2 ⟨hm, htarget, ho⟩)
    | annotated => exact absurd htarget ht
  · rw [rank_glob ht (hs.globs_owner r hm).2]
    exact .glob hm ha

/-! ## Nothing comes before what is found -/

theorem firstRule?_ne_none {find : String → Option Rule} {classes : List String} (hc : c ∈ classes)
    (h : find c = some r) : firstRule? find classes ≠ none := by
  intro hn
  have := List.findSome?_eq_none_iff.1 hn c hc
  simp [h] at this

theorem overloadMatch?_ne_none {params : String} (hu : u.params? = some params)
    (hc : c ∈ u.lineageNames)
    (h : p.rules.overload? c u.name params = some r) : p.overloadMatch? u ≠ none := by
  show (u.params?.bind fun params =>
    firstRule? (p.rules.overload? · u.name params) u.lineageNames) ≠ none
  rw [hu]
  exact firstRule?_ne_none hc h

/-- If a rule with a pattern applies, the search ends there at the latest. -/
theorem globRuleMatch?_ne_none (hs : p.rules.Sound) (h : r ∈ p.rules.globs) (ha : u.Applies r c) :
    p.globRuleMatch? u ≠ none :=
  (finds_globRuleMatch? hs).complete (r, c) ⟨h, ha⟩

section Before

variable {r' : Rule} {place : Rank}

/-- A rule that is found by name and parameters comes before all others that apply. -/
theorem before_of_overloadMatch? (h : p.overloadMatch? u = some (r, c)) (h' : InTier p u r' place)
    (hne : r' ≠ r) : Rank.Before ⟨0, u.lineageNames.idxOf c, 0⟩ place := by
  cases h' with
  | overload hu hc hr =>
    obtain ⟨params, hp, h⟩ := Option.bind_eq_some_iff.1 h
    rw [hu] at hp
    cases hp
    exact .inr ⟨rfl, .inl (idxOf_lt_of_firstRule? h hr hne)⟩
  | name | owner | glob | annotated => exact .inl (by simp)

theorem before_of_nameMatch? (h0 : p.overloadMatch? u = none) (h : p.nameMatch? u = some (r, c))
    (h' : InTier p u r' place) (hne : r' ≠ r) :
    Rank.Before ⟨1, u.lineageNames.idxOf c, 0⟩ place := by
  cases h' with
  | overload hu hc hr => exact absurd h0 (overloadMatch?_ne_none hu hc hr)
  | name hc hr => exact .inr ⟨rfl, .inl (idxOf_lt_of_firstRule? h hr hne)⟩
  | owner | glob | annotated => exact .inl (by simp)

theorem before_of_ownerMatch? (h0 : p.overloadMatch? u = none) (h1 : p.nameMatch? u = none)
    (h : p.ownerMatch? u = some (r, c)) (h' : InTier p u r' place) (hne : r' ≠ r) :
    Rank.Before ⟨2, u.owners.idxOf c, 0⟩ place := by
  cases h' with
  | overload hu hc hr => exact absurd h0 (overloadMatch?_ne_none hu hc hr)
  | name hc hr => exact absurd h1 (firstRule?_ne_none hc hr)
  | owner hc hr => exact .inr ⟨rfl, .inl (idxOf_lt_of_firstRule? h hr hne)⟩
  | glob | annotated => exact .inl (by simp)

theorem before_of_globRuleMatch? (hs : p.rules.Sound) (h0 : p.overloadMatch? u = none)
    (h1 : p.nameMatch? u = none)
    (h2 : p.ownerMatch? u = none) (h : p.globRuleMatch? u = some (r, c)) (h' : InTier p u r' place)
    (hne : r' ≠ r) : Rank.Before ⟨3, p.rules.globs.idxOf r, 0⟩ place := by
  cases h' with
  | overload hu hc hr => exact absurd h0 (overloadMatch?_ne_none hu hc hr)
  | name hc hr => exact absurd h1 (firstRule?_ne_none hc hr)
  | owner hc hr => exact absurd h2 (firstRule?_ne_none hc hr)
  | glob hr ha =>
    refine .inr ⟨rfl, .inl ?_⟩
    obtain ⟨front, x, back, hg, hx, hfront⟩ := List.findSome?_eq_some_iff.1 h
    obtain ⟨c₀, hx, he⟩ := Option.map_eq_some_iff.1 hx
    cases he
    rw [hg]
    refine idxOf_lt_of_first (P := fun x => u.globMatch? x ≠ none) ?_ (by simp [hx]) ?_ hne
    · intro y hy
      simpa using hfront y hy
    · exact (u.finds_globMatch? (hs.globs_owner r' hr).1).complete _ ha
  | annotated => exact .inl (by simp)

theorem marks_iff : u.marks r = true ↔
    ∃ annotations, u.annotations? = some annotations ∧
    ∃ a ∈ annotations, r.owner.accepts a = true := by
  unfold MemberUse.marks
  cases u.annotations? with
  | none => simp
  | some annotations => simp

/-- The last stage: every other rule that applies is one about annotations, and comes later. -/
theorem before_of_annotatedMatch? (hs : p.rules.Sound) (h0 : p.overloadMatch? u = none)
    (h1 : p.nameMatch? u = none) (h2 : p.ownerMatch? u = none) (h3 : p.globRuleMatch? u = none)
    (h : p.annotatedMatch? u = some (r, c)) (h' : InTier p u r' place) (hne : r' ≠ r) :
    Rank.Before ⟨4, if u.marks r then 0 else 1, p.rules.annotated.idxOf r⟩ place := by
  cases h' with
  | overload hu hc hr => exact absurd h0 (overloadMatch?_ne_none hu hc hr)
  | name hc hr => exact absurd h1 (firstRule?_ne_none hc hr)
  | owner hc hr => exact absurd h2 (firstRule?_ne_none hc hr)
  | glob hr ha => exact absurd h3 (globRuleMatch?_ne_none hs hr ha)
  | annotated hr ha =>
    refine .inr ⟨rfl, ?_⟩
    obtain ⟨holder, hh, h⟩ := Option.bind_eq_some_iff.1 h
    obtain ⟨r₀, hrule, he⟩ := Option.bind_eq_some_iff.1 h
    cases he
    obtain ⟨holder', hh', _, hannotations⟩ :=
      (MemberUse.applies_annotated (hs.annotated_target r' hr)).1 ha
    rw [hh] at hh'
    cases hh'
    cases hmark : u.annotations?.bind p.rules.annotated? with
    | some r₁ =>
      -- a rule about an annotation of the member is found: it comes before those about the class
      rw [hmark] at hrule
      cases hrule
      obtain ⟨annotations, hu, hfind⟩ := Option.bind_eq_some_iff.1 hmark
      have hr₁ : u.marks r = true :=
        marks_iff.2 ⟨annotations, hu, ((p.rules.finds_annotated? annotations).sound r hfind).2⟩
      by_cases hr' : u.marks r' = true
      · refine .inr ⟨by simp [hr₁, hr'], idxOf_lt_of_find? hfind ?_ hne⟩
        obtain ⟨annotations', hu', hany⟩ := marks_iff.1 hr'
        rw [hu] at hu'
        cases hu'
        exact List.any_eq_true.2 hany
      · exact .inl (by simp [hr₁, hr'])
    | none =>
      -- no rule is about an annotation of the member
      rw [hmark] at hrule
      have hmarks : ∀ x ∈ p.rules.annotated, u.marks x = false := by
        intro x hx
        by_contra hmx
        obtain ⟨annotations, hu, hany⟩ := marks_iff.1 (by simpa using hmx)
        rw [hu] at hmark
        exact (p.rules.finds_annotated? annotations).complete x ⟨hx, hany⟩ hmark
      have hr₁ : r ∈ p.rules.annotated := ((p.rules.finds_annotated? _).sound r hrule).1
      refine .inr ⟨by simp [hmarks r hr₁, hmarks r' hr], idxOf_lt_of_find? hrule ?_ hne⟩
      rcases hannotations with hany | hany
      · exact absurd (hmarks r' hr) (by simp [marks_iff.2 hany])
      · exact List.any_eq_true.2 hany

end Before

/-- Of the rules that apply, the one that is found comes first. -/
theorem rank_before_of_memberMatch? (hs : p.rules.Sound) (hu : u.Plain)
    (h : p.memberMatch? u = some (r, c))
    {r' : Rule} {c' : String} (hm : r' ∈ p.rules.rules) (ha : u.Applies r' c') (hne : r' ≠ r) :
    (p.rank u r).Before (p.rank u r') := by
  have h' := inTier_of_applies hs hu hm ha
  unfold memberMatch? at h
  cases h0 : p.overloadMatch? u with
  | some m =>
    rw [h0] at h
    cases h
    obtain ⟨params, hp, _, hr, ho, ht⟩ := (finds_overloadMatch? hs hu.lineage).sound _ h0
    obtain ⟨types, ht, _⟩ := (RuleTarget.memberText?_eq_overload_iff
      (hs.wellFormed r ((hs.mem_rules_iff (hs.exact_owner r hr).1).2 (.inl hr))).target hu.name
        (hu.params _ hp)).1 ht
    rw [rank_overload hs hr ho ht]
    exact before_of_overloadMatch? h0 h' hne
  | none =>
  cases h1 : p.nameMatch? u with
  | some m =>
    rw [h0, h1] at h
    cases h
    obtain ⟨_, hr, ho, ht⟩ := (finds_nameMatch? hs hu.lineage).sound _ h1
    rw [rank_member hs hr ho ((RuleTarget.memberText?_eq_name_iff hu.name).1 ht)]
    exact before_of_nameMatch? h0 h1 h' hne
  | none =>
  cases h2 : p.ownerMatch? u with
  | some m =>
    rw [h0, h1, h2] at h
    cases h
    obtain ⟨_, hr, ht, ho⟩ := (finds_ownerMatch? hs hu.owners).sound _ h2
    rw [rank_type hs hr ho ht]
    exact before_of_ownerMatch? h0 h1 h2 h' hne
  | none =>
  cases h3 : p.globRuleMatch? u with
  | some m =>
    rw [h0, h1, h2, h3] at h
    cases h
    obtain ⟨hr, _⟩ := (finds_globRuleMatch? hs).sound _ h3
    rw [rank_glob (hs.globs_owner r hr).1 (hs.globs_owner r hr).2]
    exact before_of_globRuleMatch? hs h0 h1 h2 h3 h' hne
  | none =>
    rw [h0, h1, h2, h3] at h
    obtain ⟨hr, _⟩ := (finds_annotatedMatch? hs).sound _ h
    rw [rank_annotated (hs.annotated_target r hr)]
    exact before_of_annotatedMatch? hs h0 h1 h2 h3 h h' hne

/-- A member is matched iff a rule applies to it. -/
theorem finds_memberMatch?_of_plain (hs : p.rules.Sound) (hu : u.Plain) :
    Finds (p.memberMatch? u) fun m => m.1 ∈ p.rules.rules ∧ u.Applies m.1 m.2 := by
  refine (finds_memberMatch? hs hu.lineage hu.owners).congr fun m => ⟨?_, .inr⟩
  rintro (⟨hm, h⟩ | h)
  · have hr := (hs.mem_rules_iff (hs.exact_owner m.1 hm).1).2 (.inl hm)
    exact ⟨hr, h.applies (hs.wellFormed m.1 hr).target hu.name hu.params⟩
  · exact h

/-- A use violates a rule iff the search for a rule finds it. -/
theorem memberHit?_eq_rule_iff {onMethod : Bool} :
    p.memberHit? u = some (.rule r c onMethod) ↔ p.memberMatch? u = some (r, c) ∧
    onMethod = u.onMethod := by
  unfold memberHit?
  cases h : p.memberMatch? u with
  | some m => simp [Prod.ext_iff, and_assoc, eq_comm]
  | none =>
    refine ⟨fun h => ?_, fun h => absurd h.1 (by simp)⟩
    obtain ⟨holder, _, h⟩ := Option.bind_eq_some_iff.1 h
    cases ((finds_internalHit? p holder.name).sound _ h).2

end Policy

/-! ## The use of a member in code -/

namespace Scanner

/-- The use of a member, with what the search for it found. -/
def useOf (owner name : String) (descriptor : Option String) (lineage : List ClassFile)
    (declarer : Option Nat) :
    Policy.MemberUse :=
  ⟨owner, name, descriptor, lineage, declarer.bind (lineage[·]?)⟩

theorem owners_useOf {owner name className : String} {descriptor : Option String}
    {lineage : List ClassFile} {declarer : Option Nat}
    (h : className ∈ (useOf owner name descriptor lineage declarer).owners) :
    className = owner ∨ ∃ c ∈ lineage, c.name = className := by
  rcases List.mem_cons.1 h with rfl | h
  · exact .inl rfl
  · obtain ⟨c, hc, rfl⟩ := Option.map_eq_some_iff.1 (Option.mem_toList.1 h)
    obtain ⟨i, _, hi⟩ := Option.bind_eq_some_iff.1 hc
    exact .inr ⟨c, List.mem_of_getElem? hi, rfl⟩

/-- A member that was resolved is checked with its lineage. -/
theorem checkMember_of_resolved {s : Scanner} {owner name : String} {descriptor : Option String}
    {lineage : List ClassFile} {declarer : Option Nat} {missing : List String}
    (h : s.source.resolveMember owner (memberQuery name descriptor) =
      .ok (.resolved lineage declarer missing)) :
    s.checkMember owner name descriptor =
      .ok ⟨s.policy.memberHit? (useOf owner name descriptor lineage declarer), missing⟩ := by
  rw [checkMember_eq, h]
  rfl

/-- **Which rule the use of a member violates.** On a class path that can be read, with a bound rule
book and a class that can be loaded: the use violates a rule iff some rule applies to it; the rule
that it violates applies, and comes before all others that apply. -/
theorem checkMember_rule_first {s : Scanner} {owner name : String} {descriptor : Option String}
    (hrules : s.policy.rules.Frozen) (hread : s.source.Readable)
    (howner : ∃ c, s.source.load owner = .ok (some c)) (hown : '#' ∉ owner.toList)
    (hname : '(' ∉ name.toList) (hdescriptor : ∀ d, descriptor = some d → d.toList.head? = some '(')
    (hlineage : ∀ lineage declarer missing,
      s.source.resolveMember owner (memberQuery name descriptor) =
        .ok (.resolved lineage declarer missing) →
        ∀ c ∈ lineage, '#' ∉ c.name.toList) :
    ∃ lineage declarer missing finding,
      s.source.resolveMember owner (memberQuery name descriptor) =
        .ok (.resolved lineage declarer missing) ∧
      s.checkMember owner name descriptor = .ok finding ∧
      ((∃ r c onMethod, finding.hit = some (.rule r c onMethod)) ↔
        ∃ r ∈ s.policy.rules.rules,
          ∃ c, (useOf owner name descriptor lineage declarer).Applies r c) ∧
      ∀ r c onMethod, finding.hit = some (.rule r c onMethod) →
        r ∈ s.policy.rules.rules ∧ (useOf owner name descriptor lineage declarer).Applies r c ∧
        onMethod = descriptor.isSome ∧
        ∀ r' ∈ s.policy.rules.rules, r' ≠ r →
          (∃ c', (useOf owner name descriptor lineage declarer).Applies r' c') →
          (s.policy.rank (useOf owner name descriptor lineage declarer) r).Before
            (s.policy.rank (useOf owner name descriptor lineage declarer) r') := by
  obtain ⟨cls, hcls⟩ := howner
  obtain ⟨lineage, declarer, missing, hresolve⟩ :=
    ClassSource.resolveMember_of_load hread hcls (memberQuery name descriptor)
  have hs := hrules.sound
  have hclean := hlineage lineage declarer missing hresolve
  have hu : (useOf owner name descriptor lineage declarer).Plain := by
    refine ⟨?_, ?_, hname, ?_⟩
    · intro c hc
      obtain ⟨k, hk, rfl⟩ := List.mem_map.1 hc
      exact hclean k hk
    · intro c hc
      rcases owners_useOf hc with rfl | ⟨k, hk, rfl⟩
      · exact hown
      · exact hclean k hk
    · intro params hp
      obtain ⟨d, hd, rfl⟩ := Option.map_eq_some_iff.1 hp
      exact head?_paramsPart (hdescriptor d hd)
  have hfinds := Policy.finds_memberMatch?_of_plain hs hu
  refine ⟨lineage, declarer, missing, _, hresolve, checkMember_of_resolved hresolve, ?_, ?_⟩
  · constructor
    · rintro ⟨r, c, onMethod, h⟩
      obtain ⟨hr, ha⟩ := hfinds.sound _ (Policy.memberHit?_eq_rule_iff.1 h).1
      exact ⟨r, hr, c, ha⟩
    · rintro ⟨r, hr, c, ha⟩
      obtain ⟨m, hm⟩ := Option.ne_none_iff_exists'.1 (hfinds.complete (r, c) ⟨hr, ha⟩)
      exact ⟨m.1, m.2, _, Policy.memberHit?_eq_rule_iff.2 ⟨hm, rfl⟩⟩
  · intro r c onMethod h
    obtain ⟨hm, hon⟩ := Policy.memberHit?_eq_rule_iff.1 h
    obtain ⟨hr, ha⟩ := hfinds.sound _ hm
    refine ⟨hr, ha, hon, ?_⟩
    rintro r' hr' hne ⟨c', ha'⟩
    exact Policy.rank_before_of_memberMatch? hs hu hm hr' ha' hne

end Scanner

/-! ## An inherited method

The method is called through the derived class. A rule about the overload and a pattern
both apply; the rule about the overload comes first, although it was registered last. -/

namespace InheritedCall

def book : RuleBook := (RuleBook.empty.run (RuleBook.addText "rules" "lib.*#run\nlib.Base#run()")).2

/-- The rule about the overload. -/
def overloadRule : Rule := ⟨.exact "lib.Base", .overload "run" [], ""⟩

/-- The pattern. -/
def patternRule : Rule := ⟨.glob ⟨"lib.*"⟩, .member "run", ""⟩

def rules : RuleSet := ⟨[("lib.Base#run()", overloadRule)], [patternRule], [], []⟩

def scanner : Scanner := ⟨⟨rules, false⟩, source, .empty⟩

theorem frozen_rules : rules.Frozen := ⟨book, source, true, .addText .refl _ _, by decide +kernel⟩

theorem resolveMember_run :
    source.resolveMember "lib.Derived" (Scanner.memberQuery "run" (some "()V")) =
    .ok (.resolved [derived, base] (some 1) []) := by decide +kernel

theorem checkMember_rule_first_inherited :
    ∃ lineage declarer missing finding,
      source.resolveMember "lib.Derived" (Scanner.memberQuery "run" (some "()V")) =
        .ok (.resolved lineage declarer missing) ∧
      scanner.checkMember "lib.Derived" "run" (some "()V") = .ok finding ∧
      ((∃ r c onMethod, finding.hit = some (.rule r c onMethod)) ↔
        ∃ r ∈ rules.rules,
          ∃ c, (Scanner.useOf "lib.Derived" "run" (some "()V") lineage declarer).Applies r c) ∧
      ∀ r c onMethod, finding.hit = some (.rule r c onMethod) →
        r ∈ rules.rules ∧
        (Scanner.useOf "lib.Derived" "run" (some "()V") lineage declarer).Applies r c ∧
        onMethod = true ∧
        ∀ r' ∈ rules.rules, r' ≠ r →
          (∃ c', (Scanner.useOf "lib.Derived" "run" (some "()V") lineage declarer).Applies r' c') →
          (scanner.policy.rank
            (Scanner.useOf "lib.Derived" "run" (some "()V") lineage declarer) r).Before
            (scanner.policy.rank
              (Scanner.useOf "lib.Derived" "run" (some "()V") lineage declarer) r') := by
  refine Scanner.checkMember_rule_first (s := scanner) frozen_rules readable_source
    ⟨derived, load_derived⟩
    (by decide) (by decide) ?_ ?_
  · rintro d ⟨rfl⟩
    decide
  · intro lineage declarer missing h
    rw [show scanner.source = source from rfl, resolveMember_run] at h
    cases h
    decide

end InheritedCall

end JvmAudit
