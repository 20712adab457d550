import JvmAudit.Proofs.Rule.RuleSet
import JvmAudit.Scan.Hit

/-!
# What the matching finds

When a rule applies to a use, said without look-ups and without an order (`MemberUse.Applies`), and
that the searches for a rule find one iff there is one that applies.

Names of members may be anything, also a text like `m(I)`. A rule about one class is found by its
text, so the searches are first described by that (`MemberUse.Spells`); if the name has no
parenthesis, it is the same as `Applies`.
-/

namespace JvmAudit

/-! ## Classes and declarations of fields -/

theorem RuleSet.finds_annotated? (set : RuleSet) (annotations : List String) :
    Finds (set.annotated? annotations) fun r =>
      r ∈ set.annotated ∧ ∃ a ∈ annotations, r.owner.accepts a = true :=
  Finds.find?.congr fun r => by simp

/-- The rules about annotations are those with such a target. -/
theorem RuleSet.Sound.mem_annotated_iff {set : RuleSet} (hs : set.Sound) {r : Rule} :
    r ∈ set.annotated ↔ r ∈ set.rules ∧ r.target = .annotated := by
  simp only [RuleSet.rules, List.mem_append]
  constructor
  · exact fun h => ⟨.inr h, hs.annotated_target r h⟩
  · rintro ⟨(h | h) | h, ht⟩
    · exact absurd ht (hs.exact_owner r h).1
    · exact absurd ht (hs.globs_owner r h).1
    · exact h

/-- A rule that is not about an annotation is about one class, or has a pattern. -/
theorem RuleSet.Sound.mem_rules_iff {set : RuleSet} (hs : set.Sound) {r : Rule}
    (ht : r.target ≠ .annotated) :
    r ∈ set.rules ↔ r ∈ set.exactRules ∨ r ∈ set.globs := by
  simp only [RuleSet.rules, List.mem_append]
  constructor
  · rintro (h | h)
    · exact h
    · exact absurd (hs.annotated_target r h) ht
  · exact .inl

namespace Policy

variable {p : Policy}

/-- The rule about a class is found, if there is one. -/
theorem finds_typeRule? (hs : p.rules.Sound) {name : String} (hn : '#' ∉ name.toList) :
    Finds (p.typeRule? name) fun r =>
      r ∈ p.rules.rules ∧ r.target = .type ∧ r.owner.accepts name = true := by
  refine ((Finds.of_iff fun r => hs.type?_eq_some_iff hn).orElse Finds.find?).congr fun r => ?_
  simp only [Bool.and_eq_true, beq_iff_eq]
  rw [← or_and_right]
  refine and_congr_left fun h => (hs.mem_rules_iff ?_).symm
  simp [h.1]

/-- The rule about a field is found, if there is one. -/
theorem finds_fieldRule? (hs : p.rules.Sound) {owner name : String} (ho : '#' ∉ owner.toList) :
    Finds (p.fieldRule? owner name) fun r =>
      r ∈ p.rules.rules ∧ r.target = .member name ∧ r.owner.accepts owner = true := by
  refine (Finds.orElse
    (P := fun r => r ∈ p.rules.exactRules ∧ r.target = .member name ∧ r.owner.accepts owner = true)
    (.of_iff fun r => ?_) Finds.find?).congr fun r => ?_
  · -- the filter leaves a rule about an overload out, should the name read like one
    rw [Option.filter_eq_some_iff, hs.member?_eq_some_iff ho]
    constructor
    · rintro ⟨⟨hm, ha, ht⟩, hk⟩
      cases htarget : r.target with
      | member n =>
        rw [htarget] at ht
        cases ht
        exact ⟨hm, rfl, ha⟩
      | overload _ _ => simp [htarget] at hk
      | type => simp [htarget] at hk
      | annotated => simp [htarget] at hk
    · rintro ⟨hm, ht, ha⟩
      simp [hm, ht, ha, RuleTarget.memberText?]
  · simp only [Bool.and_eq_true, beq_iff_eq]
    rw [← or_and_right]
    refine and_congr_left fun h => (hs.mem_rules_iff ?_).symm
    simp [h.1]

/-- An internal class of the runtime is hit iff such classes are banned. -/
theorem finds_internalHit? (p : Policy) (name : String) :
    Finds (p.internalHit? name) fun hit =>
      (p.banInternalRuntime = true ∧ isInternalRuntime name = true) ∧
      .internalRuntime name = hit := by
  unfold internalHit?
  refine (Finds.ofSome _).ite.congr fun hit => ?_
  rw [Bool.and_eq_true]

end Policy

/-! ## Uses of members -/

namespace Policy.MemberUse

/-- A rule applies to the use of a member, on account of a class. -/
def Applies (u : MemberUse) (r : Rule) (className : String) : Prop :=
  match r.target with
  | .overload name params =>
    name = u.name ∧ u.params? = some (RuleTarget.paramsText params) ∧ className ∈ u.lineageNames ∧
      r.owner.accepts className = true
  | .member name => name = u.name ∧ className ∈ u.lineageNames ∧ r.owner.accepts className = true
  | .type => className ∈ u.owners ∧ r.owner.accepts className = true
  | .annotated =>
    ∃ holder, u.holder? = some holder ∧ className = holder.name ∧
      ((∃ annotations, u.annotations? = some annotations ∧
        ∃ a ∈ annotations, r.owner.accepts a = true) ∨
        ∃ a ∈ holder.annotations, r.owner.accepts a = true)

/-- A rule about an overload applies to members with the same parameters only. -/
theorem applies_overload {u : MemberUse} {r : Rule} {className name : String}
    {params : List FieldType} (h : r.target = .overload name params) :
    u.Applies r className ↔ name = u.name ∧ u.params? = some (RuleTarget.paramsText params) ∧
      className ∈ u.lineageNames ∧ r.owner.accepts className = true := by
  rw [Applies, h]

/-- A rule about a member applies to all overloads, in every class of the lineage. -/
theorem applies_member {u : MemberUse} {r : Rule} {className name : String}
    (h : r.target = .member name) :
    u.Applies r className ↔ name = u.name ∧ className ∈ u.lineageNames ∧
    r.owner.accepts className = true := by
  rw [Applies, h]

theorem applies_type {u : MemberUse} {r : Rule} {className : String} (h : r.target = .type) :
    u.Applies r className ↔ className ∈ u.owners ∧ r.owner.accepts className = true := by
  rw [Applies, h]

/-- A rule about annotations applies to members that have the annotation, or whose class has it. -/
theorem applies_annotated {u : MemberUse} {r : Rule} {className : String}
    (h : r.target = .annotated) :
    u.Applies r className ↔ ∃ holder, u.holder? = some holder ∧ className = holder.name ∧
      ((∃ annotations, u.annotations? = some annotations ∧
        ∃ a ∈ annotations, r.owner.accepts a = true) ∨
        ∃ a ∈ holder.annotations, r.owner.accepts a = true) := by
  rw [Applies, h]

/-- The texts by which a member can be given behind a `#`: its name, and its name with its
parameters. -/
def texts (u : MemberUse) : List String := u.name :: (u.params?.map (u.name ++ ·)).toList

/-- A rule gives the text of the member, on account of a class. -/
def Spells (u : MemberUse) (r : Rule) (className : String) : Prop :=
  (∃ text ∈ u.texts, r.target.memberText? = some text) ∧ className ∈ u.lineageNames ∧
    r.owner.accepts className = true

theorem spells_iff {u : MemberUse} {r : Rule} {className : String} :
    u.Spells r className ↔
      (∃ params, u.params? = some params ∧ className ∈ u.lineageNames ∧
        r.owner.accepts className = true ∧
        r.target.memberText? = some (u.name ++ params)) ∨
      (className ∈ u.lineageNames ∧ r.owner.accepts className = true ∧
        r.target.memberText? = some u.name) := by
  constructor
  · rintro ⟨⟨text, ht, htext⟩, hc, ha⟩
    rcases List.mem_cons.1 ht with rfl | ht
    · exact .inr ⟨hc, ha, htext⟩
    · obtain ⟨params, hu, rfl⟩ := Option.map_eq_some_iff.1 (Option.mem_toList.1 ht)
      exact .inl ⟨params, hu, hc, ha, htext⟩
  · rintro (⟨params, hu, hc, ha, ht⟩ | ⟨hc, ha, ht⟩)
    · exact ⟨⟨_, by simp [texts, hu], ht⟩, hc, ha⟩
    · exact ⟨⟨_, by simp [texts], ht⟩, hc, ha⟩

theorem Applies.spells {u : MemberUse} {r : Rule} {className : String} (h : u.Applies r className)
    (ht : r.target ≠ .type) (ha : r.target ≠ .annotated) : u.Spells r className := by
  cases htarget : r.target with
  | overload name params =>
    obtain ⟨rfl, hp, hc, ho⟩ := (applies_overload htarget).1 h
    exact spells_iff.2 (.inl ⟨_, hp, hc, ho, by rw [htarget]; rfl⟩)
  | member name =>
    obtain ⟨rfl, hc, ho⟩ := (applies_member htarget).1 h
    exact spells_iff.2 (.inr ⟨hc, ho, by rw [htarget]; rfl⟩)
  | type => exact absurd htarget ht
  | annotated => exact absurd htarget ha

/-- If neither the name nor the name of a rule has a parenthesis, a rule that gives the text
applies. -/
theorem Spells.applies {u : MemberUse} {r : Rule} {className : String} (h : u.Spells r className)
    (hr : r.target.WellFormed) (hname : '(' ∉ u.name.toList)
    (hparams : ∀ params, u.params? = some params → params.toList.head? = some '(') :
    u.Applies r className := by
  rcases spells_iff.1 h with ⟨params, hu, hc, ha, ht⟩ | ⟨hc, ha, ht⟩
  · obtain ⟨types, htarget, rfl⟩ :=
      (RuleTarget.memberText?_eq_overload_iff hr hname (hparams params hu)).1 ht
    exact (applies_overload htarget).2 ⟨rfl, hu, hc, ha⟩
  · have htarget := (RuleTarget.memberText?_eq_name_iff hname).1 ht
    exact (applies_member htarget).2 ⟨rfl, hc, ha⟩

/-- A rule with a pattern is tried on the classes of the lineage, or on the owners. -/
theorem finds_globMatch? (u : MemberUse) {r : Rule} (ht : r.target ≠ .annotated) :
    Finds (u.globMatch? r) (u.Applies r) := by
  unfold globMatch? Applies
  cases htarget : r.target with
  | type => exact Finds.find?
  | overload name params =>
    refine Finds.find?.ite.congr fun c => ?_
    simp [and_assoc]
  | member name => exact Finds.find?.ite
  | annotated => exact absurd htarget ht

end Policy.MemberUse

namespace Policy

variable {p : Policy} {u : MemberUse}

/-- The first class with a rule decides. -/
theorem finds_firstRule? {find : String → Option Rule} {classes : List String}
    {R : String → Rule → Prop} (h : ∀ c ∈ classes, Finds (find c) (R c)) :
    Finds (firstRule? find classes) fun m => m.2 ∈ classes ∧ R m.2 m.1 := by
  refine (Finds.findSome? fun c hc => (h c hc).map (·, c)).congr fun m => ?_
  constructor
  · rintro ⟨c, hc, r, hr, rfl⟩
    exact ⟨hc, hr⟩
  · rintro ⟨hc, hr⟩
    exact ⟨m.2, hc, m.1, hr, rfl⟩

/-- The look-up by name and parameters. -/
theorem finds_overloadMatch? (hs : p.rules.Sound) (hl : ∀ c ∈ u.lineageNames, '#' ∉ c.toList) :
    Finds (p.overloadMatch? u) fun m => ∃ params, u.params? = some params ∧ m.2 ∈ u.lineageNames ∧
      m.1 ∈ p.rules.exactRules ∧ m.1.owner.accepts m.2 = true ∧
        m.1.target.memberText? = some (u.name ++ params) := by
  refine Finds.bind fun params _ => ?_
  have hfind : ∀ c ∈ u.lineageNames, Finds (p.rules.overload? c u.name params) fun r =>
      r ∈ p.rules.exactRules ∧ r.owner.accepts c = true ∧
          r.target.memberText? = some (u.name ++ params) := by
    intro c hc
    rw [RuleSet.overload?_eq_member?]
    exact Finds.of_iff fun _ => hs.member?_eq_some_iff (hl c hc)
  exact finds_firstRule? hfind

/-- The look-up by name alone. -/
theorem finds_nameMatch? (hs : p.rules.Sound) (hl : ∀ c ∈ u.lineageNames, '#' ∉ c.toList) :
    Finds (p.nameMatch? u) fun m => m.2 ∈ u.lineageNames ∧ m.1 ∈ p.rules.exactRules ∧
      m.1.owner.accepts m.2 = true ∧ m.1.target.memberText? = some u.name :=
  finds_firstRule? fun c hc => Finds.of_iff fun _ => hs.member?_eq_some_iff (hl c hc)

theorem finds_ownerMatch? (hs : p.rules.Sound) (ho : ∀ c ∈ u.owners, '#' ∉ c.toList) :
    Finds (p.ownerMatch? u) fun m => m.2 ∈ u.owners ∧ m.1 ∈ p.rules.exactRules ∧
    m.1.target = .type ∧
      m.1.owner.accepts m.2 = true :=
  finds_firstRule? fun c hc => Finds.of_iff fun _ => hs.type?_eq_some_iff (ho c hc)

/-- The rules with patterns are tried one after the other. -/
theorem finds_globRuleMatch? (hs : p.rules.Sound) :
    Finds (p.globRuleMatch? u) fun m => m.1 ∈ p.rules.globs ∧ u.Applies m.1 m.2 := by
  refine (Finds.findSome? fun r hr =>
    (u.finds_globMatch? (hs.globs_owner r hr).1).map (r, ·)).congr fun m => ?_
  constructor
  · rintro ⟨r, hr, c, hc, rfl⟩
    exact ⟨hr, hc⟩
  · rintro ⟨hr, hc⟩
    exact ⟨m.1, hr, m.2, hc, rfl⟩

theorem annotatedMatch?_eq (p : Policy) (u : MemberUse) :
    p.annotatedMatch? u = u.holder?.bind fun holder =>
      ((u.annotations?.bind p.rules.annotated?) <|>
        p.rules.annotated? holder.annotations).map (·, holder.name) := by
  unfold annotatedMatch?
  cases u.holder? with
  | none => rfl
  | some holder => exact Option.map_eq_bind.symm

/-- The rules about annotations are tried on the member and then on its class. -/
theorem finds_annotatedMatch? (hs : p.rules.Sound) :
    Finds (p.annotatedMatch? u) fun m => m.1 ∈ p.rules.annotated ∧ u.Applies m.1 m.2 := by
  have hrule : ∀ holder : ClassFile,
      Finds ((u.annotations?.bind p.rules.annotated?) <|>
          p.rules.annotated? holder.annotations) fun r =>
        r ∈ p.rules.annotated ∧
          ((∃ annotations, u.annotations? = some annotations ∧
            ∃ a ∈ annotations, r.owner.accepts a = true) ∨
            ∃ a ∈ holder.annotations, r.owner.accepts a = true) := by
    intro holder
    refine ((Finds.bind fun annotations _ => p.rules.finds_annotated? annotations).orElse
      (p.rules.finds_annotated? holder.annotations)).congr fun r => ?_
    constructor
    · rintro (⟨annotations, hu, hm, ha⟩ | ⟨hm, ha⟩)
      · exact ⟨hm, .inl ⟨annotations, hu, ha⟩⟩
      · exact ⟨hm, .inr ha⟩
    · rintro ⟨hm, ⟨annotations, hu, ha⟩ | ha⟩
      · exact .inl ⟨annotations, hu, hm, ha⟩
      · exact .inr ⟨hm, ha⟩
  rw [annotatedMatch?_eq]
  refine (Finds.bind fun holder _ => (hrule holder).map (·, holder.name)).congr fun m => ?_
  constructor
  · rintro ⟨holder, hh, r, ⟨hm, ha⟩, rfl⟩
    exact ⟨hm, (MemberUse.applies_annotated (hs.annotated_target r hm)).2 ⟨holder, hh, rfl, ha⟩⟩
  · obtain ⟨r, c⟩ := m
    rintro ⟨hm, ha⟩
    obtain ⟨holder, hh, rfl, hann⟩ := (MemberUse.applies_annotated (hs.annotated_target r hm)).1 ha
    exact ⟨holder, hh, r, ⟨hm, hann⟩, rfl⟩

/-- The search finds a rule iff one applies, or a rule about one class gives the text of the
member. -/
theorem finds_memberMatch? (hs : p.rules.Sound) (hl : ∀ c ∈ u.lineageNames, '#' ∉ c.toList)
    (ho : ∀ c ∈ u.owners, '#' ∉ c.toList) :
    Finds (p.memberMatch? u) fun m =>
      (m.1 ∈ p.rules.exactRules ∧ u.Spells m.1 m.2) ∨
      (m.1 ∈ p.rules.rules ∧ u.Applies m.1 m.2) := by
  refine ((finds_overloadMatch? hs hl).orElse <| (finds_nameMatch? hs hl).orElse <|
    (finds_ownerMatch? hs ho).orElse <| (finds_globRuleMatch? hs).orElse <|
      finds_annotatedMatch? hs).congr fun m => ?_
  obtain ⟨r, c⟩ := m
  simp only
  constructor
  · rintro (⟨params, hu, hc, hm, ha, ht⟩ | ⟨hc, hm, ha, ht⟩ | ⟨hc, hm, ht, ha⟩ |
      ⟨hm, ha⟩ | ⟨hm, ha⟩)
    · exact .inl ⟨hm, MemberUse.spells_iff.2 (.inl ⟨params, hu, hc, ha, ht⟩)⟩
    · exact .inl ⟨hm, MemberUse.spells_iff.2 (.inr ⟨hc, ha, ht⟩)⟩
    · exact .inr ⟨(hs.mem_rules_iff (by simp [ht])).2 (.inl hm),
        (MemberUse.applies_type ht).2 ⟨hc, ha⟩⟩
    · exact .inr ⟨(hs.mem_rules_iff (hs.globs_owner r hm).1).2 (.inr hm), ha⟩
    · exact .inr ⟨(hs.mem_annotated_iff.1 hm).1, ha⟩
  · rintro (⟨hm, hsp⟩ | ⟨hm, ha⟩)
    · rcases MemberUse.spells_iff.1 hsp with ⟨params, hu, hc, ha, ht⟩ | ⟨hc, ha, ht⟩
      · exact .inl ⟨params, hu, hc, hm, ha, ht⟩
      · exact .inr (.inl ⟨hc, hm, ha, ht⟩)
    · by_cases ht : r.target = .annotated
      · exact .inr (.inr (.inr (.inr ⟨hs.mem_annotated_iff.2 ⟨hm, ht⟩, ha⟩)))
      rcases (hs.mem_rules_iff ht).1 hm with hm | hm
      · by_cases htype : r.target = .type
        · obtain ⟨hc, ho⟩ := (MemberUse.applies_type htype).1 ha
          exact .inr (.inr (.inl ⟨hc, hm, htype, ho⟩))
        · have hsp := ha.spells htype ht
          rcases MemberUse.spells_iff.1 hsp with ⟨params, hu, hc, ha, ht⟩ | ⟨hc, ha, ht⟩
          · exact .inl ⟨params, hu, hc, hm, ha, ht⟩
          · exact .inr (.inl ⟨hc, hm, ha, ht⟩)
      · exact .inr (.inr (.inr (.inl ⟨hm, ha⟩)))

end Policy

end JvmAudit
