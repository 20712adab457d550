import JvmAudit.Proofs.Rule.Overload
import JvmAudit.Proofs.Rule.RuleSet

/-!
# Look-ups by key

Which rule a look-up by key finds, for all texts in the place of names. Rules about classes, members
and overloads are kept in one table, and the names in class files may have a `#` or parentheses.

A key has one `#` at most and one opening parenthesis at most. So the look-up of an overload finds
the rule about it and nothing else. The look-up of a member may find a rule about an overload, if
the name is spelled like one, and the look-up of a class a rule about a member
(`RuleSet.lookups_find`).
-/

namespace JvmAudit

/-! ## The characters of keys -/

theorem IsMemberName.hash_notMem {name : String} (h : IsMemberName name) : '#' ∉ name.toList :=
  fun hc => absurd (h.mem hc) (by decide)

namespace RuleTarget.WellFormed

variable {t : RuleTarget} {text : String}

theorem hash_notMem_memberText (ht : t.WellFormed) (h : t.memberText? = some text) :
    '#' ∉ text.toList := by
  cases t with
  | overload name types =>
    cases h
    have htypes : '#' ∉ types.flatMap FieldType.render :=
      FieldType.notMem_flatMap_render (fun t hmem => (ht.2 t hmem).base) (by decide)
    simp [paramsText, ht.1.hash_notMem, htypes]
  | member name =>
    cases h
    exact IsMemberName.hash_notMem ht
  | type => cases h
  | annotated => cases h

/-- What stands in front of the parameters has no parenthesis. -/
theorem paren_notMem_name {name params : String} (ht : t.WellFormed)
    (hparams : params.toList.head? = some '(')
    (h : t.memberText? = some (name ++ params)) : '(' ∉ name.toList := by
  obtain ⟨rest, hrest⟩ := List.head?_eq_some_iff.1 hparams
  intro hmem
  cases t with
  | overload m types =>
    -- the rule would have a second parenthesis, among the types of its parameters
    obtain ⟨front, back, hname, hfront⟩ := List.eq_append_cons_of_mem hmem
    have heq : m.toList ++ '(' :: (types.flatMap FieldType.render ++ [')']) =
        front ++ '(' :: (back ++ '(' :: rest) := by
      have := congrArg String.toList (Option.some.inj h)
      simpa [paramsText, hname, hrest] using this
    obtain ⟨-, htypes⟩ := (Text.append_cons_inj ht.1.paren_notMem hfront).1 heq
    have hsecond : '(' ∈ types.flatMap FieldType.render ++ [')'] := by simp [htypes]
    rcases List.mem_append.1 hsecond with hsecond | hsecond
    · exact FieldType.notMem_flatMap_render (fun t hmem => (ht.2 t hmem).base) (by decide) hsecond
    · simp at hsecond
  | member m =>
    have hm : '(' ∉ m.toList := IsMemberName.paren_notMem ht
    rw [Option.some.inj h, String.toList_append] at hm
    exact hm (List.mem_append_left _ hmem)
  | type => cases h
  | annotated => cases h

/-- A text with a parenthesis gives an overload. -/
theorem memberText?_eq_iff_of_paren (ht : t.WellFormed) (hparen : '(' ∈ text.toList) :
    t.memberText? = some text ↔ ∃ name types, t = .overload name types ∧
    text = name ++ paramsText types := by
  cases t with
  | overload name types => simp [memberText?, eq_comm]
  | member name =>
    refine ⟨fun h => ?_, by simp⟩
    cases h
    exact absurd hparen (IsMemberName.paren_notMem ht)
  | type => simp [memberText?]
  | annotated => simp [memberText?]

end RuleTarget.WellFormed

/-- If the key of a rule names a member, the first `#` is the one in front of the member. -/
theorem Rule.hash_notMem_of_key_eq {r : Rule} {owner text : String} (hr : r.WellFormed)
    (h : r.key = Rule.memberKey owner text) : '#' ∉ owner.toList := by
  intro hmem
  cases hm : r.target.memberText? with
  | some own =>
    obtain ⟨front, back, howner, hfront⟩ := List.eq_append_cons_of_mem hmem
    have heq : r.owner.text.toList ++ '#' :: own.toList =
        front ++ '#' :: (back ++ '#' :: text.toList) := by
      have := congrArg String.toList h
      rw [Rule.key_of_memberText? hm, Rule.toList_memberKey, Rule.toList_memberKey, howner] at this
      simpa using this
    obtain ⟨-, hown⟩ := (Text.append_cons_inj hr.owner.hash_notMem hfront).1 heq
    exact hr.target.hash_notMem_memberText hm (by simp [hown])
  | none =>
    have hkey := Rule.hash_notMem_key hr hm
    rw [h, Rule.toList_memberKey] at hkey
    simp at hkey

/-- The key of a rule has a `#` iff the rule is about a member. -/
theorem Rule.key_eq_iff_of_hash {r : Rule} {text : String} (hr : r.WellFormed)
    (hhash : '#' ∈ text.toList) :
    r.key = text ↔ ∃ member, r.target.memberText? = some member ∧
    text = Rule.memberKey r.owner.text member := by
  constructor
  · intro h
    cases hm : r.target.memberText? with
    | some member => exact ⟨member, rfl, by rw [← h, Rule.key_of_memberText? hm]⟩
    | none => exact absurd (h ▸ hhash) (Rule.hash_notMem_key hr hm)
  · rintro ⟨member, hm, rfl⟩
    exact Rule.key_of_memberText? hm

/-! ## Look-ups -/

theorem NamePattern.eq_exact_iff {p : NamePattern} {name : String} (h : p.isGlob = false) :
    p = .exact name ↔ p.text = name := by
  cases p with
  | exact n => simp [NamePattern.text]
  | glob g => cases h

theorem head?_of_ofDescriptor? {descriptor : String} {method : MethodType}
    (h : MethodType.ofDescriptor? descriptor = some method) :
    descriptor.toList.head? = some '(' := by
  rw [← (MethodType.ofDescriptor?_eq_some_iff.1 h).2]
  rfl

namespace RuleSet.Sound

variable {set : RuleSet} {owner name : String} {r : Rule}

theorem wellFormed_exact (hs : set.Sound) (hm : r ∈ set.exactRules) : r.WellFormed :=
  hs.wellFormed r (List.mem_append_left _ (List.mem_append_left _ hm))

/-- The look-up by a class and what stands behind the `#`, for any text in the place of the
class. -/
theorem member?_eq_some_iff_memberText? (hs : set.Sound) :
    set.member? owner name = some r ↔
      r ∈ set.exactRules ∧ r.owner = .exact owner ∧ r.target.memberText? = some name := by
  rw [member?, hs.lookup_eq_some_iff]
  refine and_congr_right fun hm => ?_
  rw [NamePattern.eq_exact_iff (hs.exact_owner r hm).2]
  have hr := hs.wellFormed_exact hm
  constructor
  · intro hkey
    exact (Rule.key_eq_memberKey_iff hr (Rule.hash_notMem_of_key_eq hr hkey)).1 hkey
  · rintro ⟨rfl, ht⟩
    exact Rule.key_of_memberText? ht

/-- The look-up of an overload by the descriptor of a method. -/
theorem overload?_eq_some_iff (hs : set.Sound) {descriptor : String} {method : MethodType}
    (hread : MethodType.ofDescriptor? descriptor = some method) :
    set.overload? owner name (paramsPart descriptor) = some r ↔
      r ∈ set.exactRules ∧ r.owner = .exact owner ∧ r.target = .overload name method.params ∧
        r.target.params? = some (paramsPart descriptor) := by
  rw [overload?_eq_member?, hs.member?_eq_some_iff_memberText?]
  refine and_congr_right fun hm => and_congr_right fun _ => ?_
  constructor
  · intro htext
    have ht := (hs.wellFormed_exact hm).target
    have hhead := head?_paramsPart (head?_of_ofDescriptor? hread)
    obtain ⟨types, htarget, hparams⟩ :=
      (RuleTarget.memberText?_eq_overload_iff ht (ht.paren_notMem_name hhead htext) hhead).1 htext
    rw [htarget] at ht
    have hspelled : ∀ t ∈ types, t.base.Spelled := fun t hmem => (ht.2 t hmem).base
    rw [(paramsPart_eq_paramsText_iff hspelled hread).1 hparams.symm, htarget]
    exact ⟨rfl, congrArg some hparams⟩
  · rintro ⟨htarget, hparams⟩
    rw [htarget] at hparams ⊢
    rw [← Option.some.inj hparams]
    rfl

end RuleSet.Sound

/-- **What the look-ups by key find.** In a bound rule book, whatever texts the names are: the
look-up of an overload by a descriptor that can be read finds the rule about this overload of this
class. The look-up of a member finds the rule about this member of this class if the name has no
parenthesis, and otherwise the rule about an overload that is spelled so. The look-up of a class
finds the rule about this class if the name has no `#`, and otherwise the rule about a member or an
overload that is spelled so. -/
theorem RuleSet.lookups_find {set : RuleSet} (h : set.Frozen) (owner name : String) (r : Rule) :
    (∀ descriptor method, MethodType.ofDescriptor? descriptor = some method →
      (set.overload? owner name (paramsPart descriptor) = some r ↔
        r ∈ set.exactRules ∧ r.owner = .exact owner ∧ r.target = .overload name method.params ∧
          r.target.params? = some (paramsPart descriptor))) ∧
    ('(' ∉ name.toList →
      (set.member? owner name = some r ↔ r ∈ set.exactRules ∧ r.owner = .exact owner ∧
        r.target = .member name)) ∧
    ('(' ∈ name.toList →
      (set.member? owner name = some r ↔ r ∈ set.exactRules ∧ r.owner = .exact owner ∧
        ∃ m types, r.target = .overload m types ∧ name = m ++ RuleTarget.paramsText types)) ∧
    ('#' ∉ owner.toList →
      (set.type? owner = some r ↔ r ∈ set.exactRules ∧ r.owner = .exact owner ∧ r.target = .type)) ∧
    ('#' ∈ owner.toList →
      (set.type? owner = some r ↔ r ∈ set.exactRules ∧
        ∃ text, r.target.memberText? = some text ∧ owner = Rule.memberKey r.owner.text text)) := by
  have hs := h.sound
  refine ⟨fun descriptor method hread => hs.overload?_eq_some_iff hread, ?_, ?_, ?_, ?_⟩
  · intro hparen
    rw [hs.member?_eq_some_iff_memberText?, RuleTarget.memberText?_eq_name_iff hparen]
  · intro hparen
    rw [hs.member?_eq_some_iff_memberText?]
    refine and_congr_right fun hm => and_congr_right fun _ => ?_
    exact (hs.wellFormed_exact hm).target.memberText?_eq_iff_of_paren hparen
  · intro hhash
    rw [RuleSet.type?, hs.lookup_eq_some_iff]
    refine and_congr_right fun hm => ?_
    obtain ⟨ha, hglob⟩ := hs.exact_owner r hm
    rw [Rule.key_eq_className_iff ha hhash, NamePattern.eq_exact_iff hglob, and_comm]
  · intro hhash
    rw [RuleSet.type?, hs.lookup_eq_some_iff]
    exact and_congr_right fun hm => Rule.key_eq_iff_of_hash (hs.wellFormed_exact hm) hhash

/-! ## Names that are spelled like rules

A class with a method and a field, and a rule about each. Another class file may have a method with
the name `halt(I)`, or a class with the name `lib.Host#out`. -/

namespace SpelledLikeRules

def host : ClassFile :=
  ⟨"lib.Host", 1, 52, none, none, [], [], [⟨"out", "I", 9, []⟩],
    [⟨"halt", "(I)V", 9, [], [], none⟩]⟩

def book : RuleBook :=
  (RuleBook.empty.run (RuleBook.addText "rules" "lib.Host#halt(int)\nlib.Host#out")).2

def haltRule : Rule := ⟨.exact "lib.Host", .overload "halt" [⟨0, .primitive .int⟩], ""⟩

def outRule : Rule := ⟨.exact "lib.Host", .member "out", ""⟩

def rules : RuleSet := ⟨[("lib.Host#halt(I)", haltRule), ("lib.Host#out", outRule)], [], [], []⟩

theorem frozen_book : rules.Frozen :=
  ⟨book, ⟨[host], []⟩, true, .addText .refl _ _, by decide +kernel⟩

/-- The overload and the field are found by their names, and nothing is found for the class. -/
theorem lookups_find_host :
    rules.overload? "lib.Host" "halt" (paramsPart "(I)V") = some haltRule ∧
    rules.member? "lib.Host" "out" = some outRule ∧
    ∀ r, rules.member? "lib.Host" "halt" ≠ some r ∧ rules.type? "lib.Host" ≠ some r := by
  have hread : MethodType.ofDescriptor? "(I)V" = some ⟨[⟨0, .primitive .int⟩], none⟩ := by
    decide +kernel
  refine ⟨((RuleSet.lookups_find frozen_book "lib.Host" "halt" haltRule).1 _ _ hread).2
    (by decide +kernel),
    ((RuleSet.lookups_find frozen_book "lib.Host" "out" outRule).2.1 (by decide)).2 (by decide),
    fun r => ?_⟩
  obtain ⟨-, hmember, -, htype, -⟩ := RuleSet.lookups_find frozen_book "lib.Host" "halt" r
  have hrules : ∀ r ∈ rules.exactRules, r.target ≠ .member "halt" ∧ r.target ≠ .type := by decide
  constructor
  · intro hfound
    obtain ⟨hmem, -, htarget⟩ := (hmember (by decide)).1 hfound
    exact (hrules r hmem).1 htarget
  · intro hfound
    obtain ⟨hmem, -, htarget⟩ := (htype (by decide)).1 hfound
    exact (hrules r hmem).2 htarget

/-- A member with the name `halt(I)`, which class files may have, is taken for the overload, and a
class with the name `lib.Host#out` for the field. -/
theorem member_taken_for_overload :
    rules.Frozen ∧ (∀ c ∈ "halt(I)".toList, c ∉ ['.', ';', '[', '/']) ∧
    rules.member? "lib.Host" "halt(I)" = some haltRule ∧ haltRule.target ≠ .member "halt(I)" ∧
    rules.type? "lib.Host#out" = some outRule ∧ outRule.target ≠ .type :=
  ⟨frozen_book, by simp, by decide +kernel, by decide, by decide +kernel, by decide⟩

end SpelledLikeRules

end JvmAudit
