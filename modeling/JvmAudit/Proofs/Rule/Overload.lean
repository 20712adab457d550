import JvmAudit.ClassFile.Basic
import JvmAudit.Proofs.Descriptor.Grammar
import JvmAudit.Proofs.Rule.Roundtrip

/-!
# Rules for one overload

A rule for an overload and a method are compared by texts: the parameters of the rule in descriptor
form, and the descriptor of the method up to its first closing parenthesis. The name of a class in
the descriptor may have such a parenthesis too, and then the descriptor is cut inside the name. Such
a text is never that of a rule, whose parameters have no parenthesis and are complete. So the texts
are equal iff the types of the parameters are (`paramsPart_eq_paramsText_iff`).
-/

namespace JvmAudit

/-- The characters in the descriptor of a type that has a Java spelling. -/
theorem FieldType.mem_render {t : FieldType} (h : t.base.Spelled) {c : Char} (hc : c ∈ t.render) :
    Text.isWordChar c = true ∨ c ∈ ['.', '/', '[', ';'] := by
  unfold render at hc
  rcases List.mem_append.1 hc with hbracket | hbase
  · rw [List.mem_replicate] at hbracket
    simp [hbracket.2]
  · cases hb : t.base with
    | primitive p =>
      rw [hb, BaseType.render, List.mem_singleton] at hbase
      rw [hbase]
      left
      cases p <;> decide
    | object name =>
      rw [hb] at h hbase
      simp only [BaseType.render, List.mem_cons, List.mem_append, List.not_mem_nil,
        or_false] at hbase
      rcases hbase with (rfl | hname) | rfl
      · exact .inl (by decide)
      · rcases h.mem_name hname with hword | rfl | rfl
        · exact .inl hword
        · exact .inr (by decide)
        · exact .inr (by decide)
      · exact .inr (by decide)

/-- Types that have Java spellings have no parenthesis and no `#` in their descriptors. -/
theorem FieldType.notMem_flatMap_render {ts : List FieldType}
    (h : ∀ t ∈ ts, t.base.Spelled) {c : Char}
    (hc : c ∈ ['(', ')', '#']) : c ∉ ts.flatMap FieldType.render := by
  intro hmem
  obtain ⟨t, ht, hmem⟩ := List.mem_flatMap.1 hmem
  have hrender := mem_render (h t ht) hmem
  simp only [List.mem_cons, List.not_mem_nil, or_false] at hc
  rcases hc with rfl | rfl | rfl <;> exact absurd hrender (by decide)

theorem paramsPart_of_append {descriptor : String} {front back : List Char} (h : ')' ∉ front)
    (htext : descriptor.toList = front ++ ')' :: back) :
    paramsPart descriptor = .ofList (front ++ [')']) := by
  unfold paramsPart
  rw [Text.cutFirst_eq_some_iff.2 ⟨h, htext⟩]

theorem head?_paramsPart {descriptor : String} (h : descriptor.toList.head? = some '(') :
    (paramsPart descriptor).toList.head? = some '(' := by
  unfold paramsPart
  split
  · next front back hcut =>
    rw [(Text.cutFirst_eq_some_iff.1 hcut).2] at h
    rw [String.toList_ofList]
    cases front with
    | nil => cases h
    | cons c front => exact h
  · exact h

/-- The text of the parameters in a descriptor is that of types with Java spellings iff they are
these types. -/
theorem paramsPart_eq_paramsText_iff {ts : List FieldType} (h : ∀ t ∈ ts, t.base.Spelled)
    {descriptor : String}
    {method : MethodType} (hread : MethodType.ofDescriptor? descriptor = some method) :
    paramsPart descriptor = RuleTarget.paramsText ts ↔ method.params = ts := by
  obtain ⟨hreadable, hrender⟩ := MethodType.ofDescriptor?_eq_some_iff.1 hread
  obtain ⟨hparams, -⟩ := MethodType.readable_iff.1 hreadable
  have hts : ∀ t ∈ ts, t.base.Readable := fun t ht => (h t ht).readable
  generalize hresult : (method.result.map FieldType.render).getD ['V'] = result
  have htext : descriptor.toList =
      ('(' :: method.params.flatMap FieldType.render) ++ ')' :: result := by
    rw [← hrender, ← hresult]
    rfl
  constructor
  · intro heq
    -- wherever the first parenthesis is, a complete list of types stands in front of it
    obtain ⟨front, back, hfirst, hfront⟩ :=
      List.eq_append_cons_of_mem (show ')' ∈ descriptor.toList by simp [htext])
    rw [paramsPart_of_append hfront hfirst, RuleTarget.paramsText, String.ofList_inj] at heq
    rw [htext, List.append_cancel_right heq] at hfirst
    have hsame : method.params.flatMap FieldType.render ++ ')' :: result =
        ts.flatMap FieldType.render ++ ')' :: back := (List.cons.inj hfirst).2
    have hback := MethodType.readParams_render hparams result
    rw [hsame, MethodType.readParams_render hts] at hback
    cases hback
    rfl
  · rintro rfl
    have hparen : ')' ∉ '(' :: method.params.flatMap FieldType.render := by
      intro hmem
      exact FieldType.notMem_flatMap_render h (by decide) (List.mem_of_ne_of_mem (by decide) hmem)
    exact paramsPart_of_append hparen htext

namespace RuleText

/-- A rule for an overload that is read from a text selects the methods with its parameters and no
others: the text of its parameters denotes a list of types, and is the text of the parameters in a
descriptor iff these are the types there. -/
theorem overload_selects {origin text : String} {entries : List Entry}
    (h : parse origin text = .ok entries) {e : Entry} (he : e ∈ entries) {r : Rule}
    (hr : e.content = .rule r) {params : String} (hparams : r.target.params? = some params) :
    ∃ ts, MethodType.ofDescriptor? (params ++ "V") = some ⟨ts, none⟩ ∧
      ∀ descriptor method, MethodType.ofDescriptor? descriptor = some method →
        (paramsPart descriptor = params ↔ method.params = ts) ∧
        ∀ m : MethodDecl, m.descriptor = descriptor →
          ∀ name, ClassFile.isOverload name params m ↔ m.name = name ∧ method.params = ts := by
  have hwf := wellFormed_of_mem_parse h he hr
  obtain ⟨owner, target, reason⟩ := r
  cases target with
  | overload name ts =>
    cases hparams
    have hts : ∀ t ∈ ts, t.base.Spelled := fun t ht => (hwf.target.2 t ht).base
    refine ⟨ts, ?_, fun descriptor method hread => ?_⟩
    · rw [MethodType.ofDescriptor?_eq_some_iff, MethodType.readable_iff]
      refine ⟨⟨fun t ht => (hts t ht).readable, by simp⟩, ?_⟩
      simp [RuleTarget.paramsText, MethodType.render]
    · have hiff := paramsPart_eq_paramsText_iff hts hread
      refine ⟨hiff, ?_⟩
      rintro m rfl name
      simp only [ClassFile.isOverload, Bool.and_eq_true, beq_iff_eq, hiff]
  | member name => cases hparams
  | type => cases hparams
  | annotated => cases hparams

def schedulerText : String := "app.Timer#plan( app.Task , int[] )"

def schedulerRule : Rule :=
  ⟨.ofText "app.Timer", .overload "plan" [⟨0, .object "app/Task"⟩, ⟨1, .primitive .int⟩], ""⟩

/-- Parentheses in the name of the result do not matter, and one in the name of a parameter makes
another list of types. -/
theorem overload_selects_parentheses :
    parse "rules.txt" schedulerText = .ok [⟨.rule schedulerRule, false, 1⟩] ∧
    schedulerRule.target.params? = some "(Lapp/Task;[I)" ∧
    paramsPart "(Lapp/Task;[I)Lapp/a)b(;" = "(Lapp/Task;[I)" ∧
    paramsPart "(Lapp/Task)[I;)V" ≠ "(Lapp/Task;[I)" := by
  have h : parse "rules.txt" schedulerText = .ok [⟨.rule schedulerRule, false, 1⟩] := by
    decide +kernel
  have hparams : schedulerRule.target.params? = some "(Lapp/Task;[I)" := by decide +kernel
  obtain ⟨ts, hts, hselect⟩ := overload_selects h List.mem_cons_self rfl hparams
  have hread : MethodType.ofDescriptor? ("(Lapp/Task;[I)" ++ "V") =
      some ⟨[⟨0, .object "app/Task"⟩, ⟨1, .primitive .int⟩], none⟩ := by decide +kernel
  cases hread.symm.trans hts
  have hsame : MethodType.ofDescriptor? "(Lapp/Task;[I)Lapp/a)b(;" =
      some ⟨[⟨0, .object "app/Task"⟩, ⟨1, .primitive .int⟩], some ⟨0, .object "app/a)b("⟩⟩ := by
    decide +kernel
  have hother : MethodType.ofDescriptor? "(Lapp/Task)[I;)V" =
      some ⟨[⟨0, .object "app/Task)[I"⟩], none⟩ := by
    decide +kernel
  exact ⟨h, hparams, (hselect _ _ hsame).1.2 rfl, fun heq =>
    absurd ((hselect _ _ hother).1.1 heq) (by decide)⟩

end RuleText

end JvmAudit
