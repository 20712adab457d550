import JvmAudit.Proofs.Descriptor.JavaType
import JvmAudit.Proofs.Rule.Lines
import JvmAudit.Proofs.Rule.Lookup

/-!
# Keys identify rules

The key of a rule is its parts written one behind the other, with nothing but a `#`, an `@` or a
parenthesis to tell where they end, and so is its text form. Of a rule that is read from a text, no
part has one of these characters. So neither two keys nor two text forms agree unless all parts do
(`Rule.key_eq_iff`, `Rule.display_eq_iff`).

The parameters of an overload may be spelled in many ways (`RuleTarget.SpelledParams`), and their
spelling is not kept. So whatever stands between the parentheses, the same types give the same key
(`Line.parse_overloadText`).
-/

namespace JvmAudit

open Result

/-! ## Parts -/

/-- The kinds of rules. -/
inductive RuleKind where
  | type
  | overload
  | member
  | annotated
  deriving DecidableEq

/-- The kind of a rule. -/
def RuleTarget.kind : RuleTarget → RuleKind
  | .type => .type
  | .overload _ _ => .overload
  | .member _ => .member
  | .annotated => .annotated

/-- The rule is read from some text. -/
def Rule.IsRead (r : Rule) : Prop :=
  ∃ origin text entries, RuleText.parse origin text = .ok entries ∧
    ∃ e ∈ entries, e.content = .rule r

theorem Rule.IsRead.wellFormed {r : Rule} (h : r.IsRead) : r.WellFormed := by
  obtain ⟨origin, text, entries, hparse, e, he, hr⟩ := h
  exact RuleText.wellFormed_of_mem_parse hparse he hr

namespace NamePattern.WellFormed

variable {p p' : NamePattern}

/-- A well-formed pattern is determined by its text. -/
theorem text_inj (h : p.WellFormed) (h' : p'.WellFormed) : p.text = p'.text ↔ p = p' := by
  refine ⟨fun heq => ?_, congrArg _⟩
  obtain ⟨cs, -, rfl⟩ := h
  obtain ⟨cs', -, rfl⟩ := h'
  rw [text_ofText, text_ofText] at heq
  rw [heq]

theorem at_notMem (h : p.WellFormed) : '@' ∉ p.text.toList :=
  fun hc => absurd (h.mem hc) (by decide)

/-- A rule that starts with its owner does not start like one about annotations. -/
theorem append_ne_at (h : p.WellFormed) (back cs : List Char) :
    p.text.toList ++ back ≠ '@' :: cs := by
  obtain ⟨c, rest, hcons, -⟩ := h.isParted.exists_cons
  intro heq
  rw [hcons] at heq
  obtain ⟨rfl, -⟩ := List.cons.inj heq
  exact h.at_notMem (by simp [hcons])

end NamePattern.WellFormed

namespace RuleTarget

/-- The descriptors of types can be told apart in their sequence. -/
theorem paramsText_inj {ts ts' : List FieldType} (h : ∀ t ∈ ts, t.Spelled)
    (h' : ∀ t ∈ ts', t.Spelled) :
    paramsText ts = paramsText ts' ↔ ts = ts' := by
  refine ⟨fun heq => ?_, congrArg _⟩
  have hread : ∀ ts : List FieldType, (∀ t ∈ ts, t.Spelled) →
      MethodType.readParams (ts.flatMap FieldType.render ++ [')']) = some (ts, []) :=
    fun ts h => MethodType.readParams_render (fun t ht => (h t ht).base.readable) []
  have htext : ts.flatMap FieldType.render ++ [')'] = ts'.flatMap FieldType.render ++ [')'] :=
    (List.cons.inj (String.ofList_inj.1 heq)).2
  have hboth := hread ts h
  rw [htext, hread ts' h'] at hboth
  cases hboth
  rfl

variable {t t' : RuleTarget}

/-- What stands behind the `#` tells the member, and the types of its parameters if it is an
overload. -/
theorem WellFormed.memberText?_inj {text : String} (ht : t.WellFormed) (ht' : t'.WellFormed)
    (h : t.memberText? = some text) (h' : t'.memberText? = some text) : t = t' := by
  cases t' with
  | overload name ts' =>
    cases h'
    obtain ⟨ts, rfl, htypes⟩ :=
      (memberText?_eq_overload_iff ht ht'.1.paren_notMem (by simp [paramsText])).1 h
    rw [(paramsText_inj ht.2 ht'.2).1 htypes]
  | member name =>
    cases h'
    exact (memberText?_eq_name_iff (IsMemberName.paren_notMem ht')).1 h
  | type => cases h'
  | annotated => cases h'

/-- Only rules about classes and about annotations have no member. -/
theorem memberText?_eq_none_iff : t.memberText? = none ↔ t = .type ∨ t = .annotated := by
  cases t <;> simp [memberText?]

/-- A target is its kind, its member and its parameters. -/
theorem WellFormed.eq_iff (ht : t.WellFormed) (ht' : t'.WellFormed) :
    t = t' ↔ t.kind = t'.kind ∧ t.member? = t'.member? ∧ t.params? = t'.params? := by
  refine ⟨by rintro rfl; exact ⟨rfl, rfl, rfl⟩, ?_⟩
  rintro ⟨hkind, hmember, hparams⟩
  cases t with
  | overload name ts =>
    cases t' with
    | overload name' ts' =>
      obtain rfl := Option.some.inj hmember
      rw [(paramsText_inj ht.2 ht'.2).1 (Option.some.inj hparams)]
    | _ => cases hkind
  | member name =>
    cases t' with
    | member name' => rw [Option.some.inj hmember]
    | _ => cases hkind
  | type =>
    cases t' with
    | type => rfl
    | _ => cases hkind
  | annotated =>
    cases t' with
    | annotated => rfl
    | _ => cases hkind

end RuleTarget

/-! ## Keys and text forms -/

namespace Rule

variable {r r' : Rule}

theorem key_congr (howner : r.owner = r'.owner) (htarget : r.target = r'.target) :
    r.key = r'.key := by
  unfold key
  rw [howner, htarget]

theorem display_congr (howner : r.owner = r'.owner) (htarget : r.target = r'.target) :
    r.display = r'.display := by
  unfold display
  rw [howner, htarget]

/-- Keys without a member agree iff both are the name of a class, or both that of an annotation. -/
theorem key_eq_iff_of_none (hr : r.WellFormed) (hr' : r'.WellFormed)
    (h : r.target.memberText? = none) (h' : r'.target.memberText? = none) :
    r.key = r'.key ↔ r.owner = r'.owner ∧ r.target = r'.target := by
  rw [← hr.owner.text_inj hr'.owner]
  have hat : ∀ {p p' : NamePattern}, p.WellFormed → "@" ++ p'.text ≠ p.text := fun hp heq =>
    hp.at_notMem (by simp [← heq])
  rcases RuleTarget.memberText?_eq_none_iff.1 h with ht | ht <;>
    rcases RuleTarget.memberText?_eq_none_iff.1 h' with ht' | ht'
  · simp [key, ht, ht']
  · simp [key, ht, ht', (hat hr.owner).symm]
  · simp [key, ht, ht', hat hr'.owner]
  · simp [key, ht, ht', String.append_right_inj]

/-- Rules that are read have the same key iff they differ in their reasons at most. -/
theorem key_eq_iff (hr : r.WellFormed) (hr' : r'.WellFormed) :
    r.key = r'.key ↔ r.owner = r'.owner ∧ r.target = r'.target := by
  cases hm' : r'.target.memberText? with
  | some text =>
    rw [key_of_memberText? hm', key_eq_memberKey_iff hr hr'.owner.hash_notMem,
      hr.owner.text_inj hr'.owner]
    refine and_congr_right fun _ =>
      ⟨fun hm => hr.target.memberText?_inj hr'.target hm hm', fun heq => ?_⟩
    rw [heq, hm']
  | none =>
    cases hm : r.target.memberText? with
    | none => exact key_eq_iff_of_none hr hr' hm hm'
    | some text =>
      -- only one of the keys has a `#`
      refine ⟨fun heq => ?_, fun ⟨howner, htarget⟩ => key_congr howner htarget⟩
      have hhash := hash_notMem_key hr' hm'
      rw [← heq, key_of_memberText? hm, toList_memberKey] at hhash
      simp at hhash

/-- Rules that are read have the same text form iff they differ in their reasons at most. -/
theorem display_eq_iff (hr : r.WellFormed) (hr' : r'.WellFormed) :
    r.display = r'.display ↔ r.owner = r'.owner ∧ r.target = r'.target := by
  refine ⟨fun heq => ?_, fun ⟨howner, htarget⟩ => display_congr howner htarget⟩
  have htext := congrArg String.toList heq
  by_cases ht : r.target = .annotated <;> by_cases ht' : r'.target = .annotated
  · rw [toList_display_annotated ht, toList_display_annotated ht'] at htext
    have howner := String.toList_inj.1 (List.cons.inj htext).2
    exact ⟨(hr.owner.text_inj hr'.owner).1 howner, by rw [ht, ht']⟩
  · rw [toList_display_annotated ht, toList_display ht'] at htext
    exact absurd htext.symm (hr'.owner.append_ne_at _ _)
  · rw [toList_display ht, toList_display_annotated ht'] at htext
    exact absurd htext (hr.owner.append_ne_at _ _)
  · -- both text forms are read back
    rw [toList_display ht, toList_display ht'] at htext
    have hread := Line.ruleTarget_display hr.owner hr.target ht
    rw [htext, Line.ruleTarget_display hr'.owner hr'.target ht'] at hread
    obtain ⟨howner, htarget⟩ := Prod.mk.inj (Except.ok.inj hread)
    exact ⟨howner.symm, htarget.symm⟩

end Rule

/-! ## Spellings of an overload -/

theorem FieldType.Brackets.mem {cs : List Char} {n : Nat} {c : Char} (h : Brackets cs n)
    (hc : c ∈ cs) :
    Text.isBlank c = true ∨ c ∈ ['[', ']'] := by
  induction h with
  | none => cases hc
  | more _ hgap ih =>
    rcases List.mem_append.1 hc with hc | hc
    · rcases List.mem_append.1 hc with hc | hc
      · exact ih hc
      · exact .inl (hgap c hc)
    · exact .inr hc

theorem FieldType.Suffixes.mem {cs : List Char} {n : Nat} {c : Char} (h : Suffixes cs n)
    (hc : c ∈ cs) :
    Text.isBlank c = true ∨ c ∈ ['[', ']', '.'] := by
  have hbrackets : ∀ {cs : List Char} {n : Nat}, Brackets cs n → c ∈ cs → Text.isBlank c = true ∨
      c ∈ ['[', ']', '.'] :=
    fun h hc => (h.mem hc).imp_right (List.mem_append_left ['.'])
  cases h with
  | brackets h => exact hbrackets h hc
  | dots h hgap =>
    rcases List.mem_append.1 hc with hc | hc
    · rcases List.mem_append.1 hc with hc | hc
      · exact hbrackets h hc
      · exact .inl (hgap c hc)
    · simp only [List.mem_cons, List.not_mem_nil, or_false, or_self] at hc
      exact .inr (by simp [hc])

namespace JavaType

theorem BaseName.isParted {name descriptor : List Char} (h : BaseName name descriptor) :
    Text.IsParted '.' Text.isWordChar name := by
  obtain ⟨base, hbase, -⟩ := baseName_iff.1 h
  have hparted := (BaseType.spelled_of_spelledBase? hbase).isParted
  rwa [BaseType.spelling_of_spelledBase? hbase, String.toList_ofList] at hparted

variable {java descriptor : List Char}

theorem Spelled.mem {c : Char} (h : Spelled java descriptor) (hc : c ∈ java) :
    Text.isBlank c = true ∨ Text.isWordChar c = true ∨ c ∈ ['[', ']', '.'] := by
  obtain ⟨hfront, hname, hsuffix, hback⟩ := h
  rcases List.mem_append.1 hc with hc | hc
  · rcases List.mem_append.1 hc with hc | hc
    · exact .inl (hfront c hc)
    · rcases List.mem_append.1 hc with hc | hc
      · rcases hname.isParted.mem hc with hword | rfl
        · exact .inr (.inl hword)
        · exact .inr (.inr (by decide))
      · rcases hsuffix.mem hc with hc | hc
        · exact .inl hc
        · exact .inr (.inr hc)
  · exact .inl (hback c hc)

/-- A spelling is not blank. -/
theorem Spelled.exists_mem (h : Spelled java descriptor) : ∃ c ∈ java, Text.isBlank c = false := by
  obtain ⟨hfront, hname, hsuffix, hback⟩ := h
  obtain ⟨c, rest, hcons, hc⟩ := hname.isParted.exists_cons
  exact ⟨c, by simp [hcons], Text.isBlank_of_isWordChar hc⟩

end JavaType

/-- The text spells the type in Java. -/
def FieldType.SpelledBy (t : FieldType) (java : List Char) : Prop :=
  t.base.Readable ∧ JavaType.Spelled java t.render

/-- What stands between the parentheses of an overload, and the types of the parameters: blanks if
there are none, and else a Java spelling of each with commas between them. -/
inductive RuleTarget.SpelledParams : List Char → List FieldType → Prop
  | none {blanks : List Char} (h : Text.IsBlanks blanks) : SpelledParams blanks []
  | types {spelled : List (List Char × FieldType)} (hne : spelled ≠ [])
    (h : ∀ s ∈ spelled, s.2.SpelledBy s.1) :
    SpelledParams (List.intercalate [','] (spelled.map (·.1))) (spelled.map (·.2))

/-- A rule about an overload, with any text between the parentheses. -/
def Rule.overloadText (owner name : String) (inner : List Char) : List Char :=
  (Rule.memberKey owner name).toList ++ '(' :: (inner ++ [')'])

namespace Line

/-- A spelling of a type is read as this type, with blanks and dots as they come. -/
theorem param_of_spelledBy {t : FieldType} {java : List Char} (h : t.SpelledBy java) :
    param java = .ok t := by
  obtain ⟨hreadable, hspelled⟩ := h
  rw [← String.toList_ofList (l := java)] at hspelled
  obtain ⟨u, hu, hrender⟩ := JavaType.spelled_iff.1 hspelled
  -- both types are read from the same descriptor
  have hboth := FieldType.read_render (FieldType.spelled_base hu).readable []
  rw [hrender, FieldType.read_render hreadable []] at hboth
  cases hboth
  unfold param
  rw [hu]

section SpelledParams

variable {inner : List Char} {ts : List FieldType} (h : RuleTarget.SpelledParams inner ts)
include h

theorem mem_spelledParams {c : Char} (hc : c ∈ inner) : c ≠ '#' ∧ c ≠ '(' ∧ c ≠ ')' := by
  have hcases : c = ',' ∨ Text.isBlank c = true ∨ Text.isWordChar c = true ∨
      c ∈ ['[', ']', '.'] := by
    cases h with
    | none h => exact .inr (.inl (h c hc))
    | types _ h =>
      rcases Text.mem_intercalate hc with hc | ⟨_, hjava, hc⟩
      · exact .inl hc
      · obtain ⟨s, hs, rfl⟩ := List.mem_map.1 hjava
        exact .inr ((h s hs).2.mem hc)
  refine ⟨?_, ?_, ?_⟩ <;> rintro rfl <;> exact absurd hcases (by decide)

/-- Spelled parameters are read as their types. -/
theorem params_of_spelledParams : params inner = .ok ts := by
  unfold params
  cases h with
  | none h =>
    have htrim := Text.trim_append_blanks h Text.isBlanks_nil []
    rw [List.append_nil, List.append_nil] at htrim
    rw [htrim]
    rfl
  | @types spelled hne h =>
    have hcomma : ∀ java ∈ spelled.map (·.1), ',' ∉ java := by
      intro java hjava hc
      obtain ⟨s, hs, rfl⟩ := List.mem_map.1 hjava
      exact absurd ((h s hs).2.mem hc) (by decide)
    have hfull : ¬(Text.trim (List.intercalate [','] (spelled.map (·.1)))).isEmpty = true := by
      obtain ⟨s, rest, rfl⟩ := List.exists_cons_of_ne_nil hne
      obtain ⟨c, hc, hblank⟩ := (h s List.mem_cons_self).2.exists_mem
      have hmem : c ∈ List.intercalate [','] ((s :: rest).map (·.1)) := by
        cases rest with
        | nil => simpa using hc
        | cons next rest => simp [List.intercalate_cons_cons, hc]
      exact Text.not_isEmpty_trim hmem hblank
    have hread : ∀ s ∈ spelled, param s.1 = .ok s.2 := fun s hs => param_of_spelledBy (h s hs)
    rw [if_neg hfull, Text.splitOn_intercalate hcomma (by simpa using hne), List.mapM_map]
    exact mapM_eq_ok_map hread

end SpelledParams

/-- Blanks do not end a rule inside parentheses. -/
theorem splitRule_inside {front : List Char} (h : ∀ c ∈ front, c ≠ '(' ∧ c ≠ ')') (depth : Nat)
    (back : List Char) :
    splitRule (depth + 1) (front ++ back) = (splitRule (depth + 1) back).map (front ++ ·) id := by
  induction front with
  | nil => rfl
  | cons c front ih =>
    obtain ⟨hopen, hclose⟩ := h c List.mem_cons_self
    rw [List.cons_append, splitRule, if_neg hopen, if_neg hclose, if_neg (by simp),
      ih fun x hx => h x (List.mem_cons_of_mem _ hx)]
    rfl

section Overload

variable {owner : NamePattern} {name : String} {inner : List Char} {ts : List FieldType}
  (howner : owner.WellFormed)
  (hname : IsMemberName name) (h : RuleTarget.SpelledParams inner ts)
include howner hname h

theorem splitRule_overloadText : splitRule 0 (Rule.overloadText owner.text name inner) =
    (Rule.overloadText owner.text name inner, []) := by
  have hclose : splitRule 1 [')'] = ([')'], []) := rfl
  have hinner : splitRule 1 (inner ++ [')']) = (inner ++ [')'], []) := by
    rw [splitRule_inside (fun c hc => (mem_spelledParams h hc).2) 0, hclose]
    rfl
  unfold Rule.overloadText
  rw [Rule.toList_memberKey, splitRule_append (isPlain_member howner hname), splitRule,
    if_pos rfl, hinner]
  rfl

/-- An overload is read as the same target, however its parameters are spelled. -/
theorem ruleTarget_overloadText :
    ruleTarget (Rule.overloadText owner.text name inner) = .ok (owner, .overload name ts) := by
  unfold ruleTarget Rule.overloadText
  rw [Rule.toList_memberKey, List.append_assoc, List.cons_append,
    Text.cutFirst_append howner.hash_notMem]
  simp only [classPattern_text howner,
    member_of_params hname (fun c => mem_spelledParams h) (params_of_spelledParams h)]
  rfl

/-- Whichever way its parameters are spelled, a line says the overload with their types. -/
theorem parse_overloadText {front back : List Char} (hfront : Text.IsBlanks front)
    (hback : Text.IsBlanks back) :
    parse (front ++ Rule.overloadText owner.text name inner ++ back) =
      .ok (.rule owner (.overload name ts) none) := by
  obtain ⟨c, cs, hcons, hc⟩ := howner.isParted.exists_cons
  have hblank : Text.isBlank c = false := (isPlain_owner howner c (by simp [hcons])).2.2
  have htext : Rule.overloadText owner.text name inner =
      c :: (cs ++ '#' :: name.toList ++ '(' :: inner) ++ [')'] := by
    simp [Rule.overloadText, Rule.toList_memberKey, hcons]
  have htrimmed : Text.IsTrimmed (Rule.overloadText owner.text name inner) := by
    rw [htext]
    refine Text.isTrimmed_append hblank _ (fun x hx => ?_) (by simp)
    cases hx
    decide
  have htrim := Text.trim_append_blanks hfront hback (Rule.overloadText owner.text name inner)
  rw [Text.trim_of_isTrimmed htrimmed] at htrim
  rw [parse_of_owner htrim htext hc, splitRule_overloadText howner hname h,
    ruleTarget_overloadText howner hname h]
  rfl

end Overload

end Line

/-! ## Identities -/

namespace Rule

/-- **Keys identify rules.** Two rules that are read from any texts have the same key iff they agree
in their kinds, owners, members and parameters, that is, in all but their reasons, and iff they have
the same text form. So an overload has one key however its parameters are spelled, and no other rule
has it. -/
theorem keys_identify {r r' : Rule} (h : r.IsRead) (h' : r'.IsRead) :
    (r.key = r'.key ↔ r.target.kind = r'.target.kind ∧ r.owner.text = r'.owner.text ∧
      r.target.member? = r'.target.member? ∧ r.target.params? = r'.target.params?) ∧
    (r.key = r'.key ↔ r.display = r'.display) ∧
    (r.key = r'.key ↔ r.owner = r'.owner ∧ r.target = r'.target) ∧
    ∀ name ts front inner back origin, r.target = .overload name ts → Text.IsBlanks front →
      RuleTarget.SpelledParams inner ts → Text.IsBlanks back → '\n' ∉ front ++ inner ++ back →
      ∃ s, RuleText.parse origin (.ofList (front ++ overloadText r.owner.text name inner ++ back)) =
        .ok [⟨.rule s, false, 1⟩] ∧ s.key = r.key := by
  have hr := h.wellFormed
  have hr' := h'.wellFormed
  refine ⟨?_, ?_, key_eq_iff hr hr', ?_⟩
  · rw [key_eq_iff hr hr', hr.target.eq_iff hr'.target, hr.owner.text_inj hr'.owner, and_left_comm]
  · rw [key_eq_iff hr hr', display_eq_iff hr hr']
  · intro name ts front inner back origin htarget hfront hinner hback hline
    have hname : IsMemberName name := by
      have hwf := hr.target
      rw [htarget] at hwf
      exact hwf.1
    have hkey : '\n' ∉ (memberKey r.owner.text name).toList := by
      rw [toList_memberKey]
      exact fun hmem => absurd (Line.isPlain_member hr.owner hname _ hmem) (by decide)
    have hnewline : '\n' ∉ front ++ overloadText r.owner.text name inner ++ back := by
      simpa [overloadText, hkey] using hline
    have hparse := Line.parse_overloadText hr.owner hname hinner hfront hback
    refine ⟨⟨r.owner, r.target, ""⟩, ?_, key_congr rfl rfl⟩
    rw [RuleText.parse_ofList_of_ok hnewline hparse, htarget]
    rfl

/-- A rule about an overload for arrays of two dimensions. -/
def copyRule (reason : String) : Rule :=
  ⟨.ofText "lib.Grid", .overload "copy" [⟨2, .primitive .int⟩], reason⟩

theorem isRead_copyRule : (copyRule "").IsRead ∧ (copyRule "use a view").IsRead := by
  constructor
  · exact ⟨"rules.txt", "lib.Grid#copy(int[] ...)", [⟨.rule (copyRule ""), false, 1⟩],
      by decide +kernel, _, List.mem_cons_self, rfl⟩
  · exact ⟨"house.txt", "# grids\nlib.Grid#copy( int [][] ) use a view",
      [⟨.rule (copyRule "use a view"), false, 2⟩], by decide +kernel, _, List.mem_cons_self, rfl⟩

/-- Three spellings of the overload and two reasons, but one key. -/
theorem keys_identify_copy :
    copyRule "" ≠ copyRule "use a view" ∧ (copyRule "").key = (copyRule "use a view").key ∧
    (copyRule "").display = (copyRule "use a view").display ∧
    ∃ s, RuleText.parse "more.txt" "lib.Grid#copy(int [] \t...)" = .ok [⟨.rule s, false, 1⟩] ∧
      s.key = (copyRule "").key := by
  obtain ⟨hfirst, hsecond⟩ := isRead_copyRule
  obtain ⟨-, hdisplay, hparts, hrespelled⟩ := keys_identify hfirst hsecond
  have hkey := hparts.2 ⟨rfl, rfl⟩
  refine ⟨by decide +kernel, hkey, hdisplay.1 hkey, ?_⟩
  have hjava : JavaType.Spelled "int [] \t...".toList "[[I".toList :=
    JavaType.spelled_iff.2 ⟨⟨2, .primitive .int⟩, by decide +kernel, rfl⟩
  have hparams : RuleTarget.SpelledParams "int [] \t...".toList [⟨2, .primitive .int⟩] := by
    refine @RuleTarget.SpelledParams.types [("int [] \t...".toList,
      ⟨2, .primitive .int⟩)] (by simp) ?_
    simpa using ⟨trivial, hjava⟩
  have htext :
      String.ofList ([] ++
      overloadText (copyRule "").owner.text "copy" "int [] \t...".toList ++ []) =
      "lib.Grid#copy(int [] \t...)" := by decide +kernel
  rw [← htext]
  exact hrespelled "copy" _ [] _ [] "more.txt" rfl Text.isBlanks_nil hparams
    Text.isBlanks_nil (by decide)

end Rule

end JvmAudit
