import JvmAudit.Proofs.Pointwise
import JvmAudit.Proofs.Descriptor.Spelling
import JvmAudit.Proofs.Rule.Source

/-!
# Rules are read back from their text form

The text form of a rule, ` @ ` and its reason make a line, and that line says the rule
(`Line.parse_display`). It needs more than a well-formed rule: the reason has no blanks around it
and no line feed, and the name of an annotation has a dot, or it would be taken for a directive.
Every rule that is read from a text is of this kind (`Rule.Written`), also one whose reason is the
default message of an earlier line.
-/

namespace JvmAudit

open Result

/-! ## Characters -/

theorem FieldType.Spelled.base {t : FieldType} (h : t.Spelled) : t.base.Spelled := by
  obtain ⟨java, h⟩ := h
  exact spelled_base h

/-- The text of a pattern consists of words and stars between dots. -/
theorem NamePattern.WellFormed.isParted {p : NamePattern} (h : p.WellFormed) :
    Text.IsParted '.' (fun c => Text.isWordChar c || c == '*') p.text.toList := by
  obtain ⟨cs, hcs, rfl⟩ := h
  rw [NamePattern.text_ofText, String.toList_ofList]
  exact Text.all_splitOn_iff.1 hcs

/-- The owner of a rule has characters of identifiers, dots and stars only. -/
theorem NamePattern.WellFormed.mem {p : NamePattern} {c : Char} (h : p.WellFormed)
    (hc : c ∈ p.text.toList) :
    Text.isWordChar c = true ∨ c = '*' ∨ c = '.' := by
  simpa [or_assoc] using h.isParted.mem hc

namespace RuleTarget

/-- The parameters of an overload as they are displayed. -/
def paramsDisplay (params : List FieldType) : List Char :=
  (Text.join "," (params.map FieldType.spelling)).toList

theorem paramsDisplay_eq (params : List FieldType) :
    paramsDisplay params = List.intercalate [','] (params.map (·.spelling.toList)) := by
  unfold paramsDisplay Text.join
  rw [String.toList_intercalate, List.map_map]
  rfl

theorem paramsDisplay_cons (t : FieldType) (params : List FieldType) :
    ∃ back, paramsDisplay (t :: params) = t.spelling.toList ++ back := by
  rw [paramsDisplay_eq]
  cases params with
  | nil => exact ⟨[], by simp⟩
  | cons u params =>
    exact ⟨_, by rw [List.map_cons, List.map_cons, List.intercalate_cons_cons, List.append_assoc]⟩

/-- The characters that occur in displayed parameters. -/
theorem mem_paramsDisplay {params : List FieldType} (h : ∀ t ∈ params, t.Spelled) {c : Char}
    (hc : c ∈ paramsDisplay params) :
    Text.isWordChar c = true ∨ c = '.' ∨ c = '[' ∨ c = ']' ∨ c = ',' := by
  rw [paramsDisplay_eq] at hc
  rcases Text.mem_intercalate hc with rfl | ⟨part, hpart, hmem⟩
  · simp
  · obtain ⟨t, ht, rfl⟩ := List.mem_map.1 hpart
    rcases FieldType.mem_spelling (h t ht).base hmem with hc | hc | hc | hc <;> simp [hc]

/-- What is displayed behind the owner. -/
def suffix : RuleTarget → List Char
  | .overload name params => '#' :: (name.toList ++ '(' :: (paramsDisplay params ++ [')']))
  | .member name => '#' :: name.toList
  | .type => []
  | .annotated => []

end RuleTarget

/-! ## A rule without its reason -/

namespace Line

/-- A well-formed pattern is read back from its text. -/
theorem classPattern_text {p : NamePattern} (h : p.WellFormed) :
    classPattern p.text.toList = .ok p := by
  obtain ⟨cs, hcs, rfl⟩ := h
  unfold classPattern
  rw [NamePattern.text_ofText, String.toList_ofList, if_pos hcs]

/-- A member name is read back. -/
theorem memberName_toList {name : String} (h : IsMemberName name) (rule : List Char) :
    memberName rule name.toList = .ok name := by
  have hfull : ¬name.toList.isEmpty = true := fun hempty => h.1 (List.isEmpty_iff.1 hempty)
  have hname : (name.toList = "<init>".toList || name.toList = "<clinit>".toList ||
      name.toList.all Text.isWordChar) = true := by
    rw [Bool.or_eq_true, Bool.or_eq_true, decide_eq_true_eq, decide_eq_true_eq, or_assoc]
    exact h.2
  unfold memberName
  rw [if_neg hfull, if_pos hname, String.ofList_toList]

theorem param_spelling {t : FieldType} (h : t.Spelled) : param t.spelling.toList = .ok t := by
  unfold param
  rw [String.ofList_toList, FieldType.ofSpelling?_spelling h.base]

theorem mapM_param_spelling {ts : List FieldType} (h : ∀ t ∈ ts, t.Spelled) :
    (ts.map (·.spelling.toList)).mapM param = .ok ts := by
  have hread : ∀ t ∈ ts, param t.spelling.toList = .ok (id t) := fun t ht => param_spelling (h t ht)
  rw [List.mapM_map, Function.comp_def, mapM_eq_ok_map hread, List.map_id]

/-- Displayed parameters are read back. -/
theorem params_paramsDisplay {ts : List FieldType} (h : ∀ t ∈ ts, t.Spelled) :
    params (RuleTarget.paramsDisplay ts) = .ok ts := by
  cases ts with
  | nil => rfl
  | cons t rest =>
    have hcomma : ∀ part ∈ (t :: rest).map (·.spelling.toList), ',' ∉ part := by
      intro part hpart hmem
      obtain ⟨u, hu, rfl⟩ := List.mem_map.1 hpart
      exact absurd (FieldType.mem_spelling (h u hu).base hmem) (by decide)
    -- the first type starts with a character of a word, so there is something between the
    -- parentheses
    have hfull : ¬(Text.trim (RuleTarget.paramsDisplay (t :: rest))).isEmpty = true := by
      obtain ⟨c, cs, hcons, hc⟩ := (h t List.mem_cons_self).base.isParted.exists_cons
      obtain ⟨back, hback⟩ := RuleTarget.paramsDisplay_cons t rest
      have hmem : c ∈ RuleTarget.paramsDisplay (t :: rest) := by
        rw [hback, FieldType.spelling, String.toList_append, hcons]
        simp
      exact Text.not_isEmpty_trim hmem (Text.isBlank_of_isWordChar hc)
    unfold params
    rw [if_neg hfull, RuleTarget.paramsDisplay_eq, Text.splitOn_intercalate hcomma (by simp)]
    exact mapM_param_spelling h

/-- What stands before the closing parenthesis, if it has no parenthesis itself. -/
theorem insideParens?_append {inner : List Char} (hopen : '(' ∉ inner) (hclose : ')' ∉ inner) :
    insideParens? (inner ++ [')']) = some inner := by
  unfold insideParens?
  rw [Text.dropBack_eq_some_iff.2 rfl]
  simp [hopen, hclose]

theorem member_name {name : String} (h : IsMemberName name) (rule : List Char) :
    member rule name.toList = .ok (.member name) := by
  have hhash : '#' ∉ name.toList := fun hc => absurd (h.mem hc) (by decide)
  unfold member
  rw [Text.cutFirst_of_notMem h.paren_notMem]
  simp only [List.contains_eq_mem, hhash, decide_false, Bool.false_eq_true, if_false,
    memberName_toList h]
  rfl

/-- What stands between the parentheses is read as the types of the parameters. -/
theorem member_of_params {name : String} {inner : List Char} {ts : List FieldType}
    (hname : IsMemberName name)
    (hinner : ∀ c ∈ inner, c ≠ '#' ∧ c ≠ '(' ∧ c ≠ ')') (hts : params inner = .ok ts)
    (rule : List Char) :
    member rule (name.toList ++ '(' :: (inner ++ [')'])) = .ok (.overload name ts) := by
  have hhash : '#' ∉ name.toList ++ '(' :: (inner ++ [')']) := by
    intro hc
    simp only [List.mem_append, List.mem_cons, List.not_mem_nil, or_false] at hc
    rcases hc with hc | hc | hc | hc
    · exact absurd (hname.mem hc) (by decide)
    · exact absurd hc (by decide)
    · exact (hinner _ hc).1 rfl
    · exact absurd hc (by decide)
  have hinside : insideParens? (inner ++ [')']) = _ :=
    insideParens?_append (fun hc => (hinner _ hc).2.1 rfl) (fun hc => (hinner _ hc).2.2 rfl)
  unfold member
  rw [Text.cutFirst_append hname.paren_notMem]
  simp only [List.contains_eq_mem, hhash, decide_false, Bool.false_eq_true, if_false,
    memberName_toList hname, hinside, hts]
  rfl

/-- An overload is read back from its name and its displayed parameters. -/
theorem member_overload {name : String} {ts : List FieldType}
    (h : (RuleTarget.overload name ts).WellFormed) (rule : List Char) :
    member rule (name.toList ++ '(' :: (RuleTarget.paramsDisplay ts ++ [')'])) =
      .ok (.overload name ts) := by
  obtain ⟨hname, hts⟩ := h
  refine member_of_params hname (fun c hc => ?_) (params_paramsDisplay hts) rule
  have hmem := RuleTarget.mem_paramsDisplay hts hc
  refine ⟨?_, ?_, ?_⟩ <;> rintro rfl <;> exact absurd hmem (by decide)

/-- A target that is no annotation is read back behind its owner. -/
theorem ruleTarget_display {owner : NamePattern} {target : RuleTarget} (howner : owner.WellFormed)
    (htarget : target.WellFormed) (hne : target ≠ .annotated) :
    ruleTarget (owner.text.toList ++ target.suffix) = .ok (owner, target) := by
  unfold ruleTarget
  cases target with
  | type =>
    rw [RuleTarget.suffix, List.append_nil, Text.cutFirst_of_notMem howner.hash_notMem]
    simp only [classPattern_text howner]
    rfl
  | overload name params =>
    rw [RuleTarget.suffix, Text.cutFirst_append howner.hash_notMem]
    simp only [classPattern_text howner, member_overload htarget]
    rfl
  | member name =>
    rw [RuleTarget.suffix, Text.cutFirst_append howner.hash_notMem]
    simp only [classPattern_text howner, member_name htarget]
    rfl
  | annotated => exact absurd rfl hne

/-! ## Where a rule ends -/

/-- A character that does not end a rule and is no parenthesis. -/
def IsPlain (c : Char) : Prop := c ≠ '(' ∧ c ≠ ')' ∧ Text.isBlank c = false

instance (c : Char) : Decidable (IsPlain c) := inferInstanceAs (Decidable (_ ∧ _))

theorem isPlain_of_isWordChar {c : Char} (h : Text.isWordChar c = true) : IsPlain c := by
  refine ⟨?_, ?_, Text.isBlank_of_isWordChar h⟩
  · rintro rfl
    exact absurd h (by decide)
  · rintro rfl
    exact absurd h (by decide)

/-- Nothing in an owner ends the rule or opens a parenthesis. -/
theorem isPlain_owner {p : NamePattern} (h : p.WellFormed) : ∀ c ∈ p.text.toList, IsPlain c := by
  intro c hc
  rcases h.mem hc with hword | rfl | rfl
  · exact isPlain_of_isWordChar hword
  · decide
  · decide

/-- The same for an owner with a member. -/
theorem isPlain_member {p : NamePattern} {name : String} (hp : p.WellFormed)
    (hname : IsMemberName name) :
    ∀ c ∈ p.text.toList ++ '#' :: name.toList, IsPlain c := by
  intro c hc
  rcases List.mem_append.1 hc with hc | hc
  · exact isPlain_owner hp c hc
  rcases List.mem_cons.1 hc with rfl | hc
  · decide
  rcases hname.mem hc with hword | rfl | rfl
  · exact isPlain_of_isWordChar hword
  · decide
  · decide

theorem isPlain_paramsDisplay {params : List FieldType} (h : ∀ t ∈ params, t.Spelled) :
    ∀ c ∈ RuleTarget.paramsDisplay params, IsPlain c := by
  intro c hc
  rcases RuleTarget.mem_paramsDisplay h hc with hword | rfl | rfl | rfl | rfl
  · exact isPlain_of_isWordChar hword
  all_goals decide

/-- Plain characters are passed over, inside parentheses and outside. -/
theorem splitRule_append {front : List Char} (h : ∀ c ∈ front, IsPlain c) (depth : Nat)
    (back : List Char) :
    splitRule depth (front ++ back) = (splitRule depth back).map (front ++ ·) id := by
  induction front with
  | nil => rfl
  | cons c front ih =>
    obtain ⟨hopen, hclose, hblank⟩ := h c List.mem_cons_self
    rw [List.cons_append, splitRule, if_neg hopen, if_neg hclose, if_neg (by simp [hblank]),
      ih fun x hx => h x (List.mem_cons_of_mem _ hx)]
    rfl

/-- An overload is displayed as the member and its parameters in parentheses. -/
theorem append_suffix_overload (owner : List Char) (name : String) (params : List FieldType) :
    owner ++ (RuleTarget.overload name params).suffix =
      (owner ++ '#' :: name.toList) ++ '(' :: (RuleTarget.paramsDisplay params ++ [')']) := by
  simp [RuleTarget.suffix]

/-- A displayed rule ends at the first blank. -/
theorem splitRule_display {owner : NamePattern} {target : RuleTarget} (howner : owner.WellFormed)
    (htarget : target.WellFormed) (back : List Char) :
    splitRule 0 (owner.text.toList ++ target.suffix ++ ' ' :: back) =
      (owner.text.toList ++ target.suffix, ' ' :: back) := by
  have hend : splitRule 0 (' ' :: back) = ([], ' ' :: back) := rfl
  cases target with
  | type =>
    rw [RuleTarget.suffix, List.append_nil, splitRule_append (isPlain_owner howner), hend]
    simp
  | annotated =>
    rw [RuleTarget.suffix, List.append_nil, splitRule_append (isPlain_owner howner), hend]
    simp
  | member name =>
    rw [RuleTarget.suffix, splitRule_append (isPlain_member howner htarget), hend]
    simp
  | overload name params =>
    obtain ⟨hname, hparams⟩ := htarget
    have hclose : splitRule 1 (')' :: ' ' :: back) = ([')'], ' ' :: back) := rfl
    have hopen : splitRule 0 ('(' :: (RuleTarget.paramsDisplay params ++ [')']) ++ ' ' :: back) =
        ('(' :: (RuleTarget.paramsDisplay params ++ [')']), ' ' :: back) := by
      rw [List.cons_append, List.append_assoc, List.singleton_append, splitRule, if_pos rfl,
        splitRule_append (isPlain_paramsDisplay hparams), hclose]
      rfl
    rw [append_suffix_overload, List.append_assoc (owner.text.toList ++ '#' :: name.toList),
      splitRule_append (isPlain_member howner hname), hopen]
    rfl

/-- No blank is displayed. -/
theorem isBlank_display {owner : NamePattern} {target : RuleTarget} (howner : owner.WellFormed)
    (htarget : target.WellFormed) :
    ∀ c ∈ owner.text.toList ++ target.suffix, Text.isBlank c = false := by
  intro c hc
  cases target with
  | type =>
    rw [RuleTarget.suffix, List.append_nil] at hc
    exact (isPlain_owner howner c hc).2.2
  | annotated =>
    rw [RuleTarget.suffix, List.append_nil] at hc
    exact (isPlain_owner howner c hc).2.2
  | member name => exact (isPlain_member howner htarget c hc).2.2
  | overload name params =>
    obtain ⟨hname, hparams⟩ := htarget
    rw [append_suffix_overload] at hc
    rcases List.mem_append.1 hc with hc | hc
    · exact (isPlain_member howner hname c hc).2.2
    rcases List.mem_cons.1 hc with rfl | hc
    · decide
    rcases List.mem_append.1 hc with hc | hc
    · exact (isPlain_paramsDisplay hparams c hc).2.2
    · rw [List.mem_singleton.1 hc]
      decide

/-! ## The reason -/

/-- What follows the `@` of a reason when the line is trimmed. -/
def reasonTail (reason : List Char) : List Char := if reason = [] then [] else ' ' :: reason

section Reason

variable {reason : List Char} (h : Text.IsTrimmed reason)
include h

theorem trim_reasonTail : Text.trim (reasonTail reason) = reason := by
  unfold reasonTail
  split
  · next hempty =>
    rw [hempty]
    rfl
  · rw [Text.trim_cons_blank (by decide), Text.trim_of_isTrimmed h]

theorem isBlank_getLast?_reasonTail :
    ∀ c ∈ ('@' :: reasonTail reason).getLast?, Text.isBlank c = false := by
  intro c hc
  unfold reasonTail at hc
  split at hc
  · cases hc
    decide
  · next hne =>
    rw [List.getLast?_cons_cons, List.getLast?_cons, List.getLast?_eq_some_getLast hne] at hc
    exact h.2 c (by rw [List.getLast?_eq_some_getLast hne]; exact hc)

omit h in
/-- Blanks around a reason do not matter. -/
theorem reason?_trim (cs : List Char) : reason? (Text.trim cs) = reason? cs := by
  unfold reason?
  rw [Text.trim_trim]

/-- A reason is read back, and the empty one as the default. -/
theorem reason?_reasonTail :
    (reason? (' ' :: '@' :: reasonTail reason)).getD "" = .ofList reason := by
  have htrimmed : Text.IsTrimmed ('@' :: reasonTail reason) := by
    refine ⟨fun c hc => ?_, isBlank_getLast?_reasonTail h⟩
    cases hc
    decide
  unfold reason?
  rw [Text.trim_cons_blank (by decide), Text.trim_of_isTrimmed htrimmed]
  simp only [trim_reasonTail h]
  cases reason with
  | nil => rfl
  | cons c cs => rfl

/-- The blanks around a line with a reason. -/
theorem trim_line {c : Char} (hc : Text.isBlank c = false) (cs : List Char) :
    Text.trim (c :: cs ++ ' ' :: '@' :: ' ' :: reason) =
      c :: cs ++ ' ' :: '@' :: reasonTail reason := by
  have htrimmed : Text.IsTrimmed (c :: (cs ++ [' ']) ++ '@' :: reasonTail reason) :=
    Text.isTrimmed_append hc _ (isBlank_getLast?_reasonTail h) (by simp)
  rw [List.cons_append, List.append_assoc, List.singleton_append] at htrimmed
  cases reason with
  | nil =>
    have hback : c :: cs ++ [' ', '@', ' '] = (c :: (cs ++ [' ', '@'])) ++ [' '] := by simp
    rw [hback, Text.trim_append_blank (by decide)]
    exact Text.trim_of_isTrimmed htrimmed
  | cons r reason => exact Text.trim_of_isTrimmed htrimmed

end Reason

end Line

/-! ## Rules that are read -/

/-- A reason that is read from a text: without blanks around it, and on one line. -/
structure IsReason (reason : String) : Prop where
  trimmed : Text.IsTrimmed reason.toList
  oneLine : '\n' ∉ reason.toList

theorem isReason_empty : IsReason "" := ⟨Text.isTrimmed_nil, by simp⟩

theorem isReason_trim {cs : List Char} (h : '\n' ∉ cs) : IsReason (.ofList (Text.trim cs)) := by
  constructor
  · rw [String.toList_ofList]
    exact Text.isTrimmed_trim cs
  · rw [String.toList_ofList]
    exact fun hmem => h (Text.mem_of_mem_trim hmem)

/-- A rule that is read from a text, with its reason. -/
structure Rule.Written (r : Rule) : Prop extends r.WellFormed where
  /-- Without a dot the annotation would be taken for a directive. -/
  dotted : r.target = .annotated → '.' ∈ r.owner.text.toList
  reason : IsReason r.reason

namespace Line

/-- What a line that is read says about rules and their reasons. -/
def Written : Line → Prop
  | .defaultMessage text => IsReason text
  | .rule owner target reason =>
    (target = .annotated → '.' ∈ owner.text.toList) ∧ ∀ text ∈ reason, IsReason text
  | _ => True

/-- What is read as a reason can be written as one. -/
theorem isReason_reason? {cs : List Char} (hcs : '\n' ∉ cs) :
    ∀ text ∈ reason? cs, IsReason text := by
  intro text htext
  unfold reason? at htext
  simp only at htext
  split at htext
  · next rest hrest =>
    split at htext
    · cases htext
    · cases htext
      refine isReason_trim fun hmem => hcs (Text.mem_of_mem_trim ?_)
      rw [hrest]
      exact List.mem_cons_of_mem _ hmem
  · split at htext
    · cases htext
    · cases htext
      exact isReason_trim hcs

/-- A pattern keeps the text that it is read from. -/
theorem text_classPattern {cs : List Char} {p : NamePattern} (h : classPattern cs = .ok p) :
    p.text.toList = cs := by
  unfold classPattern at h
  split at h
  · cases h
    rw [NamePattern.text_ofText, String.toList_ofList]
  · cases h

theorem written_directive {cs : List Char} {line : Line} (hcs : '\n' ∉ cs)
    (h : directive cs = .ok line) :
    line.Written := by
  have hrest : '\n' ∉ cs.dropWhile (!Text.isBlank ·) :=
    fun hmem => hcs ((List.dropWhile_suffix _).subset hmem)
  unfold directive at h
  simp only at h
  split at h
  · cases h
    exact isReason_trim hrest
  split at h
  · cases h
    trivial
  split at h
  · split at h
    · cases h
    · cases h
      trivial
  split at h
  · next hdot =>
    obtain ⟨p, hp, h⟩ := bind_eq_ok.1 h
    cases h
    refine ⟨fun _ => ?_, isReason_reason? fun hmem => hrest (Text.mem_of_mem_trim hmem)⟩
    rw [text_classPattern hp]
    simpa using hdot
  · cases h

/-- A rule and its reason make up the line again. -/
theorem append_splitRule (depth : Nat) (cs : List Char) :
    (splitRule depth cs).1 ++ (splitRule depth cs).2 = cs := by
  induction cs generalizing depth with
  | nil => rfl
  | cons c cs ih =>
    rw [splitRule]
    split
    · simp [ih]
    split
    · simp [ih]
    split
    · rfl
    · simp [ih]

theorem ne_annotated_of_ruleTarget {cs : List Char} {owner : NamePattern} {target : RuleTarget}
    (h : ruleTarget cs = .ok (owner, target)) : target ≠ .annotated := by
  unfold ruleTarget at h
  split at h
  · obtain ⟨p, _, h⟩ := bind_eq_ok.1 h
    cases h
    simp
  · obtain ⟨p, _, h⟩ := bind_eq_ok.1 h
    obtain ⟨t, ht, h⟩ := bind_eq_ok.1 h
    cases h
    rcases member_cases ht with ⟨name, rfl, _⟩ | ⟨name, ts, rfl, _⟩
    · simp
    · simp

/-- A line that was read can be written. -/
theorem written_parse {cs : List Char} {line : Line} (hcs : '\n' ∉ cs) (h : parse cs = .ok line) :
    line.Written := by
  have htrim : '\n' ∉ Text.trim cs := fun hmem => hcs (Text.mem_of_mem_trim hmem)
  unfold parse at h
  split at h
  · cases h
    trivial
  · cases h
    trivial
  · next rest hrest =>
    rw [hrest] at htrim
    exact written_directive (fun hmem => htrim (List.mem_cons_of_mem _ hmem)) h
  · simp only at h
    obtain ⟨⟨owner, target⟩, htarget, h⟩ := bind_eq_ok.1 h
    cases h
    refine ⟨fun hannotated => absurd hannotated (ne_annotated_of_ruleTarget htarget),
      isReason_reason? fun hmem => htrim ?_⟩
    rw [← append_splitRule 0 (Text.trim cs)]
    exact List.mem_append_right _ hmem

/-- The reason of a rule is its own or the last default message. -/
theorem written_of_mem_entries {message : String} {lenient : Bool} {lines : List (Nat × Line)}
    {e : Entry} {r : Rule} (hmessage : IsReason message) (hlines : ∀ l ∈ lines, l.2.Written)
    (he : e ∈ entries message lenient lines) (hr : e.content = .rule r) :
    (r.target = .annotated → '.' ∈ r.owner.text.toList) ∧ IsReason r.reason := by
  induction lines generalizing message lenient with
  | nil => cases he
  | cons l lines ih =>
    obtain ⟨n, line⟩ := l
    have hline := hlines (n, line) List.mem_cons_self
    have hlater : ∀ l ∈ lines, l.2.Written := fun l hl => hlines l (List.mem_cons_of_mem _ hl)
    cases line with
    | blank => exact ih hmessage hlater he
    | defaultMessage text => exact ih hline hlater he
    | ignoreUnresolvable => exact ih hmessage hlater he
    | includeBundled name =>
      rcases List.mem_cons.1 he with rfl | he
      · cases hr
      · exact ih hmessage hlater he
    | rule owner target reason =>
      rcases List.mem_cons.1 he with rfl | he
      · cases hr
        refine ⟨hline.1, ?_⟩
        cases reason with
        | none => exact hmessage
        | some text => exact hline.2 text rfl
      · exact ih hmessage hlater he

end Line

namespace RuleText

theorem written_of_mem_parse {origin text : String} {entries : List Entry} {e : Entry} {r : Rule}
    (h : parse origin text = .ok entries) (he : e ∈ entries) (hr : e.content = .rule r) :
    r.Written := by
  have hwf := wellFormed_of_mem_parse h he hr
  obtain ⟨lines, hlines, h⟩ := bind_eq_ok.1 h
  cases h
  have hwritten : ∀ l ∈ lines, l.2.Written := by
    intro l hl
    obtain ⟨cs, hmem, hline⟩ := exists_line_of_mem hlines hl
    exact Line.written_parse (Text.notMem_of_mem_lines hmem) hline
  obtain ⟨hdotted, hreason⟩ := Line.written_of_mem_entries isReason_empty hwritten he hr
  exact ⟨hwf, hdotted, hreason⟩

end RuleText

/-! ## The line of a rule -/

namespace Rule

theorem toList_display {r : Rule} (h : r.target ≠ .annotated) :
    r.display.toList = r.owner.text.toList ++ r.target.suffix := by
  obtain ⟨owner, target, reason⟩ := r
  cases target with
  | type => simp [display, RuleTarget.suffix]
  | overload name params => simp [display, memberKey, RuleTarget.suffix, RuleTarget.paramsDisplay]
  | member name => simp [display, memberKey, RuleTarget.suffix]
  | annotated => exact absurd rfl h

theorem toList_display_annotated {r : Rule} (h : r.target = .annotated) :
    r.display.toList = '@' :: r.owner.text.toList := by
  simp [display, h]

end Rule

namespace Line

/-- An annotation with a dot is not taken for a directive. -/
theorem directive_annotated {p : NamePattern} (h : p.WellFormed)
    (hdot : '.' ∈ p.text.toList) {c : Char} (hc : Text.isBlank c = true) (back : List Char) :
    directive (p.text.toList ++ c :: back) = .ok (.rule p .annotated (reason? (c :: back))) := by
  have hblank : ∀ x ∈ (c :: back).head?, Text.isBlank x = true := by simpa using hc
  obtain ⟨hword, hrest⟩ := Text.span_word (fun x hx => (isPlain_owner h x hx).2.2) hblank
  have hne : ∀ word : List Char, '.' ∉ word → p.text.toList ≠ word :=
    fun word hword heq => hword (heq ▸ hdot)
  unfold directive
  simp only [hword, hrest]
  rw [if_neg (hne _ (by decide)), if_neg (hne _ (by decide)), if_neg (hne _ (by decide)),
    if_pos (by simpa using hdot), classPattern_text h, reason?_trim]
  rfl

/-- An owner starts neither a comment nor a directive. -/
theorem parse_of_owner {line rule cs : List Char} {c : Char} (htrim : Text.trim line = rule)
    (hrule : rule = c :: cs) (hc : (Text.isWordChar c || c == '*') = true) :
    parse line = (ruleTarget (splitRule 0 rule).1).map fun p =>
      .rule p.1 p.2 (reason? (splitRule 0 rule).2) := by
  unfold parse
  rw [htrim, hrule]
  split
  · next heq => cases heq
  · next heq =>
    cases heq
    exact absurd hc (by decide)
  · next heq =>
    cases heq
    exact absurd hc (by decide)
  · cases splitRule 0 (c :: cs) with
    | mk token rest =>
      simp only
      cases ruleTarget token with
      | error e => rfl
      | ok p => rfl

section Line

variable {reason : List Char} (hreason : Text.IsTrimmed reason)
include hreason

theorem parse_annotated {p : NamePattern} (h : p.WellFormed) (hdot : '.' ∈ p.text.toList) :
    parse ('@' :: p.text.toList ++ ' ' :: '@' :: ' ' :: reason) =
      .ok (.rule p .annotated (reason? (' ' :: '@' :: reasonTail reason))) := by
  unfold parse
  rw [trim_line hreason (by decide)]
  exact directive_annotated h hdot (by decide) _

/-- A rule with a reason is read back from its text, unless it is about annotations. -/
theorem parse_target {owner : NamePattern} {target : RuleTarget} (howner : owner.WellFormed)
    (htarget : target.WellFormed) (hne : target ≠ .annotated) :
    parse (owner.text.toList ++ target.suffix ++ ' ' :: '@' :: ' ' :: reason) =
      .ok (.rule owner target (reason? (' ' :: '@' :: reasonTail reason))) := by
  obtain ⟨c, cs, hcons, hc⟩ := howner.isParted.exists_cons
  have hblank : Text.isBlank c = false := (isPlain_owner howner c (by simp [hcons])).2.2
  have htrim := trim_line hreason hblank (cs ++ target.suffix)
  rw [← List.cons_append, ← hcons] at htrim
  have hline : owner.text.toList ++ target.suffix ++ ' ' :: '@' :: reasonTail reason =
      c :: (cs ++ target.suffix ++ ' ' :: '@' :: reasonTail reason) := by simp [hcons]
  rw [parse_of_owner htrim hline hc, splitRule_display howner htarget,
    ruleTarget_display howner htarget hne]
  rfl

end Line

/-- The line of a rule says the rule. -/
theorem parse_display {r : Rule} (h : r.Written) :
    ∃ reason, parse (r.display ++ " @ " ++ r.reason).toList = .ok (.rule r.owner r.target reason) ∧
      reason.getD "" = r.reason := by
  have htext : (r.display ++ " @ " ++ r.reason).toList =
      r.display.toList ++ ' ' :: '@' :: ' ' :: r.reason.toList := by simp
  refine ⟨reason? (' ' :: '@' :: reasonTail r.reason.toList), ?_, ?_⟩
  · rw [htext]
    by_cases htarget : r.target = .annotated
    · rw [Rule.toList_display_annotated htarget, htarget]
      exact parse_annotated h.reason.trimmed h.owner (h.dotted htarget)
    · rw [Rule.toList_display htarget]
      exact parse_target h.reason.trimmed h.owner h.target htarget
  · rw [reason?_reasonTail h.reason.trimmed, String.ofList_toList]

end Line

/-- An overload is displayed with the parameters that its descriptor spells. -/
theorem Rule.display_overload {r : Rule} (h : r.WellFormed) {name params : String}
    (hname : r.target.member? = some name) (hparams : r.target.params? = some params) :
    r.display = Rule.memberKey r.owner.text name ++ "(" ++ prettyParams (params ++ "V") ++ ")" := by
  obtain ⟨owner, target, reason⟩ := r
  cases target with
  | overload method ts =>
    cases hname
    cases hparams
    have hrender : RuleTarget.paramsText ts ++ "V" = .ofList (MethodType.mk ts none).render := by
      rw [← String.toList_inj]
      simp [RuleTarget.paramsText, MethodType.render]
    have hts : ∀ t ∈ ts, t.base.Readable := fun t ht => (h.target.2 t ht).base.readable
    rw [hrender, prettyParams_render hts]
    rfl
  | member method => cases hparams
  | type => cases hparams
  | annotated => cases hparams

namespace RuleText

/-- The line of a rule is a text of its own. -/
theorem lines_display {r : Rule} (h : r.Written) :
    Text.lines (r.display ++ " @ " ++ r.reason).toList =
      [(r.display ++ " @ " ++ r.reason).toList] := by
  refine Text.lines_of_notMem (fun hmem => ?_) (by simp)
  have hdisplay : ∀ c ∈ r.display.toList, Text.isBlank c = false := by
    by_cases htarget : r.target = .annotated
    · rw [Rule.toList_display_annotated htarget]
      intro c hc
      rcases List.mem_cons.1 hc with rfl | hc
      · decide
      · exact (Line.isPlain_owner h.owner c hc).2.2
    · rw [Rule.toList_display htarget]
      exact Line.isBlank_display h.owner h.target
  simp only [String.toList_append, List.mem_append] at hmem
  rcases hmem with (hmem | hmem) | hmem
  · exact absurd (hdisplay _ hmem) (by decide)
  · exact absurd hmem (by decide)
  · exact h.reason.oneLine hmem

/-- Every rule of a text is read back from its text form and its reason, as the only entry of that
line. An overload is displayed with the parameters that its descriptor spells. -/
theorem parse_display_reason {origin text : String} {entries : List Entry}
    (h : parse origin text = .ok entries) {e : Entry} (he : e ∈ entries) {r : Rule}
    (hr : e.content = .rule r) :
    (∀ name params, r.target.member? = some name → r.target.params? = some params →
      r.display = Rule.memberKey r.owner.text name ++ "(" ++ prettyParams (params ++ "V") ++ ")") ∧
    ∀ origin', parse origin' (r.display ++ " @ " ++ r.reason) = .ok [⟨.rule r, false, 1⟩] := by
  have hwritten := written_of_mem_parse h he hr
  refine ⟨fun name params => Rule.display_overload hwritten.toWellFormed, fun origin' => ?_⟩
  obtain ⟨reason, hline, hreason⟩ := Line.parse_display hwritten
  have hnumbered : numbered (r.display ++ " @ " ++ r.reason) =
      [(1, (r.display ++ " @ " ++ r.reason).toList)] := by
    unfold numbered
    rw [lines_display hwritten]
    rfl
  have hread : parseLine origin' (1, (r.display ++ " @ " ++ r.reason).toList) =
      .ok (1, .rule r.owner r.target reason) := by
    unfold parseLine
    rw [hline]
  unfold parse
  rw [hnumbered, List.mapM_cons, hread]
  show Except.ok [Entry.mk (.rule ⟨r.owner, r.target, reason.getD ""⟩) false 1] = _
  rw [hreason]

/-- An overload with a parameter of variable arity, and a default message that starts like a
directive. -/
def formatText : String :=
  "@defaultMessage  @see the house style \n@ignoreUnresolvable\n" ++
  "java.util.Formatter#format( java.util.Locale,java.lang.Object [] ... , int[]) @"

def formatRule : Rule :=
  ⟨.ofText "java.util.Formatter",
    .overload "format" [⟨0, .object "java/util/Locale"⟩, ⟨2, .object "java/lang/Object"⟩,
      ⟨1, .primitive .int⟩],
    "@see the house style"⟩

theorem parse_display_reason_format :
    parse "rules.txt" formatText = .ok [⟨.rule formatRule, true, 3⟩] ∧
    formatRule.display = "java.util.Formatter#format(java.util.Locale,java.lang.Object[][],int[])" ∧
    formatRule.display = Rule.memberKey formatRule.owner.text "format" ++ "(" ++
      prettyParams ("(Ljava/util/Locale;[[Ljava/lang/Object;[I)" ++ "V") ++ ")" ∧
    parse "copy.txt" (formatRule.display ++ " @ " ++ formatRule.reason) =
      .ok [⟨.rule formatRule, false, 1⟩] := by
  have h : parse "rules.txt" formatText = .ok [⟨.rule formatRule, true, 3⟩] := by decide +kernel
  obtain ⟨hdisplay, hback⟩ := parse_display_reason h List.mem_cons_self rfl
  exact ⟨h, by decide +kernel, hdisplay _ _ rfl (by decide +kernel), hback "copy.txt"⟩

end RuleText

end JvmAudit
