import JvmAudit.Proofs.Result
import JvmAudit.Proofs.Text.Cut
import JvmAudit.Rule.Source

/-!
# Rules that can be written

Every rule that is read from a text is well-formed: its owner is a class name or a pattern for class
names, its member is an identifier or one of the names of initialisers, and its parameters have a
Java spelling. In particular neither the owner nor the member has a `#`, and the member has no
parenthesis.

The proofs follow the reader: one lemma for each part of a line, then `Line.parse`, then the whole
text.
-/

namespace JvmAudit

open Result

/-- A pattern that is read from a text. -/
def NamePattern.WellFormed (p : NamePattern) : Prop :=
  ∃ cs, Line.isClassPattern cs = true ∧ p = .ofText (.ofList cs)

/-- A member name that is read from a text: an identifier, or one of the two names of
initialisers. -/
def IsMemberName (name : String) : Prop :=
  name.toList ≠ [] ∧
    (name.toList = "<init>".toList ∨ name.toList = "<clinit>".toList ∨
      name.toList.all Text.isWordChar = true)

/-- A type that has a Java spelling. -/
def FieldType.Spelled (t : FieldType) : Prop := ∃ java, FieldType.ofSpelling? java = some t

/-- A target that is read from a text. -/
def RuleTarget.WellFormed : RuleTarget → Prop
  | .overload name params => IsMemberName name ∧ ∀ t ∈ params, t.Spelled
  | .member name => IsMemberName name
  | .type => True
  | .annotated => True

/-- A rule that is read from a text. -/
structure Rule.WellFormed (r : Rule) : Prop where
  owner : r.owner.WellFormed
  target : r.target.WellFormed

/-! ## Parts of a line -/

namespace Line

theorem wellFormed_classPattern {cs : List Char} {p : NamePattern} (h : classPattern cs = .ok p) :
    p.WellFormed := by
  unfold classPattern at h
  split at h
  · next hp =>
    cases h
    exact ⟨cs, hp, rfl⟩
  · cases h

theorem isMemberName_memberName {rule cs : List Char} {name : String}
    (h : memberName rule cs = .ok name) :
    IsMemberName name := by
  unfold memberName at h
  split at h
  · cases h
  · next hne =>
    split at h
    · next hn =>
      cases h
      simp only [Bool.or_eq_true, decide_eq_true_eq] at hn
      refine ⟨?_, ?_⟩
      · simpa using hne
      · rw [String.toList_ofList]
        rcases hn with (hn | hn) | hn
        · exact .inl hn
        · exact .inr (.inl hn)
        · exact .inr (.inr hn)
    · cases h

theorem spelled_param {cs : List Char} {t : FieldType} (h : param cs = .ok t) : t.Spelled := by
  unfold param at h
  split at h
  · next u hu =>
    cases h
    exact ⟨_, hu⟩
  · cases h

theorem spelled_params {cs : List Char} {ts : List FieldType} (h : params cs = .ok ts) :
    ∀ t ∈ ts, t.Spelled := by
  unfold params at h
  split at h
  · cases h
    simp
  · intro t ht
    obtain ⟨part, _, hp⟩ := exists_of_mem_mapM h ht
    exact spelled_param hp

/-- Behind `#` stands a member or an overload. -/
theorem member_cases {rule cs : List Char} {target : RuleTarget} (h : member rule cs = .ok target) :
    (∃ name, target = .member name ∧ IsMemberName name) ∨
      ∃ name ts, target = .overload name ts ∧ IsMemberName name ∧ ∀ t ∈ ts, t.Spelled := by
  unfold member at h
  simp only at h
  by_cases hc : cs.contains '#' = true
  · rw [if_pos hc] at h
    cases h
  · rw [if_neg hc] at h
    split at h
    · obtain ⟨name, hn, h⟩ := bind_eq_ok.1 h
      cases h
      exact .inl ⟨name, rfl, isMemberName_memberName hn⟩
    · obtain ⟨name, hn, h⟩ := bind_eq_ok.1 h
      split at h
      · cases h
      · obtain ⟨ts, ht, h⟩ := bind_eq_ok.1 h
        cases h
        exact .inr ⟨name, ts, rfl, isMemberName_memberName hn, spelled_params ht⟩

theorem wellFormed_member {rule cs : List Char} {target : RuleTarget}
    (h : member rule cs = .ok target) :
    target.WellFormed := by
  rcases member_cases h with ⟨name, rfl, hname⟩ | ⟨name, ts, rfl, hname, hts⟩
  · exact hname
  · exact ⟨hname, hts⟩

theorem wellFormed_ruleTarget {cs : List Char} {owner : NamePattern} {target : RuleTarget}
    (h : ruleTarget cs = .ok (owner, target)) : owner.WellFormed ∧ target.WellFormed := by
  unfold ruleTarget at h
  split at h
  · obtain ⟨p, hp, h⟩ := bind_eq_ok.1 h
    cases h
    exact ⟨wellFormed_classPattern hp, trivial⟩
  · obtain ⟨p, hp, h⟩ := bind_eq_ok.1 h
    obtain ⟨t, ht, h⟩ := bind_eq_ok.1 h
    cases h
    exact ⟨wellFormed_classPattern hp, wellFormed_member ht⟩

theorem wellFormed_directive {cs : List Char} {owner : NamePattern} {target : RuleTarget}
    {reason : Option String} (h : directive cs = .ok (.rule owner target reason)) :
    owner.WellFormed ∧ target.WellFormed := by
  unfold directive at h
  simp only at h
  split at h
  · cases h
  split at h
  · cases h
  split at h
  · split at h <;> cases h
  split at h
  · obtain ⟨p, hp, h⟩ := bind_eq_ok.1 h
    cases h
    exact ⟨wellFormed_classPattern hp, trivial⟩
  · cases h

/-- A rule that a line says is well-formed. -/
theorem wellFormed_parse {cs : List Char} {owner : NamePattern} {target : RuleTarget}
    {reason : Option String}
    (h : parse cs = .ok (.rule owner target reason)) : owner.WellFormed ∧ target.WellFormed := by
  unfold parse at h
  split at h
  · cases h
  · cases h
  · exact wellFormed_directive h
  · simp only at h
    obtain ⟨⟨o, t⟩, ho, h⟩ := bind_eq_ok.1 h
    cases h
    exact wellFormed_ruleTarget ho

/-! ## A whole text -/

/-- An entry says what its line says. -/
theorem exists_line_of_mem_entries {message : String} {lenient : Bool}
    {lines : List (Nat × Line)} {e : Entry} (h : e ∈ entries message lenient lines) :
    (∃ r reason, e.content = .rule r ∧ (e.line, .rule r.owner r.target reason) ∈ lines) ∨
      ∃ name, e.content = .includeBundled name ∧ (e.line, .includeBundled name) ∈ lines := by
  induction lines generalizing message lenient with
  | nil => cases h
  | cons l lines ih =>
    have hlater : ∀ {message lenient}, e ∈ entries message lenient lines →
        (∃ r reason, e.content = .rule r ∧ (e.line, .rule r.owner r.target reason) ∈ l :: lines) ∨
          ∃ name, e.content = .includeBundled name ∧
              (e.line, .includeBundled name) ∈ l :: lines := by
      intro message lenient h
      rcases ih h with ⟨r, reason, hr, hm⟩ | ⟨name, hn, hm⟩
      · exact .inl ⟨r, reason, hr, List.mem_cons_of_mem _ hm⟩
      · exact .inr ⟨name, hn, List.mem_cons_of_mem _ hm⟩
    obtain ⟨n, line⟩ := l
    cases line with
    | blank => exact hlater h
    | defaultMessage text => exact hlater h
    | ignoreUnresolvable => exact hlater h
    | includeBundled name =>
      rcases List.mem_cons.1 h with rfl | h
      · exact .inr ⟨name, rfl, List.mem_cons_self⟩
      · exact hlater h
    | rule owner target reason =>
      rcases List.mem_cons.1 h with rfl | h
      · exact .inl ⟨_, reason, rfl, List.mem_cons_self⟩
      · exact hlater h

end Line

namespace RuleText

theorem mem_numbered {text : String} {line : Nat × List Char} (h : line ∈ numbered text) :
    line.2 ∈ Text.lines text.toList := by
  obtain ⟨⟨cs, i⟩, hi, rfl⟩ := List.mem_map.1 h
  exact List.fst_mem_of_mem_zipIdx hi

/-- What is read comes from a line of the text. -/
theorem exists_line_of_mem {origin text : String} {lines : List (Nat × Line)} {l : Nat × Line}
    (h : (numbered text).mapM (parseLine origin) = .ok lines) (hl : l ∈ lines) :
    ∃ cs ∈ Text.lines text.toList, Line.parse cs = .ok l.2 := by
  obtain ⟨numberedLine, hmem, hparse⟩ := exists_of_mem_mapM h hl
  refine ⟨numberedLine.2, mem_numbered hmem, ?_⟩
  unfold parseLine at hparse
  split at hparse
  · next line hline =>
    cases hparse
    exact hline
  · cases hparse

/-- Every rule of a text is well-formed. -/
theorem wellFormed_of_mem_parse {origin text : String} {entries : List Entry} {e : Entry} {r : Rule}
    (h : parse origin text = .ok entries) (he : e ∈ entries) (hr : e.content = .rule r) :
    r.WellFormed := by
  obtain ⟨lines, hl, h⟩ := bind_eq_ok.1 h
  cases h
  obtain ⟨reason, hm⟩ : ∃ reason, (e.line, .rule r.owner r.target reason) ∈ lines := by
    rcases Line.exists_line_of_mem_entries he with ⟨r', reason, hr', hm⟩ | ⟨name, hn, _⟩
    · rw [hr] at hr'
      cases hr'
      exact ⟨reason, hm⟩
    · simp [hr] at hn
  obtain ⟨cs, _, hparse⟩ := exists_line_of_mem hl hm
  obtain ⟨ho, ht⟩ := Line.wellFormed_parse hparse
  exact ⟨ho, ht⟩

/-- A text can be read if each of its lines can. -/
theorem exists_lines {text : String}
    (h : ∀ cs ∈ Text.lines text.toList, ∃ line, Line.parse cs = .ok line)
    (origin : String) : ∃ lines, (numbered text).mapM (parseLine origin) = .ok lines ∧
      ∀ l ∈ lines, ∃ cs ∈ Text.lines text.toList, Line.parse cs = .ok l.2 := by
  cases hlines : (numbered text).mapM (parseLine origin) with
  | error e =>
    obtain ⟨front, l, back, hsplit, _, herror⟩ := mapM_eq_error.1 hlines
    obtain ⟨line, hline⟩ := h l.2 (mem_numbered (by simp [hsplit]))
    simp [parseLine, hline] at herror
  | ok lines => exact ⟨lines, rfl, fun l hl => exists_line_of_mem hlines hl⟩

end RuleText

/-! ## Characters that do not occur -/

/-- The owner of a rule has no `#`. -/
theorem NamePattern.WellFormed.hash_notMem {p : NamePattern} (h : p.WellFormed) :
    '#' ∉ p.text.toList := by
  obtain ⟨cs, hcs, rfl⟩ := h
  rw [NamePattern.text_ofText, String.toList_ofList]
  intro hm
  obtain ⟨part, hp, hm⟩ := Text.exists_mem_splitOn (show '#' ≠ '.' by decide) hm
  have hall := List.all_eq_true.1 hcs part hp
  rw [Bool.and_eq_true, List.all_eq_true] at hall
  exact absurd (hall.2 '#' hm) (by decide)

/-- A member name has characters of identifiers and angle brackets only. -/
theorem IsMemberName.mem {name : String} {c : Char} (h : IsMemberName name) (hc : c ∈ name.toList) :
    Text.isWordChar c = true ∨ c = '<' ∨ c = '>' := by
  have hinit : ("<init>".toList.all fun x => Text.isWordChar x || x == '<' || x == '>') = true := by
    decide
  have hclinit :
      ("<clinit>".toList.all fun x => Text.isWordChar x || x == '<' || x == '>') = true := by
    decide
  rcases h.2 with h | h | h
  · simpa [or_assoc] using List.all_eq_true.1 hinit c (h ▸ hc)
  · simpa [or_assoc] using List.all_eq_true.1 hclinit c (h ▸ hc)
  · exact .inl (List.all_eq_true.1 h c hc)

theorem IsMemberName.paren_notMem {name : String} (h : IsMemberName name) : '(' ∉ name.toList :=
  fun hc => absurd (h.mem hc) (by decide)

end JvmAudit
