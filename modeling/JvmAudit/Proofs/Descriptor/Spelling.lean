import JvmAudit.Descriptor.Spelling
import JvmAudit.Proofs.Descriptor.Reading
import JvmAudit.Proofs.Text.Blank

/-!
# Types are read back from their spellings

A type that has a Java spelling is read back from the spelling that is printed for it
(`FieldType.ofSpelling?_spelling`), and from its descriptor. So the parameters of an overload can be
printed from their descriptors.
-/

namespace JvmAudit

theorem binaryName_internalName {name : String} (h : '/' ∉ name.toList) :
    binaryName (internalName name) = name := by
  have hback : ∀ cs : List Char, '/' ∉ cs →
      Text.replaceChar '/' '.' (Text.replaceChar '.' '/' cs) = cs := by
    intro cs hcs
    rw [Text.replaceChar, Text.replaceChar, List.map_map]
    refine (List.map_congr_left fun c hc => ?_).trans (List.map_id _)
    have hne : c ≠ '/' := fun heq => hcs (heq ▸ hc)
    by_cases hdot : c = '.'
    · simp [hdot]
    · simp [hdot, hne]
  unfold binaryName internalName
  rw [String.toList_ofList, hback _ h, String.ofList_toList]

/-- What dots are replaced by is all that the internal form adds. -/
theorem mem_internalName {name : String} {c : Char} (h : c ∈ (internalName name).toList) :
    c ∈ name.toList ∨ c = '/' := by
  rw [internalName, String.toList_ofList] at h
  exact Text.mem_replaceChar h

theorem mem_binaryName {name : String} {c : Char} (h : c ∈ (binaryName name).toList) :
    c ∈ name.toList ∨ c = '.' := by
  rw [binaryName, String.toList_ofList] at h
  exact Text.mem_replaceChar h

theorem internalName_eq_nil {name : String} :
    (internalName name).toList = [] ↔ name.toList = [] := by
  rw [internalName, String.toList_ofList, Text.replaceChar, List.map_eq_nil_iff]

/-! ## Base types -/

namespace BaseType

/-- A base type that is read back from its spelling. -/
def Spelled (base : BaseType) : Prop := FieldType.spelledBase? base.spelling = some base

end BaseType

theorem FieldType.isDottedName_iff {cs : List Char} :
    isDottedName cs = true ↔ Text.IsParted '.' Text.isWordChar cs :=
  Text.all_splitOn_iff

namespace BaseType

variable {base : BaseType}

/-- The spelling that is read is the one that is printed. -/
theorem spelling_of_spelledBase? {name : String} (h : FieldType.spelledBase? name = some base) :
    base.spelling = name := by
  unfold FieldType.spelledBase? at h
  split at h
  · next p hp =>
    cases h
    show p.keyword = name
    simpa using List.find?_some hp
  · split at h
    · next hname =>
      cases h
      rw [Bool.and_eq_true, FieldType.isDottedName_iff] at hname
      refine binaryName_internalName fun hslash => ?_
      exact absurd (hname.2.mem hslash) (by decide)
    · cases h

theorem spelled_of_spelledBase? {name : String} (h : FieldType.spelledBase? name = some base) :
    base.Spelled := by
  unfold Spelled
  rwa [spelling_of_spelledBase? h]

/-- A base type is spelled as a dotted name. -/
theorem Spelled.isParted (h : base.Spelled) :
    Text.IsParted '.' Text.isWordChar base.spelling.toList := by
  rw [← FieldType.isDottedName_iff]
  cases base with
  | primitive p => cases p <;> decide
  | object name =>
    unfold Spelled FieldType.spelledBase? at h
    split at h
    · cases h
    · split at h
      · next hname => exact (Bool.and_eq_true_iff.1 hname).2
      · cases h

/-- The name of a class that has a spelling is the internal form of the spelling. -/
theorem Spelled.internalName_binaryName {name : String} (h : (object name).Spelled) :
    internalName (binaryName name) = name := by
  unfold Spelled FieldType.spelledBase? at h
  split at h
  · cases h
  · split at h
    · exact BaseType.object.inj (Option.some.inj h)
    · cases h

/-- Such a name has characters of words, dots and slashes only. -/
theorem Spelled.mem_name {name : String} (h : (object name).Spelled) {c : Char}
    (hc : c ∈ name.toList) :
    Text.isWordChar c = true ∨ c = '.' ∨ c = '/' := by
  rw [← h.internalName_binaryName] at hc
  rcases mem_internalName hc with hmem | hslash
  · rcases h.isParted.mem hmem with hword | hdot
    · exact .inl hword
    · exact .inr (.inl hdot)
  · exact .inr (.inr hslash)

theorem Spelled.readable (h : base.Spelled) : base.Readable := by
  cases base with
  | primitive p => trivial
  | object name =>
    refine ⟨fun hempty => ?_, fun hsemicolon => absurd (h.mem_name hsemicolon) (by decide)⟩
    obtain ⟨c, rest, hcons, _⟩ := h.isParted.exists_cons
    rw [← h.internalName_binaryName] at hempty
    exact absurd ((internalName_eq_nil.1 hempty).symm.trans hcons) (by simp)

end BaseType

namespace FieldType

/-! ## Java spellings -/

/-- Brackets behind a name, with blanks in front of each pair of them, and their number. -/
inductive Brackets : List Char → Nat → Prop
  | none : Brackets [] 0
  | more {cs gap : List Char} {n : Nat} (h : Brackets cs n) (hgap : Text.IsBlanks gap) :
    Brackets (cs ++ gap ++ ['[', ']']) (n + 1)

/-- What may stand behind a name, and the dimensions that it adds: brackets, and at the end `...` at
most once. -/
inductive Suffixes : List Char → Nat → Prop
  | brackets {cs : List Char} {n : Nat} (h : Brackets cs n) : Suffixes cs n
  | dots {cs gap : List Char} {n : Nat} (h : Brackets cs n) (hgap : Text.IsBlanks gap) :
    Suffixes (cs ++ gap ++ ['.', '.', '.']) (n + 1)

section Suffixes

-- the suffixes are taken off the reversed text; the reversed name starts with a character of a word
variable {name suffix : List Char} {n : Nat} (hname : ∀ c ∈ name.head?, Text.isWordChar c = true)
include hname

/-- Brackets behind a name end neither with a blank nor with a dot. -/
theorem Brackets.head?_reverse (h : Brackets suffix n) :
    ∀ c ∈ (suffix.reverse ++ name).head?, Text.isBlank c = false ∧ c ≠ '.' := by
  intro c hc
  cases h with
  | none =>
    have hword := hname c hc
    refine ⟨Text.isBlank_of_isWordChar hword, ?_⟩
    rintro rfl
    exact absurd hword (by decide)
  | more =>
    simp only [List.reverse_append, List.reverse_cons, List.reverse_nil, List.nil_append,
      List.cons_append, List.head?_cons] at hc
    cases hc
    decide

theorem dropWhile_gap (h : Brackets suffix n) {gap : List Char} (hgap : Text.IsBlanks gap) :
    (gap.reverse ++ (suffix.reverse ++ name)).dropWhile Text.isBlank = suffix.reverse ++ name :=
  Text.dropWhile_append_blanks (fun c hc => hgap c (List.mem_reverse.1 hc)) fun c hc =>
    (h.head?_reverse hname c hc).1

theorem stripBrackets_reverse (h : Brackets suffix n) :
    stripBrackets (suffix.reverse ++ name) = (n, name) := by
  induction h with
  | none =>
    show stripBrackets name = (0, name)
    unfold stripBrackets
    split
    · exact absurd (hname ']' rfl) (by decide)
    · rfl
  | @more cs gap n h hgap ih =>
    have htext : (cs ++ gap ++ ['[', ']']).reverse ++ name =
        ']' :: '[' :: (gap.reverse ++ (cs.reverse ++ name)) := by
      simp
    rw [htext, stripBrackets, dropWhile_gap hname h hgap, ih]

/-- All suffixes are taken off, and nothing of the name. -/
theorem strip_reverse (h : Suffixes suffix n) :
    ∃ dots brackets middle, stripDots (suffix.reverse ++ name) = (dots, middle) ∧
    stripBrackets middle = (brackets, name) ∧ dots + brackets = n := by
  cases h with
  | brackets h =>
    refine ⟨0, n, suffix.reverse ++ name, ?_, stripBrackets_reverse hname h, Nat.zero_add n⟩
    unfold stripDots
    split
    · next htext =>
      have hdot := (h.head?_reverse hname '.' (by rw [htext]; rfl)).2
      exact absurd rfl hdot
    · rfl
  | @dots cs gap n h hgap =>
    have htext : (cs ++ gap ++ ['.', '.', '.']).reverse ++ name =
        '.' :: '.' :: '.' :: (gap.reverse ++ (cs.reverse ++ name)) := by
      simp
    refine ⟨1, n, cs.reverse ++ name, ?_, stripBrackets_reverse hname h, Nat.add_comm 1 n⟩
    rw [htext, stripDots, dropWhile_gap hname h hgap]

theorem Suffixes.isBlank_head?_reverse (h : Suffixes suffix n) :
    ∀ c ∈ (suffix.reverse ++ name).head?, Text.isBlank c = false := by
  intro c hc
  cases h with
  | brackets h => exact (h.head?_reverse hname c hc).1
  | dots =>
    simp only [List.reverse_append, List.reverse_cons, List.reverse_nil, List.nil_append,
      List.cons_append, List.head?_cons] at hc
    cases hc
    decide

end Suffixes

/-- A name with suffixes and with blanks around it is read as the type that it spells. -/
theorem ofSpelling?_of_suffixes {java : String} {base : BaseType}
    {front name suffix back : List Char} {n : Nat}
    (hbase : spelledBase? (.ofList name) = some base) (hsuffix : Suffixes suffix n)
    (hfront : Text.IsBlanks front)
    (hback : Text.IsBlanks back) (hjava : java.toList = front ++ (name ++ suffix) ++ back) :
    ofSpelling? java = some ⟨n, base⟩ := by
  have hparted : Text.IsParted '.' Text.isWordChar name := by
    have h := (BaseType.spelled_of_spelledBase? hbase).isParted
    rwa [BaseType.spelling_of_spelledBase? hbase, String.toList_ofList] at h
  have hlast : ∀ c ∈ name.reverse.head?, Text.isWordChar c = true := by
    intro c hc
    rw [List.head?_reverse] at hc
    exact hparted.getLast? hc
  have htrimmed : Text.IsTrimmed (name ++ suffix) := by
    obtain ⟨c, rest, rfl, hc⟩ := hparted.exists_cons
    refine ⟨fun x hx => ?_, fun x hx => ?_⟩
    · cases hx
      exact Text.isBlank_of_isWordChar hc
    · rw [← List.head?_reverse, List.reverse_append] at hx
      exact hsuffix.isBlank_head?_reverse hlast x hx
  obtain ⟨dots, brackets, middle, hdots, hbrackets, hn⟩ := strip_reverse hlast hsuffix
  unfold ofSpelling?
  rw [hjava, Text.trim_append_blanks hfront hback, Text.trim_of_isTrimmed htrimmed,
    List.reverse_append]
  simp only [hdots, hbrackets, List.reverse_reverse, hbase, hn, Option.map_some]

variable {t : FieldType}

/-- A type that is read has a base type that has a spelling. -/
theorem spelled_base {java : String} (h : ofSpelling? java = some t) : t.base.Spelled := by
  obtain ⟨base, hbase, rfl⟩ := Option.map_eq_some_iff.1 h
  exact BaseType.spelled_of_spelledBase? hbase

theorem brackets_spelling (t : FieldType) :
    Brackets (String.join (List.replicate t.dims "[]")).toList t.dims := by
  rw [String.toList_join]
  induction t.dims with
  | zero => exact .none
  | succ n ih =>
    have hmore := ih.more Text.isBlanks_nil
    rw [List.append_nil] at hmore
    rwa [List.replicate_succ', List.flatMap_append, List.flatMap_singleton]

/-- The characters of a spelling. -/
theorem mem_spelling (h : t.base.Spelled) {c : Char} (hc : c ∈ t.spelling.toList) :
    Text.isWordChar c = true ∨ c = '.' ∨ c = '[' ∨ c = ']' := by
  unfold spelling at hc
  rw [String.toList_append, List.mem_append] at hc
  rcases hc with hc | hc
  · rcases h.isParted.mem hc with hword | hdot
    · exact .inl hword
    · exact .inr (.inl hdot)
  · rw [String.toList_join, List.mem_flatMap] at hc
    obtain ⟨pair, hpair, hmem⟩ := hc
    rw [(List.mem_replicate.1 hpair).2] at hmem
    exact .inr (.inr (by simpa using hmem))

/-- A type is read back from its spelling. -/
theorem ofSpelling?_spelling (h : t.base.Spelled) : ofSpelling? t.spelling = some t := by
  have hbase : spelledBase? (.ofList t.base.spelling.toList) = some t.base := by
    rwa [String.ofList_toList]
  refine ofSpelling?_of_suffixes hbase (.brackets (brackets_spelling t)) Text.isBlanks_nil
    Text.isBlanks_nil ?_
  simp [spelling]

end FieldType

/-- The parameters of a method without result are printed from its descriptor. -/
theorem prettyParams_render {params : List FieldType} (h : ∀ t ∈ params, t.base.Readable) :
    prettyParams (.ofList (MethodType.mk params none).render) =
      Text.join "," (params.map FieldType.spelling) := by
  have hread : MethodType.ofDescriptor? (.ofList (MethodType.mk params none).render) =
      some ⟨params, none⟩ :=
    MethodType.ofDescriptor?_eq_some_iff.2
      ⟨MethodType.readable_iff.2 ⟨h, nofun⟩, String.toList_ofList.symm⟩
  unfold prettyParams
  rw [hread]

end JvmAudit
