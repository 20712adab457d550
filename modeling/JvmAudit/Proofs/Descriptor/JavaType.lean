import JvmAudit.Proofs.Descriptor.Grammar

/-!
# The grammar of Java types

The texts that spell a type in Java, by rules that also give the descriptor of the type
(`JavaType.Spelled`). A dot may belong to the name of a class or to the `...` behind it, and the
words of the primitive types look like class names; the rules are unambiguous all the same, because
a name ends with a character of a word and a word of the language is no class name.

Suffixes are taken off the end of a text one after the other, so the rules for them add the next one
at the end (`FieldType.Brackets`). The texts that are read are those of the rules and no others
(`JavaType.spelled_iff`).
-/

namespace JvmAudit

/-! ## Rules -/

namespace JavaType

/-- The words of the language that look like the name of a class. -/
def keywords : List String := "void" :: Descriptor.primitiveWords.map (·.2)

/-- The name of a base type, and its descriptor: the word of a primitive type, or parts with dots
between them. -/
inductive BaseName : List Char → List Char → Prop
  | primitive {letter : Char} {word : String} (h : (letter, word) ∈ Descriptor.primitiveWords) :
    BaseName word.toList [letter]
  | object {parts : List (List Char)} (hne : parts ≠ [])
    (hparts : ∀ part ∈ parts, part ≠ [] ∧ ∀ c ∈ part, Text.isWordChar c = true)
    (hword : ∀ word ∈ keywords, List.intercalate ['.'] parts ≠ word.toList) :
    BaseName (List.intercalate ['.'] parts) ('L' :: (List.intercalate ['/'] parts ++ [';']))

/-- A text that spells a type, and the descriptor of the type: the name of a base type and its
suffixes, with blanks around them. Each suffix is a dimension. -/
inductive Spelled : List Char → List Char → Prop
  | mk {front name suffix back descriptor : List Char} {dims : Nat} (hfront : Text.IsBlanks front)
    (hname : BaseName name descriptor) (hsuffix : FieldType.Suffixes suffix dims)
    (hback : Text.IsBlanks back) :
    Spelled (front ++ (name ++ suffix) ++ back) (List.replicate dims '[' ++ descriptor)

end JavaType

/-! ## Base types -/

namespace JavaType

theorem ofKeyword?_eq_none_iff {name : String} :
    Primitive.ofKeyword? name = none ↔
    ∀ word ∈ Descriptor.primitiveWords.map (·.2), name ≠ word := by
  have hwords : Descriptor.primitiveWords.map (·.2) = Primitive.all.map Primitive.keyword := rfl
  rw [hwords, List.forall_mem_map, Primitive.ofKeyword?, List.find?_eq_none]
  refine forall₂_congr fun p _ => ?_
  rw [beq_iff_eq, ne_eq, eq_comm]

/-- A class is spelled by a dotted name that is no word of the language. -/
theorem spelledBase?_eq_object_iff {name internal : String} :
    FieldType.spelledBase? name = some (.object internal) ↔
    (∀ word ∈ keywords, name ≠ word) ∧ Text.IsParted '.' Text.isWordChar name.toList ∧
    internalName name = internal := by
  rw [keywords, List.forall_mem_cons, ← ofKeyword?_eq_none_iff, ← FieldType.isDottedName_iff]
  unfold FieldType.spelledBase?
  cases hword : Primitive.ofKeyword? name with
  | some p => simp
  | none =>
    by_cases hvoid : name = "void"
    · simp [hvoid]
    · by_cases hname : FieldType.isDottedName name.toList = true
      · simp [hvoid, hname]
      · simp [hvoid, hname]

/-- The name of a base type is read as that type. -/
theorem baseName_iff {name descriptor : List Char} : BaseName name descriptor ↔
    ∃ base, FieldType.spelledBase? (.ofList name) = some base ∧ base.render = descriptor := by
  constructor
  · intro h
    cases h with
    | primitive h =>
      obtain ⟨p, rfl, rfl⟩ := Descriptor.mem_primitiveWords.1 h
      refine ⟨.primitive p, ?_, rfl⟩
      unfold FieldType.spelledBase?
      rw [String.ofList_toList, Primitive.ofKeyword?_keyword]
    | @object parts hne hparts hword =>
      have hdot : ∀ part ∈ parts, '.' ∉ part :=
        fun part hpart hmem => absurd ((hparts part hpart).2 '.' hmem) (by decide)
      refine ⟨.object (internalName (.ofList (List.intercalate ['.'] parts))), ?_, ?_⟩
      · refine spelledBase?_eq_object_iff.2 ⟨fun word hmem heq => hword word hmem ?_, ?_, rfl⟩
        · rw [← heq, String.toList_ofList]
        · intro part hpart
          rw [String.toList_ofList, Text.splitOn_intercalate hdot hne] at hpart
          exact hparts part hpart
      · rw [BaseType.render, internalName, String.toList_ofList, String.toList_ofList,
          Text.replaceChar_intercalate hdot]
        rfl
  · rintro ⟨base, hbase, rfl⟩
    cases base with
    | primitive p =>
      have hname := BaseType.spelling_of_spelledBase? hbase
      rw [← String.toList_inj, String.toList_ofList] at hname
      rw [← hname]
      exact .primitive (Descriptor.mem_primitiveWords.2 ⟨p, rfl, rfl⟩)
    | object internal =>
      obtain ⟨hword, hparted, rfl⟩ := spelledBase?_eq_object_iff.1 hbase
      rw [String.toList_ofList] at hparted
      have hdot : ∀ part ∈ Text.splitOn '.' name, '.' ∉ part := fun _ => Text.notMem_of_mem_splitOn
      have hname := Text.intercalate_splitOn '.' name
      have hinternal : Text.replaceChar '.' '/' name =
          List.intercalate ['/'] (Text.splitOn '.' name) := by
        rw [← Text.replaceChar_intercalate hdot, hname]
      have hobject : BaseName _ _ :=
        .object (Text.splitOn_ne_nil '.' name) hparted fun word hmem heq =>
        hword word hmem (by rw [← hname, heq, String.ofList_toList])
      rw [hname] at hobject
      rwa [BaseType.render, internalName, String.toList_ofList, String.toList_ofList, hinternal]

/-! ## Suffixes -/

/-- The brackets that are taken off. -/
theorem exists_brackets (cs : List Char) :
    ∃ suffix, FieldType.Brackets suffix (FieldType.stripBrackets cs).1 ∧
    cs.reverse = (FieldType.stripBrackets cs).2.reverse ++ suffix := by
  rw [FieldType.stripBrackets.eq_def]
  split
  · next rest =>
    obtain ⟨suffix, hsuffix, hrest⟩ := exists_brackets (rest.dropWhile Text.isBlank)
    obtain ⟨gap, hgap, hsplit⟩ := Text.exists_blanks rest
    refine ⟨suffix ++ gap ++ ['[', ']'], hsuffix.more hgap, ?_⟩
    simp only [List.reverse_cons, hsplit, hrest, List.append_assoc, List.singleton_append]
  · exact ⟨[], .none, by simp⟩
termination_by cs.length
decreasing_by
  rename_i rest htext
  have := (List.dropWhile_suffix Text.isBlank (l := rest)).length_le
  rw [htext, List.length_cons, List.length_cons]
  omega

/-- The suffixes that are taken off. -/
theorem exists_suffixes {cs middle name : List Char} {dots brackets : Nat}
    (hdots : FieldType.stripDots cs.reverse = (dots, middle))
    (hbrackets : FieldType.stripBrackets middle = (brackets, name)) :
    ∃ suffix, FieldType.Suffixes suffix (dots + brackets) ∧ cs = name.reverse ++ suffix := by
  obtain ⟨suffix, hsuffix, hmiddle⟩ := exists_brackets middle
  rw [hbrackets] at hsuffix hmiddle
  unfold FieldType.stripDots at hdots
  split at hdots
  · next rest htext =>
    cases hdots
    obtain ⟨gap, hgap, hsplit⟩ := Text.exists_blanks rest
    refine ⟨suffix ++ gap ++ ['.', '.', '.'], ?_, ?_⟩
    · rw [Nat.add_comm]
      exact .dots hsuffix hgap
    · rw [← List.reverse_reverse cs, htext]
      simp [hsplit, hmiddle]
  · cases hdots
    refine ⟨suffix, ?_, ?_⟩
    · rw [Nat.zero_add]
      exact .brackets hsuffix
    · rw [← List.reverse_reverse cs]
      exact hmiddle

/-- What is read as a type is a spelling of it. -/
theorem spelled_of_ofSpelling? {java : String} {t : FieldType}
    (h : FieldType.ofSpelling? java = some t) :
    Spelled java.toList t.render := by
  unfold FieldType.ofSpelling? at h
  cases hdots : FieldType.stripDots (Text.trim java.toList).reverse with
  | mk dots middle =>
    cases hbrackets : FieldType.stripBrackets middle with
    | mk brackets name =>
      simp only [hdots, hbrackets] at h
      obtain ⟨base, hbase, rfl⟩ := Option.map_eq_some_iff.1 h
      obtain ⟨suffix, hsuffix, htrim⟩ := exists_suffixes hdots hbrackets
      obtain ⟨front, back, hfront, hback, hjava⟩ := Text.exists_trim java.toList
      rw [hjava, htrim]
      exact .mk hfront (baseName_iff.2 ⟨base, hbase, rfl⟩) hsuffix hback

/-- A text is read as the type with this descriptor iff it spells it. -/
theorem spelled_iff {java : String} {descriptor : List Char} : Spelled java.toList descriptor ↔
    ∃ t, FieldType.ofSpelling? java = some t ∧ t.render = descriptor := by
  constructor
  · intro h
    generalize hjava : java.toList = text at h
    obtain ⟨hfront, hname, hsuffix, hback⟩ := h
    obtain ⟨base, hbase, rfl⟩ := baseName_iff.1 hname
    exact ⟨_, FieldType.ofSpelling?_of_suffixes hbase hsuffix hfront hback hjava, rfl⟩
  · rintro ⟨t, h, rfl⟩
    exact spelled_of_ofSpelling? h

/-- **Java types.** A text is read as a type iff it follows the rules, and then the type has the
descriptor that the rules give. The descriptor can be read, and what Java spells for it stands for
the same descriptor. -/
theorem spelled_exactly (java : String) :
    ((FieldType.ofSpelling? java).isSome ↔ ∃ descriptor, Spelled java.toList descriptor) ∧
    (∀ descriptor : String,
      (FieldType.ofSpelling? java).map FieldType.descriptor = some descriptor ↔
        Spelled java.toList descriptor.toList) ∧
    ∀ descriptor : String, (FieldType.ofSpelling? java).map FieldType.descriptor = some descriptor →
      ∃ t, FieldType.ofDescriptor? descriptor = some t ∧
        (FieldType.ofSpelling? t.spelling).map FieldType.descriptor = some descriptor := by
  refine ⟨?_, fun descriptor => ?_, fun descriptor h => ?_⟩
  · simp only [spelled_iff, Option.isSome_iff_exists]
    exact ⟨fun ⟨t, ht⟩ => ⟨_, t, ht, rfl⟩, fun ⟨_, t, ht, _⟩ => ⟨t, ht⟩⟩
  · rw [spelled_iff, Option.map_eq_some_iff]
    refine exists_congr fun t => and_congr_right fun _ => ?_
    rw [FieldType.descriptor, ← String.toList_inj, String.toList_ofList]
  · obtain ⟨t, ht, rfl⟩ := Option.map_eq_some_iff.1 h
    have hspelled := FieldType.spelled_base ht
    refine ⟨t, ?_, ?_⟩
    · rw [FieldType.ofDescriptor?_eq_some_iff, FieldType.descriptor, String.toList_ofList]
      exact ⟨hspelled.readable, rfl⟩
    · rw [FieldType.ofSpelling?_spelling hspelled]
      rfl

/-- An array of three dimensions, each written in another way. -/
def taskArrays : String := " app.Outer$Task[] \t[] ... "

/-- The blanks of a spelling are not kept, and `void` and a name with an empty part are no types. -/
theorem spelled_exactly_tasks :
    Spelled taskArrays.toList "[[[Lapp/Outer$Task;".toList ∧
    (∃ t, FieldType.ofDescriptor? "[[[Lapp/Outer$Task;" = some t ∧
      (FieldType.ofSpelling? t.spelling).map FieldType.descriptor = some "[[[Lapp/Outer$Task;") ∧
    (¬∃ descriptor, Spelled "void[]".toList descriptor) ∧
    ¬∃ descriptor, Spelled "app....".toList descriptor := by
  have h : (FieldType.ofSpelling? taskArrays).map FieldType.descriptor =
    some "[[[Lapp/Outer$Task;" := by decide +kernel
  obtain ⟨-, hspelled, hback⟩ := spelled_exactly taskArrays
  refine ⟨(hspelled _).1 h, hback _ h, ?_, ?_⟩
  · rw [← (spelled_exactly "void[]").1]
    decide +kernel
  · rw [← (spelled_exactly "app....").1]
    decide +kernel

end JavaType

end JvmAudit
