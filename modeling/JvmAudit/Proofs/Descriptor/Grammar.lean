import JvmAudit.Proofs.Descriptor.Spelling

/-!
# The grammar of descriptors

The texts that are descriptors, by rules that also say which classes such a text names and how Java
spells its types (`FieldText`, `MethodText`). A class name may hold any character but the semicolon,
so also those that have a meaning elsewhere in a descriptor.

The readers give a type for a text iff the text is what is printed for the type, so a text has one
reading at most, and the rules hold of the texts that are read and of no others.
-/

namespace JvmAudit

/-! ## Rules -/

namespace Descriptor

/-- The letters of the primitive types and their Java keywords. -/
def primitiveWords : List (Char × String) :=
  [('B', "byte"), ('C', "char"), ('D', "double"), ('F', "float"), ('I', "int"), ('J', "long"),
   ('S', "short"), ('Z', "boolean")]

/-- A class name with dots for slashes. -/
def dotted (name : List Char) : String := .ofList (name.map fun c => if c = '/' then '.' else c)

/-- The text of a base type, the class that it names and its Java spelling. -/
inductive BaseText : List Char → Option String → String → Prop
  | primitive {letter : Char} {word : String} (h : (letter, word) ∈ primitiveWords) :
    BaseText [letter] none word
  | object {name : List Char} (hne : name ≠ []) (hname : ';' ∉ name) :
    BaseText ('L' :: (name ++ [';'])) (some (dotted name)) (dotted name)

/-- The text of a type: a bracket for each dimension, then a base type. Java puts its brackets
behind the base type. -/
inductive FieldText : List Char → Option String → String → Prop
  | mk {base : List Char} {named : Option String} {java : String} (dims : Nat)
    (h : BaseText base named java) :
    FieldText (List.replicate dims '[' ++ base) named (java ++ .join (List.replicate dims "[]"))

/-- The texts of types one after the other, with the classes that they name and the Java
spellings. -/
inductive FieldTexts : List Char → List String → List String → Prop
  | nil : FieldTexts [] [] []
  | cons {field rest : List Char} {named : Option String}
    {names javas : List String} {java : String}
    (hfield : FieldText field named java) (hrest : FieldTexts rest names javas) :
    FieldTexts (field ++ rest) (named.toList ++ names) (java :: javas)

/-- The text of a method type: its parameters in parentheses, then the type of its result or `V`.
With it the classes that it names and the Java spellings of its parameters. -/
inductive MethodText : List Char → List String → List String → Prop
  | void {params : List Char} {names javas : List String} (h : FieldTexts params names javas) :
    MethodText ('(' :: (params ++ [')', 'V'])) names javas
  | value {params result : List Char} {names javas : List String}
    {named : Option String} {java : String}
    (h : FieldTexts params names javas) (hresult : FieldText result named java) :
    MethodText ('(' :: (params ++ ')' :: result)) (names ++ named.toList) javas

end Descriptor

/-! ## The rules hold of what is printed -/

namespace Descriptor

variable {cs : List Char} {named : Option String} {java : String} {names javas : List String}

/-- The table has the letter and the keyword of each primitive type. -/
theorem mem_primitiveWords {letter : Char} {word : String} :
    (letter, word) ∈ primitiveWords ↔ ∃ p : Primitive, p.tag = letter ∧ p.keyword = word := by
  have hall : primitiveWords = Primitive.all.map fun p => (p.tag, p.keyword) := rfl
  have hmem : ∀ p : Primitive, p ∈ Primitive.all := by
    intro p
    cases p <;> decide
  rw [hall, List.mem_map]
  constructor
  · rintro ⟨p, _, hp⟩
    cases hp
    exact ⟨p, rfl, rfl⟩
  · rintro ⟨p, rfl, rfl⟩
    exact ⟨p, hmem p, rfl⟩

/-- The texts of base types by rules are those that are rendered for them. -/
theorem baseText_iff : BaseText cs named java ↔
    ∃ base : BaseType, base.Readable ∧ base.render = cs ∧ base.className? = named ∧
    base.spelling = java := by
  constructor
  · intro h
    cases h with
    | primitive h =>
      obtain ⟨p, rfl, rfl⟩ := mem_primitiveWords.1 h
      exact ⟨.primitive p, trivial, rfl, rfl, rfl⟩
    | @object name hne hname =>
      refine ⟨.object (.ofList name), ?_, ?_, ?_, ?_⟩
      · simpa [BaseType.Readable] using ⟨hne, hname⟩
      · simp [BaseType.render]
      · simp [BaseType.className?, binaryName, dotted, Text.replaceChar]
      · simp [BaseType.spelling, binaryName, dotted, Text.replaceChar]
  · rintro ⟨base, hbase, rfl, rfl, rfl⟩
    cases base with
    | primitive p => exact .primitive (mem_primitiveWords.2 ⟨p, rfl, rfl⟩)
    | object name => exact .object hbase.1 hbase.2

/-- The texts of types by rules are those that are rendered for them. -/
theorem fieldText_iff : FieldText cs named java ↔
    ∃ t : FieldType, t.base.Readable ∧ t.render = cs ∧ t.base.className? = named ∧
      t.spelling = java := by
  constructor
  · rintro ⟨dims, h⟩
    obtain ⟨base, hbase, rfl, rfl, rfl⟩ := baseText_iff.1 h
    exact ⟨⟨dims, base⟩, hbase, rfl, rfl, rfl⟩
  · rintro ⟨t, ht, rfl, rfl, rfl⟩
    exact .mk t.dims (baseText_iff.2 ⟨t.base, ht, rfl, rfl, rfl⟩)

theorem filterMap_className?_cons (t : FieldType) (ts : List FieldType) :
    (t :: ts).filterMap (·.base.className?) =
      t.base.className?.toList ++ ts.filterMap (·.base.className?) := by
  rw [List.filterMap_cons]
  cases t.base.className? <;> rfl

/-- The same for types one behind the other, by induction on the rules in one direction and on the
list in the other. -/
theorem fieldTexts_iff : FieldTexts cs names javas ↔
    ∃ ts : List FieldType, (∀ t ∈ ts, t.base.Readable) ∧ ts.flatMap FieldType.render = cs ∧
      ts.filterMap (·.base.className?) = names ∧ ts.map FieldType.spelling = javas := by
  constructor
  · intro h
    induction h with
    | nil => exact ⟨[], by simp, rfl, rfl, rfl⟩
    | cons hfield _ ih =>
      obtain ⟨t, ht, rfl, rfl, rfl⟩ := fieldText_iff.1 hfield
      obtain ⟨ts, hts, rfl, rfl, rfl⟩ := ih
      refine ⟨t :: ts, ?_, rfl, ?_, rfl⟩
      · intro u hu
        rcases List.mem_cons.1 hu with rfl | hu
        · exact ht
        · exact hts u hu
      · exact filterMap_className?_cons t ts
  · rintro ⟨ts, hts, rfl, rfl, rfl⟩
    induction ts with
    | nil => exact .nil
    | cons t ts ih =>
      have htext := FieldTexts.cons (fieldText_iff.2 ⟨t, hts t List.mem_cons_self, rfl, rfl, rfl⟩)
        (ih fun u hu => hts u (List.mem_cons_of_mem _ hu))
      rwa [← filterMap_className?_cons] at htext

theorem filterMap_className?_types (ts : List FieldType) (t : FieldType) :
    (MethodType.mk ts (some t)).types.filterMap (·.base.className?) =
      ts.filterMap (·.base.className?) ++ t.base.className?.toList := by
  rw [MethodType.types, List.filterMap_append, Option.toList_some, filterMap_className?_cons,
    List.filterMap_nil, List.append_nil]

/-- The texts of method types by rules are those that are rendered for them. -/
theorem methodText_iff : MethodText cs names javas ↔ ∃ t : MethodType, t.Readable ∧ t.render = cs ∧
    t.types.filterMap (·.base.className?) = names ∧ t.params.map FieldType.spelling = javas := by
  constructor
  · intro h
    cases h with
    | void h =>
      obtain ⟨ts, hts, rfl, rfl, rfl⟩ := fieldTexts_iff.1 h
      exact ⟨⟨ts, none⟩, MethodType.readable_iff.2 ⟨hts, by simp⟩, rfl,
        by simp [MethodType.types], rfl⟩
    | value h hresult =>
      obtain ⟨ts, hts, rfl, rfl, rfl⟩ := fieldTexts_iff.1 h
      obtain ⟨t, ht, rfl, rfl, rfl⟩ := fieldText_iff.1 hresult
      exact ⟨⟨ts, some t⟩, MethodType.readable_iff.2 ⟨hts, by simpa using ht⟩, rfl,
        filterMap_className?_types ts t, rfl⟩
  · rintro ⟨⟨ts, result⟩, ht, rfl, rfl, rfl⟩
    obtain ⟨hts, hresult⟩ := MethodType.readable_iff.1 ht
    have hparams := fieldTexts_iff.2 ⟨ts, hts, rfl, rfl, rfl⟩
    cases result with
    | none => simpa [MethodType.types, MethodType.render] using MethodText.void hparams
    | some t =>
      have hvalue := MethodText.value hparams (fieldText_iff.2 ⟨t, hresult t rfl, rfl, rfl, rfl⟩)
      rwa [← filterMap_className?_types] at hvalue

variable {text : String}

/-- The text of a type does not start like that of a method type. -/
theorem FieldText.head?_ne (h : FieldText cs named java) : cs.head? ≠ some '(' := by
  obtain ⟨dims, h⟩ := h
  cases dims with
  | succ n => simp [List.replicate_succ]
  | zero =>
    cases h with
    | primitive h =>
      rintro heq
      cases heq
      revert h
      simp [primitiveWords]
    | object => simp

theorem MethodText.head? (h : MethodText cs names javas) : cs.head? = some '(' := by
  cases h <;> rfl

theorem descriptorClasses?_fieldText (h : FieldText text.toList named java) :
    descriptorClasses? text = some named.toList := by
  obtain ⟨t, ht, hrender, rfl, rfl⟩ := fieldText_iff.1 h
  unfold descriptorClasses?
  rw [if_neg h.head?_ne, FieldType.ofDescriptor?_eq_some_iff.2 ⟨ht, hrender⟩]
  rfl

/-- The classes of a method type are those of its parameters and of its result. -/
theorem descriptorClasses?_methodText (h : MethodText text.toList names javas) :
    descriptorClasses? text = some names := by
  obtain ⟨t, ht, hrender, rfl, rfl⟩ := methodText_iff.1 h
  unfold descriptorClasses?
  rw [if_pos h.head?, MethodType.ofDescriptor?_eq_some_iff.2 ⟨ht, hrender⟩]
  rfl

/-- Parameters are displayed as Java spells them, with commas between. -/
theorem prettyParams_methodText (h : MethodText text.toList names javas) :
    prettyParams text = ",".intercalate javas := by
  obtain ⟨t, ht, hrender, rfl, rfl⟩ := methodText_iff.1 h
  unfold prettyParams
  rw [MethodType.ofDescriptor?_eq_some_iff.2 ⟨ht, hrender⟩]
  rfl

/-- A text is read as a type iff the rules allow it. -/
theorem isSome_field_iff :
    (FieldType.ofDescriptor? text).isSome ↔ ∃ named java, FieldText text.toList named java := by
  rw [Option.isSome_iff_exists]
  constructor
  · rintro ⟨t, h⟩
    obtain ⟨ht, hrender⟩ := FieldType.ofDescriptor?_eq_some_iff.1 h
    exact ⟨_, _, fieldText_iff.2 ⟨t, ht, hrender, rfl, rfl⟩⟩
  · rintro ⟨named, java, h⟩
    obtain ⟨t, ht, hrender, -, -⟩ := fieldText_iff.1 h
    exact ⟨t, FieldType.ofDescriptor?_eq_some_iff.2 ⟨ht, hrender⟩⟩

/-- A text is read as a method type iff the rules allow it. -/
theorem isSome_method_iff :
    (MethodType.ofDescriptor? text).isSome ↔ ∃ names javas, MethodText text.toList names javas := by
  rw [Option.isSome_iff_exists]
  constructor
  · rintro ⟨t, h⟩
    obtain ⟨ht, hrender⟩ := MethodType.ofDescriptor?_eq_some_iff.1 h
    exact ⟨_, _, methodText_iff.2 ⟨t, ht, hrender, rfl, rfl⟩⟩
  · rintro ⟨names, javas, h⟩
    obtain ⟨t, ht, hrender, -, -⟩ := methodText_iff.1 h
    exact ⟨t, MethodType.ofDescriptor?_eq_some_iff.2 ⟨ht, hrender⟩⟩

/-- A text has no classes iff it is neither a type nor a method type. -/
theorem descriptorClasses?_eq_none_iff : descriptorClasses? text = none ↔
    (¬∃ named java, FieldText text.toList named java) ∧
    ¬∃ names javas, MethodText text.toList names javas := by
  constructor
  · intro h
    constructor
    · rintro ⟨named, java, hfield⟩
      rw [descriptorClasses?_fieldText hfield] at h
      cases h
    · rintro ⟨names, javas, hmethod⟩
      rw [descriptorClasses?_methodText hmethod] at h
      cases h
  · rintro ⟨hfield, hmethod⟩
    rw [← isSome_field_iff, Option.not_isSome_iff_eq_none] at hfield
    rw [← isSome_method_iff, Option.not_isSome_iff_eq_none] at hmethod
    unfold descriptorClasses?
    rw [hfield, hmethod]
    split <;> rfl

/-- The readers accept what the rules give and nothing else, and read a text as the type whose
descriptor it is, which is the only one. They fail only because a text is no descriptor, never
because a name would be cut out of it inside a character. The classes of a descriptor and the
spellings of the parameters are those that the rules give. -/
theorem read_exactly (text : String) :
    ((FieldType.ofDescriptor? text).isSome ↔ ∃ named java, FieldText text.toList named java) ∧
    ((MethodType.ofDescriptor? text).isSome ↔ ∃ names javas, MethodText text.toList names javas) ∧
    (∀ t, FieldType.ofDescriptor? text = some t ↔ t.base.Readable ∧ t.render = text.toList) ∧
    (∀ t, MethodType.ofDescriptor? text = some t ↔ t.Readable ∧ t.render = text.toList) ∧
    (∀ e, FieldType.parse text = .error e → e = .invalid) ∧
    (∀ e, MethodType.parse text = .error e → e = .invalid) ∧
    (descriptorClasses? text = none ↔
      (¬∃ named java, FieldText text.toList named java) ∧
        ¬∃ names javas, MethodText text.toList names javas) ∧
    (∀ named java, FieldText text.toList named java →
      descriptorClasses? text = some named.toList) ∧
    ∀ names javas, MethodText text.toList names javas →
      descriptorClasses? text = some names ∧ prettyParams text = ",".intercalate javas :=
  ⟨isSome_field_iff, isSome_method_iff, fun _ => FieldType.ofDescriptor?_eq_some_iff,
    fun _ => MethodType.ofDescriptor?_eq_some_iff, (FieldType.exact_parse text).eq_invalid,
    (MethodType.exact_parse text).eq_invalid, descriptorClasses?_eq_none_iff,
    fun _ _ => descriptorClasses?_fieldText,
    fun _ _ h => ⟨descriptorClasses?_methodText h, prettyParams_methodText h⟩⟩

/-- A descriptor whose first class name has the other marks of descriptors in it, and characters of
more than one byte. -/
def oddDescriptor : String := "(La(/é€)[V;[[I)[Lx/y;"

def oddType : MethodType :=
  ⟨[⟨0, .object "a(/é€)[V"⟩, ⟨2, .primitive .int⟩], some ⟨1, .object "x/y"⟩⟩

/-- It ends inside the last class name. -/
def cutDescriptor : String := "(La(/é€)[V;[[I)[Lx/y"

theorem read_exactly_odd :
    MethodText oddDescriptor.toList ["a(.é€)[V", "x.y"] ["a(.é€)[V", "int[][]"] ∧
    MethodType.ofDescriptor? oddDescriptor = some oddType ∧
    descriptorClasses? oddDescriptor = some ["a(.é€)[V", "x.y"] ∧
    prettyParams oddDescriptor = ",".intercalate ["a(.é€)[V", "int[][]"] ∧
    (∀ e, MethodType.parse cutDescriptor = .error e → e = .invalid) ∧
    MethodType.ofDescriptor? cutDescriptor = none ∧ descriptorClasses? cutDescriptor = none := by
  have hread : oddType.Readable := by
    rw [MethodType.readable_iff]
    simp [oddType, BaseType.Readable]
  have hrender : oddType.render = oddDescriptor.toList := by decide
  have htext : MethodText oddDescriptor.toList ["a(.é€)[V", "x.y"] ["a(.é€)[V", "int[][]"] :=
    methodText_iff.2 ⟨oddType, hread, hrender, by decide +kernel, by decide +kernel⟩
  obtain ⟨_, _, _, hmethod, _, _, _, _, hclasses⟩ := read_exactly oddDescriptor
  obtain ⟨_, _, _, _, _, hinvalid, _⟩ := read_exactly cutDescriptor
  exact ⟨htext, (hmethod oddType).2 ⟨hread, hrender⟩, (hclasses _ _ htext).1,
    (hclasses _ _ htext).2, hinvalid, by decide +kernel, by decide +kernel⟩

end Descriptor

end JvmAudit
