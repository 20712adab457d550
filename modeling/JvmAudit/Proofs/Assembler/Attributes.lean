import JvmAudit.Assembler.Class
import JvmAudit.Proofs.Assembler.Symbols
import JvmAudit.Proofs.Text.Cut

/-!
# Attributes read back

Attributes are read back from the bytes that are assembled for them, with the pool that is written
in the end. How long an attribute is does not depend on the pool.
-/

namespace JvmAudit

open Reader ClassFile

/-! ## Names -/

/-- A name that can stand in a descriptor. -/
@[mk_iff]
structure IsAnnotationName (name : String) : Prop where
  ne_empty : name ≠ ""
  slash : '/' ∉ name.toList
  semicolon : ';' ∉ name.toList

instance (name : String) : Decidable (IsAnnotationName name) :=
  decidable_of_iff' _ (isAnnotationName_iff name)

/-- The name of an annotation is read back from its descriptor. -/
theorem className?_of_isAnnotationName {name : String} (h : IsAnnotationName name) :
    Annotations.className? ("L" ++ internalName name ++ ";") = some name := by
  have hreadable : (BaseType.object (internalName name)).Readable := by
    refine ⟨fun hempty => h.ne_empty ?_, fun hmem => ?_⟩
    · exact String.toList_eq_nil_iff.1 (internalName_eq_nil.1 hempty)
    · rcases mem_internalName hmem with hmem | heq
      · exact h.semicolon hmem
      · exact absurd heq (by decide)
  have hread : FieldType.ofDescriptor? ("L" ++ internalName name ++ ";") =
      some ⟨0, .object (internalName name)⟩ :=
    FieldType.ofDescriptor?_eq_some_iff.2 ⟨hreadable, by simp [FieldType.render, BaseType.render]⟩
  unfold Annotations.className?
  rw [hread]
  simp only
  rw [binaryName_internalName h.slash]

namespace Assembler

variable {C : Tables → Prop} {q : PoolBuilder}

/-! ## Class names -/

/-- A class name is read back from its index. -/
theorem reads_readClassName (h : q.Sound) (hnext : q.next ≤ 0xFFFF) {name : String} {i : Nat}
    (hi : q.ClassAt i (internalName name)) (hname : '/' ∉ name.toList) :
    Reads (readClassName q.toPool) (put2 i) name := by
  have hlt := h.classAt_lt hi
  have hread := (reads_u2 (show i < 0x10000 by omega)).bind
    (f := fun i => do return binaryName (← q.toPool.className i))
    (reads_lift (h.className_toPool hi)).map
  rw [binaryName_internalName hname, List.append_nil] at hread
  exact hread

/-! ## One attribute -/

/-- An attribute is read back as its name and its bytes, if these are not too many. -/
theorem assembles_encodeAttribute (name : String) (data : Bytes) :
    Assembles C (encodeAttribute name data) fun u chunk => chunk.length = 6 + data.length ∧
      (u.pool.next ≤ 0xFFFF → data.length ≤ 0xFFFFFFFF →
        Reads (readAttribute u.pool.toPool) chunk (name, data)) := by
  refine (assembles_utf8 name).bind fun i => assembles_pure fun u hu hC =>
    ⟨?_, fun hnext hlength => ?_⟩
  · simp [put2, put4, putLength]
    omega
  · have hlt := hu.lt_next hC.2
    rw [putLength_eq hlength, List.append_assoc]
    exact (reads_u2 (by omega)).bind ((reads_lift (hu.utf8_toPool hC.2)).bind_nil
      ((reads_u4 (by omega)).bind (reads_bytes data).map))

/-- The attribute that is read from these bytes is interpreted as `v`. -/
def ReadsAttribute {α : Type} (pool : Pool) (interpret : String → Bytes → Except ClassError α)
    (chunk : Bytes) (v : α) : Prop :=
  ∃ name data, Reads (readAttribute pool) chunk (name, data) ∧ interpret name data = .ok v

/-- Attributes are read back if each of them is understood. -/
theorem reads_readAttributes {α : Type} {pool : Pool}
    {interpret : String → Bytes → Except ClassError α}
    {chunks : List Bytes} {values : List α} (hcount : chunks.length ≤ 0xFFFF)
    (h : List.Forall₂ (ReadsAttribute pool interpret) chunks values) :
    Reads (readAttributes pool interpret) (encodeAttributes chunks) values := by
  refine reads_table (h.imp ?_) h.length_eq hcount
  rintro chunk v ⟨name, data, hread, hv⟩
  exact hread.bind_last (reads_lift hv)

/-! ## Annotations -/

theorem readPairs_zero (bs : Bytes) :
    ElementValue.readPairs 0 bs = .ok ([], ⟨bs, Nat.le_refl _⟩) := by
  rw [ElementValue.readPairs]

theorem read_text {i : Nat} (h : i < 0x10000) (rest : Bytes) :
    (ElementValue.read ((ElementValue.const 0x73 i).encode ++ rest)).map (fun p => (p.1, p.2.val)) =
      .ok (.const 0x73 i, rest) := by
  simp only [ElementValue.encode, put2, List.cons_append, List.nil_append]
  rw [ElementValue.read]
  simp only [show (0x73 : UInt8) ∈ ElementValue.constTags by decide, if_true, be2_put2,
    Nat.mod_eq_of_lt h]
  rfl

/-- An annotation without elements. -/
theorem reads_elements_nil : Reads Annotations.elements (put2 0) [] := by
  intro rest
  show ((ElementValue.readPairs 0 rest).map fun p => (p.1, p.2.val)) = _
  rw [readPairs_zero]
  rfl

/-- An annotation with one text element. -/
theorem reads_elements_text {name value : Nat} (hname : name < 0x10000) (hvalue : value < 0x10000) :
    Reads Annotations.elements (put2 1 ++ (put2 name ++ (ElementValue.const 0x73 value).encode))
      [(name, .const 0x73 value)] := by
  refine (reads_u2 (show 1 < 0x10000 by omega)).bind ?_
  intro rest
  show ((ElementValue.readPairs 1 _).map fun p => (p.1, p.2.val)) = _
  rw [List.append_assoc]
  simp only [put2, List.cons_append, List.nil_append]
  rw [ElementValue.readPairs, be2_put2, Nat.mod_eq_of_lt hname]
  obtain ⟨⟨element, after⟩, hread, hafter⟩ := Result.map_eq_ok.1 (read_text hvalue rest)
  obtain ⟨rfl, hrest⟩ := Prod.mk.inj hafter
  rw [hread]
  show ((ElementValue.readPairs 0 after.val >>= fun p => _).map _) = _
  rw [readPairs_zero]
  show Except.ok ([(name, ElementValue.const 0x73 value)], after.val) = _
  rw [hrest]

/-- An annotation has at most one value, and is read back as its name. -/
theorem AnnotationSpec.assembles_encode (a : AnnotationSpec) :
    Assembles C a.encode fun u data => data.length ≤ 9 ∧
      (u.pool.next ≤ 0xFFFF → IsAnnotationName a.name →
        Reads (Annotations.readName u.pool.toPool) data a.name) := by
  refine (assembles_utf8 _).bind fun type => ?_
  have hread : ∀ {u : Tables} {data : Bytes} {pairs : List (Nat × ElementValue)}, u.Sound →
      (.utf8 ("L" ++ internalName a.name ++ ";"), type) ∈ u.pool.entries → u.pool.next ≤ 0xFFFF →
        IsAnnotationName a.name →
      Reads Annotations.elements data pairs →
          Reads (Annotations.readName u.pool.toPool) (put2 type ++ data) a.name := by
    intro u data pairs hu htype hnext hname hdata
    have hlt := hu.lt_next htype
    refine (reads_u2 (by omega)).bind ((reads_lift (hu.utf8_toPool htype)).bind_nil ?_)
    rw [className?_of_isAnnotationName hname]
    exact hdata.map
  cases a.element with
  | none =>
    refine assembles_pure fun u hu hC => ⟨by simp [put2], fun hnext hname => ?_⟩
    exact hread hu hC.2 hnext hname reads_elements_nil
  | some element =>
    refine (assembles_utf8 _).bind fun n => (assembles_utf8 _).bind fun v => ?_
    refine assembles_pure fun u hu hC =>
      ⟨by simp [put2, ElementValue.encode], fun hnext hname => ?_⟩
    have hn := hu.lt_next hC.1.2
    have hv := hu.lt_next hC.2
    rw [List.append_assoc, List.append_assoc]
    exact hread hu hC.1.1.2 hnext hname (reads_elements_text (by omega) (by omega))

/-- An attribute that holds annotations with these names. -/
def AnnotationChunk (pool : Pool) (chunk : Bytes) (names : List String) : Prop :=
  ∃ name data, isAnnotations name = true ∧ Reads (readAttribute pool) chunk (name, data) ∧
    annotationsOf pool name data = .ok names

/-- Attributes that hold annotations with these names. -/
def AnnotationChunks (pool : Pool) (chunks : List Bytes) (names : List String) : Prop :=
  ∃ values, List.Forall₂ (AnnotationChunk pool) chunks values ∧ values.flatten = names

theorem AnnotationChunks.append {pool : Pool} {chunks chunks' : List Bytes}
    {names names' : List String}
    (h : AnnotationChunks pool chunks names) (h' : AnnotationChunks pool chunks' names') :
    AnnotationChunks pool (chunks ++ chunks') (names ++ names') := by
  obtain ⟨values, hv, rfl⟩ := h
  obtain ⟨values', hv', rfl⟩ := h'
  exact ⟨values ++ values', List.rel_append hv hv', List.flatten_append⟩

theorem length_flatten_le {α : Type} {R : α → Bytes → Prop} {l : List α}
    {chunks : List Bytes} {n : Nat}
    (h : List.Forall₂ R l chunks) (hR : ∀ a chunk, R a chunk → chunk.length ≤ n) :
    chunks.flatten.length ≤ n * l.length := by
  induction h with
  | nil => simp
  | cons hhead _ ih =>
    have hlength := hR _ _ hhead
    rw [List.flatten_cons, List.length_append, List.length_cons, Nat.mul_succ]
    omega

theorem AnnotationSpec.assembles_attribute? {name : String} (hname : isAnnotations name = true)
    (annotations : List AnnotationSpec) :
    Assembles C (attribute? name annotations) fun u chunks => chunks.length ≤ 1 ∧
      (u.pool.next ≤ 0xFFFF → annotations.length ≤ 0xFFFF →
        (∀ a ∈ annotations, IsAnnotationName a.name) →
        AnnotationChunks u.pool.toPool chunks (annotations.map (·.name))) := by
  unfold attribute?
  by_cases hempty : annotations.isEmpty = true
  · rw [if_pos hempty]
    refine assembles_pure fun u _ _ => ⟨by simp, fun _ _ _ => ?_⟩
    rw [List.isEmpty_iff.1 hempty]
    exact ⟨[], .nil, rfl⟩
  · rw [if_neg hempty]
    refine (Assembles.mapM fun a _ => a.assembles_encode).bind fun data => ?_
    refine (assembles_encodeAttribute name _).bind fun chunk => ?_
    refine assembles_pure fun u _ hC => ⟨by simp, fun hnext hcount hnames => ?_⟩
    obtain ⟨⟨_, hdata⟩, _, hread⟩ := hC
    have hlength := length_flatten_le hdata fun _ _ h => h.1
    have hitems :
        List.Forall₂ (Reads (Annotations.readName u.pool.toPool)) data
        (annotations.map (·.name)) := by
      rw [List.forall₂_map_right_iff]
      refine ((List.forall₂_and_left annotations data).2 ⟨hnames, hdata⟩).flip.imp ?_
      exact fun d a h => h.2.2 hnext h.1
    have htable := reads_table hitems (List.length_map _).symm hcount
    refine ⟨[annotations.map (·.name)], .cons ⟨name, _, hname, hread hnext ?_, ?_⟩ .nil, by simp⟩
    · rw [List.length_append, putCount_eq hcount, length_put2]
      omega
    · rw [annotationsOf, if_pos hname]
      exact htable.readFrom

/-- Annotations whose names stand in descriptors, not too many of each visibility. -/
@[mk_iff]
structure AnnotationSpec.Writable (annotations : List AnnotationSpec) : Prop where
  names : ∀ a ∈ annotations, IsAnnotationName a.name
  visible : (annotations.filter (·.visible)).length ≤ 0xFFFF
  invisible : (annotations.filter (!·.visible)).length ≤ 0xFFFF

instance (annotations : List AnnotationSpec) : Decidable (AnnotationSpec.Writable annotations) :=
  decidable_of_iff' _ (AnnotationSpec.writable_iff annotations)

/-- The names of annotations as they are stored: those kept at run time, then the others. -/
def AnnotationSpec.storedNames (annotations : List AnnotationSpec) : List String :=
  (annotations.filter (·.visible)).map (·.name) ++ (annotations.filter (!·.visible)).map (·.name)

/-- Annotations are written in two attributes, the visible ones first. -/
theorem AnnotationSpec.assembles_attributes (annotations : List AnnotationSpec) :
    Assembles C (attributes annotations) fun u chunks => chunks.length ≤ 2 ∧
      (u.pool.next ≤ 0xFFFF → Writable annotations →
        AnnotationChunks u.pool.toPool chunks (storedNames annotations)) := by
  refine (assembles_attribute? (by decide) _).bind fun visible => ?_
  refine (assembles_attribute? (by decide) _).bind fun invisible => ?_
  refine assembles_pure fun u _ hC => ⟨?_, fun hnext h => ?_⟩
  · have hvisible := hC.1.2.1
    have hinvisible := hC.2.1
    rw [List.length_append]
    omega
  · have hvisible := hC.1.2.2 hnext h.visible fun a ha => h.names a (List.mem_filter.1 ha).1
    have hinvisible := hC.2.2 hnext h.invisible fun a ha => h.names a (List.mem_filter.1 ha).1
    exact hvisible.append hinvisible

end Assembler

end JvmAudit
