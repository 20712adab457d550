import JvmAudit.Proofs.Assembler.Attributes
import JvmAudit.Proofs.Assembler.Body

/-!
# Members read back

A field or a method is read back from its bytes with the pool that is written in the end. Of a body
the parts are read back (`reads_readCode`), unless only the outline is read: then the attribute is
skipped, and only its length matters.
-/

namespace JvmAudit.Assembler

open Reader ClassFile

variable {C : Tables → Prop} {pool : Pool} {depth : Depth}

/-! ## Bodies -/

/-- The length of the line table of a body, with the header of the attribute. -/
def lineTableSize (lines : Nat) : Nat := if lines = 0 then 0 else 8 + 4 * lines

/-- The length of the `Code` attribute of a body, without the header of the attribute. -/
def codeSize (code catches lines : Nat) : Nat := 12 + code + 8 * catches + lineTableSize lines

/-- An entry of the table of lines is read back. -/
theorem reads_readLine {l : LineNumber} (hstart : l.start ≤ 0xFFFF) (hline : l.line ≤ 0xFFFF) :
    Reads readLine (encodeLine l) l :=
  (reads_u2 (by omega)).bind (reads_u2 (by omega)).map

/-- A catch clause is read back, unless it catches everything. -/
theorem reads_readCatch {c : CatchClause} (hhandler : c.handler ≤ 0xFFFF) (htype : c.type ≤ 0xFFFF)
    (hne : c.type ≠ 0) :
    Reads readCatch (encodeCatch c) (some c) := by
  have hread := (reads_u2 (show c.type < 0x10000 by omega)).map
    (f := fun type => if type = 0 then none else some (CatchClause.mk c.handler type))
  rw [if_neg hne] at hread
  unfold encodeCatch
  rw [List.append_assoc, List.append_assoc]
  exact (reads_u2 (by omega)).bind ((reads_u2 (by omega)).bind ((reads_u2 (by omega)).bind hread))

/-- The parts of a body whose tables can be read back. -/
structure TablesFit (raw : RawCode) : Prop where
  catches_length : raw.catches.length ≤ 0xFFFF
  lines_length : raw.lines.length ≤ 0xFFFF
  catches : ∀ c ∈ raw.catches, c.handler ≤ 0xFFFF ∧ c.type ≤ 0xFFFF ∧ c.type ≠ 0
  lines : ∀ l ∈ raw.lines, l.start ≤ 0xFFFF ∧ l.line ≤ 0xFFFF

/-- Attributes of a body that hold this line table. -/
def LineChunks (pool : Pool) (chunks : List Bytes) (lines : List LineNumber) : Prop :=
  ∃ values, List.Forall₂ (ReadsAttribute pool linesOf) chunks values ∧ values.flatten = lines

theorem length_flatMap_encodeLine (lines : List LineNumber) :
    (lines.flatMap encodeLine).length = 4 * lines.length := by
  simp [List.length_flatMap, encodeLine, put2, Nat.mul_comm]

theorem length_flatMap_encodeCatch (catches : List CatchClause) :
    (catches.flatMap encodeCatch).length = 8 * catches.length := by
  simp [List.length_flatMap, encodeCatch, put2, Nat.mul_comm]

/-- The table of lines is an attribute of its own if there are lines, and is read back if it
fits. -/
theorem assembles_lineAttribute (lines : List LineNumber) :
    Assembles C (lineAttribute lines) fun u chunks => chunks.length ≤ 1 ∧
      chunks.flatten.length = lineTableSize lines.length ∧
      (u.pool.next ≤ 0xFFFF → lines.length ≤ 0xFFFF →
        (∀ l ∈ lines, l.start ≤ 0xFFFF ∧ l.line ≤ 0xFFFF) →
        LineChunks u.pool.toPool chunks lines) := by
  unfold lineAttribute
  by_cases hempty : lines.isEmpty = true
  · rw [if_pos hempty, List.isEmpty_iff.1 hempty]
    exact assembles_pure fun _ _ _ => ⟨Nat.zero_le _, rfl, fun _ _ _ => ⟨[], .nil, rfl⟩⟩
  · rw [if_neg hempty]
    refine (assembles_encodeAttribute _ _).bind fun chunk => ?_
    refine assembles_pure fun u _ hC => ⟨Nat.le_refl _, ?_, fun hnext hcount hlines => ?_⟩
    · have hne : lines.length ≠ 0 :=
        fun h => hempty (List.isEmpty_iff.2 (List.length_eq_zero_iff.1 h))
      rw [List.flatten_singleton, hC.2.1, List.length_append, length_flatMap_encodeLine,
        lineTableSize, if_neg hne]
      show 6 + (2 + _) = _
      omega
    · have hitems : List.Forall₂ (Reads readLine) (lines.map encodeLine) lines := by
        rw [List.forall₂_map_left_iff, List.forall₂_same]
        exact fun l hl => reads_readLine (hlines l hl).1 (hlines l hl).2
      have htable := reads_table hitems rfl hcount
      rw [← List.flatMap_def] at htable
      have hfits : (putCount lines.length ++ lines.flatMap encodeLine).length ≤ 0xFFFFFFFF := by
        rw [List.length_append, length_flatMap_encodeLine]
        show 2 + _ ≤ _
        omega
      exact ⟨[lines], .cons ⟨_, _, hC.2.2 hnext hfits, htable.readFrom⟩ .nil,
        List.flatten_singleton⟩

/-- A body is read back part by part. -/
theorem reads_readCode {raw : RawCode} {attributes : List Bytes}
    (hcode : raw.code.length ≤ 0xFFFFFFFF) (hfit : TablesFit raw) (hcount : attributes.length ≤ 1)
    (hlines : LineChunks pool attributes raw.lines) :
    Reads (readCode pool) (put2 16 ++ (put2 16 ++ (put4 raw.code.length ++ (raw.code ++
      ((putCount raw.catches.length ++ raw.catches.flatMap encodeCatch) ++
        encodeAttributes attributes))))) raw := by
  have hitems :
      List.Forall₂ (Reads readCatch) (raw.catches.map encodeCatch) (raw.catches.map some) := by
    rw [List.forall₂_map_left_iff, List.forall₂_map_right_iff, List.forall₂_same]
    exact fun c hc =>
      reads_readCatch (hfit.catches c hc).1 (hfit.catches c hc).2.1 (hfit.catches c hc).2.2
  have hcatches := reads_table hitems (List.length_map _).symm hfit.catches_length
  rw [← List.flatMap_def] at hcatches
  obtain ⟨values, hvalues, hflatten⟩ := hlines
  have hresult := (reads_readAttributes (by omega) hvalues).map (f := fun lines =>
    (⟨raw.code, (raw.catches.map some).filterMap id, lines.flatten⟩ : RawCode))
  have hraw :
      (⟨raw.code, (raw.catches.map some).filterMap id, values.flatten⟩ : RawCode) = raw := by
    rw [hflatten, List.filterMap_map, Function.id_comp, List.filterMap_some]
  rw [hraw] at hresult
  refine (reads_u2 (by decide)).bind ((reads_u2 (by decide)).bind ((reads_u4 (by omega)).bind ?_))
  exact (reads_bytes raw.code).bind (hcatches.bind hresult)

/-- A body is read back from its attribute if all its tables fit. -/
theorem assembles_codeAttribute (raw : RawCode) :
    Assembles C (codeAttribute raw) fun u chunk => u.pool.next ≤ 0xFFFF →
      codeSize raw.code.length raw.catches.length raw.lines.length ≤ 0xFFFFFFFF →
      ∃ data, Reads (readAttribute u.pool.toPool) chunk ("Code", data) ∧
        (TablesFit raw → readFrom data (readCode u.pool.toPool) = .ok raw) := by
  refine (assembles_lineAttribute raw.lines).bind fun attributes => ?_
  refine (assembles_encodeAttribute _ _).imp fun u chunk _ hC hchunk hnext hsize => ?_
  obtain ⟨hattributes, hlength, hlines⟩ := hC.2
  unfold codeSize at hsize
  refine ⟨_, hchunk.2 hnext ?_, fun hfit => ?_⟩
  · have hlimits : bodyLimits.length = 4 := rfl
    have hcode : (putLength raw.code.length).length = 4 := rfl
    have hcount : ∀ n, (putCount n).length = 2 := fun _ => rfl
    simp only [List.length_append, length_flatMap_encodeCatch, hlength, hlimits, hcode, hcount]
    omega
  · have hread := reads_readCode (show raw.code.length ≤ 0xFFFFFFFF by omega) hfit hattributes
      (hlines hnext hfit.lines_length hfit.lines)
    refine (hread.congr ?_).readFrom
    rw [putLength_eq (by omega)]
    simp only [bodyLimits, encodeAttributes, List.append_assoc]

theorem forall_mem_right {α β : Type} {R : α → β → Prop} {P : β → Prop} {l : List α} {l' : List β}
    (h : List.Forall₂ R l l') (hP : ∀ a b, R a b → P b) : ∀ b ∈ l', P b := by
  induction h with
  | nil => simp
  | cons hhead _ ih => exact List.forall_mem_cons.2 ⟨hP _ _ hhead, ih⟩

theorem tableOffset_le (pc : Nat) : tableOffset pc ≤ 0xFFFF := Nat.min_le_right _ _

/-- The tables of a body that fits can be read back. -/
theorem BodyParts.tablesFit {u : Tables} {steps : List Step} {raw : RawCode}
    (h : BodyParts u 0 steps raw)
    (hu : u.Sound) (hfits : u.Fits) (hbody : BodyWritable u.pool steps) : TablesFit raw where
  catches_length := h.length_catches ▸ hbody.catches
  lines_length := h.length_lines ▸ hbody.lines
  catches := by
    refine forall_mem_right h.catches fun caught c hc => ⟨?_, ?_, hu.classAt_ne_zero hc.2⟩
    · rw [hc.1]
      exact tableOffset_le _
    · exact Nat.le_of_lt_succ (hfits.classAt_lt hu hc.2)
  lines := by
    intro l hl
    rw [h.lines] at hl
    obtain ⟨entry, hentry, rfl⟩ := List.mem_map.1 hl
    obtain ⟨p, hp, hline⟩ := List.mem_filterMap.1 hentry
    obtain ⟨number, hnumber, rfl⟩ := Option.map_eq_some_iff.1 hline
    exact ⟨tableOffset_le _, (hbody.writable _ (mem_of_mem_placed hp)).line_le hnumber⟩

/-! ## Attributes of methods -/

/-- Attributes of a method that hold these annotations, exceptions and bodies. -/
def MethodChunks (depth : Depth) (pool : Pool) (chunks : List Bytes)
    (annotations exceptions : List String) (bodies : List RawCode) : Prop :=
  ∃ values, List.Forall₂ (ReadsAttribute pool (MethodAttribute.interpret depth pool))
    chunks values ∧
    values.flatMap (·.annotationNames) = annotations ∧
      values.flatMap (·.exceptionNames) = exceptions ∧
    values.filterMap (·.code?) = bodies

theorem MethodChunks.nil : MethodChunks depth pool [] [] [] [] := ⟨[], .nil, rfl, rfl, rfl⟩

/-- Attributes one behind the other have the values of both parts. -/
theorem MethodChunks.append {chunks chunks' : List Bytes}
    {annotations annotations' exceptions exceptions' : List String} {bodies bodies' : List RawCode}
    (h : MethodChunks depth pool chunks annotations exceptions bodies)
    (h' : MethodChunks depth pool chunks' annotations' exceptions' bodies') :
    MethodChunks depth pool (chunks ++ chunks') (annotations ++ annotations')
      (exceptions ++ exceptions') (bodies ++ bodies') := by
  obtain ⟨values, hread, rfl, rfl, rfl⟩ := h
  obtain ⟨values', hread', rfl, rfl, rfl⟩ := h'
  exact ⟨values ++ values', List.rel_append hread hread', List.flatMap_append, List.flatMap_append,
    List.filterMap_append⟩

theorem isAnnotations_iff {name : String} :
    isAnnotations name = true ↔ name = "RuntimeVisibleAnnotations" ∨
    name = "RuntimeInvisibleAnnotations" := by
  simp [isAnnotations]

theorem AnnotationChunk.readsAttribute {chunk : Bytes} {names : List String}
    (h : AnnotationChunk pool chunk names) :
    ReadsAttribute pool (annotationsOf pool) chunk names := by
  obtain ⟨name, data, _, hchunk, hnames⟩ := h
  exact ⟨name, data, hchunk, hnames⟩

/-- An interpretation that leaves annotations to `annotationsOf` understands all their attributes. -/
theorem readsAttributes_of_annotations {α : Type}
    {interpret : String → Bytes → Except ClassError α} {wrap : List String → α}
    (hinterpret : ∀ name data names, isAnnotations name = true →
      annotationsOf pool name data = .ok names → interpret name data = .ok (wrap names))
    {chunks : List Bytes} {values : List (List String)}
    (h : List.Forall₂ (AnnotationChunk pool) chunks values) :
    List.Forall₂ (ReadsAttribute pool interpret) chunks (values.map wrap) := by
  rw [List.forall₂_map_right_iff]
  refine h.imp ?_
  rintro chunk names ⟨name, data, hname, hchunk, hnames⟩
  exact ⟨name, data, hchunk, hinterpret name data names hname hnames⟩

/-- Annotations are the same attributes in a method as in a class. -/
theorem AnnotationChunks.method {chunks : List Bytes} {names : List String}
    (h : AnnotationChunks pool chunks names) :
    MethodChunks depth pool chunks names [] [] := by
  obtain ⟨values, hread, rfl⟩ := h
  refine ⟨values.map .annotations, readsAttributes_of_annotations ?_ hread, ?_, ?_, ?_⟩
  · intro name data names hname hnames
    rcases isAnnotations_iff.1 hname with rfl | rfl <;>
      simp [MethodAttribute.interpret, hnames, bind, Except.bind, pure, Except.pure]
  · rw [List.flatMap_map]
    exact List.flatMap_id
  · simp [List.flatMap_map, MethodAttribute.exceptionNames]
  · simp [List.filterMap_map, MethodAttribute.code?]

/-- The exceptions are an attribute if there are any, and their names are read back. -/
theorem assembles_exceptionAttribute (depth : Depth) (exceptions : List String) :
    Assembles C (exceptionAttribute exceptions) fun u chunks => chunks.length ≤ 1 ∧
      (u.pool.next ≤ 0xFFFF → exceptions.length ≤ 0xFFFF → (∀ e ∈ exceptions, '/' ∉ e.toList) →
        MethodChunks depth u.pool.toPool chunks [] exceptions []) := by
  unfold exceptionAttribute
  by_cases hempty : exceptions.isEmpty = true
  · rw [if_pos hempty, List.isEmpty_iff.1 hempty]
    exact assembles_pure fun _ _ _ => ⟨Nat.zero_le _, fun _ _ _ => .nil⟩
  · rw [if_neg hempty]
    refine (Assembles.mapM fun e _ => assembles_classNamed e).bind fun indices => ?_
    refine (assembles_encodeAttribute _ _).bind fun chunk => ?_
    refine assembles_pure fun u hu hC => ⟨Nat.le_refl _, fun hnext hcount hnames => ?_⟩
    obtain ⟨⟨_, hindices⟩, _, hread⟩ := hC
    have hclasses :
        List.Forall₂ (Reads (readClassName u.pool.toPool)) (indices.map put2) exceptions := by
      rw [List.forall₂_map_left_iff]
      refine ((List.forall₂_and_left exceptions indices).2 ⟨hnames, hindices⟩).flip.imp ?_
      exact fun i e h => reads_readClassName hu.toSound hnext h.2 h.1
    have htable := reads_table hclasses rfl hcount
    rw [← List.flatMap_def] at htable
    have hlength : (indices.flatMap put2).length = 2 * exceptions.length := by
      rw [hindices.length_eq]
      simp [List.length_flatMap, put2, Nat.mul_comm]
    have hfits : (putCount exceptions.length ++ indices.flatMap put2).length ≤ 0xFFFFFFFF := by
      rw [List.length_append, hlength]
      show 2 + _ ≤ _
      omega
    refine ⟨[.exceptions exceptions], .cons ⟨_, _, hread hnext hfits, ?_⟩ .nil, rfl,
      by simp [MethodAttribute.exceptionNames], rfl⟩
    rw [MethodAttribute.interpret, htable.readFrom]
    rfl

/-! ## Members -/

/-- A member is its access, its name and its descriptor by index, and its attributes. -/
theorem assembles_encodeMember (access : Nat) (name descriptor : String) (attributes : List Bytes) :
    Assembles C (encodeMember access name descriptor attributes) fun u data => ∃ n d,
      data = put2 access ++ put2 n ++ put2 d ++ encodeAttributes attributes ∧
      (.utf8 name, n) ∈ u.pool.entries ∧ (.utf8 descriptor, d) ∈ u.pool.entries := by
  refine (assembles_utf8 name).bind fun n => (assembles_utf8 descriptor).bind fun d => ?_
  exact assembles_pure fun u _ hC => ⟨n, d, rfl, hC.1.2, hC.2⟩

/-- What fields and methods start with. -/
theorem reads_member {α : Type} {q : PoolBuilder} (hq : q.Sound) (hnext : q.next ≤ 0xFFFF)
    {access n d : Nat}
    {name descriptor : String} (haccess : access ≤ 0xFFFF) (hn : (.utf8 name, n) ∈ q.entries)
    (hd : (.utf8 descriptor, d) ∈ q.entries) {next : Nat → String → String → Reader α}
    {data : Bytes} {a : α} (h : Reads (next access name descriptor) data a) :
    Reads (do
      let access ← u2
      let name ← q.toPool.utf8 (← u2)
      let descriptor ← q.toPool.utf8 (← u2)
      next access name descriptor) (put2 access ++ put2 n ++ put2 d ++ data) a := by
  have hnlt := hq.lt_next hn
  have hdlt := hq.lt_next hd
  rw [List.append_assoc, List.append_assoc]
  refine (reads_u2 (by omega)).bind ((reads_u2 (by omega)).bind ?_)
  refine (reads_lift (hq.utf8_toPool hn)).bind_nil ((reads_u2 (by omega)).bind ?_)
  exact (reads_lift (hq.utf8_toPool hd)).bind_nil h

theorem storedNames_plain_hidden (annotations invisible : List String) :
    AnnotationSpec.storedNames (annotations.map .plain ++ invisible.map .hidden) =
      annotations ++ invisible := by
  simp [AnnotationSpec.storedNames, List.filter_map, AnnotationSpec.plain, AnnotationSpec.hidden,
    Function.comp_def]

/-- A field is read back with the annotations in the order in which they are given. -/
theorem assembles_field (name descriptor : String) (annotations : List String) :
    Assembles C (MemberSpec.field name descriptor annotations).assemble fun u member => ∃ data,
      member = .field data ∧
      (u.pool.next ≤ 0xFFFF → (FieldType.ofDescriptor? descriptor).isSome = true →
        AnnotationSpec.Writable (annotations.map .plain) →
        Reads (readField u.pool.toPool) data ⟨name, descriptor, accPublic, annotations⟩) := by
  refine (AnnotationSpec.assembles_attributes _).bind fun chunks => ?_
  refine (assembles_encodeMember accPublic name descriptor chunks).bind fun data => ?_
  refine assembles_pure fun u hu hC => ⟨data, rfl, fun hnext hdescriptor hannotations => ?_⟩
  obtain ⟨⟨_, hcount, hchunks⟩, n, d, rfl, hn, hd⟩ := hC
  obtain ⟨values, hread, hnames⟩ := hchunks hnext hannotations
  have hstored := storedNames_plain_hidden annotations []
  rw [List.map_nil, List.append_nil, List.append_nil] at hstored
  refine reads_member hu.toSound hnext (by decide) hn hd ?_
  have hvalid : ¬(FieldType.ofDescriptor? descriptor).isNone = true := by
    simpa [Option.isSome_iff_ne_none] using hdescriptor
  rw [if_neg hvalid, ← hstored, ← hnames]
  exact (reads_readAttributes (by omega) (hread.imp fun _ _ h => h.readsAttribute)).map

/-- The method as it is read back without its body. -/
def MethodSpec.outline (m : MethodSpec) : MethodDecl :=
  ⟨m.name, m.descriptor, m.access, m.annotations ++ m.invisible, m.exceptions, none⟩

/-- A method whose parts fit into a class file, apart from its body. -/
@[mk_iff]
structure MethodSpec.Writable (m : MethodSpec) : Prop where
  access : m.access ≤ 0xFFFF
  descriptor : (MethodType.ofDescriptor? m.descriptor).isSome = true
  annotations : AnnotationSpec.Writable (m.annotations.map .plain ++ m.invisible.map .hidden)
  exceptions : ∀ e ∈ m.exceptions, '/' ∉ e.toList
  exceptions_length : m.exceptions.length ≤ 0xFFFF

instance (m : MethodSpec) : Decidable m.Writable :=
  decidable_of_iff' _ (MethodSpec.writable_iff m)

/-- The length of the `Code` attribute of a method whose code has this length. -/
def MethodSpec.codeSize (m : MethodSpec) (code : Nat) : Nat :=
  Assembler.codeSize code ((m.body.getD []).countP Step.isCatch)
    ((m.body.getD []).countP Step.isLine)

/-- What is read of a body. -/
def bodyAt : Depth → Option RawCode → Option RawCode
  | .outline, _ => none
  | .full, body => body

/-- The attribute of a body is passed over if bodies are not read. -/
theorem methodChunks_code {chunk data : Bytes} {raw : RawCode}
    (h : Reads (readAttribute pool) chunk ("Code", data))
    (hfull : depth = .full → readFrom data (readCode pool) = .ok raw) :
    MethodChunks depth pool [chunk] [] [] (bodyAt depth (some raw)).toList := by
  cases depth with
  | outline => exact ⟨[.annotations []], .cons ⟨_, _, h, rfl⟩ .nil, rfl, rfl, rfl⟩
  | full =>
    refine ⟨[.code raw], .cons ⟨_, _, h, ?_⟩ .nil, rfl, rfl, rfl⟩
    rw [MethodAttribute.interpret, hfull rfl]
    rfl

/-- A method is read back with its exceptions, and with its annotations in the order in which they
are stored. -/
theorem assembles_method (depth : Depth) (m : MethodSpec) :
    Assembles C m.assemble fun u member =>
      ∃ data body, member = .method data (body.map (·.code.length)) ∧
      Option.Rel (BodyParts u 0) m.body body ∧
      (u.pool.next ≤ 0xFFFF → m.Writable → (∀ raw ∈ body, m.codeSize raw.code.length ≤ 0xFFFFFFFF) →
        (depth = .full → ∀ raw ∈ body, TablesFit raw) →
        Reads (readMethod depth u.pool.toPool) data (m.outline, bodyAt depth body)) := by
  refine (Assembles.optionMapM (assembles_assembleFrom 0)).bind fun body => ?_
  refine (Assembles.optionMapM assembles_codeAttribute).bind fun code => ?_
  refine (assembles_exceptionAttribute depth _).bind fun exceptions => ?_
  refine (AnnotationSpec.assembles_attributes _).bind fun annotations => ?_
  refine (assembles_encodeMember _ _ _ _).bind fun data => ?_
  refine assembles_pure fun u hu hC => ?_
  obtain ⟨⟨⟨⟨⟨_, hbody⟩, hattribute⟩, hexcount, hex⟩, hancount, han⟩, n, d, rfl, hn, hd⟩ := hC
  refine ⟨_, body, rfl, hbody, fun hnext hm hcode hfit => ?_⟩
  have hbodyChunks :
      MethodChunks depth u.pool.toPool code.toList [] [] (bodyAt depth body).toList := by
    cases hattribute with
    | none => cases depth <;> exact .nil
    | @some raw chunk hchunk =>
      generalize hsteps : m.body = steps at hbody
      cases hbody with
      | @some steps _ hraw =>
        -- the tables of the body have an entry for each of its marks, so the size is known from the
        -- steps
        have hsize := hcode raw rfl
        rw [MethodSpec.codeSize, hsteps,
          Option.getD_some, ← hraw.length_catches, ← hraw.length_lines] at hsize
        obtain ⟨data, hdata, hread⟩ := hchunk hnext hsize
        exact methodChunks_code hdata fun hfull => hread (hfit hfull raw rfl)
  obtain ⟨values, hread, hannotations, hexceptions, hbodies⟩ :=
    (hbodyChunks.append (hex hnext hm.exceptions_length hm.exceptions)).append
      (han hnext hm.annotations).method
  refine reads_member hu.toSound hnext hm.access hn hd ?_
  have hvalid : ¬(MethodType.ofDescriptor? m.descriptor).isNone = true := by
    simpa [Option.isSome_iff_ne_none] using hm.descriptor
  have hcount : (code.toList ++ exceptions ++ annotations).length ≤ 0xFFFF := by
    have hone : code.toList.length ≤ 1 := by cases code <;> simp
    rw [List.length_append, List.length_append]
    omega
  have hresult := (reads_readAttributes hcount hread).map (f := fun attributes =>
    ((⟨m.name, m.descriptor, m.access, attributes.flatMap (·.annotationNames),
      attributes.flatMap (·.exceptionNames), none⟩ : MethodDecl),
        (attributes.filterMap (·.code?)).getLast?))
  have hlast : (bodyAt depth body).toList.getLast? = bodyAt depth body := by
    cases bodyAt depth body <;> rfl
  rw [hannotations, hexceptions, hbodies, storedNames_plain_hidden] at hresult
  rw [if_neg hvalid]
  simpa [MethodSpec.outline, hlast] using hresult

end JvmAudit.Assembler
