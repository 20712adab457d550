import JvmAudit.Proofs.Assembler.Members

/-!
# Classes read back

The outline of a class, everything but the bodies, is read back from the class file that is
assembled for it.

## Main results

* `ClassSpec.parse_outline_build`: reading the file of a class gives the outline of its description
-/

namespace JvmAudit.Assembler

open Reader ClassFile

variable {C : Tables → Prop} {pool : Pool} {depth : Depth}

theorem rel_imp {α β : Type} {R S : α → β → Prop} {o : Option α} {o' : Option β}
    (h : Option.Rel R o o') (hRS : ∀ a b, R a b → S a b) : Option.Rel S o o' := by
  cases h with
  | none => exact .none
  | some hab => exact .some (hRS _ _ hab)

/-! ## Members of a class -/

namespace MemberSpec

/-- The field as it is read back. -/
def fieldDecl? : MemberSpec → Option FieldDecl
  | .field name descriptor annotations => some ⟨name, descriptor, accPublic, annotations⟩
  | .method _ => none

/-- The method as it is read back without its body. -/
def methodDecl? : MemberSpec → Option MethodDecl
  | .field .. => none
  | .method m => some m.outline

/-- A member whose parts fit into a class file, apart from its body. -/
def Writable : MemberSpec → Prop
  | .field _ descriptor annotations =>
    (FieldType.ofDescriptor? descriptor).isSome = true ∧
      AnnotationSpec.Writable (annotations.map .plain)
  | .method m => m.Writable

instance : DecidablePred Writable
  | .field .. => inferInstanceAs (Decidable (_ ∧ _))
  | .method m => inferInstanceAs (Decidable m.Writable)

/-- The length of the `Code` attribute of a member; no bytes without body. -/
def codeSize : MemberSpec → AssembledMember → Nat
  | .method m, .method _ (some code) => m.codeSize code
  | _, _ => 0

/-- The method of a member. -/
def methodSpec? : MemberSpec → Option MethodSpec
  | .field .. => none
  | .method m => some m

/-- The bytes of a member are read back as the member, and `B` holds for the steps of the body and
its parts. -/
def ReadsBack (depth : Depth) (pool : Pool) (B : List Step → RawCode → Prop) :
    MemberSpec → AssembledMember → Prop
  | .field name descriptor annotations, .field data =>
    Reads (readField pool) data ⟨name, descriptor, accPublic, annotations⟩
  | .method m, .method data _ => ∃ body, Option.Rel B m.body body ∧
    Reads (readMethod depth pool) data (m.outline, bodyAt depth body)
  | _, _ => False

variable {B : List Step → RawCode → Prop} {m : MemberSpec} {member : AssembledMember}

/-- A member is assembled to what is read back as it. The conditions of its body are only needed if
bodies are read. -/
theorem assembles_assemble (depth : Depth) (m : MemberSpec) :
    Assembles C m.assemble fun u member => u.pool.next ≤ 0xFFFF → m.Writable →
    m.codeSize member ≤ 0xFFFFFFFF →
      (depth = .full → u.Fits ∧
        ∀ spec ∈ m.methodSpec?, ∀ steps ∈ spec.body, BodyWritable u.pool steps) →
      m.ReadsBack depth u.pool.toPool (BodyParts u 0) member := by
  cases m with
  | field name descriptor annotations =>
    refine (assembles_field name descriptor annotations).imp fun u member _ _ h hnext hm _ _ => ?_
    obtain ⟨data, rfl, hread⟩ := h
    exact hread hnext hm.1 hm.2
  | method m =>
    refine (assembles_method depth m).imp fun u member hu _ h hnext hm hcode hfull => ?_
    obtain ⟨data, body, rfl, hbody, hread⟩ := h
    refine ⟨body, hbody, hread hnext hm (fun raw hraw => ?_) fun hdepth raw hraw => ?_⟩
    · cases hraw
      exact hcode
    · cases hraw
      generalize hsteps : m.body = steps at hbody
      cases hbody with
      | some hparts => exact hparts.tablesFit hu (hfull hdepth).1 ((hfull hdepth).2 m rfl _ hsteps)

theorem ReadsBack.imp {B' : List Step → RawCode → Prop} (h : m.ReadsBack depth pool B member)
    (hB : ∀ steps raw, B steps raw → B' steps raw) : m.ReadsBack depth pool B' member := by
  cases m <;> cases member <;> first | exact h.elim | skip
  · exact h
  · obtain ⟨body, hbody, hread⟩ := h
    exact ⟨body, rel_imp hbody hB, hread⟩

theorem ReadsBack.field (h : m.ReadsBack depth pool B member) :
    Option.Rel (Reads (readField pool)) member.field? m.fieldDecl? := by
  cases m <;> cases member <;> first | exact h.elim | skip
  · exact .some h
  · exact .none

/-- What was assembled for a method is read as its outline and its body. -/
theorem ReadsBack.method (h : m.ReadsBack depth pool B member) :
    Option.Rel (fun data spec => ∃ body, Option.Rel B spec.body body ∧
        Reads (readMethod depth pool) data (spec.outline, bodyAt depth body))
      member.method? m.methodSpec? := by
  cases m <;> cases member <;> first | exact h.elim | skip
  · exact .none
  · exact .some h

/-- Without bodies the outline of a method is all that is read. -/
theorem ReadsBack.outline (h : m.ReadsBack .outline pool B member) :
    Option.Rel (fun data m => Reads (readMethod .outline pool) data (m, none))
      member.method? m.methodDecl? := by
  cases m <;> cases member <;> first | exact h.elim | skip
  · exact .none
  · obtain ⟨_, _, hread⟩ := h
    exact .some hread

end MemberSpec

/-! ## Attributes of classes -/

/-- Attributes of a class that hold these source files, annotations and tables of bootstrap
methods. -/
def ClassChunks (depth : Depth) (pool : Pool) (chunks : List Bytes)
    (files annotations : List String) (bootstraps : List (List BootstrapMethod)) : Prop :=
  ∃ values, List.Forall₂ (ReadsAttribute pool (ClassAttribute.interpret depth pool)) chunks values ∧
    values.filterMap (·.sourceFile?) = files ∧ values.flatMap (·.annotationNames) = annotations ∧
    values.filterMap (·.bootstraps?) = bootstraps

theorem ClassChunks.nil : ClassChunks depth pool [] [] [] [] := ⟨[], .nil, rfl, rfl, rfl⟩

/-- Attributes one behind the other have the values of both parts. -/
theorem ClassChunks.append {chunks chunks' : List Bytes}
    {files files' annotations annotations' : List String}
    {bootstraps bootstraps' : List (List BootstrapMethod)}
    (h : ClassChunks depth pool chunks files annotations bootstraps)
    (h' : ClassChunks depth pool chunks' files' annotations' bootstraps') :
    ClassChunks depth pool (chunks ++ chunks') (files ++ files') (annotations ++ annotations')
      (bootstraps ++ bootstraps') := by
  obtain ⟨values, hread, rfl, rfl, rfl⟩ := h
  obtain ⟨values', hread', rfl, rfl, rfl⟩ := h'
  exact ⟨values ++ values', List.rel_append hread hread', List.filterMap_append,
    List.flatMap_append, List.filterMap_append⟩

/-- Annotations are the same attributes in a class as in a member. -/
theorem AnnotationChunks.class {chunks : List Bytes} {names : List String}
    (h : AnnotationChunks pool chunks names) :
    ClassChunks depth pool chunks [] names [] := by
  obtain ⟨values, hread, rfl⟩ := h
  refine ⟨values.map .annotations, readsAttributes_of_annotations ?_ hread, ?_, ?_, ?_⟩
  · intro name data names hname hnames
    rcases isAnnotations_iff.1 hname with rfl | rfl <;>
      simp [ClassAttribute.interpret, hnames, bind, Except.bind, pure, Except.pure]
  · simp [List.filterMap_map, ClassAttribute.sourceFile?]
  · rw [List.flatMap_map]
    exact List.flatMap_id
  · simp [List.filterMap_map, ClassAttribute.bootstraps?]

/-- The attribute for the source file is read as its name. -/
theorem assembles_sourceFileAttribute (depth : Depth) (file : String) :
    Assembles C (ClassSpec.sourceFileAttribute file) fun u chunk => u.pool.next ≤ 0xFFFF →
      ClassChunks depth u.pool.toPool [chunk] [file] [] [] := by
  refine (assembles_utf8 file).bind fun i => ?_
  refine (assembles_encodeAttribute _ _).imp fun u chunk hu hC hchunk hnext => ?_
  have hlt := hu.lt_next hC.2
  have hread : readFrom (put2 i) u2 = .ok i := (reads_u2 (by omega)).readFrom
  refine ⟨[.sourceFile file], .cons ⟨_, _, hchunk.2 hnext (by rw [length_put2]; omega), ?_⟩ .nil,
    rfl, rfl, rfl⟩
  rw [ClassAttribute.interpret, hread]
  show (do return ClassAttribute.sourceFile (← u.pool.toPool.utf8 i)) = _
  rw [hu.utf8_toPool hC.2]
  rfl

/-- The length of the attribute for bootstrap methods, without the header of the attribute. -/
def bootstrapSize (bootstraps : List BootstrapMethod) : Nat :=
  2 + (bootstraps.flatMap encodeBootstrap).length

/-- The table of bootstrap methods does not get smaller. -/
theorem bootstrapSize_le {bs bs' : List BootstrapMethod} (h : bs <+: bs') :
    bootstrapSize bs ≤ bootstrapSize bs' := by
  obtain ⟨rest, rfl⟩ := h
  unfold bootstrapSize
  rw [List.flatMap_append, List.length_append]
  omega

/-- A bootstrap method is read back if its indices fit into two bytes. -/
theorem reads_readBootstrap {limit : Nat} {m : BootstrapMethod} (h : BootstrapBounded limit m)
    (hlimit : limit ≤ 0xFFFF) :
    Reads readBootstrap (encodeBootstrap m) m := by
  have hhandle := h.handle
  have harguments : List.Forall₂ (Reads u2) (m.arguments.map put2) m.arguments := by
    rw [List.forall₂_map_left_iff, List.forall₂_same]
    intro i hi
    have hlt := h.arguments i hi
    exact reads_u2 (by omega)
  have htable := reads_table harguments rfl h.arguments_length
  rw [← List.flatMap_def] at htable
  unfold encodeBootstrap
  rw [List.append_assoc]
  exact (reads_u2 (by omega)).bind htable.map

/-- The tables of bootstrap methods that are read; an empty one is not written. -/
def bootstrapsAt : Depth → List BootstrapMethod → List (List BootstrapMethod)
  | .outline, _ => []
  | .full, bootstraps => if bootstraps.isEmpty then [] else [bootstraps]

theorem getLast?_bootstrapsAt (bootstraps : List BootstrapMethod) :
    (bootstrapsAt .full bootstraps).getLast?.getD [] = bootstraps := by
  cases bootstraps <;> rfl

/-- The table is read as it was when it was written, unless only the outline is read. -/
theorem assembles_bootstrapAttribute (depth : Depth) :
    Assembles C bootstrapAttribute fun u chunks => chunks.length ≤ 1 ∧ ∃ t, C t ∧ t.Extends u ∧
      (u.pool.next ≤ 0xFFFF → bootstrapSize u.bootstraps ≤ 0xFFFFFFFF →
        (depth = .full → u.bootstraps.length ≤ 0xFFFF) →
        ClassChunks depth u.pool.toPool chunks [] [] (bootstrapsAt depth t.bootstraps)) := by
  refine assembles_get.bind fun t => ?_
  by_cases hempty : t.bootstraps.isEmpty = true
  · rw [if_pos hempty]
    refine assembles_pure fun _ _ hC => ⟨Nat.zero_le _, t, hC.2.1, hC.2.2, fun _ _ _ => ?_⟩
    cases depth with
    | outline => exact .nil
    | full =>
      rw [bootstrapsAt, if_pos hempty]
      exact .nil
  · rw [if_neg hempty]
    refine (assembles_encodeAttribute _ _).bind fun chunk => ?_
    refine assembles_pure fun u hu hC =>
      ⟨Nat.le_refl _, t, hC.1.2.1, hC.1.2.2, fun hnext hsize hcount => ?_⟩
    -- the table is written as it is now, and is measured as it is in the end
    have hbefore := hC.1.2.2.bootstraps
    have hle := bootstrapSize_le hbefore
    have hread := hC.2.2 hnext (by rw [List.length_append]; exact Nat.le_trans hle hsize)
    cases depth with
    | outline => exact ⟨[.annotations []], .cons ⟨_, _, hread, rfl⟩ .nil, rfl, rfl, rfl⟩
    | full =>
      have hitems :
          List.Forall₂ (Reads readBootstrap) (t.bootstraps.map encodeBootstrap) t.bootstraps := by
        rw [List.forall₂_map_left_iff, List.forall₂_same]
        exact fun m hm => reads_readBootstrap (hu.bootstraps m (hbefore.subset hm)) hnext
      have htable := reads_table hitems rfl (Nat.le_trans hbefore.length_le (hcount rfl))
      rw [← List.flatMap_def] at htable
      rw [bootstrapsAt, if_neg hempty]
      refine ⟨[.bootstraps t.bootstraps], .cons ⟨_, _, hread, ?_⟩ .nil, rfl, rfl, rfl⟩
      rw [ClassAttribute.interpret, htable.readFrom]
      rfl

/-! ## Classes -/

namespace ClassSpec

/-- The class as it is read back without bodies. -/
def outline (c : ClassSpec) : ClassFile :=
  ⟨c.name, c.access, c.major, c.sourceFile, c.superClass, c.interfaces,
    AnnotationSpec.storedNames c.annotations, c.members.filterMap (·.fieldDecl?),
    c.members.filterMap (·.methodDecl?)⟩

/-- The members with their bytes; they are assembled first. -/
def assembled (c : ClassSpec) : List AssembledMember :=
  ((c.members.mapM MemberSpec.assemble).run ⟨.empty, []⟩).1

/-- The tables in the end. -/
def tables (c : ClassSpec) : Tables := (c.assembleParts.run ⟨.empty, []⟩).2

/-- A class whose parts fit into a class file: names stand in the constant pool, and everything that
is counted or measured fits into the bytes for its number. -/
@[mk_iff]
structure Writable (c : ClassSpec) : Prop where
  access : c.access ≤ 0xFFFF
  major : 45 ≤ c.major ∧ c.major ≤ 69
  classNames : ∀ name ∈ c.name :: c.superClass.toList ++ c.interfaces, '/' ∉ name.toList
  interfaces_length : c.interfaces.length ≤ 0xFFFF
  annotations : AnnotationSpec.Writable c.annotations
  members : ∀ m ∈ c.members, m.Writable
  fields_length : c.outline.fields.length ≤ 0xFFFF
  methods_length : c.outline.methods.length ≤ 0xFFFF
  code : ∀ p ∈ c.members.zip c.assembled, p.1.codeSize p.2 ≤ 0xFFFFFFFF
  bootstraps : bootstrapSize c.tables.bootstraps ≤ 0xFFFFFFFF
  pool : c.tables.pool.next ≤ 0xFFFF
  texts : ∀ e ∈ c.tables.pool.entries, e.1.textSize ≤ 0xFFFF

instance (c : ClassSpec) : Decidable c.Writable :=
  decidable_of_iff' _ (writable_iff c)

/-- The methods of a class. -/
def methods (c : ClassSpec) : List MethodSpec := c.members.filterMap (·.methodSpec?)

/-- A class whose bodies fit into a class file. -/
@[mk_iff]
structure BodiesWritable (c : ClassSpec) : Prop where
  bodies : ∀ m ∈ c.methods, ∀ steps ∈ m.body, BodyWritable c.tables.pool steps
  bootstraps_length : c.tables.bootstraps.length ≤ 0xFFFF

instance (c : ClassSpec) : Decidable c.BodiesWritable :=
  decidable_of_iff' _ (bodiesWritable_iff c)

/-- The entry of a superclass; a class without superclass has the index 0 there. -/
def SuperAt (q : PoolBuilder) (i : Nat) : Option String → Prop
  | some name => q.ClassAt i (internalName name)
  | none => i = 0

/-- The indices of the class itself, of its superclass and of its interfaces. -/
structure Header (c : ClassSpec) (q : PoolBuilder) (this super : Nat)
    (interfaces : List Nat) : Prop where
  this_at : q.ClassAt this (internalName c.name)
  super_at : SuperAt q super c.superClass
  interfaces_at :
    List.Forall₂ (fun name i => q.ClassAt i (internalName name)) c.interfaces interfaces

/-- The index of the superclass leads to it, and is 0 if there is none. -/
theorem assembles_superIndex (superClass : Option String) :
    Assembles C (superIndex superClass) fun u i => SuperAt u.pool i superClass := by
  cases superClass with
  | none => exact assembles_pure fun _ _ _ => rfl
  | some name => exact assembles_classNamed name

/-- The bytes behind the constant pool. -/
def partsOf (c : ClassSpec) (this super : Nat) (interfaces : List Nat)
    (fields methods chunks : List Bytes) : Bytes :=
  put2 c.access ++ put2 this ++ put2 super ++ putCount interfaces.length ++
    interfaces.flatMap put2 ++ putCount fields.length ++ fields.flatten ++
    putCount methods.length ++ methods.flatten ++ encodeAttributes chunks

/-- What stands around the members: the header with its names, and at most four attributes, which
are read with the bootstrap methods that were there when they were written. -/
theorem assembles_assembleAround (depth : Depth) (c : ClassSpec) (members : List AssembledMember) :
    Assembles C (c.assembleAround members) fun u parts => ∃ this super interfaces chunks,
      parts.1 = c.partsOf this super interfaces (members.filterMap (·.field?))
        (members.filterMap (·.method?)) chunks ∧
      c.Header u.pool this super interfaces ∧ chunks.length ≤ 4 ∧ ∃ t, C t ∧ t.Extends u ∧
      (u.pool.next ≤ 0xFFFF → AnnotationSpec.Writable c.annotations →
        bootstrapSize u.bootstraps ≤ 0xFFFFFFFF →
        (depth = .full → u.bootstraps.length ≤ 0xFFFF) →
        ClassChunks depth u.pool.toPool chunks c.sourceFile.toList
          (AnnotationSpec.storedNames c.annotations) (bootstrapsAt depth t.bootstraps)) := by
  refine (assembles_classNamed c.name).bind fun this =>
    (assembles_superIndex c.superClass).bind fun super => ?_
  refine (Assembles.mapM fun name _ => assembles_classNamed name).bind fun interfaces => ?_
  refine (Assembles.optionMapM (assembles_sourceFileAttribute depth)).bind fun source => ?_
  refine (AnnotationSpec.assembles_attributes c.annotations).bind fun annotations => ?_
  refine (assembles_bootstrapAttribute depth).bind fun bootstraps => assembles_pure fun u _ hu => ?_
  obtain ⟨⟨⟨⟨⟨⟨_, hthis⟩, hsuper⟩, hinterfaces⟩, hsource⟩, hancount, hannotations⟩, hbscount, t, ht,
    htu, hbootstraps⟩ := hu
  refine ⟨this, super, interfaces, _, rfl, ⟨hthis, hsuper, hinterfaces⟩, ?_, t, ht.1.1.1.1.1, htu,
    fun hnext hwritable hsize hlength => ?_⟩
  · have hone : source.toList.length ≤ 1 := by cases source <;> simp
    rw [List.length_append, List.length_append]
    omega
  · have hfile : ClassChunks depth u.pool.toPool source.toList c.sourceFile.toList [] [] := by
      generalize c.sourceFile = file at hsource ⊢
      cases hsource with
      | none => exact .nil
      | some hchunk => exact hchunk hnext
    have hchunks :=
      (hfile.append (hannotations hnext hwritable).class).append (hbootstraps hnext hsize hlength)
    simpa using hchunks

theorem superAt_lt {q : PoolBuilder} (hq : q.Sound) {superClass : Option String} {super : Nat}
    (h : SuperAt q super superClass) : super < q.next := by
  cases superClass with
  | none =>
    rw [show super = 0 from h]
    exact hq.numbered.le
  | some name => exact hq.classAt_lt h

/-- The superclass is read back from its index. -/
theorem superName_of_superAt {q : PoolBuilder} (hq : q.Sound)
    {superClass : Option String} {super : Nat}
    (h : SuperAt q super superClass) (hname : ∀ name ∈ superClass, '/' ∉ name.toList) :
    superName q.toPool super = .ok superClass := by
  cases superClass with
  | none =>
    rw [show super = 0 from h]
    rfl
  | some name =>
    have hclass : q.ClassAt super (internalName name) := h
    rw [superName, if_neg (hq.classAt_ne_zero hclass), hq.className_toPool hclass]
    show Except.ok (some (binaryName (internalName name))) = _
    rw [binaryName_internalName (hname name rfl)]

/-- A version in the supported range is read back. -/
theorem reads_readVersion {major : Nat} (h : 45 ≤ major ∧ major ≤ 69) :
    Reads readVersion (put2 0 ++ put2 major) major := by
  have hsupported : (supportedMajors.1 ≤ major && major ≤ supportedMajors.2) = true := by
    simp only [Bool.and_eq_true, decide_eq_true_eq]
    exact h
  refine (reads_u2 (by omega)).bind ((reads_u2 (by omega)).bind_last ?_)
  rw [if_pos hsupported]
  exact reads_pure major

/-- The tables when all members are assembled. -/
def memberTables (c : ClassSpec) : Tables :=
  ((c.members.mapM MemberSpec.assemble).run ⟨.empty, []⟩).2

/-- All members are assembled to what is read back as them. -/
theorem assembles_members (depth : Depth) (c : ClassSpec) :
    Assembles (fun _ => True) (c.members.mapM MemberSpec.assemble) fun u members =>
      List.Forall₂ (fun m member =>
      u.pool.next ≤ 0xFFFF → m.Writable → m.codeSize member ≤ 0xFFFFFFFF →
      (depth = .full → u.Fits ∧
        ∀ spec ∈ m.methodSpec?, ∀ steps ∈ spec.body, BodyWritable u.pool steps) →
      m.ReadsBack depth u.pool.toPool (BodyParts u 0) member) c.members members :=
  Assembles.mapM fun m _ => m.assembles_assemble depth

theorem sound_memberTables (c : ClassSpec) : c.memberTables.Sound :=
  (assembles_members .outline c _ Tables.sound_empty fun _ _ _ => trivial).1

/-- The tables of a class are sound when everything is assembled. -/
theorem sound (c : ClassSpec) : c.tables.Sound :=
  (assembles_assembleAround (C := fun _ => True) .outline c c.assembled c.memberTables
    c.sound_memberTables fun _ _ _ => trivial).1

theorem sound_tables (c : ClassSpec) : c.tables.pool.Sound := c.sound.toSound

/-- What is assembled for a class that fits. The members are read with the bootstrap methods that
were written, which are those that the members have needed. -/
theorem exists_parts_at {c : ClassSpec} (depth : Depth) (h : c.Writable)
    (hfull : depth = .full → c.BodiesWritable) :
    ∃ bootstraps this super interfaces chunks, Tables.Sound ⟨c.tables.pool, bootstraps⟩ ∧
    bootstraps.length ≤ c.tables.bootstraps.length ∧
    (c.assembleParts.run ⟨.empty, []⟩).1.1 =
      c.partsOf this super interfaces (c.assembled.filterMap (·.field?))
        (c.assembled.filterMap (·.method?)) chunks ∧
    c.Header c.tables.pool this super interfaces ∧
    List.Forall₂ (MemberSpec.ReadsBack depth c.tables.pool.toPool
      (BodyParts ⟨c.tables.pool, bootstraps⟩ 0)) c.members c.assembled ∧
    chunks.length ≤ 4 ∧
    ClassChunks depth c.tables.pool.toPool chunks c.sourceFile.toList
      (AnnotationSpec.storedNames c.annotations) (bootstrapsAt depth bootstraps) := by
  have hlasts := (assembles_members depth c _ Tables.sound_empty fun _ _ _ => trivial).2.2
  have haround :=
    (assembles_assembleAround (C := fun u => c.memberTables.Extends u) depth c c.assembled
      c.memberTables c.sound_memberTables fun u hu _ => hu).2.2.self c.sound
  obtain ⟨this, super, interfaces, chunks, hparts, hheader, hcount, t, hmembers, htables,
    hchunks⟩ := haround
  have hbefore : t.bootstraps <+: c.tables.bootstraps := htables.bootstraps
  have hsound : Tables.Sound ⟨c.tables.pool, t.bootstraps⟩ :=
    ⟨c.sound_tables, fun m hm => c.sound.bootstraps m (hbefore.subset hm)⟩
  -- these tables are in between: nothing is missing that the members have needed
  have hextends : c.memberTables.Extends ⟨c.tables.pool, t.bootstraps⟩ :=
    ⟨hmembers.pool.trans htables.pool, hmembers.bootstraps⟩
  refine ⟨t.bootstraps, this, super, interfaces, chunks, hsound, hbefore.length_le, hparts,
    hheader, ?_, hcount, hchunks h.pool h.annotations h.bootstraps fun hdepth =>
    (hfull hdepth).bootstraps_length⟩
  obtain ⟨hlength, hmember⟩ := List.forall₂_iff_zip.1 (hlasts _ hextends hsound)
  refine List.forall₂_iff_zip.2 ⟨hlength, fun {m member} hmem => ?_⟩
  have hm := (List.of_mem_zip hmem).1
  refine hmember hmem h.pool (h.members m hm) (h.code _ hmem) fun hdepth =>
    ⟨⟨h.pool, ?_⟩, fun spec hspec => ?_⟩
  · exact Nat.le_trans hbefore.length_le (hfull hdepth).bootstraps_length
  · exact (hfull hdepth).bodies spec (List.mem_filterMap.2 ⟨m, hm, hspec⟩)

/-- What is assembled for a class that fits, bodies aside. -/
theorem exists_parts {c : ClassSpec} (h : c.Writable) : ∃ this super interfaces chunks,
    (c.assembleParts.run ⟨.empty, []⟩).1.1 =
      c.partsOf this super interfaces (c.assembled.filterMap (·.field?))
      (c.assembled.filterMap (·.method?)) chunks ∧
    c.Header c.tables.pool this super interfaces ∧
    List.Forall₂ (MemberSpec.ReadsBack .outline c.tables.pool.toPool fun _ _ => True)
      c.members c.assembled ∧
    chunks.length ≤ 4 ∧
    ClassChunks .outline c.tables.pool.toPool chunks c.sourceFile.toList
      (AnnotationSpec.storedNames c.annotations) [] := by
  obtain ⟨_, this, super, interfaces, chunks, _, _, hparts, hheader, hmembers, hchunks⟩ :=
    exists_parts_at .outline h nofun
  refine ⟨this, super, interfaces, chunks, hparts, hheader,
    hmembers.imp fun m member hm => ?_, hchunks⟩
  exact hm.imp fun _ _ _ => trivial

/-- The pool that was built is the one that is read. -/
theorem reads_pool {c : ClassSpec} (h : c.Writable) :
    Reads Pool.read c.tables.pool.encode c.tables.pool.toPool := by
  have hnext := h.pool
  refine Pool.reads_read_encode c.sound_tables.numbered (fun e he => ?_) (by omega)
  exact ⟨(c.sound_tables.bounded e he).mono (by omega), h.texts e he⟩

theorem withBodies_none (pool : Pool) (bootstraps : List BootstrapMethod)
    (methods : List MethodDecl) :
    withBodies pool bootstraps (methods.map fun m => (m, none)) = .ok methods := by
  unfold withBodies
  induction methods with
  | nil => rfl
  | cons m methods ih =>
    rw [List.map_cons, List.mapM_cons, ih]
    rfl

/-- The interfaces are read back from their indices. -/
theorem Header.reads_interfaces {c : ClassSpec} {q : PoolBuilder} {this super : Nat}
    {interfaces : List Nat}
    (h : c.Header q this super interfaces) (hq : q.Sound) (hnext : q.next ≤ 0xFFFF)
    (hlength : c.interfaces.length ≤ 0xFFFF) (hnames : ∀ name ∈ c.interfaces, '/' ∉ name.toList) :
    Reads (table (readClassName q.toPool))
      (putCount interfaces.length ++ (interfaces.map put2).flatten)
      c.interfaces := by
  have heq := h.interfaces_at.length_eq
  refine reads_table ?_ heq.symm (heq ▸ hlength)
  rw [List.forall₂_map_left_iff]
  refine ((List.forall₂_and_left _ _).2 ⟨hnames, h.interfaces_at⟩).flip.imp ?_
  exact fun i name hi => reads_readClassName hq hnext hi.2 hi.1

section

variable {members : List MemberSpec} {assembled : List AssembledMember}
  {B : List Step → RawCode → Prop}

/-- The fields are read in the order in which they were given. -/
theorem reads_fields (h : List.Forall₂ (MemberSpec.ReadsBack depth pool B) members assembled)
    (hlength : (members.filterMap (·.fieldDecl?)).length ≤ 0xFFFF) :
    Reads (table (readField pool)) (putCount (assembled.filterMap (·.field?)).length ++
      (assembled.filterMap (·.field?)).flatten) (members.filterMap (·.fieldDecl?)) := by
  have hfields := List.rel_filterMap (fun _ _ hm => MemberSpec.ReadsBack.field hm) h.flip
  exact reads_table hfields hfields.length_eq (hfields.length_eq ▸ hlength)

theorem reads_methods (h : List.Forall₂ (MemberSpec.ReadsBack .outline pool B) members assembled)
    (hlength : (members.filterMap (·.methodDecl?)).length ≤ 0xFFFF) :
    Reads (table (readMethod .outline pool)) (putCount (assembled.filterMap (·.method?)).length ++
      (assembled.filterMap (·.method?)).flatten) ((members.filterMap (·.methodDecl?)).map fun m =>
        (m, none)) := by
  have hmethods := List.rel_filterMap (fun _ _ hm => MemberSpec.ReadsBack.outline hm) h.flip
  have heq := hmethods.length_eq
  refine reads_table (List.forall₂_map_right_iff.2 hmethods) ?_ (heq ▸ hlength)
  rw [List.length_map, heq]

end

/-- A class file is read part by part. -/
theorem reads_layout {major access this super : Nat} {internal : String}
    {superClass : Option String}
    {poolData interfaceData fieldData methodData attributeData : Bytes} {interfaces : List String}
    {fields : List FieldDecl} {methods : List (MethodDecl × Option RawCode)}
    {attributes : List ClassAttribute} {decls : List MethodDecl} (hmajor : 45 ≤ major ∧ major ≤ 69)
    (hpool : Reads Pool.read poolData pool)
    (haccess : access < 0x10000) (hthis : this < 0x10000) (hsuper : super < 0x10000)
    (hname : pool.className this = .ok internal)
    (hsuperName : superName pool super = .ok superClass)
    (hinterfaces : Reads (table (readClassName pool)) interfaceData interfaces)
    (hfields : Reads (table (readField pool)) fieldData fields)
    (hmethods : Reads (table (readMethod depth pool)) methodData methods)
    (hattributes : Reads (readAttributes pool (ClassAttribute.interpret depth pool))
      attributeData attributes)
    (hbodies : withBodies pool ((attributes.filterMap (·.bootstraps?)).getLast?.getD []) methods =
      .ok decls) :
    Reads (read depth) (put4 magic ++
      ((put2 0 ++ put2 major) ++ (poolData ++ (put2 access ++ (put2 this ++ (put2 super ++
      (interfaceData ++ (fieldData ++ (methodData ++ attributeData)))))))))
      ⟨binaryName internal, access, major, (attributes.filterMap (·.sourceFile?)).getLast?,
        superClass, interfaces, attributes.flatMap (·.annotationNames), fields, decls⟩ := by
  refine (reads_u4 (by decide)).bind ?_
  rw [if_neg (not_not_intro rfl)]
  refine (reads_readVersion hmajor).bind (hpool.bind ?_)
  refine (reads_u2 haccess).bind ((reads_u2 hthis).bind ((reads_u2 hsuper).bind ?_))
  refine (reads_lift hname).bind_nil ((reads_lift hsuperName).bind_nil ?_)
  refine hinterfaces.bind (hfields.bind (hmethods.bind ?_))
  exact hattributes.bind_last ((reads_lift hbodies).bind_last (reads_pure _))

/-- The file of a class is read back at either depth if its methods are: the parts around them do not
depend on the bodies. -/
theorem parse_build_of_parts {c : ClassSpec} (h : c.Writable) {this super : Nat}
    {interfaces : List Nat} {chunks : List Bytes} {bootstraps : List (List BootstrapMethod)}
    {B : List Step → RawCode → Prop} {methods : List (MethodDecl × Option RawCode)}
    {decls : List MethodDecl}
    (hparts : (c.assembleParts.run ⟨.empty, []⟩).1.1 =
      c.partsOf this super interfaces (c.assembled.filterMap (·.field?))
        (c.assembled.filterMap (·.method?)) chunks)
    (hheader : c.Header c.tables.pool this super interfaces)
    (hmembers : List.Forall₂ (MemberSpec.ReadsBack depth c.tables.pool.toPool B)
      c.members c.assembled)
    (hcount : chunks.length ≤ 4)
    (hchunks : ClassChunks depth c.tables.pool.toPool chunks c.sourceFile.toList
      (AnnotationSpec.storedNames c.annotations) bootstraps)
    (hmethods : Reads (table (readMethod depth c.tables.pool.toPool))
      (putCount (c.assembled.filterMap (·.method?)).length ++
        (c.assembled.filterMap (·.method?)).flatten) methods)
    (hbodies : withBodies c.tables.pool.toPool (bootstraps.getLast?.getD []) methods = .ok decls) :
    ClassFile.parse depth c.build.data = .ok { c.outline with methods := decls } := by
  obtain ⟨values, hvalues, hfiles, hannotations, rfl⟩ := hchunks
  have hsound := c.sound_tables
  have hnext := h.pool
  have haccess := h.access
  have hthis := hsound.classAt_lt hheader.this_at
  have hsuper := superAt_lt hsound hheader.super_at
  have hsuperName : superName c.tables.pool.toPool super = .ok c.superClass := by
    refine superName_of_superAt hsound hheader.super_at fun name hname => h.classNames name ?_
    simp [Option.mem_def.1 hname]
  have hinterfaces := hheader.reads_interfaces hsound hnext h.interfaces_length fun name hname =>
    h.classNames name (List.mem_append_right _ hname)
  have hread :=
    reads_layout h.major (reads_pool h) (show c.access < 0x10000 by omega) (by omega) (by omega)
      (hsound.className_toPool hheader.this_at) hsuperName hinterfaces
      (reads_fields hmembers h.fields_length) hmethods (reads_readAttributes (by omega) hvalues)
      hbodies
  have hfile : c.sourceFile.toList.getLast? = c.sourceFile := by cases c.sourceFile <;> rfl
  rw [hfiles, hannotations, hfile, binaryName_internalName (h.classNames c.name (by simp))] at hread
  -- the two ways to write the file down differ in their brackets only
  refine (hread.congr ?_).readFrom
  show put4 magic ++ put2 0 ++ put2 c.major ++ c.tables.pool.encode ++
    (c.assembleParts.run _).1.1 = _
  rw [hparts, partsOf, List.flatMap_def]
  simp only [List.append_assoc]

/-- The file of a class whose parts fit is read back, bodies aside: name, flags, version, source
file, superclass and interfaces, fields and methods in order, and the annotations of each, those
kept at run time first. -/
theorem parse_outline_build (c : ClassSpec) (h : c.Writable) :
    ClassFile.parse .outline c.build.data = .ok c.outline := by
  obtain ⟨this, super, interfaces, chunks, hparts, hheader, hmembers, hcount, hchunks⟩ :=
    exists_parts h
  exact parse_build_of_parts h hparts hheader hmembers hcount hchunks
    (reads_methods hmembers h.methods_length) (withBodies_none _ _ _)

/-- A class with two fields and two methods, one of them with a body. -/
def service : ClassSpec where
  name := "com.example.Service"
  superClass := some "com.example.Base"
  interfaces := ["java.lang.Runnable", "java.io.Closeable"]
  access := accPublic + accSuper
  major := 61
  sourceFile := some "Service.java"
  annotations :=
    [.hidden "com.example.Internal", ⟨"com.example.Since", true, some ("value", "1.2")⟩]
  members := [
    .field "count" "J" ["com.example.Guarded"],
    .method {
      name := "run"
      descriptor := "([Ljava/lang/String;I)V"
      access := accPublic
      annotations := ["java.lang.Override"]
      invisible := ["com.example.Internal"]
      exceptions := ["java.io.IOException"]
      body := some [.line 3, .ldcLong 5, .plain .voidReturn, .catchHere "java.lang.Exception"] },
    .field "names" "[Ljava/lang/String;" [],
    .method (.abstract "close" "()V")]

theorem parse_outline_build_service :
    service.Writable ∧ ClassFile.parse .outline service.build.data = .ok {
    name := "com.example.Service"
    access := 0x21
    major := 61
    sourceFile := some "Service.java"
    superClass := some "com.example.Base"
    interfaces := ["java.lang.Runnable", "java.io.Closeable"]
    annotations := ["com.example.Since", "com.example.Internal"]
    fields :=
      [⟨"count", "J", 0x01, ["com.example.Guarded"]⟩, ⟨"names", "[Ljava/lang/String;", 0x01, []⟩]
    methods :=
      [⟨"run", "([Ljava/lang/String;I)V", 0x01, ["java.lang.Override", "com.example.Internal"],
      ["java.io.IOException"], none⟩, ⟨"close", "()V", 0x401, [], [], none⟩] } := by
  have h : service.Writable := by decide +kernel
  exact ⟨h, parse_outline_build service h⟩

end ClassSpec

end JvmAudit.Assembler
