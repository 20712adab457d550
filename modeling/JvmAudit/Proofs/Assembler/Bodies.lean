import JvmAudit.Proofs.Assembler.Class
import JvmAudit.Proofs.ClassFile.Code

/-!
# Bodies read back

The bodies of a class are read back from the class file that is assembled for it: at each offset the
symbols of the instruction there and then the classes that are caught there, and the lines as they
were given.

## Main results

* `BodyParts.decode`: the parts of a body are decoded to what its steps refer to
* `lineAt_decodedBody`: an offset belongs to the last line that is started at or before it
* `ClassSpec.parse_full_build`: reading the file of a class gives its description with all bodies
-/

namespace JvmAudit.Assembler

open Reader ClassFile

variable {q : PoolBuilder} {u : Tables} {steps : List Step} {raw : RawCode}

/-! ## References by offset -/

theorem filter_references (symbols : Step → List Symbol) (ps : List PlacedStep) (offset : Nat) :
    (ps.flatMap (·.references symbols)).filter (·.offset = offset) =
      (((ps.filter (·.offset = offset)).map (·.step)).flatMap symbols).map (⟨offset, ·⟩) := by
  induction ps with
  | nil => rfl
  | cons p ps ih =>
    have hoffset : ∀ r ∈ p.references symbols, r.offset = p.offset := by
      intro r hr
      obtain ⟨_, _, rfl⟩ := List.mem_map.1 hr
      rfl
    rw [List.flatMap_cons, List.filter_append, ih]
    by_cases h : p.offset = offset
    · rw [List.filter_eq_self.2 fun r hr => by simpa [hoffset r hr] using h,
        List.filter_cons_of_pos (by simpa using h), List.map_cons, List.flatMap_cons,
        List.map_append, PlacedStep.references, h]
    · rw [List.filter_eq_nil_iff.2 fun r hr => by simpa [hoffset r hr] using h,
        List.filter_cons_of_neg (by simpa using h), List.nil_append]

/-- No reference lies behind the end of the code. -/
theorem offset_le_of_mem_references {symbols : Step → List Symbol} {pc : Nat} {r : Reference}
    (h : r ∈ (placed q pc steps).flatMap (·.references symbols)) :
    r.offset ≤ endOffset q pc steps := by
  obtain ⟨p, hp, hr⟩ := List.mem_flatMap.1 h
  obtain ⟨_, _, rfl⟩ := List.mem_map.1 hr
  exact offset_le_of_mem_placed hp

/-- Sorted by offset, the references are those of the body. -/
theorem mergeSort_references (q : PoolBuilder) (steps : List Step) :
    ((placed q 0 steps).flatMap (·.references Step.symbols) ++
      (placed q 0 steps).flatMap (·.references Step.caughtSymbols)).mergeSort
        (fun a b => a.offset ≤ b.offset) =
      (decodedBody q steps).references := by
  refine (mergeSort_eq_flatMap Reference.offset fun r hr => ?_).trans
    (List.flatMap_congr fun offset _ => ?_)
  · rcases List.mem_append.1 hr
      with hr | hr <;> exact Nat.lt_succ_of_le (offset_le_of_mem_references hr)
  · rw [List.filter_append, filter_references, filter_references, ← List.map_append]
    rfl

/-! ## Catch clauses -/

/-- What is caught is a class, at an offset within the code. -/
theorem caught_of_mem (hsteps : ∀ step ∈ steps, step.Writable) {caught : Nat × String}
    (h : caught ∈ (placed q 0 steps).filterMap (·.caught?)) :
    IsClassName caught.2 ∧ caught.1 ≤ endOffset q 0 steps := by
  obtain ⟨p, hp, hcaught⟩ := List.mem_filterMap.1 h
  obtain ⟨name, hname, rfl⟩ := Option.map_eq_some_iff.1 hcaught
  exact ⟨(hsteps _ (mem_of_mem_placed hp)).isClassName hname, offset_le_of_mem_placed hp⟩

theorem flatten_caught (ps : List PlacedStep) :
    ((ps.filterMap (·.caught?)).map fun caught =>
        [Reference.mk caught.1 (.type caught.2)]).flatten =
      ps.flatMap (·.references Step.caughtSymbols) := by
  induction ps with
  | nil => rfl
  | cons p ps ih =>
    rw [List.flatMap_cons, ← ih, List.filterMap_cons, PlacedStep.caught?, PlacedStep.references,
      Step.caughtSymbols]
    cases p.step.caught? <;> rfl

/-- The catch clauses of a body are decoded to the classes that they catch. -/
theorem BodyParts.catches_mapM (h : BodyParts u 0 steps raw) (hu : u.Sound)
    (hbody : BodyWritable u.pool steps) :
    raw.catches.mapM (RawCode.catchReferences u.pool.toPool) =
      .ok (((placed u.pool 0 steps).filterMap (·.caught?)).map fun caught =>
        [⟨caught.1, .type caught.2⟩]) := by
  refine Result.mapM_eq_ok.2 (List.forall₂_map_right_iff.2 ?_)
  refine ((List.forall₂_and_left _ _).2 ⟨fun _ => caught_of_mem hbody.writable,
    h.catches⟩).flip.imp ?_
  rintro clause caught ⟨⟨hname, hoffset⟩, hhandler, hclass⟩
  have hcode := hbody.code
  have hend : tableOffset caught.1 = caught.1 := Nat.min_eq_left (by omega)
  unfold RawCode.catchReferences
  rw [hu.classAt_named hclass hname, hhandler, hend]
  rfl

/-! ## Bodies -/

/-- The table of lines is the one that the steps give. -/
theorem BodyParts.lines_eq (h : BodyParts u 0 steps raw) (hbody : BodyWritable u.pool steps) :
    raw.lines = (decodedBody u.pool steps).lines := by
  rw [h.lines]
  refine (List.map_congr_left fun l hl => ?_).trans (List.map_id _)
  obtain ⟨p, hp, hline⟩ := List.mem_filterMap.1 hl
  obtain ⟨number, _, rfl⟩ := Option.map_eq_some_iff.1 hline
  have hoffset := offset_le_of_mem_placed hp
  have hcode := hbody.code
  have hend : tableOffset p.offset = p.offset := Nat.min_eq_left (by omega)
  rw [tableLine, hend]
  rfl

/-- The parts of a body are decoded to what its steps refer to. -/
theorem BodyParts.decode (h : BodyParts u 0 steps raw) (hu : u.Sound) (hfits : u.Fits)
    (hbody : BodyWritable u.pool steps) :
    raw.decode u.pool.toPool u.bootstraps = .ok (decodedBody u.pool steps) := by
  have hwalk := h.walks hfits hbody.writable hbody.code []
  unfold RawCode.decode Instruction.walk
  rw [hwalk, h.catches_mapM hu hbody]
  simp only [bind, Except.bind, List.reverse_nil, List.nil_append, flatten_caught,
    mergeSort_references, h.lines_eq hbody]
  rfl

/-- The lines are in the order of their offsets. -/
theorem lines_sorted (q : PoolBuilder) (steps : List Step) :
    (decodedBody q steps).lines.Pairwise fun a b => a.start ≤ b.start := by
  refine List.pairwise_filterMap.2 ((placed_sorted q 0 steps).imp ?_)
  intro p p' hle l hl l' hl'
  obtain ⟨_, _, rfl⟩ := Option.map_eq_some_iff.1 hl
  obtain ⟨_, _, rfl⟩ := Option.map_eq_some_iff.1 hl'
  exact hle

theorem filter_lines (ps : List PlacedStep) (offset : Nat) :
    ((ps.filterMap (·.line?)).filter (·.start ≤ offset)).map (·.line) =
      (ps.filter (·.offset ≤ offset)).filterMap (·.step.line?) := by
  rw [List.filter_filterMap, List.map_filterMap, List.filterMap_filter]
  refine List.filterMap_congr fun p _ => ?_
  unfold PlacedStep.line?
  by_cases h : p.offset ≤ offset
  · cases p.step.line? <;> simp [h]
  · cases p.step.line? <;> simp [h, Nat.lt_of_not_le h]

/-- An offset belongs to the last line that is started at or before it. -/
theorem lineAt_decodedBody (q : PoolBuilder) (steps : List Step) (offset : Nat) :
    (decodedBody q steps).lineAt offset = lineBefore q steps offset := by
  rw [Code.lineAt_of_sorted (lines_sorted q steps), ← List.getLast?_map]
  exact congrArg List.getLast? (filter_lines _ _)

/-! ## Classes -/

/-- The method as it is read back with its body. -/
def MethodSpec.full (q : PoolBuilder) (m : MethodSpec) : MethodDecl :=
  { m.outline with code := m.body.map (decodedBody q) }

/-- A method with its body is decoded to what its steps say. -/
theorem withBody_full {m : MethodSpec} {body : Option RawCode}
    (hparts : Option.Rel (BodyParts u 0) m.body body)
    (hu : u.Sound) (hfits : u.Fits) (hbody : ∀ steps ∈ m.body, BodyWritable u.pool steps) :
    withBody u.pool.toPool u.bootstraps (m.outline, body) = .ok (m.full u.pool) := by
  unfold MethodSpec.full
  generalize m.body = steps at hparts hbody
  cases hparts with
  | none => rfl
  | some hraw =>
    unfold withBody
    simp only [hraw.decode hu hfits (hbody _ rfl)]
    rfl

theorem exists_between {α β γ : Type} {R : α → γ → Prop} {S : γ → β → Prop}
    {l : List α} {l' : List β} (h : List.Forall₂ (fun a b => ∃ c, R a c ∧ S c b) l l') :
    ∃ m, List.Forall₂ R l m ∧ List.Forall₂ S m l' := by
  induction h with
  | nil => exact ⟨[], .nil, .nil⟩
  | cons hhead _ ih =>
    obtain ⟨c, hR, hS⟩ := hhead
    obtain ⟨m, hm, hm'⟩ := ih
    exact ⟨c :: m, .cons hR hm, .cons hS hm'⟩

/-- The methods are read, and their bodies are decoded. -/
theorem exists_methods {members : List MemberSpec} {assembled : List AssembledMember}
    (hu : u.Sound) (hfits : u.Fits)
    (hmembers :
      List.Forall₂ (MemberSpec.ReadsBack .full u.pool.toPool (BodyParts u 0)) members assembled)
    (hbodies : ∀ m ∈ members.filterMap (·.methodSpec?), ∀ steps ∈ m.body, BodyWritable u.pool steps)
    (hlength : (members.filterMap (·.methodSpec?)).length ≤ 0xFFFF) :
    ∃ methods, Reads (table (readMethod .full u.pool.toPool))
        (putCount (assembled.filterMap (·.method?)).length ++
          (assembled.filterMap (·.method?)).flatten) methods ∧
      withBodies u.pool.toPool u.bootstraps methods =
        .ok ((members.filterMap (·.methodSpec?)).map (·.full u.pool)) := by
  have hmethods := List.rel_filterMap (fun _ _ hm => MemberSpec.ReadsBack.method hm) hmembers.flip
  have hdecoded : List.Forall₂
      (fun data m => ∃ p, Reads (readMethod .full u.pool.toPool) data p ∧
        withBody u.pool.toPool u.bootstraps p = .ok (m.full u.pool))
      (assembled.filterMap (·.method?)) (members.filterMap (·.methodSpec?)) := by
    refine ((List.forall₂_and_left _ _).2 ⟨hbodies, hmethods.flip⟩).flip.imp ?_
    rintro data m ⟨hbody, body, hparts, hread⟩
    exact ⟨(m.outline, body), hread, withBody_full hparts hu hfits hbody⟩
  obtain ⟨methods, hread, hbody⟩ := exists_between hdecoded
  refine ⟨methods, reads_table hread hread.length_eq ?_,
    Result.mapM_eq_ok.2 (List.forall₂_map_right_iff.2 hbody)⟩
  rw [hdecoded.length_eq]
  exact hlength

namespace ClassSpec

/-- The class as it is read back with all bodies. -/
def full (c : ClassSpec) : ClassFile :=
  { c.outline with methods := c.methods.map (·.full c.tables.pool) }

theorem length_methods (c : ClassSpec) : c.methods.length = c.outline.methods.length := by
  have hsome : ∀ m : MemberSpec, m.methodSpec?.isSome = m.methodDecl?.isSome :=
    fun m => by cases m <;> rfl
  unfold methods outline
  simp only [List.length_filterMap_eq_countP, hsome]

/-- The file of a class whose parts and bodies fit is read back in full. At each offset of a body
there are the symbols of its instruction, then the classes that are caught there; an offset belongs
to the last line that is started at or before it. -/
theorem parse_full_build (c : ClassSpec) (h : c.Writable) (hbodies : c.BodiesWritable) :
    ClassFile.parse .full c.build.data = .ok c.full ∧ ∀ m ∈ c.methods, ∀ steps ∈ m.body, ∀ offset,
      (decodedBody c.tables.pool steps).lineAt offset = lineBefore c.tables.pool steps offset := by
  refine ⟨?_, fun _ _ steps _ offset => lineAt_decodedBody _ steps offset⟩
  obtain ⟨bootstraps, this, super, interfaces, chunks, hsound, hwritten, hparts, hheader, hmembers,
    hcount, hchunks⟩ := exists_parts_at .full h fun _ => hbodies
  have hfits : Tables.Fits ⟨c.tables.pool, bootstraps⟩ :=
    ⟨h.pool, Nat.le_trans hwritten hbodies.bootstraps_length⟩
  obtain ⟨methods, hmethods, hdecoded⟩ := exists_methods hsound hfits hmembers hbodies.bodies
    (c.length_methods ▸ h.methods_length)
  refine parse_build_of_parts h hparts hheader hmembers hcount hchunks hmethods ?_
  rw [getLast?_bootstrapsAt]
  exact hdecoded

/-- A body with a switch, a method reference, array types, two lines at one offset, and catch
clauses at an instruction and at the end. -/
def dispatchSteps : List Step := [
  .line 10,
  .onLocal .iload 0,
  .tableswitch 1 3,
  .line 11,
  .line 12,
  .ldcClass "com.example.Job",
  .methodReference "com.example.Job" "start" "()V",
  .invokeinterface "java.util.concurrent.Executor" "execute" "(Ljava/lang/Runnable;)V",
  .plain .voidReturn,
  .catchHere "java.lang.RuntimeException",
  .onType .checkcast "com.example.Failure",
  .invokeArray "[[Lcom/example/Job;" "clone" "()Ljava/lang/Object;",
  .multianewarray "[[I" 2,
  .line 20,
  .plain .athrow,
  .catchHere "java.lang.Error"]

def dispatcher : ClassSpec :=
  { ofName "com.example.Dispatcher" with
    members := [.method (.ofBody "dispatch" "(I)V" dispatchSteps)] }

theorem parse_full_build_dispatcher : dispatcher.Writable ∧ dispatcher.BodiesWritable ∧
    ClassFile.parse .full dispatcher.build.data = .ok {
      name := "com.example.Dispatcher"
      access := 0x21
      major := 52
      sourceFile := none
      superClass := some "java.lang.Object"
      interfaces := []
      annotations := []
      fields := []
      methods := [⟨"dispatch", "(I)V", 0x09, [], [], some {
        references := [
          ⟨28, .type "com.example.Job"⟩,
          ⟨30, .method "java.lang.invoke.LambdaMetafactory" "metafactory" linkerDescriptor false⟩,
          ⟨30, .method "com.example.Job" "start" "()V" false⟩,
          ⟨35, .method "java.util.concurrent.Executor" "execute" "(Ljava/lang/Runnable;)V" true⟩,
          ⟨41, .type "com.example.Failure"⟩,
          ⟨41, .type "java.lang.RuntimeException"⟩,
          ⟨44, .type "com.example.Job"⟩,
          ⟨52, .type "java.lang.Error"⟩]
        lines := [⟨0, 10⟩, ⟨28, 11⟩, ⟨28, 12⟩, ⟨51, 20⟩] }⟩] } ∧
    (decodedBody dispatcher.tables.pool dispatchSteps).lineAt 30 = some 12 := by
  have h : dispatcher.Writable := by decide +kernel
  have hbodies : dispatcher.BodiesWritable := by decide +kernel
  obtain ⟨hparse, hlines⟩ := parse_full_build dispatcher h hbodies
  refine ⟨h, hbodies, hparse.trans ?_, (hlines _ List.mem_cons_self _ rfl 30).trans ?_⟩
  · exact congrArg _ (by decide +kernel)
  · decide +kernel

end ClassSpec

end JvmAudit.Assembler
