import JvmAudit.ClassFile.Parser
import JvmAudit.Proofs.Assembler.Symbols
import JvmAudit.Proofs.ClassFile.Instruction

/-!
# Bodies in a growing pool

Assembling a body keeps the pool in order, and gives code that is laid out as `placed` says: a walk
over the code finds the symbols of each step at the offset of the step. Each catch clause has an
entry in the exception table, and each line one in the line table.

## Main results

* `Step.assembles_code`: the bytes of a step have the size of the step and its symbols
* `assembles_assembleFrom`: the parts of a body
-/

namespace JvmAudit.Assembler

open Instruction

variable {C : Tables → Prop} {u : Tables} {pc i : Nat} {symbols : List Symbol}

/-- Tables whose entries can be counted in two bytes. -/
structure Tables.Fits (u : Tables) : Prop where
  pool : u.pool.next ≤ 0xFFFF
  bootstraps : u.bootstraps.length ≤ 0xFFFF

/-- While the tables fit, every index can be written in two bytes. -/
theorem Tables.Fits.lt (h : u.Fits) (hu : u.Sound) {c : ConstantInfo}
    (hi : (c, i) ∈ u.pool.entries) : i < 0x10000 := by
  have hlt := hu.lt_next hi
  have hnext := h.pool
  omega

theorem Tables.Fits.classAt_lt (h : u.Fits) (hu : u.Sound) {internal : String}
    (hi : u.pool.ClassAt i internal) :
    i < 0x10000 := by
  obtain ⟨_, hc, _⟩ := hi
  exact h.lt hu hc

theorem Tables.Fits.memberAt_lt (h : u.Fits) (hu : u.Sound) {kind : Nat → Nat → ConstantInfo}
    {owner name descriptor : String} (hi : u.pool.MemberAt kind i owner name descriptor) :
    i < 0x10000 := by
  obtain ⟨_, _, hm, _⟩ := hi
  exact h.lt hu hm

/-! ## Walks over the code of a step -/

/-- A walk goes over the code at `pc`, whatever follows it, and finds these symbols there. -/
def Walks (u : Tables) (pc : Nat) (code : Bytes) (symbols : List Symbol) : Prop := ∀ rest found,
  walkFrom (references u.pool.toPool u.bootstraps) pc (code ++ rest) found =
    walkFrom (references u.pool.toPool u.bootstraps) (pc + code.length) rest
      ((symbols.map (⟨pc, ·⟩)).reverse ++ found)

theorem walks_nil : Walks u pc [] [] := fun _ _ => rfl

/-- Code that is one instruction gives the symbols of this instruction. -/
theorem walks_instruction {code : Bytes} (h : IsInstruction pc code)
    (hsymbols : Instruction.symbols u.pool.toPool u.bootstraps pc code = .ok symbols) :
    Walks u pc code symbols := by
  intro rest found
  refine h.walkFrom_append ?_ rest
  unfold references
  rw [hsymbols]
  rfl

/-- An instruction of fixed length without an index gives no symbols. -/
theorem walks_nothing {opcode : UInt8} {operands : Bytes}
    (hshape : shape opcode = .fixed (operands.length + 1))
    (huse : use opcode = .nothing) : Walks u pc (opcode :: operands) [] :=
  walks_instruction (isInstruction_fixed hshape) (symbols_nothing huse)

/-- An instruction with an index of two bytes gives the symbols of the entry at this index. -/
theorem walks_put2 {opcode : UInt8} {more : Bytes} {target : Use}
    (hshape : shape opcode = .fixed (more.length + 3))
    (huse : use opcode = target) (hfar : target ≠ .nearConstant) (hi : i < 0x10000)
    (hsymbols : target.symbolsAt u.pool.toPool u.bootstraps i = .ok symbols) :
    Walks u pc (opcode :: (put2 i ++ more)) symbols := by
  subst huse
  refine walks_instruction (isInstruction_fixed ?_) ((symbols_put2 hfar hi more).trans hsymbols)
  rw [hshape, List.length_append, length_put2, Nat.add_comm 2]

theorem walks_index {opcode : UInt8} {target : Use} (hshape : shape opcode = .fixed 3)
    (huse : use opcode = target) (hfar : target ≠ .nearConstant) (hi : i < 0x10000)
    (hsymbols : target.symbolsAt u.pool.toPool u.bootstraps i = .ok symbols) :
    Walks u pc (opcode :: put2 i) symbols := by
  rw [← List.append_nil (put2 i)]
  exact walks_put2 hshape huse hfar hi hsymbols

/-- A constant is loaded by its index, in one byte or in two. -/
theorem walks_loadConstant (hi : i < 0x10000)
    (hsymbols : Symbol.constantAt u.pool.toPool i = .ok symbols) :
    Walks u pc (loadConstant i) symbols := by
  unfold loadConstant
  split
  · next hnear =>
      exact walks_instruction (isInstruction_fixed rfl) ((symbols_near rfl hnear).trans hsymbols)
  · exact walks_index rfl rfl (by decide) hi hsymbols

/-- A constant is loaded with one byte more if its index does not fit into a byte. -/
theorem length_loadConstant (i : Nat) : (loadConstant i).length = loadSize (some i) := by
  unfold loadConstant loadSize
  by_cases h : i < 0x100
  · rw [if_pos h, if_pos (by simpa using h)]
    rfl
  · rw [if_neg h, if_neg (by simpa using h)]
    rfl

/-- An entry that names a text is found by this text, since no entry is in the pool twice. -/
theorem PoolBuilder.Sound.indexVia?_eq {q : PoolBuilder} (h : q.Sound) {kind : Nat → ConstantInfo}
    {text : String} {t : Nat} (ht : (.utf8 text, t) ∈ q.entries) (hi : (kind t, i) ∈ q.entries) :
    q.indexVia? kind text = some i := by
  unfold indexVia?
  rw [h.indexOf?_eq ht]
  exact h.indexOf?_eq hi

/-! ## Switches -/

/-- The padding that is read is the one that was written. -/
theorem padding_eq (pc : Nat) : 1 + padding pc = alignedAfter pc - pc := by
  unfold padding alignedAfter
  omega

/-- The loop that pads a switch writes as many bytes as a decoder skips. -/
theorem length_padSwitch (pc : Nat) : (padSwitch (pc + 1)).length = padding pc := by
  have hloop : ∀ length, (padSwitch length).length = (4 - length % 4) % 4 := by
    intro length
    fun_induction padSwitch length with
    | case1 length h => rw [List.length_nil, h]
    | case2 length h ih =>
      rw [List.length_cons, ih]
      omega
  exact hloop (pc + 1)

/-- A switch starts with its opcode, the padding and the jump for all other cases. -/
theorem length_switchHead (opcode : UInt8) (pc : Nat) :
    (switchHead opcode pc).length = alignedAfter pc - pc + 4 := by
  rw [← padding_eq]
  exact length_switchFront opcode (length_padSwitch pc) rfl

/-- A number that fits into four bytes is read back with its sign. -/
theorem signed_mod {n : Int} (hlow : -0x80000000 ≤ n) (hhigh : n < 0x80000000) :
    signed (n % 0x100000000).toNat = n := by
  unfold signed
  split <;> omega

theorem length_targets (n : Nat) : (List.replicate n (put4 0)).flatten.length = n * 4 := by
  induction n with
  | zero => rfl
  | succ n ih =>
    rw [List.replicate_succ, List.flatten_cons, List.length_append, ih, Nat.succ_mul, Nat.add_comm]
    rfl

theorem length_cases (keys : List Int) :
    (keys.flatMap fun key => put4Signed key ++ put4 0).length = keys.length * 8 := by
  induction keys with
  | nil => rfl
  | cons key keys ih =>
    rw [List.flatMap_cons, List.length_append, ih, List.length_cons, Nat.succ_mul, Nat.add_comm]
    rfl

/-- A table switch gives no symbols, and its length is the one that its bounds announce. -/
theorem walks_tableswitch {low high : Int} (h : (Step.tableswitch low high).Writable) :
    Walks u pc (switchHead 0xaa pc ++ put4Signed low ++ put4Signed high ++
      (List.replicate (high - low + 1).toNat (put4 0)).flatten) [] := by
  obtain ⟨hlow, hle, hhigh⟩ := h
  -- the bounds are written without their signs, and are read back with them
  have hsignedLow := signed_mod hlow (by omega)
  have hsignedHigh := signed_mod (by omega) hhigh
  rw [List.append_assoc, List.append_assoc]
  refine walks_instruction ?_ (symbols_nothing rfl)
  show IsInstruction pc (0xaa :: (padSwitch (pc + 1) ++ put4 0) ++ (put4 _ ++ (put4 _ ++ _)))
  refine isInstruction_tableSwitch (length_padSwitch pc) rfl (by omega) (by omega) ?_ ?_
  · rw [hsignedLow, hsignedHigh]
    omega
  · rw [hsignedLow, hsignedHigh, length_targets]

/-- A look-up switch gives no symbols, and its length is the one that it announces. -/
theorem walks_lookupswitch {keys : List Int} (h : keys.length ≤ 0xFFFF) :
    Walks u pc (switchHead 0xab pc ++ put4 keys.length ++
      keys.flatMap fun key => put4Signed key ++ put4 0) [] := by
  rw [List.append_assoc]
  refine walks_instruction ?_ (symbols_nothing rfl)
  show IsInstruction pc (0xab :: (padSwitch (pc + 1) ++ put4 0) ++ (put4 _ ++ _))
  exact isInstruction_lookupSwitch (length_padSwitch pc) rfl (by omega) (length_cases keys)

/-! ## Steps -/

namespace Step

/-- The bytes of a step: as many as its size says, and with its symbols. -/
structure CodeOf (u : Tables) (pc : Nat) (step : Step) (code : Bytes) : Prop where
  length : code.length = step.size u.pool pc
  walks : u.Fits → step.Writable → step.size u.pool pc ≤ 0xFFFF → Walks u pc code step.symbols

theorem shape_iconst :
    ∀ n ≤ 8, 2 ≤ n → shape (.ofNat n) = .fixed 1 ∧ use (.ofNat n) = .nothing := by decide

/-- A number is loaded by an opcode of its own, in one byte or in two, and refers to nothing. -/
theorem codeOf_iconst (value : Int) : CodeOf u pc (.iconst value)
    (if -1 ≤ value && value ≤ 5 then [.ofNat (value + 3).toNat]
      else if -128 ≤ value && value ≤ 127 then 0x10 :: put1Signed value
      else 0x11 :: put2Signed value) := by
  refine ⟨?_, fun _ _ _ => ?_⟩
  · show _ = if _ then 1 else if _ then 2 else 3
    split
    · rfl
    · split <;> rfl
  · show Walks u pc _ []
    split
    · next h =>
      -- the opcodes from 2 to 8 push the numbers from -1 to 5
      simp only [Bool.and_eq_true, decide_eq_true_eq] at h
      obtain ⟨hshape, huse⟩ := shape_iconst (value + 3).toNat (by omega) (by omega)
      exact walks_nothing hshape huse
    · split <;> exact walks_nothing rfl rfl

/-- The code that loads a constant which points to a text. -/
theorem codeOf_load {step : Step} {kind : Nat → ConstantInfo} {text : String} {t : Nat}
    (hu : u.Sound) (ht : (.utf8 text, t) ∈ u.pool.entries) (hi : (kind t, i) ∈ u.pool.entries)
    (hsize : step.size u.pool pc = loadSize (u.pool.indexVia? kind text))
    (hsymbols : step.Writable → Symbol.constantAt u.pool.toPool i = .ok step.symbols) :
    CodeOf u pc step (loadConstant i) := by
  refine ⟨?_, fun hfits hstep _ => walks_loadConstant (hfits.lt hu hi) (hsymbols hstep)⟩
  rw [length_loadConstant, hsize, hu.indexVia?_eq ht hi]

theorem bootstrapBounded {linker target type : Nat}
    {owner name descriptor owner' name' descriptor' descriptor'' : String}
    (hu : u.Sound) (hlinker : u.pool.StaticHandleAt linker owner name descriptor)
    (htarget : u.pool.StaticHandleAt target owner' name' descriptor')
    (htype : u.pool.MethodTypeAt type descriptor'') :
    BootstrapBounded u.pool.next ⟨linker, [type, target, type]⟩ := by
  obtain ⟨_, hlinker, _⟩ := hlinker
  obtain ⟨_, htarget, _⟩ := htarget
  obtain ⟨_, htype, _⟩ := htype
  refine ⟨hu.lt_next hlinker, ?_, by simp⟩
  simp [hu.lt_next htarget, hu.lt_next htype]

theorem linkerOwner_eq : linkerOwner = internalName "java.lang.invoke.LambdaMetafactory" := by
  decide

/-- The call site of a method reference refers to the linker and to the target. -/
theorem callSiteAt_reference {b member linker target type : Nat} {owner name descriptor : String}
    (hu : u.Sound) (hi : (.invokeDynamic b member, i) ∈ u.pool.entries)
    (hb : u.bootstraps[b]? = some ⟨linker, [type, target, type]⟩)
    (hlinker : u.pool.StaticHandleAt linker linkerOwner "metafactory" linkerDescriptor)
    (htarget : u.pool.StaticHandleAt target (internalName owner) name descriptor)
    (htype : u.pool.MethodTypeAt type "()V") (howner : IsClassName owner) :
    Symbol.callSiteAt u.pool.toPool u.bootstraps i =
      .ok (methodReference owner name descriptor).symbols := by
  rw [linkerOwner_eq] at hlinker
  have hlinkerSymbols := hu.constantAt_handle hlinker (by decide)
  have htargetSymbols := hu.constantAt_handle htarget howner
  have htypeSymbols := hu.constantAt_methodType htype (by decide +kernel)
  rw [show descriptorClasses? "()V" = some [] by decide +kernel] at htypeSymbols
  have hsymbols : [linker, type, target, type].mapM (Symbol.constantAt u.pool.toPool) = .ok
      [[.method "java.lang.invoke.LambdaMetafactory" "metafactory" linkerDescriptor false], [],
        [.method owner name descriptor false], []] := by
    simp only [List.mapM_cons, List.mapM_nil, hlinkerSymbols, htypeSymbols, htargetSymbols]
    rfl
  exact hu.callSiteAt_eq hi hb hsymbols

/-- The bytes of a step are as the layout says, in all tables that it may end up in. -/
theorem assembles_code (pc : Nat) (step : Step) :
    Assembles C (step.code pc) (CodeOf · pc step) := by
  cases step with
  | line number => exact assembles_pure fun _ _ _ => ⟨rfl, fun _ _ _ => walks_nil⟩
  | catchHere name => exact assembles_pure fun _ _ _ => ⟨rfl, fun _ _ _ => walks_nil⟩
  | plain op =>
    refine assembles_pure fun _ _ _ => ⟨rfl, fun _ _ _ => ?_⟩
    cases op <;> exact walks_nothing rfl rfl
  | iconst value => exact assembles_pure fun _ _ _ => codeOf_iconst value
  | onLocal op slot =>
    refine assembles_pure fun _ _ _ => ⟨rfl, fun _ _ _ => ?_⟩
    cases op <;> exact walks_nothing rfl rfl
  | newarray elementType =>
    exact assembles_pure fun _ _ _ => ⟨rfl, fun _ _ _ => walks_nothing rfl rfl⟩
  | goto offset => exact assembles_pure fun _ _ _ => ⟨rfl, fun _ _ _ => walks_nothing rfl rfl⟩
  | wideIload slot =>
    refine assembles_pure fun _ _ _ => ⟨rfl, fun _ _ _ => ?_⟩
    exact walks_instruction (isInstruction_wide rfl) (symbols_nothing rfl)
  | wideIinc slot delta =>
    refine assembles_pure fun _ _ _ => ⟨rfl, fun _ _ _ => ?_⟩
    exact walks_instruction (isInstruction_wide rfl) (symbols_nothing rfl)
  | tableswitch low high =>
    refine assembles_pure fun _ _ _ => ⟨?_, fun _ hstep _ => walks_tableswitch hstep⟩
    simp only [List.length_append, length_switchHead, length_targets]
    show _ + 4 + 4 + 4 + _ = _ + 12 + 4 * _
    omega
  | lookupswitch keys =>
    have hsize : ∀ q : PoolBuilder, (lookupswitch keys).size q pc =
        alignedAfter pc - pc + 8 + 8 * keys.length :=
      fun _ => rfl
    refine assembles_pure fun u _ _ => ⟨?_, fun _ _ hfits => walks_lookupswitch ?_⟩
    · rw [List.length_append, List.length_append, length_switchHead, length_cases, hsize]
      show _ + 4 + 4 + _ = _
      omega
    · -- a count with its highest bit set would be read as a negative number
      rw [hsize] at hfits
      omega
  | ldcString text =>
    refine (assembles_utf8 text).bind fun t => (assembles_constant ?_).bind fun i => ?_
    · exact fun u hu hC => hu.lt_next hC.2
    exact assembles_pure fun u hu hC => codeOf_load hu hC.1.2 hC.2 rfl fun _ =>
      hu.constantAt_string hC.2
  | ldcClass name =>
    refine (assembles_classNamed name).bind fun i => assembles_pure fun u hu hC => ?_
    obtain ⟨n, hi, hn⟩ := hC.2
    exact codeOf_load hu hn hi rfl (hu.constantAt_class hC.2)
  | ldcMethodType descriptor =>
    refine (assembles_methodType descriptor).bind fun i => assembles_pure fun u hu hC => ?_
    obtain ⟨d, hi, hd⟩ := hC.2
    exact codeOf_load hu hd hi rfl (hu.constantAt_methodType hC.2)
  | ldcWideClass name =>
    refine (assembles_classNamed name).bind fun i => assembles_pure fun u hu hC =>
      ⟨rfl, fun hfits hstep _ => ?_⟩
    exact walks_index rfl rfl (by decide) (hfits.classAt_lt hu hC.2)
      (hu.constantAt_class hC.2 hstep)
  | ldcLong value =>
    refine (assembles_constant fun _ _ _ => ?_).bind fun i => ?_
    · show (value % 0x10000000000000000).toNat < 0x10000000000000000
      omega
    exact assembles_pure fun _ _ _ => ⟨rfl, fun _ _ _ => walks_nothing rfl rfl⟩
  | onField op owner name descriptor =>
    refine (assembles_memberRef IsMemberKind.field.bounded _ _ _).bind fun i => ?_
    refine assembles_pure fun u hu hC => ⟨rfl, fun hfits hstep _ => ?_⟩
    have hsymbols := hu.memberAt_field hC.2 hstep
    cases op <;> exact walks_index rfl rfl (by decide) (hfits.memberAt_lt hu hC.2) hsymbols
  | invoke op owner name descriptor =>
    refine (assembles_memberRef IsMemberKind.method.bounded _ _ _).bind fun i => ?_
    refine assembles_pure fun u hu hC => ⟨rfl, fun hfits hstep _ => ?_⟩
    have hsymbols := hu.memberAt_method .method hC.2 hstep
    cases op <;> exact walks_index rfl rfl (by decide) (hfits.memberAt_lt hu hC.2) hsymbols
  | invokeArray array name descriptor =>
    refine (assembles_memberRef IsMemberKind.method.bounded _ _ _).bind fun i => ?_
    refine assembles_pure fun u hu hC => ⟨rfl, fun hfits hstep _ => ?_⟩
    exact walks_index rfl rfl (by decide) (hfits.memberAt_lt hu hC.2) (hu.memberAt_array hC.2 hstep)
  | invokeinterface owner name descriptor =>
    refine (assembles_memberRef IsMemberKind.interfaceMethod.bounded _ _ _).bind fun i => ?_
    refine assembles_pure fun u hu hC => ⟨rfl, fun hfits hstep _ => ?_⟩
    exact walks_put2 rfl rfl (by decide) (hfits.memberAt_lt hu hC.2)
      (hu.memberAt_method .interfaceMethod hC.2 hstep)
  | onType op name =>
    refine (assembles_classNamed name).bind fun i => assembles_pure fun u hu hC =>
      ⟨rfl, fun hfits hstep _ => ?_⟩
    have hsymbols := hu.classAt_named hC.2 hstep
    cases op <;> exact walks_index rfl rfl (by decide) (hfits.classAt_lt hu hC.2) hsymbols
  | multianewarray descriptor dims =>
    refine (assembles_classRef descriptor).bind fun i => assembles_pure fun u hu hC =>
      ⟨rfl, fun hfits hstep _ => ?_⟩
    exact walks_put2 rfl rfl (by decide) (hfits.classAt_lt hu hC.2) (hu.classAt_array hC.2 hstep)
  | methodReference owner name descriptor =>
    refine (assembles_staticHandle _ _ _).bind fun linker =>
      (assembles_staticHandle _ _ _).bind fun target =>
      (assembles_methodType _).bind fun type => (assembles_bootstrap ?_).bind fun b =>
      (assembles_nameAndType _ _).bind fun member => (assembles_constant ?_).bind fun i => ?_
    · exact fun u hu hC => bootstrapBounded hu hC.1.1.2 hC.1.2 hC.2
    · exact fun u hu hC => ⟨hC.1.2.1, hu.nameAndTypeAt_lt hC.2⟩
    refine assembles_pure fun u hu hC => ⟨rfl, fun hfits hstep _ => ?_⟩
    obtain ⟨⟨⟨⟨⟨⟨_, hlinker⟩, htarget⟩, htype⟩, _, hb⟩, _⟩, hi⟩ := hC
    have hsite := callSiteAt_reference hu hi (hb hfits.bootstraps) hlinker htarget htype hstep
    exact walks_put2 rfl rfl (by decide) (hfits.lt hu hi) hsite

end Step

/-! ## Bodies -/

/-- The entry of the exception table for a catch clause. -/
def IsClause (q : PoolBuilder) (caught : Nat × String) (clause : CatchClause) : Prop :=
  clause.handler = tableOffset caught.1 ∧ q.ClassAt clause.type (internalName caught.2)

/-- An entry of the line table as it is written. -/
def tableLine (l : LineNumber) : LineNumber := ⟨tableOffset l.start, l.line⟩

/-- The parts of a body from `pc` on. -/
structure BodyParts (u : Tables) (pc : Nat) (steps : List Step) (raw : RawCode) : Prop where
  length : pc + raw.code.length = endOffset u.pool pc steps
  lines : raw.lines = ((placed u.pool pc steps).filterMap (·.line?)).map tableLine
  catches :
    List.Forall₂ (IsClause u.pool) ((placed u.pool pc steps).filterMap (·.caught?)) raw.catches
  walks : u.Fits → (∀ step ∈ steps, step.Writable) → endOffset u.pool pc steps ≤ 0xFFFF → ∀ found,
    walkFrom (references u.pool.toPool u.bootstraps) pc raw.code found =
      .ok (found.reverse ++ (placed u.pool pc steps).flatMap (·.references Step.symbols))

/-- What a step adds to a body: only a line adds to the line table, and only a catch clause to the
exception table. -/
structure StepParts (u : Tables) (pc : Nat) (step : Step) (raw : RawCode) : Prop where
  code : step.CodeOf u pc raw.code
  lines : raw.lines = (PlacedStep.line? ⟨pc, step⟩).toList.map tableLine
  catches : List.Forall₂ (IsClause u.pool) (PlacedStep.caught? ⟨pc, step⟩).toList raw.catches

/-- A step gives code, or an entry of the table of lines, or one of the exception table. -/
theorem Step.assembles_assemble (pc : Nat) (step : Step) :
    Assembles C (step.assemble pc) (StepParts · pc step) := by
  refine (assembles_code pc step).bind fun code => ?_
  cases step with
  | catchHere name =>
    refine (assembles_classNamed name).bind fun i => assembles_pure fun _ _ hC => ?_
    exact ⟨hC.1.2, rfl, .cons ⟨rfl, hC.2⟩ .nil⟩
  | line number => exact assembles_pure fun _ _ hC => ⟨hC.2, rfl, .nil⟩
  | _ => exact assembles_pure fun _ _ hC => ⟨hC.2, rfl, .nil⟩

theorem bodyParts_nil : BodyParts u pc [] ⟨[], [], []⟩ where
  length := rfl
  lines := rfl
  catches := .nil
  walks _ _ _ found := by rw [walkFrom_nil, placed, List.flatMap_nil, List.append_nil]

theorem filterMap_placed_cons {α : Type} (f : PlacedStep → Option α) (q : PoolBuilder)
    (pc : Nat) (step : Step) (rest : List Step) : (placed q pc (step :: rest)).filterMap f =
      (f ⟨pc, step⟩).toList ++ (placed q (pc + step.size q pc) rest).filterMap f := by
  rw [placed, List.filterMap_cons]
  cases f ⟨pc, step⟩ <;> rfl

/-- A step before a body: its parts come before those of the body. -/
theorem BodyParts.cons {step : Step} {rest : List Step} {first raw : RawCode}
    (hfirst : StepParts u pc step first) (h : BodyParts u (pc + first.code.length) rest raw) :
    BodyParts u pc (step :: rest) (joinCode first raw) := by
  -- the rest starts behind the bytes of the step, and that is where the layout places it
  have hlength := h.length
  rw [hfirst.code.length] at h hlength
  refine ⟨?_, ?_, ?_, fun hfits hsteps hend found => ?_⟩
  · rw [joinCode, List.length_append, endOffset, hfirst.code.length, ← hlength, Nat.add_assoc]
  · rw [joinCode, hfirst.lines, h.lines, filterMap_placed_cons, List.map_append]
  · rw [filterMap_placed_cons]
    exact List.rel_append hfirst.catches h.catches
  · have hbound : pc + step.size u.pool pc ≤ 0xFFFF := Nat.le_trans (le_endOffset _ _ _) hend
    have hwalk := hfirst.code.walks hfits (hsteps step List.mem_cons_self) (by omega) raw.code found
    have hrest := h.walks hfits (fun s hs => hsteps s (List.mem_cons_of_mem _ hs)) hend
    rw [joinCode, hwalk, hfirst.code.length, hrest, placed, List.flatMap_cons]
    simp [PlacedStep.references]

/-- A body is assembled step by step. -/
theorem assembles_assembleFrom (pc : Nat) (steps : List Step) :
    Assembles C (assembleFrom pc steps) (BodyParts · pc steps) := by
  induction steps generalizing pc C with
  | nil => exact assembles_pure fun _ _ _ => bodyParts_nil
  | cons step rest ih =>
    refine (step.assembles_assemble pc).bind fun first => (ih _).bind fun raw => ?_
    exact assembles_pure fun _ _ hC => hC.2.cons hC.1.2

/-- There is an entry of the exception table for each step that catches. -/
theorem BodyParts.length_catches {steps : List Step} {raw : RawCode}
    (h : BodyParts u pc steps raw) :
    raw.catches.length = steps.countP Step.isCatch := by
  rw [← h.catches.length_eq, length_filterMap_placed PlacedStep.isSome_caught?]

theorem BodyParts.length_lines {steps : List Step} {raw : RawCode} (h : BodyParts u pc steps raw) :
    raw.lines.length = steps.countP Step.isLine := by
  rw [h.lines, List.length_map, length_filterMap_placed PlacedStep.isSome_line?]

end JvmAudit.Assembler
