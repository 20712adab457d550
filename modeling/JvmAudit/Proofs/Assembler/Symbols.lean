import JvmAudit.Proofs.Assembler.Layout
import JvmAudit.Proofs.Assembler.Tables
import JvmAudit.Proofs.Descriptor.Spelling

/-!
# Symbols of entries

The entries that steps of a body point to are looked up in the pool that is written in the end, and
stand there for the symbols of the step.
-/

namespace JvmAudit

namespace Assembler

theorem IsClassName.internal {name : String} (h : IsClassName name) :
    (internalName name).toList.head? ≠ some '[' := by
  unfold internalName Text.replaceChar
  rw [String.toList_ofList, List.head?_map]
  intro heq
  obtain ⟨c, hc, hreplaced⟩ := Option.map_eq_some_iff.1 heq
  split at hreplaced
  · exact absurd hreplaced (by decide)
  · exact h.bracket (hreplaced ▸ hc)

/-- A class by its name is a reference to it. -/
theorem IsClassName.ofClass {name : String} (h : IsClassName name) :
    Symbol.ofClass (internalName name) = .ok [.type name] := by
  unfold Symbol.ofClass elementClass?
  rw [if_neg h.internal, binaryName_internalName h.slash]
  rfl

/-- An array of classes is a reference to the class of its elements. -/
theorem IsArrayDescriptor.ofClass {descriptor : String} (h : IsArrayDescriptor descriptor) :
    Symbol.ofClass descriptor = .ok (arraySymbols descriptor) := by
  obtain ⟨t, ht⟩ := Option.isSome_iff_exists.1 h.valid
  unfold Symbol.ofClass elementClass? arraySymbols
  rw [if_pos h.bracket, ht]
  rfl

/-! ## Look-ups -/

/-- The kinds of member entries, and whether they are for fields and for members of interfaces. -/
inductive IsMemberKind : (Nat → Nat → ConstantInfo) → Bool → Bool → Prop
  | field : IsMemberKind .fieldRef true false
  | method : IsMemberKind .methodRef false false
  | interfaceMethod : IsMemberKind .interfaceMethodRef false true

theorem IsMemberKind.bounded {kind : Nat → Nat → ConstantInfo} {isField onInterface : Bool}
    (h : IsMemberKind kind isField onInterface) (limit o m : Nat) (ho : o < limit)
    (hm : m < limit) :
    (kind o m).Bounded limit := by
  cases h <;> exact ⟨ho, hm⟩

namespace PoolBuilder.Sound

variable {q : PoolBuilder} {i : Nat} {name descriptor owner : String}

/-- Each entry of a sound pool is found at its index. -/
theorem get_toPool (h : q.Sound) {c : ConstantInfo} (hi : (c, i) ∈ q.entries) :
    q.toPool.get i = .ok c.kept :=
  Pool.get_ofEntries h.numbered hi

theorem utf8_toPool (h : q.Sound) {text : String} (hi : (.utf8 text, i) ∈ q.entries) :
    q.toPool.utf8 i = .ok text :=
  Pool.utf8_ofEntries h.numbered hi

/-- A class entry gives the name of the class. -/
theorem className_toPool (h : q.Sound) {internal : String} (hi : q.ClassAt i internal) :
    q.toPool.className i = .ok internal := by
  obtain ⟨name, hc, hn⟩ := hi
  exact Pool.className_ofEntries h.numbered hc hn

/-- The entry for a name and a descriptor gives both. -/
theorem nameAndType_toPool (h : q.Sound) (hi : q.NameAndTypeAt i name descriptor) :
    q.toPool.nameAndType i = .ok (name, descriptor) := by
  obtain ⟨n, d, hi, hn, hd⟩ := hi
  unfold Pool.nameAndType
  rw [h.get_toPool hi]
  simp only [bind, Except.bind, ConstantInfo.kept, h.utf8_toPool hn, h.utf8_toPool hd]
  rfl

/-- A reference to a member gives its owner, name and descriptor, and says what kind of member it
is. -/
theorem memberRef_toPool (h : q.Sound) {kind : Nat → Nat → ConstantInfo}
    {isField onInterface : Bool}
    (hkind : IsMemberKind kind isField onInterface) (hi : q.MemberAt kind i owner name descriptor) :
    q.toPool.memberRef i = .ok ⟨owner, name, descriptor, isField, onInterface⟩ := by
  obtain ⟨o, m, hi, ho, hm⟩ := hi
  have hmember : q.toPool.memberAt o m isField onInterface =
      .ok ⟨owner, name, descriptor, isField, onInterface⟩ := by
    unfold Pool.memberAt
    rw [h.className_toPool ho, h.nameAndType_toPool hm]
    rfl
  unfold Pool.memberRef
  cases hkind <;>
    · rw [h.get_toPool hi]
      exact hmember

/-! ## Classes and members -/

theorem classAt_named (h : q.Sound) (hi : q.ClassAt i (internalName name))
    (hname : IsClassName name) :
    Symbol.classAt q.toPool i = .ok [.type name] := by
  unfold Symbol.classAt
  rw [h.className_toPool hi]
  exact hname.ofClass

theorem classAt_array (h : q.Sound) (hi : q.ClassAt i descriptor)
    (hdescriptor : IsArrayDescriptor descriptor) :
    Symbol.classAt q.toPool i = .ok (arraySymbols descriptor) := by
  unfold Symbol.classAt
  rw [h.className_toPool hi]
  exact hdescriptor.ofClass

/-- A reference to a field of a class is one symbol. -/
theorem memberAt_field (h : q.Sound)
    (hi : q.MemberAt .fieldRef i (internalName owner) name descriptor)
    (howner : IsClassName owner) :
    Symbol.memberAt q.toPool i = .ok [.field owner name descriptor] := by
  unfold Symbol.memberAt Symbol.ofMember
  rw [h.memberRef_toPool .field hi]
  show (if _ then _ else _) = _
  rw [if_neg howner.internal, if_pos rfl, binaryName_internalName howner.slash]

/-- A reference to a method of a class is one symbol. -/
theorem memberAt_method (h : q.Sound) {kind : Nat → Nat → ConstantInfo} {onInterface : Bool}
    (hkind : IsMemberKind kind false onInterface)
    (hi : q.MemberAt kind i (internalName owner) name descriptor) (howner : IsClassName owner) :
    Symbol.memberAt q.toPool i = .ok [.method owner name descriptor onInterface] := by
  unfold Symbol.memberAt Symbol.ofMember
  rw [h.memberRef_toPool hkind hi]
  show (if _ then _ else _) = _
  rw [if_neg howner.internal, if_neg Bool.false_ne_true, binaryName_internalName howner.slash]

/-- A method of an array type stands for the class of the elements only. -/
theorem memberAt_array (h : q.Sound) {array : String}
    (hi : q.MemberAt .methodRef i array name descriptor)
    (harray : IsArrayDescriptor array) : Symbol.memberAt q.toPool i = .ok (arraySymbols array) := by
  unfold Symbol.memberAt Symbol.ofMember
  rw [h.memberRef_toPool .method hi]
  show (if _ then _ else _) = _
  rw [if_pos harray.bracket]
  exact harray.ofClass

/-! ## Constants -/

theorem constantAt_string (h : q.Sound) {text : Nat} (hi : (.string text, i) ∈ q.entries) :
    Symbol.constantAt q.toPool i = .ok [] := by
  unfold Symbol.constantAt
  rw [h.get_toPool hi]
  rfl

theorem constantAt_class (h : q.Sound) (hi : q.ClassAt i (internalName name))
    (hname : IsClassName name) :
    Symbol.constantAt q.toPool i = .ok [.type name] := by
  obtain ⟨n, hc, hn⟩ := hi
  unfold Symbol.constantAt
  rw [h.get_toPool hc]
  exact h.classAt_named ⟨n, hc, hn⟩ hname

/-- A method type stands for the classes in its descriptor. -/
theorem constantAt_methodType (h : q.Sound) (hi : q.MethodTypeAt i descriptor)
    (hdescriptor : (descriptorClasses? descriptor).isSome = true) :
    Symbol.constantAt q.toPool i = .ok (((descriptorClasses? descriptor).getD []).map .type) := by
  obtain ⟨d, hi, hd⟩ := hi
  obtain ⟨names, hnames⟩ := Option.isSome_iff_exists.1 hdescriptor
  unfold Symbol.constantAt
  rw [h.get_toPool hi, hnames]
  show (q.toPool.utf8 d >>= Symbol.ofDescriptor) = _
  rw [h.utf8_toPool hd]
  show Symbol.ofDescriptor descriptor = _
  unfold Symbol.ofDescriptor
  rw [hnames]
  rfl

/-- A handle stands for the method that it is for. -/
theorem constantAt_handle (h : q.Sound)
    (hi : q.StaticHandleAt i (internalName owner) name descriptor) (howner : IsClassName owner) :
    Symbol.constantAt q.toPool i = .ok [.method owner name descriptor false] := by
  obtain ⟨m, hi, hm⟩ := hi
  unfold Symbol.constantAt
  rw [h.get_toPool hi]
  exact h.memberAt_method .method hm howner

/-- A dynamic call site stands for its bootstrap method and the arguments of that. -/
theorem callSiteAt_eq (h : q.Sound) {b m : Nat} {bootstraps : List BootstrapMethod}
    {method : BootstrapMethod}
    (hi : (.invokeDynamic b m, i) ∈ q.entries) (hb : bootstraps[b]? = some method)
    {symbols : List (List Symbol)}
    (hsymbols : (method.handle :: method.arguments).mapM (Symbol.constantAt q.toPool) =
      .ok symbols) :
    Symbol.callSiteAt q.toPool bootstraps i = .ok symbols.flatten := by
  unfold Symbol.callSiteAt
  rw [h.get_toPool hi]
  simp only [bind, Except.bind, ConstantInfo.kept, hb, hsymbols]
  rfl

end PoolBuilder.Sound

end Assembler

end JvmAudit
