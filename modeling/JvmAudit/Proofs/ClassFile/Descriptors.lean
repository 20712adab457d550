import JvmAudit.Proofs.ClassFile.Outline

/-!
# The descriptors of a class that was read

A field or method is refused while it is read if its descriptor is no type, and nothing changes a
descriptor afterwards. So a class that was read has only descriptors that are types
(`ClassFile.described_of_parse`).

What holds of every value that a reader gives is followed through sequences and tables
(`Reader.Ensures`).
-/

namespace JvmAudit

/-! ## What readers ensure -/

namespace Reader

variable {α β : Type} {P : α → Prop} {Q : β → Prop} {r : Reader α}

/-- Every value that is read has the property. -/
def Ensures (P : α → Prop) (r : Reader α) : Prop := ∀ data a rest, r data = .ok (a, rest) → P a

theorem ensures_pure {a : α} (h : P a) : Ensures P (pure a) := by
  intro data a' rest hread
  cases hread
  exact h

theorem ensures_throw (e : ClassError) : Ensures P (throw e) := by
  intro data a rest hread
  cases hread

theorem ensures_lift {x : Except ClassError α} (h : ∀ a, x = .ok a → P a) :
    Ensures P (liftM x) := by
  cases x with
  | error e => exact ensures_throw e
  | ok a => exact ensures_pure (h a rfl)

/-- What the first reader ensures can be used for the second one. -/
theorem Ensures.bind {k : α → Reader β} (hr : Ensures P r) (hk : ∀ a, P a → Ensures Q (k a)) :
    Ensures Q (r >>= k) := by
  intro data b rest hread
  obtain ⟨⟨a, middle⟩, ha, hb⟩ :=
    Result.bind_eq_ok.1 (show (r data >>= fun p => k p.1 p.2) = _ from hread)
  exact hk a (hr data a middle ha) middle b rest hb

/-- What comes first does not matter. -/
theorem ensures_bind {k : α → Reader β} (hk : ∀ a, Ensures Q (k a)) : Ensures Q (r >>= k) :=
  Ensures.bind (P := fun _ => True) (fun _ _ _ _ => trivial) fun a _ => hk a

/-- What is ensured of one item is ensured of all. -/
theorem ensures_times (h : Ensures P r) (n : Nat) :
    Ensures (fun as => ∀ a ∈ as, P a) (times n r) := by
  induction n with
  | zero => exact ensures_pure (by simp)
  | succ n ih =>
    rw [times_succ]
    refine h.bind fun a ha => ih.bind fun as has => ensures_pure ?_
    intro x hx
    rcases List.mem_cons.1 hx with rfl | hx
    · exact ha
    · exact has x hx

theorem ensures_table (h : Ensures P r) : Ensures (fun as => ∀ a ∈ as, P a) (table r) :=
  ensures_bind (ensures_times h)

end Reader

/-! ## Descriptors -/

namespace ClassFile

open Reader

/-- All descriptors of members are types. -/
structure Described (c : ClassFile) : Prop where
  fields : ∀ f ∈ c.fields, ∃ t, FieldType.ofDescriptor? f.descriptor = some t
  methods : ∀ m ∈ c.methods, ∃ t, MethodType.ofDescriptor? m.descriptor = some t

/-- The descriptor of a field is one of a type, or the field is refused. -/
theorem ensures_readField (pool : Pool) :
    Ensures (fun f => ∃ t, FieldType.ofDescriptor? f.descriptor = some t) (readField pool) := by
  refine ensures_bind fun access => ensures_bind fun index => ensures_bind fun name => ?_
  refine ensures_bind fun index => ensures_bind fun descriptor => ?_
  split
  · exact ensures_throw _
  · next hsome =>
    refine ensures_bind fun annotations => ensures_pure ?_
    simpa [Option.ne_none_iff_exists'] using hsome

theorem ensures_readMethod (depth : Depth) (pool : Pool) :
    Ensures (fun m => ∃ t, MethodType.ofDescriptor? m.1.descriptor = some t)
      (readMethod depth pool) := by
  refine ensures_bind fun access => ensures_bind fun index => ensures_bind fun name => ?_
  refine ensures_bind fun index => ensures_bind fun descriptor => ?_
  split
  · exact ensures_throw _
  · next hsome =>
    refine ensures_bind fun attributes => ensures_pure ?_
    simpa [Option.ne_none_iff_exists'] using hsome

/-- A method with its decoded body has the descriptor with which it was read. -/
theorem exists_of_mem_withBodies {pool : Pool} {bootstraps : List BootstrapMethod}
    {methods : List (MethodDecl × Option RawCode)} {decls : List MethodDecl}
    (h : withBodies pool bootstraps methods = .ok decls) {m : MethodDecl} (hm : m ∈ decls) :
    ∃ read ∈ methods, m.descriptor = read.1.descriptor := by
  obtain ⟨read, hread, hbody⟩ := Result.exists_of_mem_mapM h hm
  have hdescriptor := congrArg MethodDecl.descriptor (withBody_outline hbody)
  exact ⟨read, hread, hdescriptor⟩

/-- All descriptors of a class that was read are types. The bodies, which come last, change none of
them. -/
theorem ensures_read (depth : Depth) : Ensures Described (read depth) := by
  refine ensures_bind fun first => ?_
  split
  · exact ensures_throw _
  refine ensures_bind fun major => ensures_bind fun pool => ?_
  refine ensures_bind fun access => ensures_bind fun this => ensures_bind fun super => ?_
  refine ensures_bind fun name => ensures_bind fun superClass => ensures_bind fun interfaces => ?_
  refine (ensures_table (ensures_readField pool)).bind fun fields hfields => ?_
  refine (ensures_table (ensures_readMethod depth pool)).bind fun methods hmethods => ?_
  refine ensures_bind fun attributes => ?_
  refine (ensures_lift fun decls h => h).bind fun decls hdecls => ensures_pure ⟨hfields, ?_⟩
  intro m hm
  obtain ⟨read, hread, hdescriptor⟩ := exists_of_mem_withBodies hdecls hm
  rw [hdescriptor]
  exact hmethods read hread

/-- The descriptors of a class that was read are types, whether its bodies were read or not. -/
theorem described_of_parse {depth : Depth} {data : Bytes} {c : ClassFile}
    (h : parse depth data = .ok c) :
    c.Described := by
  obtain ⟨⟨c, rest⟩, hread, rfl⟩ := Result.map_eq_ok.1 h
  exact ensures_read depth data c rest hread

end ClassFile

end JvmAudit
