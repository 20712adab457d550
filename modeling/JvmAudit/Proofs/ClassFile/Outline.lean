import JvmAudit.ClassFile.Parser
import JvmAudit.Proofs.ClassFile.Reader

/-!
# Class files without bodies

A class file that can be read with bodies can be read without them, and the class is the same,
bodies aside (`ClassFile.parse_outline`). The two ways to read a file go side by side: as long as
the full one succeeds, the other one takes the same bytes and gives the projection of the value
(`Reader.Projects`). They part only at the attributes with bodies and bootstrap methods. Without
bodies these are read like any attribute that is not needed.
-/

namespace JvmAudit

namespace MethodDecl

/-- The method without its body. -/
def outline (m : MethodDecl) : MethodDecl := { m with code := none }

end MethodDecl

namespace ClassFile

/-- The class without the bodies of its methods. -/
def outline (c : ClassFile) : ClassFile := { c with methods := c.methods.map MethodDecl.outline }

/-! ## Members of an outline -/

/-- An outline has no bodies that could be left out once more. -/
theorem outline_outline (c : ClassFile) : c.outline.outline = c.outline := by
  simp [outline, MethodDecl.outline, Function.comp_def]

/-- Classes that are the same, bodies aside, have the same supertypes. -/
theorem supertypes_of_outline_eq {c c' : ClassFile} (h : c.outline = c'.outline) :
    c.superClass = c'.superClass ∧ c.interfaces = c'.interfaces := by
  have hsuper := congrArg superClass h
  have hinterfaces := congrArg interfaces h
  exact ⟨hsuper, hinterfaces⟩

theorem field?_outline (c : ClassFile) (name : String) : c.outline.field? name = c.field? name :=
  rfl

/-- A search that does not look at bodies. -/
theorem find?_outline (c : ClassFile) {p : MethodDecl → Bool} (hp : ∀ m, p m.outline = p m) :
    c.outline.methods.find? p = (c.methods.find? p).map MethodDecl.outline := by
  show (c.methods.map MethodDecl.outline).find? p = _
  rw [List.find?_map]
  congr 2
  funext m
  exact hp m

/-- The same methods are found in the outline, without their bodies. -/
theorem method?_outline (c : ClassFile) (name descriptor : String) :
    c.outline.method? name descriptor = (c.method? name descriptor).map MethodDecl.outline :=
  find?_outline c fun _ => rfl

/-- The same overloads are found in the outline, without their bodies. -/
theorem overload?_outline (c : ClassFile) (name params : String) :
    c.outline.overload? name params = (c.overload? name params).map MethodDecl.outline :=
  find?_outline c fun _ => rfl

theorem declaresNamed_outline (c : ClassFile) (name : String) :
    c.outline.declaresNamed name = c.declaresNamed name := by
  unfold declaresNamed
  rw [field?_outline]
  simp [outline, MethodDecl.outline, Function.comp_def]

end ClassFile

/-! ## Two readers side by side -/

namespace Reader

variable {α β γ δ : Type} {f : α → β} {g : γ → δ} {r : Reader α} {r' : Reader β}

/-- Where one reader succeeds, the other one takes the same bytes and gives the projection of the
value. -/
def Projects (f : α → β) (r : Reader α) (r' : Reader β) : Prop :=
  ∀ data a rest, r data = .ok (a, rest) → r' data = .ok (f a, rest)

theorem projects_pure {a : α} {b : β} (h : f a = b) : Projects f (pure a) (pure b) := by
  intro data a' rest hread
  cases hread
  rw [h]
  rfl

/-- Nothing is said of a reader where the full one fails. -/
theorem projects_throw (e : ClassError) : Projects f (throw e) r' := by
  intro data a rest hread
  cases hread

theorem projects_lift {x : Except ClassError α} {y : Except ClassError β}
    (h : ∀ a, x = .ok a → y = .ok (f a)) :
    Projects f (liftM x) (liftM y) := by
  cases x with
  | error e => exact projects_throw e
  | ok a =>
    rw [h a rfl]
    exact projects_pure rfl

/-- Readers in sequence are projected part by part. -/
theorem Projects.bind {k : α → Reader γ} {k' : β → Reader δ} (hr : Projects f r r')
    (hk : ∀ a, Projects g (k a) (k' (f a))) : Projects g (r >>= k) (r' >>= k') := by
  intro data c rest hread
  obtain ⟨⟨a, middle⟩, ha, hc⟩ :=
    Result.bind_eq_ok.1 (show (r data >>= fun p => k p.1 p.2) = _ from hread)
  show (r' data >>= fun p => k' p.1 p.2) = _
  rw [hr data a middle ha]
  exact hk a middle c rest hc

/-- Both readers start alike. -/
theorem projects_bind {k : α → Reader γ} {k' : α → Reader δ} (hk : ∀ a, Projects g (k a) (k' a)) :
    Projects g (r >>= k) (r >>= k') :=
  Projects.bind (f := id) (fun _ _ _ h => h) hk

/-- The items of a list are projected one by one. -/
theorem projects_times (h : Projects f r r') (n : Nat) :
    Projects (List.map f) (times n r) (times n r') := by
  induction n with
  | zero => exact projects_pure rfl
  | succ n ih =>
    rw [times_succ, times_succ]
    exact h.bind fun a => ih.bind fun as => projects_pure rfl

theorem projects_table (h : Projects f r r') : Projects (List.map f) (table r) (table r') :=
  projects_bind (projects_times h)

end Reader

/-! ## Class files -/

namespace ClassFile

open Reader

/-- Attributes that are interpreted alike, one by one. -/
theorem projects_readAttributes {α β : Type} {f : α → β}
    {interpret : String → Bytes → Except ClassError α}
    {interpret' : String → Bytes → Except ClassError β} (pool : Pool)
    (h : ∀ name data a, interpret name data = .ok a → interpret' name data = .ok (f a)) :
    Projects (List.map f) (readAttributes pool interpret) (readAttributes pool interpret') :=
  projects_table (projects_bind fun _ => projects_lift (h _ _))

namespace MethodAttribute

/-- What is left of an attribute without bodies. -/
def outline : MethodAttribute → MethodAttribute
  | .code _ => .annotations []
  | a => a

@[simp]
theorem annotationNames_outline (a : MethodAttribute) :
    a.outline.annotationNames = a.annotationNames := by
  cases a <;> rfl

@[simp]
theorem exceptionNames_outline (a : MethodAttribute) :
    a.outline.exceptionNames = a.exceptionNames := by
  cases a <;> rfl

@[simp]
theorem code?_outline (a : MethodAttribute) : a.outline.code? = none := by
  cases a <;> rfl

/-- A body is not mistaken for another attribute. -/
theorem interpret_outline {pool : Pool} {name : String} {data : Bytes} {a : MethodAttribute}
    (h : interpret .full pool name data = .ok a) :
    interpret .outline pool name data = .ok a.outline := by
  unfold interpret at h ⊢
  by_cases hcode : name = "Code"
  · subst hcode
    obtain ⟨raw, _, h⟩ := Result.bind_eq_ok.1 h
    cases h
    rfl
  · rw [if_neg (by simp [hcode])] at h ⊢
    by_cases hexceptions : (name == "Exceptions") = true
    · rw [if_pos hexceptions] at h ⊢
      obtain ⟨names, hnames, h⟩ := Result.bind_eq_ok.1 h
      cases h
      rw [hnames]
      rfl
    · rw [if_neg hexceptions] at h ⊢
      obtain ⟨names, hnames, h⟩ := Result.bind_eq_ok.1 h
      cases h
      rw [hnames]
      rfl

end MethodAttribute

namespace ClassAttribute

/-- What is left of an attribute without bodies. -/
def outline : ClassAttribute → ClassAttribute
  | .bootstraps _ => .annotations []
  | a => a

@[simp]
theorem annotationNames_outline (a : ClassAttribute) :
    a.outline.annotationNames = a.annotationNames := by
  cases a <;> rfl

@[simp]
theorem sourceFile?_outline (a : ClassAttribute) : a.outline.sourceFile? = a.sourceFile? := by
  cases a <;> rfl

/-- A table of bootstrap methods is not mistaken for another attribute. -/
theorem interpret_outline {pool : Pool} {name : String} {data : Bytes} {a : ClassAttribute}
    (h : interpret .full pool name data = .ok a) :
    interpret .outline pool name data = .ok a.outline := by
  unfold interpret at h ⊢
  by_cases hfile : (name == "SourceFile") = true
  · rw [if_pos hfile] at h ⊢
    obtain ⟨index, hindex, h⟩ := Result.bind_eq_ok.1 h
    obtain ⟨text, htext, h⟩ := Result.bind_eq_ok.1 h
    cases h
    rw [hindex]
    show (pool.utf8 index >>= _) = _
    rw [htext]
    rfl
  · rw [if_neg hfile] at h ⊢
    by_cases hbootstraps : name = "BootstrapMethods"
    · subst hbootstraps
      obtain ⟨methods, _, h⟩ := Result.bind_eq_ok.1 h
      cases h
      rfl
    · rw [if_neg (by simp [hbootstraps])] at h ⊢
      obtain ⟨names, hnames, h⟩ := Result.bind_eq_ok.1 h
      cases h
      rw [hnames]
      rfl

end ClassAttribute

/-- What is left of a method that was read with its body. -/
def outlined (m : MethodDecl × Option RawCode) : MethodDecl × Option RawCode := (m.1.outline, none)

/-- A method is read without its body in the same way, only that the attribute for the body is
passed over. -/
theorem projects_readMethod (pool : Pool) :
    Projects outlined (readMethod .full pool) (readMethod .outline pool) := by
  refine projects_bind fun access => projects_bind fun name => projects_bind fun name => ?_
  refine projects_bind fun descriptor => projects_bind fun descriptor => ?_
  split
  · exact projects_throw _
  · refine (projects_readAttributes pool fun _ _ _ => MethodAttribute.interpret_outline).bind
      fun attributes => ?_
    refine projects_pure ?_
    simp [outlined, MethodDecl.outline, List.flatMap_map, List.filterMap_map]

/-- A body does not change the rest of a method. -/
theorem withBody_outline {pool : Pool} {bootstraps : List BootstrapMethod}
    {m : MethodDecl × Option RawCode}
    {decl : MethodDecl} (h : withBody pool bootstraps m = .ok decl) :
    decl.outline = m.1.outline := by
  unfold withBody at h
  split at h
  · cases h
    rfl
  · obtain ⟨code, _, rfl⟩ := Result.map_eq_ok.1 h
    rfl

/-- Without bodies there is nothing to decode. -/
theorem withBodies_outline {pool : Pool} {bootstraps : List BootstrapMethod}
    {methods : List (MethodDecl × Option RawCode)} {decls : List MethodDecl}
    (h : withBodies pool bootstraps methods = .ok decls) (bootstraps' : List BootstrapMethod) :
    withBodies pool bootstraps' (methods.map outlined) = .ok (decls.map MethodDecl.outline) := by
  refine Result.mapM_eq_ok.2 ?_
  rw [List.forall₂_map_left_iff, List.forall₂_map_right_iff]
  refine (Result.mapM_eq_ok.1 h).imp fun m decl hm => ?_
  rw [withBody_outline hm]
  rfl

/-- Whatever is read in full is read in outline. -/
theorem projects_read : Projects outline (read .full) (read .outline) := by
  refine projects_bind fun first => ?_
  split
  · exact projects_throw _
  refine projects_bind fun major => projects_bind fun pool => ?_
  refine projects_bind fun access => projects_bind fun this => projects_bind fun super => ?_
  refine projects_bind fun name => projects_bind fun superClass => ?_
  refine projects_bind fun interfaces => projects_bind fun fields => ?_
  refine (projects_table (projects_readMethod pool)).bind fun methods => ?_
  refine (projects_readAttributes pool fun _ _ _ => ClassAttribute.interpret_outline).bind
    fun attributes => ?_
  refine (projects_lift fun decls h => withBodies_outline h _).bind fun decls => projects_pure ?_
  simp [outline, List.flatMap_map, List.filterMap_map]

/-- A class that is read with bodies is read without them too. -/
theorem parse_outline {data : Bytes} {c : ClassFile} (h : parse .full data = .ok c) :
    parse .outline data = .ok c.outline := by
  obtain ⟨⟨c, rest⟩, hread, rfl⟩ := Result.map_eq_ok.1 h
  unfold parse readFrom
  rw [projects_read data c rest hread]
  rfl

/-- What cannot be read without bodies cannot be read with them. -/
theorem parse_full_error {data : Bytes} {e : ClassError} (h : parse .outline data = .error e) :
    ∃ e', parse .full data = .error e' := by
  cases hfull : parse .full data with
  | error e' => exact ⟨e', rfl⟩
  | ok c =>
    rw [parse_outline hfull] at h
    cases h

end ClassFile

end JvmAudit
