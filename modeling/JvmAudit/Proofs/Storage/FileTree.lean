import JvmAudit.Storage.FileTree
import JvmAudit.Proofs.Result
import JvmAudit.Proofs.Text.Cut

/-!
# Where a path leads

The way that a path leads is described component by component (`Place.Follows`), and it is the way
that is found (`Place.follows_iff`, `FileTree.find_eq_ok_iff`). A path below another one leads on
from where that one leads (`FileTree.follows_join_iff`), unless it is absolute.
-/

namespace JvmAudit

namespace Place

/-- The way from a place to another one. A component may stand for the directory itself, for the one
above, or for one of the entries. -/
inductive Follows : Place → List String → Place → Prop
  | refl {p : Place} : Follows p [] p
  | stay {p q : Place} {name : String} {parts : List String} (hp : p.node.isDir)
    (hname : name = "" ∨ name = ".") (h : Follows p parts q) : Follows p (name :: parts) q
  | up {p q : Place} {parts : List String} (hp : p.node.isDir) (h : Follows p.up parts q) :
    Follows p (".." :: parts) q
  | down {entries : List (String × Node)}
    {above : List (String × List (String × Node))} {node : Node}
    {q : Place} {name : String} {parts : List String} (hname : name ∉ ["", ".", ".."])
    (hlength : name.utf8ByteSize ≤ maxNameBytes) (hnode : entries.lookup name = some node)
    (h : Follows ⟨node, (name, entries) :: above⟩ parts q) :
      Follows ⟨.dir entries, above⟩ (name :: parts) q

variable {p q r : Place} {name : String} {parts parts' : List String}

theorem Follows.foldlM_eq (h : Follows p parts q) : parts.foldlM step p = .ok q := by
  induction h with
  | refl => rfl
  | @stay p q name parts hp hname _ ih =>
    obtain ⟨node, above⟩ := p
    cases node with
    | file content => cases hp
    | dir entries =>
      rw [List.foldlM_cons]
      rcases hname with rfl | rfl <;> exact ih
  | @up p q parts hp _ ih =>
    obtain ⟨node, above⟩ := p
    cases node with
    | file content => cases hp
    | dir entries => exact ih
  | @down entries above node q name parts hname hlength hnode _ ih =>
    simp only [List.mem_cons, List.not_mem_nil, or_false, not_or] at hname
    obtain ⟨hempty, hdot, hdots⟩ := hname
    have hstep : step ⟨.dir entries, above⟩ name = .ok ⟨node, (name, entries) :: above⟩ := by
      simp [step, hempty, hdot, hdots, Nat.not_lt.2 hlength, hnode]
    rw [List.foldlM_cons, hstep]
    exact ih

/-- One component is followed as the relation says. -/
theorem Follows.cons_of_step (hstep : p.step name = .ok r) (h : Follows r parts q) :
    Follows p (name :: parts) q := by
  obtain ⟨node, above⟩ := p
  cases node with
  | file content => cases hstep
  | dir entries =>
    simp only [step] at hstep
    split at hstep
    · next hname =>
      cases hstep
      exact .stay rfl (by simpa using hname) h
    · next hname =>
      split at hstep
      · next hdots =>
        cases hstep
        exact hdots ▸ .up rfl h
      · next hdots =>
        split at hstep
        · cases hstep
        · next hlength =>
          split at hstep
          · next node hnode =>
            cases hstep
            simp only [Bool.or_eq_true, decide_eq_true_eq, not_or] at hname
            exact .down (by simp [hname, hdots]) (Nat.le_of_not_lt hlength) hnode h
          · cases hstep

/-- What is found is where the path leads. -/
theorem follows_iff : Follows p parts q ↔ parts.foldlM step p = .ok q := by
  refine ⟨Follows.foldlM_eq, fun h => ?_⟩
  induction parts generalizing p with
  | nil =>
    cases h
    exact .refl
  | cons name parts ih =>
    rw [List.foldlM_cons] at h
    obtain ⟨r, hstep, hrest⟩ := Result.bind_eq_ok.1 h
    exact .cons_of_step hstep (ih hrest)

theorem follows_append_iff :
    Follows p (parts ++ parts') q ↔ ∃ r, Follows p parts r ∧ Follows r parts' q := by
  simp only [follows_iff, List.foldlM_append]
  exact Result.bind_eq_ok

theorem Follows.isDir_of_cons (h : Follows p (name :: parts) q) : p.node.isDir := by
  cases h with
  | stay hp | up hp => exact hp
  | down => rfl

/-- A component that stands for the directory itself may be left out, if another one follows. -/
theorem follows_cons_empty_iff :
    Follows p ("" :: name :: parts) q ↔ Follows p (name :: parts) q := by
  refine ⟨fun h => ?_, fun h => .stay h.isDir_of_cons (.inl rfl) h⟩
  have hp := h.isDir_of_cons
  rw [follows_iff] at h ⊢
  obtain ⟨node, above⟩ := p
  cases node with
  | file content => cases hp
  | dir entries => exact h

end Place

namespace FileTree

variable {t : FileTree} {path base : String} {q : Place}

/-- A path that can lead somewhere. -/
structure Passable (path : String) : Prop where
  ne_empty : path ≠ ""
  no_zero : '\x00' ∉ path.toList
  short : path.utf8ByteSize ≤ Path.maxBytes

theorem check_eq_ok_iff : check path = .ok () ↔ Passable path := by
  unfold check Path.isTooLong
  constructor
  · intro h
    split at h
    · cases h
    · next hne =>
      split at h
      · cases h
      · next hzero =>
        split at h
        · cases h
        · next hlong =>
          exact ⟨by simpa using hne, by simpa using hzero, by simpa using hlong⟩
  · rintro ⟨hne, hzero, hshort⟩
    rw [if_neg (by simpa using hne), if_neg (by simpa using hzero), if_neg (by simpa using hshort)]

/-- What is found is where the path leads. -/
theorem find_eq_ok_iff :
    t.find path = .ok q ↔ Passable path ∧ (t.start path).Follows (components path) q := by
  unfold find
  rw [Place.follows_iff, ← check_eq_ok_iff]
  constructor
  · intro h
    obtain ⟨⟨⟩, hcheck, hfollow⟩ := Result.bind_eq_ok.1 h
    exact ⟨hcheck, hfollow⟩
  · rintro ⟨hcheck, hfollow⟩
    exact Result.bind_eq_ok.2 ⟨(), hcheck, hfollow⟩

/-! ## Paths below others -/

theorem components_append_cons (front back : String) :
    components (front ++ "/" ++ back) = components front ++ components back := by
  unfold components
  rw [String.toList_append, String.toList_append, List.append_assoc]
  show (Text.splitOn '/' (front.toList ++ '/' :: back.toList)).map _ = _
  rw [Text.splitOn_append_cons, List.map_append]

theorem exists_components_eq_cons (path : String) :
    ∃ name parts, components path = name :: parts := by
  unfold components
  cases h : Text.splitOn '/' path.toList with
  | nil => exact absurd h (Text.splitOn_ne_nil _ _)
  | cons name parts => exact ⟨_, _, rfl⟩

theorem isAbsolute_append (h : base ≠ "") (path : String) :
    Path.isAbsolute (base ++ path) = Path.isAbsolute base := by
  have hne : base.toList ≠ [] := by simpa using h
  unfold Path.isAbsolute
  rw [String.toList_append]
  cases hchars : base.toList with
  | nil => exact absurd hchars hne
  | cons c chars => rfl

theorem exists_eq_append_of_getLast (h : base.toList.getLast? = some '/') :
    ∃ front, base = front ++ "/" := by
  obtain ⟨front, hfront⟩ := List.getLast?_eq_some_iff.1 h
  refine ⟨.ofList front, String.ext ?_⟩
  rw [hfront, String.toList_append, String.toList_ofList]
  rfl

theorem start_eq_of_isAbsolute (t : FileTree) (h : Path.isAbsolute path = Path.isAbsolute base) :
    t.start path = t.start base := by
  unfold start
  rw [h]

/-- A path below another one leads on from where that one leads. -/
theorem follows_join_iff (h : Path.isAbsolute path = false) :
    (t.start (Path.join base path)).Follows (components (Path.join base path)) q ↔
      ∃ dir, (t.start base).Follows (components base) dir ∧ dir.Follows (components path) q := by
  rw [← Place.follows_append_iff]
  obtain ⟨name, parts, hparts⟩ := exists_components_eq_cons path
  unfold Path.join
  rw [h, Bool.false_or]
  by_cases hempty : base = ""
  · subst hempty
    rw [if_pos (by decide), start_eq_of_isAbsolute t (h.trans rfl : _ = Path.isAbsolute ""), hparts]
    exact Place.follows_cons_empty_iff.symm
  · rw [if_neg (by simpa using hempty)]
    by_cases hlast : base.toList.getLast? = some '/'
    · obtain ⟨front, rfl⟩ := exists_eq_append_of_getLast hlast
      have hcomponents : components (front ++ "/") = components front ++ [""] := by
        have := components_append_cons front ""
        rwa [String.append_empty] at this
      rw [if_pos hlast, start_eq_of_isAbsolute t (isAbsolute_append hempty path),
        components_append_cons, hcomponents, List.append_assoc, hparts]
      simp only [Place.follows_append_iff, List.singleton_append, Place.follows_cons_empty_iff]
    · rw [if_neg hlast, String.append_assoc, start_eq_of_isAbsolute t (isAbsolute_append hempty _),
        ← String.append_assoc, components_append_cons]

end FileTree

end JvmAudit
