import JvmAudit.Assembler.Class
import JvmAudit.Classpath.Inquiry
import JvmAudit.Proofs.Storage.FileTree
import Mathlib.Data.List.Basic

/-!
# What there is for a name

What a container has for a class is described by its files (`Container.Has`): in a directory, the
file that the path of the class leads to from there; in an archive, the entry with that path as its
name. The file may be impossible to read; then the container still has it. A look-up gives what
there is (`ClassSource.supplies_iff`): the latest class at hand, else what the first container with
a file has in it.

A class path on which every file is a class file can be looked up without failure
(`ClassSource.readable_of_containers`).
-/

namespace JvmAudit

/-! ## Files -/

namespace FileTree

/-- The place that a path leads to from the directory `base`. An absolute path does not start
there. -/
def LeadsBelow (t : FileTree) (base path : String) (q : Place) : Prop :=
  Passable (Path.join base path) ∧
    if Path.isAbsolute path then (Place.top t.root).Follows (components path) q
    else ∃ dir, (t.start base).Follows (components base) dir ∧ dir.Follows (components path) q

variable {t : FileTree} {base path : String} {q : Place}

/-- A path below a base leads where its components lead from there; an absolute path leaves the
base. -/
theorem find_join_eq_ok_iff : t.find (Path.join base path) = .ok q ↔ t.LeadsBelow base path q := by
  unfold LeadsBelow
  rw [find_eq_ok_iff]
  refine and_congr_right fun _ => ?_
  cases habs : Path.isAbsolute path with
  | false =>
    rw [if_neg (by simp)]
    exact follows_join_iff habs
  | true =>
    have hjoin : Path.join base path = path := by simp [Path.join, habs]
    rw [if_pos rfl, hjoin, start, if_pos habs]

end FileTree

namespace Container

/-- What a container has for an internal name: a file with its bytes and its origin, or one that
cannot be read. -/
inductive Has : Container → String → Except ClasspathError (Bytes × String) → Prop
  | file {root internal : String} {files : FileTree} {data : ByteArray}
    {above : List (String × List (String × Node))}
    (h : files.LeadsBelow root (fileName internal) ⟨.file (.ok data), above⟩) :
    Has (.directory root files) internal (.ok (data.toList, Path.join root (fileName internal)))
  | locked {root internal : String} {files : FileTree} {e : FileError}
    {above : List (String × List (String × Node))}
    (h : files.LeadsBelow root (fileName internal) ⟨.file (.error e), above⟩) :
    Has (.directory root files) internal
      (.error (.io (Path.join root (fileName internal)) (.file e)))
  | entry {path folder internal : String} {files : NamedFiles} {found : NamedFile} {data : Bytes}
    (h : files.find (folder ++ fileName internal) = .ok (some found))
    (hsize : found.size ≤ maxCapacity) (hdata : found.data = .ok data) :
    Has (.archive path folder files) internal (.ok (data,
      path ++ "!/" ++ (folder ++ fileName internal)))
  | damaged {path folder internal : String} {files : NamedFiles} {found : NamedFile}
    {e : EntryDataError} (h : files.find (folder ++ fileName internal) = .ok (some found))
    (hsize : found.size ≤ maxCapacity) (hdata : found.data = .error e) :
    Has (.archive path folder files) internal (.error (.io path (.data e)))
  | overlarge {path folder internal : String} {files : NamedFiles} {found : NamedFile}
    (h : files.find (folder ++ fileName internal) = .ok (some found))
    (hsize : maxCapacity < found.size) :
    Has (.archive path folder files) internal (.error (.io path .capacity))
  | unopened {path folder internal : String} {files : NamedFiles} {e : ArchiveError}
    (h : files.find (folder ++ fileName internal) = .error e) :
    Has (.archive path folder files) internal (.error (.zip path e))

/-- A container has no file for an internal name. -/
def Lacks (k : Container) (internal : String) : Prop := ∀ outcome, ¬ k.Has internal outcome

variable {k : Container} {internal origin : String}
  {outcome : Except ClasspathError (Bytes × String)}

/-- A directory gives the bytes of a file, or the reason why it cannot be read. -/
theorem read_directory {root : String} {files : FileTree} {content : Except FileError ByteArray}
    {above : List (String × List (String × Node))}
    (h : files.find (Path.join root (fileName internal)) = .ok ⟨.file content, above⟩) :
    (Container.directory root files).read internal =
      (content.map fun data => some (data.toList, Path.join root (fileName internal))).mapError
        fun e => .io (Path.join root (fileName internal)) (.file e) := by
  cases content <;> simp [read, FileTree.isFile, FileTree.read, h, Node.isDir, bind,
    Except.bind, Except.map, Except.mapError]

/-- An archive gives the bytes of an entry, or the reason why it cannot be read. -/
theorem read_archive {path folder : String} {files : NamedFiles} {found : NamedFile}
    (h : files.find (folder ++ fileName internal) = .ok (some found))
    (hsize : found.size ≤ maxCapacity) :
    (Container.archive path folder files).read internal =
      (found.data.map fun data => some (data,
        path ++ "!/" ++ (folder ++ fileName internal))).mapError
        fun e => .io path (.data e) := by
  simp only [read, h, if_neg (Nat.not_lt.2 hsize)]
  cases found.data <;> rfl

/-- What a container has is what is read from it. -/
theorem Has.read_eq (h : k.Has internal outcome) : k.read internal = outcome.map some := by
  cases h with
  | file h | locked h => exact read_directory (FileTree.find_join_eq_ok_iff.2 h)
  | entry h hsize hdata | damaged h hsize hdata =>
    rw [read_archive h hsize, hdata]
    rfl
  | overlarge h hsize =>
    simp only [read, h, if_pos hsize]
    rfl
  | unopened h =>
    simp only [read, h]
    rfl

/-- A container has a file for a name, or reads as empty. -/
theorem exists_has_or_read (k : Container) (internal : String) :
    (∃ outcome, k.Has internal outcome) ∨ k.read internal = .ok none := by
  cases k with
  | directory root files =>
    cases hfind : files.find (Path.join root (fileName internal)) with
    | error e => exact .inr (by simp [read, FileTree.isFile, hfind])
    | ok q =>
      obtain ⟨node, above⟩ := q
      cases node with
      | dir entries => exact .inr (by simp [read, FileTree.isFile, hfind, Node.isDir])
      | file content =>
        have hleads := FileTree.find_join_eq_ok_iff.1 hfind
        cases content with
        | ok data => exact .inl ⟨_, .file hleads⟩
        | error e => exact .inl ⟨_, .locked hleads⟩
  | archive path folder files =>
    cases hfind : files.find (folder ++ fileName internal) with
    | error e => exact .inl ⟨_, .unopened hfind⟩
    | ok found =>
      cases found with
      | none => exact .inr (by simp [read, hfind])
      | some found =>
        refine .inl ?_
        rcases Nat.lt_or_ge maxCapacity found.size with hsize | hsize
        · exact ⟨_, .overlarge hfind hsize⟩
        · cases hdata : found.data with
          | ok data => exact ⟨_, .entry hfind hsize hdata⟩
          | error e => exact ⟨_, .damaged hfind hsize hdata⟩

/-- What is read is what a container has. -/
theorem has_iff_read : k.Has internal outcome ↔ k.read internal = outcome.map some := by
  refine ⟨Has.read_eq, fun h => ?_⟩
  rcases k.exists_has_or_read internal with ⟨outcome', hk⟩ | hnone
  · rw [hk.read_eq] at h
    obtain rfl : outcome' = outcome := by
      cases outcome' <;> cases outcome <;> simp_all [Except.map]
    exact hk
  · rw [hnone] at h
    cases outcome <;> cases h

/-- A container reads as empty where it has no file. -/
theorem lacks_iff_read : k.Lacks internal ↔ k.read internal = .ok none := by
  constructor
  · intro h
    rcases k.exists_has_or_read internal with ⟨outcome, hk⟩ | hnone
    · exact absurd hk (h outcome)
    · exact hnone
  · intro h outcome hk
    rw [hk.read_eq] at h
    cases outcome <;> cases h

/-! Loads, by what there is. -/

theorem Lacks.load_eq (h : k.Lacks internal) : k.load internal = .ok none := by
  unfold load
  rw [lacks_iff_read.1 h]
  rfl

theorem Has.load_of_error {e : ClasspathError} (h : k.Has internal (.error e)) :
    k.load internal = .error e := by
  unfold load
  rw [h.read_eq]
  rfl

/-- A file that is found is read as a class, without bodies. -/
theorem Has.load_of_file {data : Bytes} (h : k.Has internal (.ok (data, origin))) :
    k.load internal = ((ClassFile.parse .outline data).map some).mapError (.classFile origin) := by
  unfold load
  rw [h.read_eq]
  cases hp : ClassFile.parse .outline data <;> simp only [Except.map, bind, Except.bind, hp] <;> rfl

/-- If a container has a file, the search ends there, also if the file is not a class. -/
theorem Has.load_ne_none (h : k.Has internal outcome) : k.load internal ≠ .ok none := by
  cases outcome with
  | error e => simp [h.load_of_error]
  | ok file =>
    rw [Has.load_of_file h]
    cases ClassFile.parse .outline file.1 <;> simp [Except.map, Except.mapError]

end Container

/-! ## Sources -/

namespace ClassSource

/-- A container decides about a name if those before it lack the file. -/
def Decides (s : ClassSource) (name : String) (k : Container) : Prop :=
  ∃ before after, s.containers = before ++ k :: after ∧ ∀ b ∈ before, b.Lacks (internalName name)

/-- What there is for a name: the latest class at hand, else what the first container with a file
has in it, else nothing. A file that cannot be read, or is no class file, is a failure. -/
inductive Supplies (s : ClassSource) (name : String) : Answer → Prop
  | atHand {c : ClassFile} {newer older : List ClassFile} (h : s.overlays = newer ++ c :: older)
    (hc : c.name = name) (hn : ∀ d ∈ newer, d.name ≠ name) : Supplies s name (.ok (some c))
  | file {k : Container} {data : Bytes} {origin : String} {c : ClassFile}
    (ho : ∀ d ∈ s.overlays, d.name ≠ name) (hk : s.Decides name k)
    (hfile : k.Has (internalName name) (.ok (data, origin)))
    (hp : ClassFile.parse .outline data = .ok c) : Supplies s name (.ok (some c))
  | malformed {k : Container} {data : Bytes} {origin : String} {e : ClassError}
    (ho : ∀ d ∈ s.overlays, d.name ≠ name) (hk : s.Decides name k)
    (hfile : k.Has (internalName name) (.ok (data, origin)))
    (hp : ClassFile.parse .outline data = .error e) : Supplies s name (.error (.classFile origin e))
  | unreadable {k : Container} {e : ClasspathError} (ho : ∀ d ∈ s.overlays, d.name ≠ name)
    (hk : s.Decides name k) (hfile : k.Has (internalName name) (.error e)) :
      Supplies s name (.error e)
  | missing (ho : ∀ d ∈ s.overlays, d.name ≠ name)
    (hk : ∀ k ∈ s.containers, k.Lacks (internalName name)) : Supplies s name (.ok none)

variable {s : ClassSource} {name internal : String}

/-- Containers that lack a file are passed over. -/
theorem loadFrom_append {before : List Container} (h : ∀ b ∈ before, b.Lacks internal)
    (rest : List Container) : loadFrom internal (before ++ rest) = loadFrom internal rest := by
  induction before with
  | nil => rfl
  | cons b before ih =>
    rw [List.cons_append, loadFrom, (h b List.mem_cons_self).load_eq]
    exact ih fun b' hb' => h b' (List.mem_cons_of_mem _ hb')

theorem loadFrom_eq_none {containers : List Container} (h : ∀ k ∈ containers, k.Lacks internal) :
    loadFrom internal containers = .ok none := by
  have hnil := loadFrom_append h []
  rw [List.append_nil] at hnil
  exact hnil

theorem loadFrom_cons {k : Container} (h : k.load internal ≠ .ok none) (rest : List Container) :
    loadFrom internal (k :: rest) = k.load internal := by
  unfold loadFrom
  split
  · next hnone => exact absurd hnone h
  · rfl

/-- The container that decides is the one from which the class is loaded. -/
theorem Decides.loadFrom_eq {k : Container} {outcome : Except ClasspathError (Bytes × String)}
    (h : s.Decides name k) (hk : k.Has (internalName name) outcome) :
    loadFrom (internalName name) s.containers = k.load (internalName name) := by
  obtain ⟨before, after, hsplit, hbefore⟩ := h
  rw [hsplit, loadFrom_append hbefore, loadFrom_cons hk.load_ne_none]

/-- All containers lack the file, or one that has it decides. -/
theorem forall_lacks_or_decides (s : ClassSource) (name : String) :
    (∀ k ∈ s.containers, k.Lacks (internalName name)) ∨
      ∃ k outcome, s.Decides name k ∧ k.Has (internalName name) outcome := by
  unfold Decides
  induction s.containers with
  | nil => exact .inl (by simp)
  | cons k rest ih =>
    by_cases hk : k.Lacks (internalName name)
    · rcases ih with hnone | ⟨k', outcome, ⟨before, after, rfl, hbefore⟩, hk'⟩
      · exact .inl (List.forall_mem_cons.2 ⟨hk, hnone⟩)
      · exact .inr ⟨k', outcome,
          ⟨k :: before, after, rfl, List.forall_mem_cons.2 ⟨hk, hbefore⟩⟩, hk'⟩
    · obtain ⟨outcome, hhas⟩ : ∃ outcome, k.Has (internalName name) outcome := by
        simpa [Container.Lacks] using hk
      exact .inr ⟨k, outcome, ⟨[], rest, rfl, by simp⟩, hhas⟩

theorem overlay?_eq_none (h : ∀ d ∈ s.overlays, d.name ≠ name) : s.overlay? name = none :=
  List.find?_eq_none.2 fun d hd => by simpa using h d hd

theorem name_ne_of_overlay?_eq_none (h : s.overlay? name = none) :
    ∀ d ∈ s.overlays, d.name ≠ name :=
  fun d hd => by simpa using List.find?_eq_none.1 h d hd

/-- What is supplied is what is loaded. -/
theorem Supplies.load_eq {answer : Answer} (h : s.Supplies name answer) : s.load name = answer := by
  cases h with
  | atHand h hc hn =>
    refine load_of_overlay (List.find?_eq_some_iff_append.2 ⟨by simpa using hc, _, _, h, ?_⟩)
    intro d hd
    simpa using hn d hd
  | file ho hk hfile hp | malformed ho hk hfile hp =>
    rw [load_of_no_overlay (overlay?_eq_none ho), hk.loadFrom_eq hfile, hfile.load_of_file, hp]
    rfl
  | unreadable ho hk hfile =>
    rw [load_of_no_overlay (overlay?_eq_none ho), hk.loadFrom_eq hfile, hfile.load_of_error]
  | missing ho hk => rw [load_of_no_overlay (overlay?_eq_none ho), loadFrom_eq_none hk]

/-- There is something for every name, if only nothing. -/
theorem exists_supplies (s : ClassSource) (name : String) : ∃ answer, s.Supplies name answer := by
  cases ho : s.overlay? name with
  | some c =>
    obtain ⟨hname, newer, older, hsplit, hnewer⟩ := List.find?_eq_some_iff_append.1 ho
    refine ⟨_, .atHand hsplit (by simpa using hname) ?_⟩
    intro d hd
    simpa using hnewer d hd
  | none =>
    have ho' := name_ne_of_overlay?_eq_none ho
    rcases s.forall_lacks_or_decides name with hnone | ⟨k, outcome, hk, hfile⟩
    · exact ⟨_, .missing ho' hnone⟩
    · cases outcome with
      | error e => exact ⟨_, .unreadable ho' hk hfile⟩
      | ok file =>
        cases hp : ClassFile.parse .outline file.1 with
        | ok c => exact ⟨_, .file ho' hk hfile hp⟩
        | error e => exact ⟨_, .malformed ho' hk hfile hp⟩

/-- A look-up gives what there is. -/
theorem supplies_iff {answer : Answer} : s.Supplies name answer ↔ s.load name = answer := by
  refine ⟨Supplies.load_eq, fun h => ?_⟩
  obtain ⟨answer', hs⟩ := s.exists_supplies name
  rw [hs.load_eq] at h
  exact h ▸ hs

/-! ## Class paths without failures -/

/-- Every look-up succeeds: it finds a class, or finds that there is none. -/
def Readable (s : ClassSource) : Prop := ∀ name, ∃ found, s.load name = .ok found

/-- No look-up fails if all classes can be read. -/
theorem Readable.load_ne_error (h : s.Readable) (name : String) (e : ClasspathError) :
    s.load name ≠ .error e := by
  obtain ⟨found, hfound⟩ := h name
  rw [hfound]
  simp

end ClassSource

namespace Container

/-- All that a container has are class files. -/
def Intact (k : Container) : Prop := ∀ internal outcome, k.Has internal outcome →
  ∃ data origin c, outcome = .ok (data, origin) ∧ ClassFile.parse .outline data = .ok c

/-- No look-up in an intact container fails. -/
theorem Intact.load_eq_ok {k : Container} (h : k.Intact) (internal : String) :
    ∃ found, k.load internal = .ok found := by
  by_cases hk : k.Lacks internal
  · exact ⟨none, hk.load_eq⟩
  · obtain ⟨outcome, hhas⟩ : ∃ outcome, k.Has internal outcome := by simpa [Lacks] using hk
    obtain ⟨data, origin, c, rfl, hp⟩ := h _ _ hhas
    refine ⟨some c, ?_⟩
    rw [hhas.load_of_file, hp]
    rfl

/-- A file that holds a class. -/
def isClassFile (data : Bytes) : Bool := (ClassFile.parse .outline data).isOk

theorem exists_parse_of_isClassFile {data : Bytes} (h : isClassFile data = true) :
    ∃ c, ClassFile.parse .outline data = .ok c := by
  unfold isClassFile at h
  cases hp : ClassFile.parse .outline data with
  | ok c => exact ⟨c, rfl⟩
  | error e =>
    rw [hp] at h
    cases h

/-- A directory is intact if all files that can be reached are class files. -/
theorem intact_directory {root : String} {files : FileTree}
    (h : files.root.outcomes.all fun content =>
      content.toOption.any fun data => isClassFile data.toList) :
    (Container.directory root files).Intact := by
  intro internal outcome hhas
  cases hhas with
  | file hleads =>
    have hmem := FileTree.mem_outcomes_of_find (FileTree.find_join_eq_ok_iff.2 hleads)
    obtain ⟨c, hp⟩ := exists_parse_of_isClassFile (List.all_eq_true.1 h _ hmem)
    exact ⟨_, _, c, rfl, hp⟩
  | locked hleads =>
    have hmem := FileTree.mem_outcomes_of_find (FileTree.find_join_eq_ok_iff.2 hleads)
    cases List.all_eq_true.1 h _ hmem

end Container

namespace NamedFiles

/-- Files given by a list. -/
def ofList (files : List (String × Bytes)) : NamedFiles where
  find name := .ok ((files.lookup name).map fun data => ⟨data.length, .ok data⟩)
  contents := files.map (·.2)
  mem_contents := by
    intro name file data hfile hdata
    obtain ⟨found, hfound, rfl⟩ := Option.map_eq_some_iff.1 (Except.ok.inj hfile)
    cases hdata
    obtain ⟨front, back, hsplit, _⟩ := List.lookup_eq_some_iff.1 hfound
    exact List.mem_map.2 ⟨(name, data), by rw [hsplit]; simp, rfl⟩

end NamedFiles

/-- An archive is intact if all its files are class files. -/
theorem Container.intact_archive {path folder : String} {files : List (String × Bytes)}
    (h : files.all fun file => file.2.length ≤ maxCapacity && isClassFile file.2) :
    (Container.archive path folder (.ofList files)).Intact := by
  have hfiles : ∀ {name found}, (NamedFiles.ofList files).find name = .ok (some found) →
      found.size ≤ maxCapacity ∧ ∃ data c, found.data = .ok data ∧
          ClassFile.parse .outline data = .ok c := by
    intro name found hfind
    obtain ⟨data, hdata, rfl⟩ := Option.map_eq_some_iff.1 (Except.ok.inj hfind)
    obtain ⟨front, back, hsplit, _⟩ := List.lookup_eq_some_iff.1 hdata
    have hmem : (name, data) ∈ files := by rw [hsplit]; simp
    have hall := List.all_eq_true.1 h _ hmem
    rw [Bool.and_eq_true, decide_eq_true_eq] at hall
    obtain ⟨c, hp⟩ := exists_parse_of_isClassFile hall.2
    exact ⟨hall.1, data, c, rfl, hp⟩
  intro internal outcome hhas
  cases hhas with
  | entry hfind _ hdata =>
    obtain ⟨_, data, c, hdata', hp⟩ := hfiles hfind
    cases hdata.symm.trans hdata'
    exact ⟨_, _, c, rfl, hp⟩
  | damaged hfind _ hdata =>
    obtain ⟨_, data, c, hdata', hp⟩ := hfiles hfind
    cases hdata.symm.trans hdata'
  | overlarge hfind hsize => exact absurd hsize (Nat.not_lt.2 (hfiles hfind).1)
  | unopened hfind => cases hfind

namespace ClassSource

/-- A source over intact containers can be read. -/
theorem readable_of_containers {s : ClassSource} (h : ∀ k ∈ s.containers, k.Intact) :
    s.Readable := by
  intro name
  cases ho : s.overlay? name with
  | some c => exact ⟨_, load_of_overlay ho⟩
  | none =>
    rw [load_of_no_overlay ho]
    generalize s.containers = containers at h
    induction containers with
    | nil => exact ⟨none, rfl⟩
    | cons k rest ih =>
      obtain ⟨hk, hrest⟩ := List.forall_mem_cons.1 h
      obtain ⟨found, hfound⟩ := hk.load_eq_ok (internalName name)
      unfold loadFrom
      rw [hfound]
      cases found with
      | none => exact ih hrest
      | some c => exact ⟨_, rfl⟩

end ClassSource

/-! ## A class path

A method that is declared in a base class and inherited by a derived one. The derived class is in a
directory, and the base class is in an archive. -/

namespace InheritedCall

/-- Declares the method. -/
def base : ClassFile :=
  ⟨"lib.Base", 33, 52, none, none, [], [], [], [⟨"run", "()V", 9, [], [], none⟩]⟩

/-- Inherits the method. -/
def derived : ClassFile := ⟨"lib.Derived", 33, 52, none, some "lib.Base", [], [], [], []⟩

def baseFile : Bytes := (Assembler.ClassSpec.build { Assembler.ClassSpec.ofName "lib.Base" with
  superClass := none, members := [.method (.ofBody "run" "()V" [.plain .voidReturn])] }).data

def derivedFile : Bytes := (Assembler.ClassSpec.build
  { Assembler.ClassSpec.ofName "lib.Derived" with superClass := some "lib.Base" }).data

def directory : Container := .directory "classes"
  ⟨.dir [("classes", .dir [("lib", .dir [("Derived.class", .file (.ok ⟨derivedFile.toArray⟩))])])],
    []⟩

def source : ClassSource :=
  ⟨[], [directory, .archive "lib.jar" "" (.ofList [("lib/Base.class", baseFile)])]⟩

theorem load_derived : source.load "lib.Derived" = .ok (some derived) := by decide +kernel

theorem readable_source : source.Readable := by
  refine ClassSource.readable_of_containers ?_
  simp only [source, List.forall_mem_cons, List.not_mem_nil, false_implies, implies_true, and_true]
  exact ⟨Container.intact_directory (by decide +kernel),
    Container.intact_archive (by decide +kernel)⟩

end InheritedCall

end JvmAudit
