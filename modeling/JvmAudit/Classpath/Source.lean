import JvmAudit.ClassFile.Parser
import JvmAudit.Classpath.Basic

/-!
# Finding classes

A source of classes: classes that are at hand, which come first, and opened containers. The first
container that has a file for a name decides: if that file cannot be read, the class cannot be
loaded. Classes from containers are read without method bodies.

Only finitely many classes can be loaded, so only finitely many names are mentioned as supertypes
(`ClassSource.supertypes_subset_mentioned`).
-/

namespace JvmAudit

/-- An opened container. -/
inductive Container where
  /-- A directory, and the files among which its path leads to it. -/
  | directory (path : String) (files : FileTree)
  /-- An archive; the classes lie below `folder`. -/
  | archive (path : String) (folder : String) (files : NamedFiles)

namespace Container

/-- Opens an element of a class path. -/
def ofEntry (files : FileTree) (entry : ClasspathEntry) : Except ClasspathError Container :=
  match entry.kind with
  | .directory =>
    match files.names entry.path with
    | .ok _ => .ok (.directory entry.path files)
    | .error e => .error (.io entry.path (.file e))
  | .archive => archiveIn ""
  | .jmod => archiveIn "classes/"
where
  archiveIn (folder : String) : Except ClasspathError Container :=
    match files.read entry.path with
    | .error .isDirectory => .error (.zip entry.path .isDirectory)
    | .error e => .error (.io entry.path (.file e))
    | .ok data =>
      match Archive.ofBytes data with
      | .ok a => .ok (.archive entry.path folder a.files)
      | .error e => .error (.zip entry.path e)

/-- The name of the file for a class. -/
def fileName (internal : String) : String := internal ++ ".class"

/-- The greatest size of anything that can be held. -/
def maxCapacity : Nat := 0x7FFFFFFFFFFFFFFF

/-- The bytes of a class file and where it was found. The path of a class whose internal name starts
with a separator does not lead into the directory. -/
def read (c : Container) (internal : String) : Except ClasspathError (Option (Bytes × String)) :=
  match c with
  | .directory root files =>
    let path := Path.join root (fileName internal)
    if files.isFile path then
      match files.read path with
      | .ok data => .ok (some (data.toList, path))
      | .error e => .error (.io path (.file e))
    else .ok none
  | .archive path folder files =>
    let name := folder ++ fileName internal
    match files.find name with
    | .error e => .error (.zip path e)
    | .ok none => .ok none
    | .ok (some file) =>
      if maxCapacity < file.size then .error (.io path .capacity)
      else
        match file.data with
        | .ok data => .ok (some (data, path ++ "!/" ++ name))
        | .error e => .error (.io path (.data e))

/-- Loads a class from a container. -/
def load (c : Container) (internal : String) : Except ClasspathError (Option ClassFile) := do
  match ← c.read internal with
  | none => return none
  | some (data, origin) =>
    match ClassFile.parse .outline data with
    | .ok cls => return some cls
    | .error e => throw (.classFile origin e)

/-- All that can be read. -/
def contents : Container → List Bytes
  | .directory _ files => files.contents.map (·.toList)
  | .archive _ _ files => files.contents

end Container

/-- Where classes are loaded from. -/
structure ClassSource where
  /-- Classes at hand, the latest first. -/
  overlays : List ClassFile
  containers : List Container

namespace ClassSource

/-- Opens all elements of a class path. -/
def ofClasspath (files : FileTree) (classpath : Classpath) : Except ClasspathError ClassSource := do
  return ⟨[], ← classpath.mapM (Container.ofEntry files)⟩

/-- Adds a class at hand; it replaces one of the same name. -/
def addOverlay (s : ClassSource) (c : ClassFile) : ClassSource :=
  { s with overlays := c :: s.overlays }

/-- The class at hand with a name. -/
def overlay? (s : ClassSource) (name : String) : Option ClassFile :=
  s.overlays.find? (·.name == name)

/-- Loads a class from the first container that has a file for it. -/
def loadFrom (internal : String) : List Container → Except ClasspathError (Option ClassFile)
  | [] => .ok none
  | c :: rest =>
    match c.load internal with
    | .ok none => loadFrom internal rest
    | result => result

/-- Loads a class by its dotted name; none if it is missing. -/
def load (s : ClassSource) (name : String) : Except ClasspathError (Option ClassFile) :=
  match s.overlay? name with
  | some c => .ok (some c)
  | none => loadFrom (internalName name) s.containers

/-- All classes that can be loaded. -/
def classes (s : ClassSource) : List ClassFile :=
  s.overlays ++ s.containers.flatMap fun c => c.contents.filterMap fun data =>
    (ClassFile.parse .outline data).toOption

/-- The names of supertypes of classes that can be loaded. -/
def mentioned (s : ClassSource) : List String := s.classes.flatMap ClassFile.supertypes

end ClassSource

/-! ## Only finitely many classes can be loaded -/

theorem Container.mem_contents_of_read {c : Container} {internal origin : String} {data : Bytes}
    (h : c.read internal = .ok (some (data, origin))) : data ∈ c.contents := by
  cases c with
  | directory root files =>
    simp only [Container.read] at h
    split at h
    · split at h
      · next raw hraw =>
        cases h
        exact List.mem_map_of_mem (FileTree.mem_contents_of_read hraw)
      · cases h
    · cases h
  | archive path folder files =>
    simp only [Container.read] at h
    split at h
    · cases h
    · cases h
    · next file hfile =>
      split at h
      · cases h
      · split at h
        · next hdata =>
          cases h
          exact files.mem_contents hfile hdata
        · cases h

theorem Container.mem_of_load {c : Container} {internal : String} {cls : ClassFile}
    (h : c.load internal = .ok (some cls)) :
    cls ∈ c.contents.filterMap fun data => (ClassFile.parse .outline data).toOption := by
  simp only [Container.load, bind, Except.bind] at h
  split at h
  · cases h
  · next r hr =>
    split at h
    · cases h
    · next data origin =>
      split at h
      · next cls' hp =>
        cases h
        exact List.mem_filterMap.2 ⟨data, Container.mem_contents_of_read hr,
          by simp [hp, Except.toOption]⟩
      · cases h

namespace ClassSource

variable {s : ClassSource} {name : String} {c : ClassFile}

/-- A class that can be loaded from containers is one of finitely many. -/
theorem mem_classes_of_loadFrom {internal : String}
    (h : loadFrom internal s.containers = .ok (some c)) :
    c ∈ s.classes := by
  refine List.mem_append_right _ (List.mem_flatMap.2 ?_)
  generalize s.containers = containers at h
  induction containers with
  | nil => cases h
  | cons k rest ih =>
    unfold loadFrom at h
    split at h
    · obtain ⟨k', hk', hc⟩ := ih h
      exact ⟨k', List.mem_cons_of_mem _ hk', hc⟩
    · exact ⟨k, List.mem_cons_self, Container.mem_of_load h⟩

theorem load_of_overlay (h : s.overlay? name = some c) : s.load name = .ok (some c) := by
  unfold load
  rw [h]

theorem load_of_no_overlay (h : s.overlay? name = none) :
    s.load name = loadFrom (internalName name) s.containers := by
  unfold load
  rw [h]

/-- A class that can be loaded is one of finitely many. -/
theorem mem_classes_of_load (h : s.load name = .ok (some c)) : c ∈ s.classes := by
  cases ho : s.overlay? name with
  | some o =>
    rw [load_of_overlay ho] at h
    cases h
    exact List.mem_append_left _ (List.mem_of_find?_eq_some ho)
  | none =>
    rw [load_of_no_overlay ho] at h
    exact mem_classes_of_loadFrom h

/-- The supertypes of a class that can be loaded are mentioned. -/
theorem supertypes_subset_mentioned_of_loadFrom {internal : String}
    (h : loadFrom internal s.containers = .ok (some c)) : c.supertypes ⊆ s.mentioned :=
  fun _ hn => List.mem_flatMap.2 ⟨c, mem_classes_of_loadFrom h, hn⟩

/-- The supertypes of a class that can be loaded are mentioned. -/
theorem supertypes_subset_mentioned (h : s.load name = .ok (some c)) : c.supertypes ⊆ s.mentioned :=
  fun _ hn => List.mem_flatMap.2 ⟨c, mem_classes_of_load h, hn⟩

end ClassSource

end JvmAudit
