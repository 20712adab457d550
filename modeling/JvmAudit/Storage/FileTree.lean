import JvmAudit.Storage.Path

/-!
# File trees

Files and directories as a value. A path is followed component by component from the working
directory, or from the root if it is absolute. The directory above the root is the root.

A file may be there and not be readable. What can be read is one of finitely many contents
(`FileTree.mem_contents_of_read`).

A directory can be made together with those above it (`FileTree.makeDirs`); those that were made
before a failure stay.

## Termination

`FileTree.makeDirs` goes from a path to its parent, which is shorter.
-/

namespace JvmAudit

/-- Why a file cannot be reached. -/
inductive FileError where
  | notFound
  | notDirectory
  | isDirectory
  | alreadyExists
  | permissionDenied
  /-- A path, or a component of it, has too many bytes. -/
  | nameTooLong
  /-- A path with a zero character. -/
  | zeroInPath
  /-- The file is read as text and is not UTF-8. -/
  | notText
  deriving DecidableEq, Repr

namespace FileError

/-- The text of an error. -/
def message : FileError → String
  | .notFound => "No such file or directory (os error 2)"
  | .notDirectory => "Not a directory (os error 20)"
  | .isDirectory => "Is a directory (os error 21)"
  | .alreadyExists => "File exists (os error 17)"
  | .permissionDenied => "Permission denied (os error 13)"
  | .nameTooLong => "File name too long (os error 36)"
  | .zeroInPath => "file name contained an unexpected NUL byte"
  | .notText => "stream did not contain valid UTF-8"

end FileError

/-- A file or a directory. -/
inductive Node where
  /-- A file, with what reading it gives. -/
  | file (content : Except FileError ByteArray)
  | dir (entries : List (String × Node))

namespace Node

/-- Whether this is a directory. -/
def isDir : Node → Bool
  | .dir _ => true
  | .file _ => false

/-- Directory entries with one more, which replaces an entry of the same name. -/
def setEntry (name : String) (node : Node) : List (String × Node) → List (String × Node)
  | [] => [(name, node)]
  | (n, old) :: rest => if n = name then (name, node) :: rest
    else (n, old) :: setEntry name node rest

mutual

/-- The files at or below a node, with the names that lead to them. -/
def files : Node → List (List String × Except FileError ByteArray)
  | .file content => [([], content)]
  | .dir entries => entryFiles entries

/-- The files at or below the entries of a directory. -/
def entryFiles : List (String × Node) → List (List String × Except FileError ByteArray)
  | [] => []
  | (name, node) :: rest =>
    (files node).map (fun (names, content) => (name :: names, content)) ++ entryFiles rest

end

mutual

/-- The names that lead to the directories at or below a node. -/
def directories : Node → List (List String)
  | .file _ => []
  | .dir entries => [] :: entryDirectories entries

/-- The names that lead to the directories at or below the entries of a directory. -/
def entryDirectories : List (String × Node) → List (List String)
  | [] => []
  | (name, node) :: rest => (directories node).map (name :: ·) ++ entryDirectories rest

end

/-- What reading the files at or below a node gives. -/
def outcomes (node : Node) : List (Except FileError ByteArray) := node.files.map (·.2)

end Node

/-- A node and the way to it. -/
structure Place where
  node : Node
  /-- The directories above, innermost first: the name of the way down and the entries. -/
  above : List (String × List (String × Node))

namespace Place

/-- The top of a tree. -/
def top (node : Node) : Place := ⟨node, []⟩

/-- The directory above. -/
def up (p : Place) : Place :=
  match p.above with
  | (name, entries) :: above => ⟨.dir (Node.setEntry name p.node entries), above⟩
  | [] => p

/-- The entry of a directory, or an empty directory if there is none. -/
def down (p : Place) (name : String) : Place :=
  match p.node with
  | .dir entries => ⟨(entries.lookup name).getD (.dir []), (name, entries) :: p.above⟩
  | .file _ => p

/-- The greatest number of bytes that a name may have. -/
def maxNameBytes : Nat := 255

/-- Follows one component of a path. -/
def step (p : Place) (name : String) : Except FileError Place :=
  match p.node with
  | .file _ => .error .notDirectory
  | .dir entries =>
    if name = "" || name = "." then .ok p
    else if name = ".." then .ok p.up
    else if maxNameBytes < name.utf8ByteSize then .error .nameTooLong
    else
      match entries.lookup name with
      | some node => .ok ⟨node, (name, entries) :: p.above⟩
      | none => .error .notFound

/-- The tree with the node at a place put into it. -/
def rebuild (p : Place) : Node :=
  p.above.foldl (fun node (name, entries) => .dir (Node.setEntry name node entries)) p.node

end Place

/-- The files that a program can see. -/
structure FileTree where
  /-- What absolute paths start from. -/
  root : Node
  /-- The names that lead to the working directory. -/
  workdir : List String

namespace FileTree

/-- No files. The working directory has no name, so that only relative paths lead to it. -/
def empty : FileTree := ⟨.dir [], [""]⟩

/-- The components of a path. -/
def components (path : String) : List String := (Text.splitOn '/' path.toList).map String.ofList

/-- Where a path starts. -/
def start (t : FileTree) (path : String) : Place :=
  if Path.isAbsolute path then .top t.root else t.workdir.foldl Place.down (.top t.root)

/-- The tree after a change at a place. -/
def updated (t : FileTree) (p : Place) : FileTree := { t with root := p.rebuild }

/-- Refuses paths that cannot lead anywhere. -/
def check (path : String) : Except FileError Unit :=
  if path.isEmpty then .error .notFound
  else if path.toList.contains '\x00' then .error .zeroInPath
  else if Path.isTooLong path then .error .nameTooLong
  else .ok ()

/-- Follows components from where a path starts. -/
def follow (t : FileTree) (path : String) (parts : List String) : Except FileError Place :=
  parts.foldlM Place.step (t.start path)

/-- The place that a path leads to. -/
def find (t : FileTree) (path : String) : Except FileError Place := do
  check path
  t.follow path (components path)

/-- Whether a path leads to anything. -/
def pathExists (t : FileTree) (path : String) : Bool := (t.find path).isOk

/-- Whether a path leads to a directory. -/
def isDir (t : FileTree) (path : String) : Bool :=
  match t.find path with
  | .ok p => p.node.isDir
  | .error _ => false

/-- Whether a path leads to a file. -/
def isFile (t : FileTree) (path : String) : Bool :=
  match t.find path with
  | .ok p => !p.node.isDir
  | .error _ => false

/-- The content of a file. -/
def read (t : FileTree) (path : String) : Except FileError ByteArray := do
  match (← t.find path).node with
  | .file content => content
  | .dir _ => throw .isDirectory

/-- The content of a text file. -/
def readText (t : FileTree) (path : String) : Except FileError String := do
  match String.fromUTF8? (← t.read path) with
  | some text => return text
  | none => throw .notText

/-- The names in a directory. -/
def names (t : FileTree) (path : String) : Except FileError (List String) := do
  match (← t.find path).node with
  | .dir entries => return entries.map (·.1)
  | .file _ => throw .notDirectory

/-- What can be read at all. -/
def contents (t : FileTree) : List ByteArray := t.root.outcomes.filterMap Except.toOption

/-! ## Changes -/

/-- The last component of a path, which separators may follow, and those in front of it; the root
has none. -/
def lastComponent? (path : String) : Option (String × List String) :=
  match (components path).reverse.dropWhile (·.isEmpty) with
  | [] => none
  | name :: above => some (name, above.reverse)

/-- Whether a component stands for a directory that is there anyway. -/
def isDots (name : String) : Bool := name == "." || name == ".."

/-- Puts a directory into one that is there. -/
def makeDirAt (p : Place) (name : String) : Except FileError Place :=
  match p.node with
  | .file _ => .error .notDirectory
  | .dir entries =>
    if isDots name then .error .alreadyExists
    else if Place.maxNameBytes < name.utf8ByteSize then .error .nameTooLong
    else if (entries.lookup name).isSome then .error .alreadyExists
    else .ok { p with node := .dir (Node.setEntry name (.dir []) entries) }

/-- Makes a directory in one that is there. -/
def makeDir (t : FileTree) (path : String) : Except FileError FileTree := do
  check path
  match lastComponent? path with
  | none => throw .alreadyExists
  | some (name, above) => return t.updated (← makeDirAt (← t.follow path above) name)

/-- Makes a directory in one that is there, unless there is one already. -/
def ensureDir (t : FileTree) (path : String) : FileTree × Option FileError :=
  match t.makeDir path with
  | .ok t => (t, none)
  | .error e => (t, if t.isDir path then none else some e)

/-- Makes a directory and those above it that are missing. The tree is as it is afterwards, also if
there is an error. -/
def makeDirs (t : FileTree) (path : String) : FileTree × Option FileError :=
  match t.ensureDir path with
  | (t, some .notFound) =>
    match _h : Path.parent? path with
    | none => (t, some .notFound)
    | some parent =>
      if parent.isEmpty then t.ensureDir path
      else
        match t.makeDirs parent with
        | (t, none) => t.ensureDir path
        | failed => failed
  | result => result
termination_by path.length
decreasing_by exact Path.length_lt_of_parent? _h

/-- Writes a file into a directory. -/
def writeAt (p : Place) (name : String) (data : ByteArray) : Except FileError Place :=
  match p.node with
  | .file _ => .error .notDirectory
  | .dir entries =>
    if isDots name then .error .isDirectory
    else if Place.maxNameBytes < name.utf8ByteSize then .error .nameTooLong
    else
      match entries.lookup name with
      | some (.dir _) => .error .isDirectory
      | _ => .ok { p with node := .dir (Node.setEntry name (.file (.ok data)) entries) }

/-- Writes a file whose directory is there. -/
def write (t : FileTree) (path : String) (data : ByteArray) : Except FileError FileTree := do
  check path
  match lastComponent? path with
  | none => throw .isDirectory
  | some (name, above) =>
    let dir ← t.follow path above
    if dir.node.isDir && path.toList.getLast? = some '/' then throw .isDirectory
    return t.updated (← writeAt dir name data)

end FileTree

/-! ## Only finitely many files can be read -/

namespace Node

variable {name : String} {node : Node} {entries : List (String × Node)}
  {content : Except FileError ByteArray}

theorem mem_outcomes_iff : content ∈ node.outcomes ↔ ∃ names, (names, content) ∈ node.files := by
  unfold outcomes
  rw [List.mem_map]
  constructor
  · rintro ⟨⟨names, _⟩, hmem, rfl⟩
    exact ⟨names, hmem⟩
  · rintro ⟨names, hmem⟩
    exact ⟨_, hmem, rfl⟩

theorem mem_outcomes_dir_cons {rest : List (String × Node)} :
    content ∈ (Node.dir ((name, node) :: rest)).outcomes ↔
      content ∈ node.outcomes ∨ content ∈ (Node.dir rest).outcomes := by
  simp only [mem_outcomes_iff, files, entryFiles, List.mem_append, List.mem_map, Prod.mk.injEq]
  constructor
  · rintro ⟨names, ⟨⟨below, _⟩, hmem, rfl, rfl⟩ | hmem⟩
    · exact .inl ⟨below, hmem⟩
    · exact .inr ⟨_, hmem⟩
  · rintro (⟨names, hmem⟩ | ⟨names, hmem⟩)
    · exact ⟨_, .inl ⟨_, hmem, rfl, rfl⟩⟩
    · exact ⟨_, .inr hmem⟩

/-- To put a node in its own place changes nothing. -/
theorem setEntry_of_lookup (h : entries.lookup name = some node) :
    setEntry name node entries = entries := by
  induction entries with
  | nil => cases h
  | cons e rest ih =>
    obtain ⟨n, child⟩ := e
    rw [List.lookup_cons] at h
    split at h
    · next heq =>
      cases h
      rw [setEntry, if_pos (eq_of_beq heq).symm, eq_of_beq heq]
    · next hne =>
      rw [setEntry, if_neg (Ne.symm (beq_eq_false_iff_ne.1 hne)), ih h]

theorem mem_outcomes_setEntry (h : content ∈ node.outcomes) :
    content ∈ (Node.dir (setEntry name node entries)).outcomes := by
  induction entries with
  | nil => exact mem_outcomes_dir_cons.2 (.inl h)
  | cons e rest ih =>
    rw [setEntry]
    split
    · exact mem_outcomes_dir_cons.2 (.inl h)
    · exact mem_outcomes_dir_cons.2 (.inr ih)

/-- What is there after a change was there before, or came with the new node. -/
theorem outcomes_setEntry_subset {node' : Node} (h : node.outcomes ⊆ node'.outcomes) :
    (Node.dir (setEntry name node entries)).outcomes ⊆
      (Node.dir (setEntry name node' entries)).outcomes := by
  induction entries with
  | nil =>
    intro content hmem
    rw [setEntry, mem_outcomes_dir_cons] at hmem ⊢
    exact hmem.imp_left fun hin => h hin
  | cons e rest ih =>
    intro content hmem
    rw [setEntry] at hmem ⊢
    split at hmem
    · next heq =>
      rw [if_pos heq]
      rw [mem_outcomes_dir_cons] at hmem ⊢
      exact hmem.imp_left fun hin => h hin
    · next hne =>
      rw [if_neg hne]
      rw [mem_outcomes_dir_cons] at hmem ⊢
      exact hmem.imp_right fun hin => ih hin

theorem outcomes_setEntry_nil_subset (h : entries.lookup name = none) :
    (Node.dir (setEntry name (.dir []) entries)).outcomes ⊆ (Node.dir entries).outcomes := by
  induction entries with
  | nil =>
    intro content hmem
    rw [setEntry, mem_outcomes_dir_cons] at hmem
    exact hmem.elim id id
  | cons e rest ih =>
    obtain ⟨n, child⟩ := e
    rw [List.lookup_cons] at h
    split at h
    · cases h
    · next hne =>
      intro content hmem
      rw [setEntry, if_neg (Ne.symm (beq_eq_false_iff_ne.1 hne))] at hmem
      rw [mem_outcomes_dir_cons] at hmem ⊢
      exact hmem.imp_right fun hin => ih h hin

end Node

namespace Place

variable {p q : Place} {name : String}

/-- The tree around a node, by the directories above it. -/
theorem rebuild_cons (node : Node) (name : String) (entries : List (String × Node))
    (above : List (String × List (String × Node))) :
    rebuild ⟨node, (name, entries) :: above⟩ =
      rebuild ⟨.dir (Node.setEntry name node entries), above⟩ := rfl

theorem outcomes_rebuild_subset {node node' : Node} (h : node.outcomes ⊆ node'.outcomes)
    (above : List (String × List (String × Node))) :
    (rebuild ⟨node, above⟩).outcomes ⊆ (rebuild ⟨node', above⟩).outcomes := by
  induction above generalizing node node' with
  | nil => exact h
  | cons e above ih =>
    rw [rebuild_cons, rebuild_cons]
    exact ih (Node.outcomes_setEntry_subset h)

/-- What can be read at a place can be read in the tree around it. -/
theorem outcomes_subset_rebuild (p : Place) : p.node.outcomes ⊆ p.rebuild.outcomes := by
  obtain ⟨node, above⟩ := p
  induction above generalizing node with
  | nil => exact List.Subset.refl _
  | cons e above ih =>
    intro content hmem
    rw [rebuild_cons]
    exact ih _ (Node.mem_outcomes_setEntry hmem)

theorem rebuild_up (p : Place) : p.up.rebuild = p.rebuild := by
  obtain ⟨node, above⟩ := p
  cases above with
  | nil => rfl
  | cons e above => rfl

/-- A step does not change the tree. -/
theorem rebuild_step (h : p.step name = .ok q) : q.rebuild = p.rebuild := by
  obtain ⟨node, above⟩ := p
  cases node with
  | file content => cases h
  | dir entries =>
    simp only [step] at h
    split at h
    · cases h
      rfl
    · split at h
      · cases h
        exact rebuild_up _
      · split at h
        · cases h
        · split at h
          · next hlookup =>
            cases h
            rw [rebuild_cons, Node.setEntry_of_lookup hlookup]
          · cases h

theorem rebuild_foldlM {parts : List String} (h : parts.foldlM step p = .ok q) :
    q.rebuild = p.rebuild := by
  induction parts generalizing p with
  | nil =>
    cases h
    rfl
  | cons name parts ih =>
    rw [List.foldlM_cons] at h
    cases hstep : p.step name with
    | error e =>
      rw [hstep] at h
      cases h
    | ok next =>
      rw [hstep] at h
      rw [ih h, rebuild_step hstep]

/-- Going down, even to where nothing is, adds nothing that can be read. -/
theorem outcomes_rebuild_down (p : Place) (name : String) :
    (p.down name).rebuild.outcomes ⊆ p.rebuild.outcomes := by
  obtain ⟨node, above⟩ := p
  cases node with
  | file content => exact List.Subset.refl _
  | dir entries =>
    show (rebuild ⟨_, (name, entries) :: above⟩).outcomes ⊆ _
    rw [rebuild_cons]
    refine outcomes_rebuild_subset ?_ above
    cases hlookup : entries.lookup name with
    | some node =>
      rw [Option.getD_some, Node.setEntry_of_lookup hlookup]
      exact List.Subset.refl _
    | none => exact Node.outcomes_setEntry_nil_subset hlookup

theorem outcomes_rebuild_foldl_down (names : List String) (p : Place) :
    (names.foldl down p).rebuild.outcomes ⊆ p.rebuild.outcomes := by
  induction names generalizing p with
  | nil => exact List.Subset.refl _
  | cons name names ih => exact List.Subset.trans (ih _) (outcomes_rebuild_down p name)

end Place

namespace FileTree

variable {t : FileTree} {path : String}

/-- What a path leads to is in the tree. -/
theorem outcomes_subset_of_find {p : Place} (h : t.find path = .ok p) :
    p.node.outcomes ⊆ t.root.outcomes := by
  have hstart : (t.start path).rebuild.outcomes ⊆ t.root.outcomes := by
    unfold start
    split
    · exact List.Subset.refl _
    · exact Place.outcomes_rebuild_foldl_down _ _
  unfold find at h
  cases hcheck : check path with
  | error e =>
    rw [hcheck] at h
    cases h
  | ok _ =>
    rw [hcheck] at h
    have hrebuild : p.rebuild = (t.start path).rebuild := Place.rebuild_foldlM h
    exact List.Subset.trans (hrebuild ▸ Place.outcomes_subset_rebuild p) hstart

/-- What a file gives is one of finitely many outcomes. -/
theorem mem_outcomes_of_find {content : Except FileError ByteArray}
    {above : List (String × List (String × Node))}
    (h : t.find path = .ok ⟨.file content, above⟩) : content ∈ t.root.outcomes :=
  outcomes_subset_of_find h (List.mem_singleton.2 rfl)

/-- What can be read is one of finitely many contents. -/
theorem mem_contents_of_read {data : ByteArray} (h : t.read path = .ok data) :
    data ∈ t.contents := by
  unfold read at h
  cases hfind : t.find path with
  | error e =>
    rw [hfind] at h
    cases h
  | ok p =>
    obtain ⟨node, above⟩ := p
    rw [hfind] at h
    cases node with
    | dir entries => cases h
    | file content =>
      obtain rfl : content = .ok data := h
      exact List.mem_filterMap.2 ⟨_, mem_outcomes_of_find hfind, rfl⟩

end FileTree

end JvmAudit
