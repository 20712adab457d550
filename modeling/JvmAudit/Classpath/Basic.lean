import JvmAudit.Classpath.Error

/-!
# Class paths

An ordered list of containers of classes: directories, archives, and module files, which are
archives with their classes under `classes/`.
-/

namespace JvmAudit

/-- The kinds of containers. -/
inductive ContainerKind where
  | directory
  | archive
  | jmod
  deriving DecidableEq, Repr

/-- An element of a class path. -/
structure ClasspathEntry where
  kind : ContainerKind
  path : String
  deriving DecidableEq, Repr

/-- The elements in the order in which they are searched. -/
abbrev Classpath := List ClasspathEntry

namespace Classpath

/-- The element for a path, if it leads to anything. -/
def classify (files : FileTree) (path : String) : Option ClasspathEntry :=
  if !files.pathExists path then none
  else if files.isDir path then some ⟨.directory, path⟩
  else if Path.hasExtension path "jmod" then some ⟨.jmod, path⟩
  else some ⟨.archive, path⟩

/-- The class path of those paths that lead to anything. -/
def ofPaths (files : FileTree) (paths : List String) : Classpath := paths.filterMap (classify files)

/-- The places of the runtime archive below a runtime directory. -/
def runtimeArchives : List String := ["jre/lib/rt.jar", "lib/rt.jar"]

/-- The containers of a runtime: its module files by name, or else its runtime archive. -/
def ofJavaHome (files : FileTree) (home : String) : Except ClasspathError Classpath :=
  let jmods := Path.join home "jmods"
  if files.isDir jmods then
    match files.names jmods with
    | .error e => .error (.io jmods (.file e))
    | .ok names =>
      let modules := (names.filter (Path.hasExtension · "jmod")).mergeSort (· ≤ ·)
      .ok (modules.map fun name => ⟨.jmod, Path.join jmods name⟩)
  else
    match (runtimeArchives.map (Path.join home)).find? files.isFile with
    | some path => .ok [⟨.archive, path⟩]
    | none => .error (.invalidJavaHome home)

end Classpath

end JvmAudit
