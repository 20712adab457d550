import JvmAudit.ClassFile.Error
import JvmAudit.Storage.Archive.Content
import JvmAudit.Storage.FileTree

/-!
# What can be wrong with a class path

The causes for which a container cannot be opened, or a class in it cannot be read.
-/

namespace JvmAudit

/-- The cause of a failed read. -/
inductive ReadError where
  | file (e : FileError)
  | data (e : EntryDataError)
  /-- A file is announced to be larger than anything that can be held. -/
  | capacity
  deriving DecidableEq, Repr

/-- The text of an error. -/
def ReadError.message : ReadError → String
  | .file e => e.message
  | .data e => e.message
  | .capacity => "capacity overflow"

/-- Why a class, or the container it should be in, cannot be read. -/
inductive ClasspathError where
  | io (path : String) (cause : ReadError)
  | zip (path : String) (cause : ArchiveError)
  /-- A class file is malformed; `origin` is where it was found. -/
  | classFile (origin : String) (cause : ClassError)
  /-- A runtime directory with neither modules nor a runtime archive. -/
  | invalidJavaHome (path : String)
  deriving DecidableEq, Repr

namespace ClasspathError

/-- The text of an error. -/
def message : ClasspathError → String
  | .io path cause => s!"IO error while reading {path}: {cause.message}"
  | .zip path cause => s!"ZIP error while reading {path}: {cause.message}"
  | .classFile origin cause => s!"Class parse error in {origin}: {cause.message}"
  | .invalidJavaHome path => s!"no jmods directory or rt.jar found under java home {path}"

end ClasspathError

end JvmAudit
