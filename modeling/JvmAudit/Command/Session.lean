import JvmAudit.Checker.Error

/-!
# Sessions

A session is what the program has done so far: what it printed and which files it wrote. Commands
are computations on sessions that may fail.
-/

namespace JvmAudit

/-- Why a command fails. -/
inductive Failure where
  | message (text : String)
  | checker (e : CheckerError)
  deriving DecidableEq, Repr

namespace Failure

/-- What a failure is reported as: its message, or the diagnostic code of an error of the check. -/
def headline : Failure → String
  | .message text => text
  | .checker e => e.code

/-- What is said about a failure behind its headline. -/
def details : Failure → List String
  | .message _ => []
  | .checker e => e.message :: (e.help?.map ("help: " ++ ·)).toList

end Failure

/-- What the program has done so far. -/
structure Session where
  files : FileTree
  output : String
  /-- The files that were written, by their paths. -/
  written : List (String × String)

/-- A computation on a session. What it did before it fails stays done. -/
abbrev Command := ExceptT Failure (StateM Session)

namespace Command

/-- Prints a text. -/
def print (text : String) : Command Unit := modify fun s => { s with output := s.output ++ text }

/-- Fails with a message. -/
def fail {α : Type} (text : String) : Command α := throw (.message text)

/-- Writes a file into a directory that is there; fails with the message that `failure` makes of the
cause. -/
def writeFile (path text : String) (failure : FileError → String) : Command Unit := do
  let s ← get
  match s.files.write path text.toUTF8 with
  | .ok files => set { s with files, written := s.written ++ [(path, text)] }
  | .error e => fail (failure e)

/-- Makes the directory of a path. Directories that were made before a failure stay. -/
def makeParent (path : String) : Command Unit := do
  match (Path.parent? path).filter (!·.isEmpty) with
  | none => return ()
  | some parent =>
    let s ← get
    let (files, error) := s.files.makeDirs parent
    set { s with files }
    if error.isSome then fail s!"Failed to create {parent}"

end Command

end JvmAudit
