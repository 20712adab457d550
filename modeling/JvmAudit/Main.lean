import JvmAudit.Command.Inputs
import JvmAudit.Command.Program

/-!
# The command line

The files that a run looks at are read into a file tree, the program runs on it, and what it printed
and wrote goes to the console and to the disk.
-/

namespace JvmAudit.Main

/-- Copies what a path leads to into a tree; a path that leads nowhere adds nothing. -/
partial def load (files : FileTree) (path : String) : IO FileTree := do
  let place := (← IO.currentDir) / path
  if ← place.isDir then
    let files := (files.makeDirs path).1
    (← place.readDir).foldlM (fun files entry => load files (Path.join path entry.fileName)) files
  else if ← place.pathExists then
    let data ← IO.FS.readBinFile place
    let files := match (Path.parent? path).filter (!·.isEmpty) with
      | some parent => (files.makeDirs parent).1
      | none => files
    return ((files.write path data).toOption).getD files
  else return files

/-- The names that lead to the working directory. -/
def workdir : IO (List String) := do
  return (FileTree.components (← IO.currentDir).toString).filter (!·.isEmpty)

/-- The directory with the user's own settings. -/
def personalDir : IO (Option String) := do
  match ← IO.getEnv "FORBIDDEN_APIS_CONFIG_DIR" with
  | some dir => return some dir
  | none => return (← IO.getEnv "HOME").map fun home => Path.join home ".forbidden-apis"

/-- The files that a run looks at. -/
def snapshot (personalDir : Option String) (arguments : List String) : IO FileTree := do
  let files : FileTree := ⟨.dir [], ← workdir⟩
  match Request.read arguments with
  | .error _ => return files
  | .ok request =>
    let files ← (request.settingsFiles personalDir).foldlM load files
    (request.inputs files personalDir).foldlM load files

/-- Puts a file on the disk. -/
def save (path text : String) : IO Unit := do
  if let some parent := (Path.parent? path).filter (!·.isEmpty) then IO.FS.createDirAll parent
  IO.FS.writeFile path text

end JvmAudit.Main

open JvmAudit in
/-- Runs the program. -/
def main (arguments : List String) : IO UInt32 := do
  let personalDir ← Main.personalDir
  let outcome := Program.run (← Main.snapshot personalDir arguments) personalDir arguments
  IO.print outcome.session.output
  outcome.session.written.forM fun (path, text) => Main.save path text
  if let some failure := outcome.failure then
    IO.eprintln ("Error: " ++ failure.headline)
    failure.details.forM fun line => IO.eprintln line
  if outcome.exitCode = 2 then IO.eprintln Program.usage
  return outcome.exitCode
