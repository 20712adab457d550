import JvmAudit.Command.Check
import JvmAudit.Command.Init
import JvmAudit.Command.ListBundled

/-!
# The program

The program as a function of its arguments and the files that it sees.
-/

namespace JvmAudit

/-- What a run of the program comes to. -/
structure Outcome where
  /-- Zero if all is well, one for a failure, two for arguments that are not acceptable. -/
  exitCode : UInt32
  failure : Option Failure
  session : Session

namespace Program

/-- The name and version of the program. -/
def version : String := "forbidden-apis 0.4.2"

/-- How the program is called. -/
def usage : String :=
  "Usage: forbidden-apis [-v] [-c CONFIG] check [OPTIONS] [PATH] | list-bundled | init [--force]"

/-- Carries out a request. -/
def execute (personalDir : Option String) : Request → Command Unit
  | .check request settings => Command.check request settings personalDir
  | .listBundled => Command.listBundled
  | .init force => Command.init force

/-- Runs the program. The user's own settings are in `personalDir`. -/
def run (files : FileTree) (personalDir : Option String) (arguments : List String) : Outcome :=
  let session (output : String) : Session := ⟨files, output, []⟩
  match Request.read arguments with
  | .error .usage => ⟨2, none, session ""⟩
  | .error .version => ⟨0, none, session (version ++ "\n")⟩
  | .error .help => ⟨0, none, session (usage ++ "\n")⟩
  | .ok request =>
    match (ExceptT.run (execute personalDir request)).run (session "") with
    | (.ok (), s) => ⟨0, none, s⟩
    | (.error e, s) => ⟨1, some e, s⟩

end Program

end JvmAudit
