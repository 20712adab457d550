import JvmAudit.Storage.FileTree

/-!
# Where settings come from

A settings file that was asked for comes first, then one of the project, then the user's own. A
project's file lies in the working directory or in the directory with the classes.
-/

namespace JvmAudit

/-- Where the settings come from. -/
inductive SettingsSource where
  /-- A file that was asked for, whether it is there or not. -/
  | explicit (path : String)
  | project (path : String)
  /-- The user's own file. -/
  | personal (path : String)
  /-- There is no file. -/
  | none
deriving DecidableEq, Repr

namespace SettingsSource

/-- The file. -/
def path? : SettingsSource → Option String
  | .explicit path => some path
  | .project path => some path
  | .personal path => some path
  | .none => Option.none

/-- Whether the file is the user's own. -/
def isPersonal : SettingsSource → Bool
  | .personal _ => true
  | _ => false

/-- The names of a project's settings file, the preferred one first. -/
def projectNames : List String := ["forbidden-apis.toml", ".forbidden-apis.toml"]

/-- The files that a project may have, the preferred one first. -/
def projectFiles (classes : String) : List String :=
  let dirs := if Path.isCurrent classes then ["."] else [".", classes]
  dirs.flatMap fun dir => projectNames.map (Path.join dir)

/-- Finds the settings for the classes in a directory. -/
def find (files : FileTree) (classes : String) (explicit? personalDir? : Option String) :
    SettingsSource :=
  match explicit? with
  | some path => .explicit path
  | Option.none =>
    match (projectFiles classes).find? files.pathExists with
    | some path => .project path
    | Option.none =>
      match (personalDir?.map fun dir => Path.join dir "config.toml").filter files.pathExists with
      | some path => .personal path
      | Option.none => .none

end SettingsSource

end JvmAudit
