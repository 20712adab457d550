import JvmAudit.Command.Check
import JvmAudit.Command.Init

/-!
# What a run looks at

The paths that a run of the program may look at: first those of settings files, and once these are
known, those of the classes and rules that they name.
-/

namespace JvmAudit

namespace Request

/-- The files that may hold the settings of a request. -/
def settingsFiles (personalDir : Option String) : Request → List String
  | .check request settings =>
    settings.toList ++ SettingsSource.projectFiles (request.classes.getD ".") ++
      (personalDir.map fun dir => Path.join dir "config.toml").toList
  | .listBundled => []
  | .init _ => [Command.settingsName]

end Request

namespace CheckPlan

/-- The containers of a runtime. -/
def runtimePaths (home : String) : List String :=
  ("jmods" :: Classpath.runtimeArchives).map (Path.join home)

/-- The paths that a plan names. -/
def paths (p : CheckPlan) : List String :=
  [p.classes] ++ p.classpath ++ p.javaHome.toList.flatMap runtimePaths ++ p.signaturesFiles ++
    p.report.toList

end CheckPlan

namespace Request

/-- The other paths that a request looks at; its settings are among the files. -/
def inputs (files : FileTree) (personalDir : Option String) : Request → List String
  | .check request settings =>
    let source := SettingsSource.find files (request.classes.getD ".") settings personalDir
    match Settings.ofSource files source with
    | .ok s => (request.plan s).paths
    | .error _ => []
  | .listBundled => []
  | .init _ => []

end Request

end JvmAudit
