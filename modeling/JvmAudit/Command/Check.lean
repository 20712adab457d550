import JvmAudit.Command.Request
import JvmAudit.Command.Session
import JvmAudit.Settings.Basic
import JvmAudit.Settings.Source
import JvmAudit.Storage.PathPattern

/-!
# The check command

Settings and request together make a plan. The plan loads the rules, queues the class files below a
directory, runs the check and prints its report.

Without any rules there is nothing to do, which is a failure unless rules may go unresolved. A class
file of a later version ends the command without a report, which is not a failure unless the policy
says so.
-/

namespace JvmAudit

/-- Everything that a check is to do. -/
structure CheckPlan where
  /-- The directory with the classes to check. -/
  classes : String
  classpath : List String
  javaHome : Option String
  /-- Lines of rules. -/
  signatures : List String
  bundled : List String
  signaturesFiles : List String
  target : Option String
  suppress : List String
  included : List String
  excluded : List String
  policy : PolicySettings
  format : OutputFormat
  /-- The file for a report in XML. -/
  report : Option String
  deriving DecidableEq, Repr

namespace CheckRequest

/-- The policy of the settings, changed by what a request allows and forbids. -/
def policy (r : CheckRequest) (p : PolicySettings) : PolicySettings :=
  let o := p.options
  ⟨⟨o.forbidInternalRuntime || r.forbidInternalRuntime,
      o.failOnMissingClasses && !r.allowMissingClasses,
      o.failOnUnresolvableSignatures && !r.allowUnresolvableSignatures,
      o.failOnViolation && !r.allowViolations⟩,
    p.failOnUnsupportedFormat || r.failOnUnsupportedFormat⟩

/-- The plan for a request. Lists are extended by the request, and single values are overridden. -/
def plan (r : CheckRequest) (s : Settings) : CheckPlan where
  classes := (r.classes.or s.check.classes).getD "."
  classpath := s.check.classpath ++ r.classpath.flatMap Path.splitList
  javaHome := r.javaHome.or s.check.javaHome
  signatures := s.check.signatures ++ r.signatures
  bundled := s.check.bundled ++ r.bundled
  signaturesFiles := s.check.signaturesFiles ++ r.signaturesFiles
  target := r.target.or s.check.target
  suppress := s.check.suppress ++ r.suppress
  included := s.check.included ++ r.included
  excluded := s.check.excluded ++ r.excluded
  policy := r.policy s.policy
  format := r.format
  report := r.report

end CheckRequest

namespace CheckPlan

/-- The class path: the plan's own, the runtime, and the classes to check. -/
def fullClasspath (p : CheckPlan) (files : FileTree) : Except Failure Classpath := do
  let runtime ← match p.javaHome with
    | none => pure []
    | some home =>
      match Classpath.ofJavaHome files home with
      | .ok runtime => pure runtime
      | .error _ => throw (.message s!"Invalid java home {home}")
  return .ofPaths files p.classpath ++ runtime ++ .ofPaths files [p.classes]

/-- Loads the rules. -/
def loadRules (p : CheckPlan) (files : FileTree) : Checker.CheckM Unit := do
  p.suppress.forM Checker.suppress
  p.target.forM Checker.setTarget
  if !p.signatures.isEmpty then discard (Checker.addText (Text.join "\n" p.signatures))
  p.bundled.forM fun name => discard (Checker.addBundled name none)
  p.signaturesFiles.forM fun path => discard (Checker.addFile files path)

/-- Reads path patterns. -/
def patterns (texts : List String) : Except Failure (List PathPattern) :=
  texts.mapM fun text =>
    match PathPattern.ofString? text with
    | some pattern => .ok pattern
    | none => .error (.message s!"Invalid glob pattern: {text}")

/-- The path that names below the directory lead to. -/
def pathTo (p : CheckPlan) (names : List String) : String := names.foldl Path.join p.classes

/-- The names that lead to the files below the directory, in order. Every directory has to be within
reach. -/
def names (p : CheckPlan) (files : FileTree) : Except Failure (List (List String)) :=
  match files.find p.classes with
  | .error _ => .ok []
  | .ok place =>
    if place.node.directories.any fun names => Path.isTooLong (p.pathTo names) then
      .error (.message s!"Failed to walk {p.classes}")
    else .ok ((place.node.files.map (·.1)).mergeSort fun a b => !b.lex a)

/-- A relative path as patterns see it. -/
def relativePath (names : List String) : String :=
  .ofList (Text.replaceChar '\\' '/' (Text.join "/" names).toList)

/-- The class files to check. No patterns for what to take in means all of them. -/
def classFiles (p : CheckPlan) (files : FileTree) : Except Failure (List String) := do
  let included ← patterns p.included
  let excluded ← patterns p.excluded
  let selected (names : List String) : Bool :=
    let path := relativePath names
    (included.isEmpty || included.any (·.accepts path)) && !excluded.any (·.accepts path)
  let isClass (names : List String) : Bool := (names.getLast?.bind Path.extension?) == some "class"
  return ((← p.names files).filter fun names => isClass names && selected names).map p.pathTo

/-- Runs a computation on a check as a part of the command. -/
def onChecker {α : Type} (c : Checker) (action : Checker.CheckM α) : Command (α × Checker) :=
  match c.perform action with
  | (.ok a, c) => return (a, c)
  | (.error e, _) => throw (.checker e)

/-- Writes a report in XML. -/
def writeReport (path : String) (r : Report) : Command Unit := do
  Command.makeParent path
  Command.writeFile path r.xml fun _ => s!"Failed to write report {path}"

/-- Queues the class files; `none` if one of them has a later version and that is not a failure. -/
def enqueue (p : CheckPlan) (files : FileTree) (c : Checker) (paths : List String) :
    Command (Option Checker) :=
  match c.perform (paths.forM (Checker.addClassFile files)) with
  | (.ok (), c) => return some c
  | (.error (.unsupportedClassFormat path major), _) =>
    if p.policy.failOnUnsupportedFormat then throw (.checker (.unsupportedClassFormat path major))
      else return none
  | (.error e, _) => throw (.checker e)

/-- Runs a check whose classes are queued, and reports what it found. -/
def finish (p : CheckPlan) (c : Checker) : Command Unit := do
  let (result, c) := c.perform Checker.run
  Command.print (c.report.print p.format)
  if let some path := p.report then writeReport path c.report
  if let .error e := result then throw (.checker e)

/-- Carries out a plan. -/
def execute (p : CheckPlan) : Command Unit := do
  let files := (← get).files
  if !files.isDir p.classes then
    Command.fail
      s!"Classes directory {p.classes} does not exist; pass it as PATH or set [check] classes"
  let classpath ← p.fullClasspath files
  let c ← (Checker.ofClasspath files classpath p.policy.options).mapError Failure.checker
  let ((), c) ← onChecker c (p.loadRules files)
  let (idle, c) ← onChecker c Checker.hasNoSignatures
  if idle then
    if p.policy.options.failOnUnresolvableSignatures then
      Command.fail
        ("No API signatures found; use --signatures, --signatures-file and/or --bundled " ++
        "to define them")
  else
    let paths ← p.classFiles files
    if let some c ← p.enqueue files c paths then p.finish c

end CheckPlan

namespace Settings

/-- The settings from their source. Paths in a file are relative to its directory. -/
def ofSource (files : FileTree) (source : SettingsSource) : Except Failure Settings :=
  match source.path? with
  | none => .ok .default
  | some path =>
    match load files path with
    | .ok s => .ok (s.relativeTo ((Path.parent? path).getD "."))
    | .error _ => .error (.message s!"Failed to load config: {path}")

end Settings

namespace Command

/-- Checks classes. -/
def check (r : CheckRequest) (settings personalDir : Option String) : Command Unit := do
  let files := (← get).files
  let source := SettingsSource.find files (r.classes.getD ".") settings personalDir
  let s ← Settings.ofSource files source
  (r.plan s).execute

end Command

end JvmAudit
