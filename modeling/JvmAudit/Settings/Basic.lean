import JvmAudit.Checker.Basic
import JvmAudit.Toml.Document

/-!
# Settings

What a settings file says about a check. Every entry may be missing, unknown entries are ignored,
and paths may be given relative to the directory of the file. In place of a table, the list of its
values in their order is accepted.
-/

namespace JvmAudit

/-- What to check, and against which rules. -/
structure CheckSettings where
  /-- The directory with the classes to check. -/
  classes : Option String
  classpath : List String
  javaHome : Option String
  /-- Lines of rules. -/
  signatures : List String
  signaturesFiles : List String
  /-- Names of bundled catalogs. -/
  bundled : List String
  /-- The runtime version for catalogs that have versions. -/
  target : Option String
  /-- Patterns of annotations that exempt what carries them. -/
  suppress : List String
  /-- Patterns of the class files to check, relative to the directory. -/
  included : List String
  /-- Patterns of the class files to leave out. -/
  excluded : List String
deriving DecidableEq, Repr

/-- What makes a check fail. -/
structure PolicySettings where
  options : CheckerOptions
  /-- Whether a class file of a later version is an error. -/
  failOnUnsupportedFormat : Bool
deriving DecidableEq, Repr

/-- The settings of a check. -/
structure Settings where
  check : CheckSettings
  policy : PolicySettings
deriving DecidableEq, Repr

/-- Why there are no settings. -/
inductive SettingsError where
  | io (path : String) (cause : FileError)
  /-- The text is not well-formed, or an entry has the wrong type. -/
  | malformed
deriving DecidableEq, Repr

namespace SettingsError

/-- The text of an error. -/
def message : SettingsError → String
  | .io path cause => s!"Failed to read config file {path}: {cause.message}"
  | .malformed => "Failed to parse config"

end SettingsError

namespace Toml.Value

/-- The values of these keys in a table, or the first values of a list. A date has no such keys. -/
def record? (keys : List String) : Value → Option (List (Option Value))
  | .table entries => some (keys.map fun key => entries.lookup key)
  | .arr items => some ((List.range keys.length).map fun i => items[i]?)
  | .time => some (keys.map fun _ => none)
  | _ => none

/-- A string. -/
def str? : Value → Option String
  | .str s => some s
  | _ => none

/-- A truth value. -/
def bool? : Value → Option Bool
  | .bool b => some b
  | _ => none

/-- A list of strings. -/
def strings? : Value → Option (List String)
  | .arr items => items.mapM str?
  | _ => none

/-- What `read` makes of a value, or `otherwise` if there is none. -/
def orElse {α : Type} (read : Value → Option α) (otherwise : α) : Option Value → Option α
  | some v => read v
  | none => some otherwise

end Toml.Value

namespace CheckSettings

/-- Nothing is said. -/
def default : CheckSettings := ⟨none, [], none, [], [], [], none, [], [], []⟩

/-- The keys, in the order of their values in a list. -/
def keys : List String :=
  ["classes", "classpath", "java_home", "signatures", "signatures_files", "bundled", "target",
    "suppress", "include", "exclude"]

open Toml.Value in
/-- Reads what to check. -/
def ofToml? (v : Toml.Value) : Option CheckSettings := do
  let text := orElse (fun v => some <$> str? v) none
  let texts := orElse strings? []
  match ← v.record? keys with
  | [classes, classpath, javaHome, signatures, signaturesFiles, bundled, target, suppress,
    included, excluded] =>
    return ⟨← text classes, ← texts classpath, ← text javaHome, ← texts signatures,
      ← texts signaturesFiles, ← texts bundled, ← text target, ← texts suppress,
      ← texts included, ← texts excluded⟩
  | _ => none

/-- The same with relative paths taken from a directory. -/
def relativeTo (c : CheckSettings) (base : String) : CheckSettings :=
  { c with
    classes := c.classes.map (Path.join base), javaHome := c.javaHome.map (Path.join base),
    classpath := c.classpath.map (Path.join base),
    signaturesFiles := c.signaturesFiles.map (Path.join base) }

end CheckSettings

namespace PolicySettings

/-- The policy if nothing is said. -/
def default : PolicySettings := ⟨.default, false⟩

/-- The keys, in the order of their values in a list. -/
def keys : List String :=
  ["forbid_internal_runtime", "fail_on_missing_classes", "fail_on_unresolvable_signatures",
    "fail_on_violation", "fail_on_unsupported_format"]

open Toml.Value in
/-- Reads what makes a check fail. -/
def ofToml? (v : Toml.Value) : Option PolicySettings := do
  let flag := orElse bool?
  match ← v.record? keys with
  | [internal, missing, unresolvable, violation, format] =>
    let d := PolicySettings.default
    return ⟨⟨← flag d.options.forbidInternalRuntime internal,
        ← flag d.options.failOnMissingClasses missing,
        ← flag d.options.failOnUnresolvableSignatures unresolvable,
        ← flag d.options.failOnViolation violation⟩,
      ← flag d.failOnUnsupportedFormat format⟩
  | _ => none

end PolicySettings

namespace Settings

/-- The settings if there is no settings file. -/
def default : Settings := ⟨.default, .default⟩

open Toml.Value in
/-- Reads the settings in a table. -/
def ofToml? (v : Toml.Value) : Option Settings := do
  match ← v.record? ["check", "options"] with
  | [check, policy] =>
    return ⟨← orElse CheckSettings.ofToml? .default check,
      ← orElse PolicySettings.ofToml? .default policy⟩
  | _ => none

/-- The settings in the text of a settings file. -/
def parse (text : String) : Except SettingsError Settings :=
  match (Toml.parse? text).bind ofToml? with
  | some s => .ok s
  | none => .error .malformed

/-- Reads a settings file. -/
def load (files : FileTree) (path : String) : Except SettingsError Settings :=
  match files.readText path with
  | .ok text => parse text
  | .error e => .error (.io path e)

/-- The same with relative paths taken from a directory. -/
def relativeTo (s : Settings) (base : String) : Settings :=
  { s with check := s.check.relativeTo base }

end Settings

end JvmAudit
