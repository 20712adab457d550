import JvmAudit.Rule.Book

/-!
# What a check can fail with

The errors of a check, their wording, their diagnostic codes and the help that goes with them.
-/

namespace JvmAudit

/-- How far a check has come. -/
inductive Stage where
  /-- Rules can be loaded. -/
  | configured
  /-- The rules are bound to the class path. -/
  | signaturesLoaded
  /-- There is a class to check. -/
  | classesQueued
  | ran
  deriving DecidableEq, Repr

/-- The name of a stage. -/
def Stage.name : Stage → String
  | .configured => "configured"
  | .signaturesLoaded => "signatures loaded"
  | .classesQueued => "classes queued"
  | .ran => "ran"

/-- The operations that are not allowed at every stage. -/
inductive Operation where
  | suppress
  | setTarget
  | parseText
  | parseFile
  | parseBundled
  | addClass
  | run
  deriving DecidableEq, Repr

namespace Operation

/-- The name of an operation. -/
def name : Operation → String
  | .suppress => "add_suppress_annotation"
  | .setTarget => "set_target_version"
  | .parseText => "parse_signatures_string"
  | .parseFile => "parse_signatures_file"
  | .parseBundled => "parse_bundled_signatures"
  | .addClass => "add_class_to_check"
  | .run => "run"

/-- Whether an operation is allowed at a stage: rules can only be loaded before they are bound, and
nothing can be done after the run. -/
def allowed : Operation → Stage → Bool
  | _, .configured => true
  | _, .ran => false
  | .suppress, _ => true
  | .addClass, _ => true
  | .run, _ => true
  | _, _ => false

end Operation

/-- Why a check fails. -/
inductive CheckerError where
  | parse (e : RuleTextError)
  | bundled (origin : String) (cause : CatalogError)
  | unresolvableSignature (origin : String) (line : Nat) (rule : String) (reason : UnresolvedReason)
  | missingClasses (names : List String)
  | policy (violations : Nat)
  | unsupportedClassFormat (path : String) (major : Nat)
  | classFormat (path : String) (cause : ClassError)
  | io (path : String) (cause : FileError)
  | classpath (e : ClasspathError)
  | invalidState (operation : Operation) (stage : Stage)
  deriving DecidableEq, Repr

namespace CheckerError

/-- An error of the class path; a class file of another version is a matter of its own. -/
def ofClasspath : ClasspathError → CheckerError
  | .classFile origin (.unsupportedVersion major _) => .unsupportedClassFormat origin major
  | e => .classpath e

/-- An error of a class file that is to be checked. -/
def ofClassFile (path : String) : ClassError → CheckerError
  | .unsupportedVersion major _ => .unsupportedClassFormat path major
  | e => .classFormat path e

/-- An error of the rule book. -/
def ofRuleBook : RuleBookError → CheckerError
  | .parse e => .parse e
  | .bundled origin cause => .bundled origin cause
  | .io path cause => .io path cause
  | .unresolvable origin line rule reason => .unresolvableSignature origin line rule reason
  | .classpath e => ofClasspath e

/-- The text of an error. -/
def message : CheckerError → String
  | .parse e => e.message
  | .bundled origin cause => (RuleBookError.bundled origin cause).message
  | .unresolvableSignature origin line rule reason =>
    (RuleBookError.unresolvable origin line rule reason).message
  | .missingClasses names =>
    s!"Check for forbidden API calls failed: {names.length} referenced class(es) not found " ++
      "on the classpath: " ++ Text.join ", " names
  | .policy violations =>
    s!"Check for forbidden API calls failed: {violations} forbidden API invocation(s) found"
  | .unsupportedClassFormat path major =>
    s!"{path}: class file major version {major} is not supported by this checker"
  | .classFormat path cause => s!"{path}: invalid class file: {cause.message}"
  | .io path cause => s!"Failed to read {path}: {cause.message}"
  | .classpath e => e.message
  | .invalidState operation stage =>
    s!"{operation.name} is not allowed once the checker is in state '{stage.name}'"

/-- The diagnostic code of an error. -/
def code : CheckerError → String
  | .parse .. => "forbidden_apis::parse"
  | .bundled .. => "forbidden_apis::parse"
  | .unresolvableSignature .. => "forbidden_apis::resolution"
  | .missingClasses .. => "forbidden_apis::resolution"
  | .policy .. => "forbidden_apis::policy"
  | .unsupportedClassFormat .. => "forbidden_apis::environment"
  | .classFormat .. => "forbidden_apis::io"
  | .io .. => "forbidden_apis::io"
  | .classpath .. => "forbidden_apis::io"
  | .invalidState .. => "forbidden_apis::state"

/-- What can be done about an error. -/
def help? : CheckerError → Option String
  | .bundled .. => some "run `forbidden-apis list-bundled` to see the available catalogs"
  | .unresolvableSignature .. =>
    some ("add the missing library to the classpath, mark the source with @ignoreUnresolvable, " ++
      "or disable fail_on_unresolvable_signatures")
  | .missingClasses .. => some "complete the classpath or disable fail_on_missing_classes"
  | .unsupportedClassFormat .. => some "upgrade forbidden-apis or compile for an older target"
  | _ => none

end CheckerError

end JvmAudit
