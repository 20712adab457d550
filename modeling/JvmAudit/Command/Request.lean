import JvmAudit.Command.Arguments
import JvmAudit.Report.Console

/-!
# Requests

What the program is asked to do, and how that is said on the command line.
-/

namespace JvmAudit

/-- What a check is asked for, beyond its settings. -/
structure CheckRequest where
  /-- The directory with the classes to check. -/
  classes : Option String
  /-- Lists of paths. -/
  classpath : List String
  javaHome : Option String
  signatures : List String
  signaturesFiles : List String
  bundled : List String
  target : Option String
  suppress : List String
  included : List String
  excluded : List String
  format : OutputFormat
  /-- The file for a report in XML. -/
  report : Option String
  forbidInternalRuntime : Bool
  allowMissingClasses : Bool
  allowUnresolvableSignatures : Bool
  allowViolations : Bool
  failOnUnsupportedFormat : Bool
  deriving DecidableEq, Repr

/-- What the program is asked to do. -/
inductive Request where
  /-- A check, with the settings file that is to be used. -/
  | check (request : CheckRequest) (settings : Option String)
  | listBundled
  /-- Write a settings file to start from. -/
  | init (force : Bool)
  deriving DecidableEq, Repr

namespace OutputFormat

/-- The formats by their names. -/
def named : List (String × OutputFormat) :=
  [("text", .text), ("json", .json), ("compact", .compact), ("xml", .xml)]

end OutputFormat

namespace Request

/-! ## Options -/

/-- A flag. -/
def flag (name : String) (short : Option Char) : OptionSpec :=
  ⟨name, short, .flag, false, fun _ => true, none⟩

/-- An option with a text for its value. -/
def textOption (name : String) (short : Option Char) (repeatable : Bool) : OptionSpec :=
  ⟨name, short, .value, repeatable, fun _ => true, none⟩

/-- An option with a path for its value; a path is not empty. -/
def pathOption (name : String) (short : Option Char) (repeatable : Bool) : OptionSpec :=
  ⟨name, short, .value, repeatable, (!·.isEmpty), none⟩

/-- The options of all commands. -/
def commonOptions : List OptionSpec :=
  [flag "verbose" 'v', pathOption "config" 'c' false,
    ⟨"help", 'h', .flag, false, fun _ => true, some .help⟩]

/-- The name of the report file if none is given. -/
def reportName : String := "forbidden-apis-report.xml"

/-- The options of a check. -/
def checkOptions : List OptionSpec :=
  [textOption "classpath" 'p' true, textOption "signatures" 's' true,
    pathOption "signatures-file" none true, textOption "bundled" 'b' true,
    textOption "target" 't' false, textOption "suppress" none true, textOption "include" 'i' true,
    textOption "exclude" 'e' true,
    ⟨"format", 'f', .value, false, fun name => (OutputFormat.named.lookup name).isSome, none⟩,
    ⟨"report", none, .optional reportName, false, (!·.isEmpty), none⟩,
    pathOption "java-home" none false, flag "internal-runtime-forbidden" none,
    flag "allow-missing-classes" none, flag "allow-unresolvable-signatures" none,
    flag "no-fail-on-violation" none, flag "fail-on-unsupported-format" none]

/-! ## Commands -/

/-- The arguments of the program. -/
def program : Interface :=
  ⟨commonOptions ++ [⟨"version", 'V', .flag, false, fun _ => true, some .version⟩],
    ["check", "list-bundled", "init", "help"], 0⟩

/-- The arguments of a check. -/
def check.interface : Interface := ⟨commonOptions ++ checkOptions, [], 1⟩

/-- The arguments of a list of the catalogs. -/
def listBundled.interface : Interface := ⟨commonOptions, [], 0⟩

/-- The arguments for a settings file to start from. -/
def init.interface : Interface := ⟨commonOptions ++ [flag "force" none], [], 0⟩

/-- What a check is asked for by its arguments. -/
def checkRequest (a : Arguments) : CheckRequest where
  classes := a.operands.head?
  classpath := a.values "classpath"
  javaHome := a.value? "java-home"
  signatures := a.values "signatures"
  signaturesFiles := a.values "signatures-file"
  bundled := a.values "bundled"
  target := a.value? "target"
  suppress := a.values "suppress"
  included := a.values "include"
  excluded := a.values "exclude"
  format := ((a.value? "format").bind fun name => OutputFormat.named.lookup name).getD .text
  report := a.value? "report"
  forbidInternalRuntime := a.has "internal-runtime-forbidden"
  allowMissingClasses := a.has "allow-missing-classes"
  allowUnresolvableSignatures := a.has "allow-unresolvable-signatures"
  allowViolations := a.has "no-fail-on-violation"
  failOnUnsupportedFormat := a.has "fail-on-unsupported-format"

/-- How a request for help ends: what follows, if anything, is the name of one command. -/
def helpStop (rest : List String) : Stop :=
  match rest with
  | [] => .help
  | [name] => if name ∈ program.commands then .help else .usage
  | _ => .usage

/-- Reads a request. The settings file may be named before or behind the command; the latter
wins. -/
def read (arguments : List String) : Except Stop Request := do
  let outer ← Arguments.read program arguments
  match outer.command with
  | some ("check", rest) =>
    let inner ← Arguments.read check.interface rest
    return .check (checkRequest inner) ((inner.value? "config").or (outer.value? "config"))
  | some ("list-bundled", rest) =>
    discard (Arguments.read listBundled.interface rest)
    return .listBundled
  | some ("init", rest) =>
    let inner ← Arguments.read init.interface rest
    return .init (inner.has "force")
  | some (_, rest) => throw (helpStop rest)
  | none => throw .usage

end Request

end JvmAudit
