import JvmAudit.Text.Cut

/-!
# Arguments

How the arguments of a command are read: options by their long or short names, with their values
attached or behind them, operands, and the name of a further command. The arguments are taken in
their order, and the first one that is not acceptable decides.

An option whose value is missing takes the next argument, unless that one starts with a dash and has
more than it. After `--` there are only operands.
-/

namespace JvmAudit

/-- Why the reading of arguments ends early. -/
inductive Stop where
  /-- An argument is not acceptable, or something is missing. -/
  | usage
  /-- The version was asked for. -/
  | version
  /-- Help was asked for. -/
  | help
  deriving DecidableEq, Repr

/-- What goes with an option. -/
inductive Arity where
  | flag
  | value
  /-- A value; the option stands for `otherwise` if it has none. -/
  | optional (otherwise : String)
  deriving DecidableEq, Repr

/-- An option. -/
structure OptionSpec where
  /-- The long name. -/
  name : String
  short : Option Char
  arity : Arity
  /-- Whether it may be given several times. -/
  repeatable : Bool
  /-- Whether a value is acceptable. -/
  accepts : String → Bool
  /-- For an option that ends the reading. -/
  stops : Option Stop

/-- What arguments a command takes. -/
structure Interface where
  options : List OptionSpec
  /-- The names of further commands. -/
  commands : List String
  /-- How many operands there may be. Operands are paths, and none is empty. -/
  maxOperands : Nat

/-- An argument. -/
inductive Argument where
  /-- An option with its value, which is empty for a flag. -/
  | option (spec : OptionSpec) (value : String)
  | operand (text : String)
  /-- A further command and the arguments behind its name. -/
  | command (name : String) (rest : List String)
  /-- An unknown option, or one with a value too many or too few. -/
  | unknown

namespace OptionSpec

/-- The option without a value. -/
def alone (o : OptionSpec) : Argument :=
  match o.arity with
  | .flag => .option o ""
  | .value => .unknown
  | .optional otherwise => .option o otherwise

end OptionSpec

namespace Interface

/-- The options in one argument, and the last one of them if its value may follow. -/
abbrev Options := List Argument × Option OptionSpec

/-- Options by their short names, written together. The first one that takes a value takes the rest,
with or without an equals sign in front. -/
def shortOptions (i : Interface) : List Char → Options
  | [] => ([], none)
  | c :: cs =>
    match i.options.find? (·.short == some c) with
    | none => ([.unknown], none)
    | some o =>
      match o.arity, cs with
      | .flag, cs => let (arguments, pending) := i.shortOptions cs; (o.alone :: arguments, pending)
      | _, [] => ([], some o)
      | _, '=' :: value => ([.option o (.ofList value)], none)
      | _, value => ([.option o (.ofList value)], none)

/-- An option by its long name. -/
def longOption (i : Interface) (cs : List Char) : Options :=
  let (name, value) := match Text.cutFirst '=' cs with
    | some (name, value) => (name, some (String.ofList value))
    | none => (cs, none)
  match i.options.find? (·.name.toList == name) with
  | none => ([.unknown], none)
  | some o =>
    match o.arity, value with
    | .flag, none => ([o.alone], none)
    | .flag, some _ => ([.unknown], none)
    | _, none => ([], some o)
    | _, some value => ([.option o value], none)

/-- The options in an argument that starts with a dash and has more than it; `none` for any other
argument. -/
def options? (i : Interface) (argument : String) : Option Options :=
  match argument.toList with
  | '-' :: '-' :: name => some (i.longOption name)
  | '-' :: c :: cs => some (i.shortOptions (c :: cs))
  | _ => none

/-- Reads arguments up to a further command. -/
def scan (i : Interface) : List String → List Argument
  | [] => []
  | argument :: rest =>
    if argument ∈ i.commands then [.command argument rest]
    else if argument = "--" then rest.map .operand
    else
      match i.options? argument with
      | none => .operand argument :: i.scan rest
      | some (arguments, none) => arguments ++ i.scan rest
      | some (arguments, some o) =>
        match rest with
        | [] => arguments ++ [o.alone]
        | next :: rest =>
          if (i.options? next).isSome then arguments ++ o.alone :: i.scan (next :: rest)
          else arguments ++ .option o next :: i.scan rest
termination_by arguments => arguments.length

end Interface

/-- The arguments that were taken. -/
structure Arguments where
  /-- The options by their long names, with their values. -/
  options : List (String × String)
  operands : List String
  command : Option (String × List String)
  deriving DecidableEq, Repr

namespace Arguments

/-- Whether an option was given. -/
def has (a : Arguments) (name : String) : Bool := (a.options.lookup name).isSome

/-- The value of an option. -/
def value? (a : Arguments) (name : String) : Option String := a.options.lookup name

/-- The values of an option. -/
def values (a : Arguments) (name : String) : List String :=
  (a.options.filter (·.1 == name)).map (·.2)

/-- Takes one more argument. -/
def take (i : Interface) (a : Arguments) : Argument → Except Stop Arguments
  | .option o value =>
    match o.stops with
    | some stop => .error stop
    | none =>
      if (!o.repeatable && a.has o.name) || !o.accepts value then .error .usage
      else .ok { a with options := a.options ++ [(o.name, value)] }
  | .operand text =>
    if a.operands.length < i.maxOperands && !text.isEmpty then
      .ok { a with operands := a.operands ++ [text] }
    else .error .usage
  | .command name rest => .ok { a with command := some (name, rest) }
  | .unknown => .error .usage

/-- Reads the arguments of a command. -/
def read (i : Interface) (arguments : List String) : Except Stop Arguments :=
  (i.scan arguments).foldlM (take i) ⟨[], [], none⟩

end Arguments

end JvmAudit
