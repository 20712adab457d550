import JvmAudit.Descriptor.Spelling
import JvmAudit.Rule.Basic

/-!
# Rule texts

Rules are written one per line. A line is a comment (it starts with `#`), a directive (it starts
with `@`) or a rule, followed by a blank and a reason:

```text
@defaultMessage Use the overloads that take a charset
java.lang.String#getBytes()
java.lang.System#gc() leave it to the runtime
sun.misc.**
@com.example.Internal only for internal callers
@includeBundled jdk-unsafe
@ignoreUnresolvable
```

Each line is read on its own (`Line.parse`); what an earlier line says about the later ones is added
afterwards (`Line.entries`).
-/

namespace JvmAudit

/-- What is wrong with a line. -/
inductive RuleSyntaxError where
  | invalidClassName (text : String)
  | emptyMember (rule : String)
  | invalidMember (text : String)
  | unbalancedParens (rule : String)
  | invalidParameter (text : String)
  | multipleMemberSeparators (rule : String)
  | unknownDirective (text : String)
  | missingBundledName
  deriving DecidableEq, Repr

namespace RuleSyntaxError

/-- The text of an error. -/
def message : RuleSyntaxError → String
  | .invalidClassName text =>
    s!"invalid class name '{text}' (expected a dotted binary name such as java.lang.String)"
  | .emptyMember rule => s!"missing member name in '{rule}'"
  | .invalidMember text => s!"invalid member name '{text}'"
  | .unbalancedParens rule => s!"unbalanced parentheses in '{rule}'"
  | .invalidParameter text => s!"invalid parameter type '{text}'"
  | .multipleMemberSeparators rule => s!"more than one '#' in '{rule}'"
  | .unknownDirective text => s!"unknown directive '{text}'"
  | .missingBundledName => "@includeBundled requires a catalog name"

end RuleSyntaxError

/-- A malformed line and where it stands; lines are numbered from one. -/
structure RuleTextError where
  origin : String
  line : Nat
  cause : RuleSyntaxError
  deriving DecidableEq, Repr

/-- The text of an error. -/
def RuleTextError.message (e : RuleTextError) : String := s!"{e.origin}:{e.line}: {e.cause.message}"

/-! ## One line -/

/-- What a line says. A reason is none where the line gives none. -/
inductive Line where
  /-- Nothing: a blank line or a comment. -/
  | blank
  | defaultMessage (text : String)
  | ignoreUnresolvable
  | includeBundled (name : String)
  | rule (owner : NamePattern) (target : RuleTarget) (reason : Option String)
  deriving DecidableEq, Repr

namespace Line

/-- Whether a text is a class name or a class-name pattern: parts with dots between them, none of
them empty. -/
def isClassPattern (cs : List Char) : Bool :=
  (Text.splitOn '.' cs).all fun part => !part.isEmpty && part.all fun c =>
    Text.isWordChar c || c == '*'

/-- Reads a class name or a class-name pattern. -/
def classPattern (cs : List Char) : Except RuleSyntaxError NamePattern :=
  if isClassPattern cs then .ok (.ofText (.ofList cs)) else .error (.invalidClassName (.ofList cs))

/-- Reads a member name: an identifier, or one of the two names of initialisers. -/
def memberName (rule name : List Char) : Except RuleSyntaxError String :=
  if name.isEmpty then .error (.emptyMember (.ofList rule))
  else if name = "<init>".toList || name = "<clinit>".toList || name.all Text.isWordChar then
    .ok (.ofList name)
  else .error (.invalidMember (.ofList name))

/-- Reads one parameter type. -/
def param (cs : List Char) : Except RuleSyntaxError FieldType :=
  match FieldType.ofSpelling? (.ofList cs) with
  | some t => .ok t
  | none => .error (.invalidParameter (.ofList (Text.trim cs)))

/-- Reads what stands between the parentheses of an overload. -/
def params (cs : List Char) : Except RuleSyntaxError (List FieldType) :=
  if (Text.trim cs).isEmpty then .ok [] else (Text.splitOn ',' cs).mapM param

/-- What stands in front of the closing parenthesis at the end, if no other one stands there. -/
def insideParens? (cs : List Char) : Option (List Char) :=
  (Text.dropBack [')'] cs).filter fun inner => !inner.contains '(' && !inner.contains ')'

/-- Reads the part behind `#`. -/
def member (rule cs : List Char) : Except RuleSyntaxError RuleTarget := do
  if cs.contains '#' then throw (.multipleMemberSeparators (.ofList rule))
  match Text.cutFirst '(' cs with
  | none => return .member (← memberName rule cs)
  | some (name, rest) =>
    let name ← memberName rule name
    match insideParens? rest with
    | none => throw (.unbalancedParens (.ofList rule))
    | some inner => return .overload name (← params inner)

/-- Reads a rule without its reason. -/
def ruleTarget (cs : List Char) : Except RuleSyntaxError (NamePattern × RuleTarget) := do
  match Text.cutFirst '#' cs with
  | none => return (← classPattern cs, .type)
  | some (owner, rest) => return (← classPattern owner, ← member cs rest)

/-- A text cut in front of the first blank that stands outside parentheses; `depth` counts the open
ones. -/
def splitRule (depth : Nat) : List Char → List Char × List Char
  | [] => ([], [])
  | c :: cs =>
    if c = '(' then (splitRule (depth + 1) cs).map (c :: ·) id
    else if c = ')' then (splitRule (depth - 1) cs).map (c :: ·) id
    else if Text.isBlank c && depth = 0 then ([], c :: cs)
    else (splitRule depth cs).map (c :: ·) id

/-- A text without blanks around it, and without one `@` in front. -/
def reason? (cs : List Char) : Option String :=
  let cs := Text.trim cs
  let cs := match cs with
    | '@' :: rest => Text.trim rest
    | _ => cs
  if cs.isEmpty then none else some (.ofList cs)

/-- Reads what follows the `@` of a directive. A word with a dot is the name of an annotation. -/
def directive (cs : List Char) : Except RuleSyntaxError Line := do
  let word := cs.takeWhile (!Text.isBlank ·)
  let rest := Text.trim (cs.dropWhile (!Text.isBlank ·))
  if word = "defaultMessage".toList then return .defaultMessage (.ofList rest)
  else if word = "ignoreUnresolvable".toList then return .ignoreUnresolvable
  else if word = "includeBundled".toList then
    if rest.isEmpty then throw .missingBundledName else return .includeBundled (.ofList rest)
  else if word.contains '.' then return .rule (← classPattern word) .annotated (reason? rest)
  else throw (.unknownDirective (.ofList ('@' :: word)))

/-- Reads a line. -/
def parse (cs : List Char) : Except RuleSyntaxError Line :=
  match Text.trim cs with
  | [] => .ok .blank
  | '#' :: _ => .ok .blank
  | '@' :: rest => directive rest
  | cs => do
    let (token, rest) := splitRule 0 cs
    let (owner, target) ← ruleTarget token
    return .rule owner target (reason? rest)

end Line

/-! ## A whole text -/

/-- What an entry asks for. -/
inductive EntryContent where
  | rule (r : Rule)
  /-- All rules of a catalog that comes with the program. -/
  | includeBundled (name : String)
  deriving DecidableEq, Repr

/-- A line that asks for something. -/
structure Entry where
  content : EntryContent
  /-- Whether an earlier line tolerates rules whose classes are not found. -/
  lenient : Bool
  line : Nat
  deriving DecidableEq, Repr

namespace Line

/-- The entries of numbered lines; `message` and `lenient` are what the earlier lines have set. -/
def entries (message : String) (lenient : Bool) : List (Nat × Line) → List Entry
  | [] => []
  | (n, line) :: rest =>
    match line with
    | .blank => entries message lenient rest
    | .defaultMessage text => entries text lenient rest
    | .ignoreUnresolvable => entries message true rest
    | .includeBundled name => ⟨.includeBundled name, lenient, n⟩ :: entries message lenient rest
    | .rule owner target reason =>
      ⟨.rule ⟨owner, target, reason.getD message⟩, lenient, n⟩ :: entries message lenient rest

end Line

namespace RuleText

/-- The lines of a text with their numbers. -/
def numbered (text : String) : List (Nat × List Char) :=
  (Text.lines text.toList).zipIdx.map fun (cs, i) => (i + 1, cs)

/-- Reads a numbered line. -/
def parseLine (origin : String) (line : Nat × List Char) : Except RuleTextError (Nat × Line) :=
  match Line.parse line.2 with
  | .ok l => .ok (line.1, l)
  | .error cause => .error ⟨origin, line.1, cause⟩

/-- The entries of a text; the first malformed line fails all of it. -/
def parse (origin text : String) : Except RuleTextError (List Entry) := do
  return Line.entries "" false (← (numbered text).mapM (parseLine origin))

end RuleText

end JvmAudit
