import JvmAudit.Report.Json
import JvmAudit.Report.Xml

/-!
# Reports on the console

The formats in which a report is printed.
-/

namespace JvmAudit

/-- The formats of a printed report. -/
inductive OutputFormat where
  /-- For people, in colours. -/
  | text
  | json
  /-- One line per violation. -/
  | compact
  | xml
  deriving DecidableEq, Repr

namespace Console

/-- The code of bold text. -/
def bold : String := "\x1b[1m"

/-- The code of red text. -/
def red : String := "\x1b[31m"

/-- The code of green text. -/
def green : String := "\x1b[32m"

/-- The code of yellow text. -/
def yellow : String := "\x1b[33m"

/-- The code that ends a style. -/
def normal : String := "\x1b[0m"

end Console

namespace Report

open Console

/-- The lines of a violation. -/
def violationLines (v : Violation) : List String :=
  ["  " ++ red ++ "error" ++ normal ++ " " ++ v.signature ++ " [" ++ v.description ++ "]",
    "    --> " ++ v.position ++ " in " ++ v.location]

/-- The lines of a group of violations. -/
def groupLines (g : ClassGroup) : List String :=
  [bold ++ g.className ++ normal] ++ g.violations.flatMap violationLines ++ [""]

/-- A warning that lists names, if there are any. -/
def warningLine (what : String) (names : List String) : List String :=
  if names.isEmpty then []
  else [yellow ++ "warning" ++ normal ++ " " ++ toString names.length ++ " " ++ what ++ ": " ++
    Text.join ", " names]

/-- The report for people. -/
def consoleText (r : Report) : String :=
  let color := if r.isClean then green else red
  .join ((r.byClass.flatMap groupLines ++
    warningLine "referenced class(es) not found" r.missingClasses ++
    warningLine "signature(s) could not be resolved" r.unresolvedSignatures ++
    [color ++ r.summary ++ normal]).map textLine)

/-- The line of a violation in the compact format. -/
def compactLine (v : Violation) : String :=
  v.position ++ ": " ++ v.className ++ ": " ++ v.signature ++ " [" ++ v.description ++ "]"

/-- The report in the compact format. -/
def compact (r : Report) : String := .join (r.violations.map fun v => textLine (compactLine v))

/-- What is printed for a report. -/
def print (r : Report) : OutputFormat → String
  | .text => r.consoleText
  | .json => textLine r.json
  | .compact => r.compact
  | .xml => r.xml

end Report

end JvmAudit
