import JvmAudit.Text.Cut

/-!
# Reports

What a check found: violations, the classes that were missing, the rules that could not be bound,
and the number of classes checked.
-/

namespace JvmAudit

/-- A use of something forbidden. -/
structure Violation where
  className : String
  sourceFile : Option String
  /-- The source line, zero if it is not known. -/
  line : Nat
  description : String
  /-- The class or member that holds the use. -/
  location : String
  /-- The rule that was violated. -/
  signature : String
  deriving DecidableEq, Repr

namespace Violation

/-- The source file, or else the class, and the line if it is known. -/
def position (v : Violation) : String :=
  let place := v.sourceFile.getD v.className
  if v.line = 0 then place else s!"{place}:{v.line}"

/-- A violation in one line. -/
def display (v : Violation) : String :=
  s!"Forbidden API use: {v.signature} [{v.description}] in {v.location} ({v.position})"

end Violation

/-- The violations of one class. -/
structure ClassGroup where
  className : String
  /-- The source file of the first violation. -/
  sourceFile : Option String
  violations : List Violation
  deriving DecidableEq, Repr

/-- What a check found. -/
structure Report where
  violations : List Violation
  classesChecked : Nat
  missingClasses : List String
  unresolvedSignatures : List String
  deriving DecidableEq, Repr

namespace Report

/-- The report of a check that has not run. -/
def empty : Report := ⟨[], 0, [], []⟩

/-- Whether there is no violation. -/
def isClean (r : Report) : Bool := r.violations.isEmpty

/-- Puts a violation in front of the groups: into the first one if it is of the same class. -/
def groupStep (v : Violation) (groups : List ClassGroup) : List ClassGroup :=
  match groups with
  | g :: rest =>
    if g.className = v.className then ⟨v.className, v.sourceFile, v :: g.violations⟩ :: rest
    else ⟨v.className, v.sourceFile, [v]⟩ :: g :: rest
  | [] => [⟨v.className, v.sourceFile, [v]⟩]

/-- The violations in groups of neighbours of the same class. -/
def byClass (r : Report) : List ClassGroup := r.violations.foldr groupStep []

/-- A line of a report. -/
def textLine (s : String) : String := s ++ "\n"

/-- A line that lists names, if there are any. -/
def listLine (title : String) (names : List String) : List String :=
  if names.isEmpty then [] else [s!"{title} ({names.length}): " ++ Text.join ", " names]

/-- The line that sums up a report. -/
def summary (r : Report) : String :=
  s!"Scanned {r.classesChecked} class(es), found {r.violations.length} forbidden API invocation(s)"

/-- The plain text of a report. -/
def text (r : Report) : String :=
  .join ((r.violations.map Violation.display ++ listLine "Missing classes" r.missingClasses ++
    listLine "Unresolvable signatures" r.unresolvedSignatures ++ [r.summary]).map textLine)

end Report

end JvmAudit
