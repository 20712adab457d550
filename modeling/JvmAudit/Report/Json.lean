import JvmAudit.Json
import JvmAudit.Report.Basic

/-!
# Reports as JSON

How a report is written as JSON, and read back. All members are required except the source file;
members that are not known are ignored. Instead of an object, the list of its values in their order
may be given.
-/

namespace JvmAudit

namespace Json

/-- The text of a string. -/
def str? : Json → Option String
  | .str s => some s
  | _ => none

/-- A natural number below a bound. -/
def natBelow? (bound : Nat) : Json → Option Nat
  | .int n => if 0 ≤ n && n < bound then some n.toNat else none
  | _ => none

/-- The elements of a list, each of them read by `read`. -/
def list? {α : Type} (read : Json → Option α) : Json → Option (List α)
  | .arr items => items.mapM read
  | _ => none

/-- A text, or nothing for `null`. -/
def optionalStr? : Json → Option (Option String)
  | .null => some none
  | .str s => some (some s)
  | _ => none

/-- The values of these keys, in an object or in a list of just as many values; a key that an object
does not have has no value. -/
def record? (keys : List String) : Json → Option (List (Option Json))
  | .obj members => some (keys.map fun key => members.lookup key)
  | .arr items => if items.length = keys.length then some (items.map some) else none
  | _ => none

end Json

namespace Violation

/-- The names of the members. -/
def jsonKeys : List String :=
  ["class_name", "source_file", "line", "description", "location", "signature"]

/-- A violation as JSON; the source file is left out if there is none. -/
def toJson (v : Violation) : Json :=
  .obj ([("class_name", .str v.className)] ++
    v.sourceFile.toList.map (fun f => ("source_file", .str f)) ++
    [("line", .int v.line), ("description", .str v.description), ("location", .str v.location),
      ("signature", .str v.signature)])

/-- Reads a violation. -/
def ofJson? (j : Json) : Option Violation := do
  match ← j.record? jsonKeys with
  | [className, sourceFile, line, description, location, signature] =>
    return ⟨← (← className).str?, ← (sourceFile.getD .null).optionalStr?,
      ← (← line).natBelow? 0x100000000, ← (← description).str?, ← (← location).str?,
      ← (← signature).str?⟩
  | _ => none

end Violation

namespace Report

/-- The names of the members. -/
def jsonKeys : List String :=
  ["violations", "classes_checked", "missing_classes", "unresolved_signatures"]

/-- A report as JSON. -/
def toJson (r : Report) : Json :=
  .obj [("violations", .arr (r.violations.map Violation.toJson)),
    ("classes_checked", .int r.classesChecked),
    ("missing_classes", .arr (r.missingClasses.map .str)),
    ("unresolved_signatures", .arr (r.unresolvedSignatures.map .str))]

/-- Reads a report. -/
def ofJson? (j : Json) : Option Report := do
  match ← j.record? jsonKeys with
  | [violations, classesChecked, missingClasses, unresolvedSignatures] =>
    return ⟨← (← violations).list? Violation.ofJson?,
      ← (← classesChecked).natBelow? 0x10000000000000000,
      ← (← missingClasses).list? Json.str?, ← (← unresolvedSignatures).list? Json.str?⟩
  | _ => none

/-- The JSON text of a report. -/
def json (r : Report) : String := r.toJson.pretty 0

end Report

end JvmAudit
