import JvmAudit.Report.Basic

/-!
# Reports as XML

The violations of a report as an XML text: one element per group of violations of a class, and in it
one element per violation. Attribute values are escaped, so no value can end its attribute.
-/

namespace JvmAudit

namespace Xml

/-- A character inside an attribute value. -/
def escapeChar (c : Char) : List Char :=
  match c with
  | '&' => "&amp;".toList
  | '<' => "&lt;".toList
  | '>' => "&gt;".toList
  | '"' => "&quot;".toList
  | '\'' => "&apos;".toList
  | c => [c]

/-- The text of an attribute value. -/
def escape (s : String) : String := .ofList (s.toList.flatMap escapeChar)

/-- An attribute. -/
def attr (name value : String) : String := " " ++ name ++ "=\"" ++ escape value ++ "\""

end Xml

namespace Violation

/-- The line of a violation. -/
def xml (v : Violation) : String :=
  "    <violation" ++ Xml.attr "line" (toString v.line) ++ Xml.attr "description" v.description ++
    Xml.attr "location" v.location ++ " />\n"

end Violation

namespace ClassGroup

/-- The lines of a group. -/
def xml (g : ClassGroup) : String :=
  "  <class" ++ Xml.attr "name" g.className ++ Xml.attr "file" (g.sourceFile.getD "") ++ ">\n" ++
    .join (g.violations.map Violation.xml) ++ "  </class>\n"

end ClassGroup

namespace Report

/-- The XML text of a report. -/
def xml (r : Report) : String :=
  "<forbidden-apis>\n" ++ .join (r.byClass.map ClassGroup.xml) ++ "</forbidden-apis>\n"

end Report

end JvmAudit
