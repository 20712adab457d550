import JvmAudit.Report.Basic
import JvmAudit.Scan.Hit
import JvmAudit.Suppression

/-!
# Scanning classes

A class is checked at its sites, in a fixed order: the supertypes and annotations of the class; the
declaration, the type and the annotations of each field; the types, exceptions and annotations of
each method and the symbols that its body refers to. Classes, fields and methods that are exempt
have no sites. Each site gives at most one violation, and notes the classes that are missing.

A scan is a computation that looks classes up (`Policy.scan`). It can be carried out on a class path
(`Scanner.scan`), or on one that is shared with other scans.
-/

namespace JvmAudit

/-- What is checked at a site. -/
inductive Subject where
  | type (name : String)
  /-- The declaration of a field. -/
  | fieldDecl (owner name : String)
  /-- The use of a field, or with a descriptor that of a method. -/
  | member (owner name : String) (descriptor : Option String)
  /-- A descriptor whose types cannot be told. -/
  | malformed (descriptor : String)
  deriving DecidableEq, Repr

/-- A place in a class where something is used. -/
structure Site where
  location : String
  line : Nat
  subject : Subject
  deriving DecidableEq, Repr

/-- What was found in a class. -/
structure ClassScan where
  violations : List Violation
  /-- Sorted, each name once. -/
  missing : List String
  deriving DecidableEq, Repr

/-! ## Sites -/

namespace Subject

/-- The classes in a descriptor. -/
def ofDescriptor (descriptor : String) : List Subject :=
  match descriptorClasses? descriptor with
  | some names => names.map .type
  | none => [.malformed descriptor]

/-- A symbol that code refers to. -/
def ofSymbol : Symbol → Subject
  | .type name => .type name
  | .field owner name _ => .member owner name none
  | .method owner name descriptor _ => .member owner name (some descriptor)

end Subject

namespace ClassFile

/-- The line of the class: its smallest one. -/
def classLine (c : ClassFile) : Nat := c.firstLine.getD 0

/-- The sites of the class itself. -/
def headerSites (c : ClassFile) : List Site :=
  (c.supertypes ++ c.annotations).map fun name => ⟨c.name, c.classLine, .type name⟩

/-- The location of a member. -/
def memberLocation (c : ClassFile) (member : String) : String := c.name ++ "#" ++ member

/-- The sites of a field. -/
def fieldSites (c : ClassFile) (f : FieldDecl) : List Site :=
  (Subject.fieldDecl c.name f.name :: Subject.ofDescriptor f.descriptor ++
    f.annotations.map Subject.type).map
    fun subject => ⟨c.memberLocation f.name, c.classLine, subject⟩

/-- The sites of the body of a method. -/
def bodySites (location : String) (code : Code) : List Site :=
  code.references.map fun r => ⟨location, (code.lineAt r.offset).getD 0, .ofSymbol r.symbol⟩

/-- The sites of a method. -/
def methodSites (c : ClassFile) (m : MethodDecl) : List Site :=
  let location := c.memberLocation m.display
  ((Subject.ofDescriptor m.descriptor ++ (m.exceptions ++ m.annotations).map Subject.type).map
    fun subject => ⟨location, m.firstLine.getD c.classLine, subject⟩) ++
  (m.code.map (bodySites location)).getD []

/-- The sites of a class, without those of exempt members. -/
def sites (c : ClassFile) (s : Suppression) : List Site :=
  if s.exempts c.annotations then []
  else
    c.headerSites ++ (c.fields.filter (!s.exempts ·.annotations)).flatMap c.fieldSites ++
      (c.methods.filter (!s.exempts ·.annotations)).flatMap c.methodSites

end ClassFile

/-! ## Checking sites -/

/-- What was found at a site. -/
structure Finding where
  hit : Option Hit
  missing : List String
  deriving DecidableEq, Repr

namespace Scanner

/-- How a member is searched that code uses. -/
def memberQuery (name : String) : Option String → MemberQuery
  | some descriptor => .method name descriptor
  | none => .field name

/-- The violation of a hit at a site. -/
def violation (c : ClassFile) (site : Site) (hit : Hit) : Violation :=
  ⟨c.name, c.sourceFile, site.line, hit.description, site.location, hit.signature⟩

/-- Names sorted, each once. -/
def sortedNames (names : List String) : List String := (names.mergeSort (· ≤ ·)).eraseReps

/-- What was found in a class, by what was found at its sites. -/
def classScan (c : ClassFile) (sites : List Site) (findings : List Finding) : ClassScan :=
  ⟨(sites.zip findings).filterMap fun (site, f) => f.hit.map (violation c site),
    sortedNames (findings.flatMap (·.missing))⟩

end Scanner

namespace Policy

variable {mentioned : List String}

/-- What the use of a class gives, by what there is for its name. -/
def typeFinding (p : Policy) (name : String) : Option ClassFile → Finding
  | none => ⟨none, [name]⟩
  | some c => ⟨p.typeHit? name c, []⟩

/-- What the use of a member gives, by what became of the search for it. -/
def memberFinding (p : Policy) (owner name : String) (descriptor : Option String) :
    MemberResolution → Finding
  | .unresolvable owner => ⟨none, [owner]⟩
  | .resolved lineage declarer missing =>
    ⟨p.memberHit? ⟨owner, name, descriptor, lineage, declarer.bind (lineage[·]?)⟩, missing⟩

/-- Checks the use of a class. -/
def checkType (p : Policy) (name : String) : Query mentioned ClasspathError Finding :=
  p.typeFinding name <$> Query.look name

/-- Checks the use of a member. -/
def checkMember (p : Policy) (owner name : String) (descriptor : Option String) :
    Query mentioned ClasspathError Finding :=
  p.memberFinding owner name descriptor <$> (Scanner.memberQuery name descriptor).resolve owner

/-- Checks a site of the class `className`. -/
def check (p : Policy) (className : String) (site : Site) :
    Query mentioned ClasspathError Finding :=
  match site.subject with
  | .type name => p.checkType name
  | .fieldDecl owner name => return ⟨(p.fieldRule? owner name).map (.rule · owner false), []⟩
  | .member owner name descriptor => p.checkMember owner name descriptor
  | .malformed descriptor => throw (.classFile className (.invalidDescriptor descriptor))

/-- Scans a class; the first failure of a look-up ends the scan. -/
def scan (p : Policy) (suppression : Suppression) (c : ClassFile) :
    Query mentioned ClasspathError ClassScan :=
  Scanner.classScan c (c.sites suppression) <$> (c.sites suppression).mapM (p.check c.name)

end Policy

/-- What classes are scanned with. -/
structure Scanner where
  policy : Policy
  source : ClassSource
  suppression : Suppression

namespace Scanner

/-- Checks the use of a class. -/
def checkType (s : Scanner) (name : String) : Except ClasspathError Finding :=
  s.source.answer (s.policy.checkType name).run

/-- Checks the use of a member. -/
def checkMember (s : Scanner) (owner name : String) (descriptor : Option String) :
    Except ClasspathError Finding :=
  s.source.answer (s.policy.checkMember owner name descriptor).run

/-- Checks a site of the class `className`. -/
def check (s : Scanner) (className : String) (site : Site) : Except ClasspathError Finding :=
  s.source.answer (s.policy.check className site).run

/-- Scans a class. -/
def scan (s : Scanner) (c : ClassFile) : Except ClasspathError ClassScan :=
  s.source.answer (s.policy.scan s.suppression c).run

end Scanner

end JvmAudit
