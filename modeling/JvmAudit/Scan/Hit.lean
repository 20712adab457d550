import JvmAudit.Rule.RuleSet
import JvmAudit.Scan.InternalPackages

/-!
# Matching

Which rule, if any, a use of a class or of a member violates. The candidates are tried in a fixed
order and the first one counts.

For a class: a rule about the class, a pattern for classes, a rule about an annotation of the class,
the ban of internal runtime classes.

For a member: a rule about the overload, and then a rule about the name, on each class of the
lineage up to the one that declares it; a rule about the owner or the declaring class; patterns in
the order of registration; a rule about an annotation of the member or of the class that holds it;
the ban of internal runtime classes.
-/

namespace JvmAudit

/-- What a use violates. -/
inductive Hit where
  /-- A rule, on account of a class; `onMethod` if a method is used. -/
  | rule (r : Rule) (className : String) (onMethod : Bool)
  /-- The ban of internal runtime classes. -/
  | internalRuntime (className : String)
  deriving DecidableEq, Repr

namespace Hit

/-- What is said of a use if the rule gives no reason. -/
def defaultDescription (r : Rule) (className : String) (onMethod : Bool) : String :=
  match r.target with
  | .type => "Forbidden class/interface use: " ++ className
  | .overload .. => "Forbidden method invocation: " ++ r.display
  | .member _ =>
    (if onMethod then "Forbidden method invocation: " else "Forbidden field access: ") ++ r.display
  | .annotated => "Forbidden use of element annotated with " ++ r.display

/-- What is said of a use. -/
def description : Hit → String
  | .rule r className onMethod =>
    if r.reason.isEmpty then defaultDescription r className onMethod else r.reason
  | .internalRuntime className =>
    "Forbidden class/interface use: " ++ className ++ " [non-public internal runtime class]"

/-- What is violated. -/
def signature : Hit → String
  | .rule r _ _ => r.display
  | .internalRuntime className => className

end Hit

/-- What decides whether a use is forbidden. -/
structure Policy where
  rules : RuleSet
  /-- Whether internal runtime classes are banned. -/
  banInternalRuntime : Bool

namespace Policy

/-- The rule about a class by its name. -/
def typeRule? (p : Policy) (name : String) : Option Rule :=
  p.rules.type? name <|> p.rules.globs.find? fun r => r.target == .type && r.owner.accepts name

/-- The ban of an internal runtime class. -/
def internalHit? (p : Policy) (name : String) : Option Hit :=
  if p.banInternalRuntime && isInternalRuntime name then some (.internalRuntime name) else none

/-- What a use of a class violates. -/
def typeHit? (p : Policy) (name : String) (c : ClassFile) : Option Hit :=
  ((p.typeRule? name <|> p.rules.annotated? c.annotations).map (.rule · name false)) <|>
    p.internalHit? name

/-- The rule that the declaration of a field violates. -/
def fieldRule? (p : Policy) (owner name : String) : Option Rule :=
  ((p.rules.member? owner name).filter fun r => r.target matches .member _) <|>
    p.rules.globs.find? fun r => r.target == .member name && r.owner.accepts owner

/-- A use of a member: the owner and the name that the code gives, the descriptor for a method, and
what the search for the member found. -/
structure MemberUse where
  owner : String
  name : String
  descriptor : Option String
  /-- The owner and its ancestors, up to the class that declares the member. -/
  lineage : List ClassFile
  /-- The class that declares the member. -/
  declarer : Option ClassFile

namespace MemberUse

/-- The parameters of the method. -/
def params? (u : MemberUse) : Option String := u.descriptor.map paramsPart

/-- Whether a method is used. -/
def onMethod (u : MemberUse) : Bool := u.descriptor.isSome

/-- The names of the lineage. -/
def lineageNames (u : MemberUse) : List String := u.lineage.map (·.name)

/-- The owner, and the class that declares the member. -/
def owners (u : MemberUse) : List String := u.owner :: (u.declarer.map (·.name)).toList

/-- The class that holds the member. -/
def holder? (u : MemberUse) : Option ClassFile := u.declarer <|> u.lineage.head?

/-- The annotations of the member. -/
def annotations? (u : MemberUse) : Option (List String) := do
  let c ← u.declarer
  match u.descriptor with
  | some descriptor => (c.method? u.name descriptor).map (·.annotations)
  | none => (c.field? u.name).map (·.annotations)

/-- The first class on account of which a rule with a pattern applies. -/
def globMatch? (u : MemberUse) (r : Rule) : Option String :=
  match r.target with
  | .type => u.owners.find? r.owner.accepts
  | .overload name params =>
    if name = u.name && u.params? = some (RuleTarget.paramsText params) then
      u.lineageNames.find? r.owner.accepts
    else none
  | .member name => if name = u.name then u.lineageNames.find? r.owner.accepts else none
  | .annotated => none

end MemberUse

/-- The first rule found for one of these classes, and that class. -/
def firstRule? (find : String → Option Rule) (classes : List String) : Option (Rule × String) :=
  classes.findSome? fun c => (find c).map (·, c)

/-- The rule about the overload that is used. -/
def overloadMatch? (p : Policy) (u : MemberUse) : Option (Rule × String) := do
  let params ← u.params?
  firstRule? (p.rules.overload? · u.name params) u.lineageNames

/-- The rule about the name of the member. -/
def nameMatch? (p : Policy) (u : MemberUse) : Option (Rule × String) :=
  firstRule? (p.rules.member? · u.name) u.lineageNames

/-- The rule about the owner or the class that declares the member. -/
def ownerMatch? (p : Policy) (u : MemberUse) : Option (Rule × String) :=
  firstRule? p.rules.type? u.owners

/-- The rule with a pattern that applies. -/
def globRuleMatch? (p : Policy) (u : MemberUse) : Option (Rule × String) :=
  p.rules.globs.findSome? fun r => (u.globMatch? r).map (r, ·)

/-- The rule about an annotation of the member, or of the class that holds it. -/
def annotatedMatch? (p : Policy) (u : MemberUse) : Option (Rule × String) := do
  let holder ← u.holder?
  let rule ← (u.annotations?.bind p.rules.annotated?) <|> p.rules.annotated? holder.annotations
  return (rule, holder.name)

/-- The rule that a use of a member violates, and the class on account of which it applies. -/
def memberMatch? (p : Policy) (u : MemberUse) : Option (Rule × String) :=
  p.overloadMatch? u <|> p.nameMatch? u <|> p.ownerMatch? u <|> p.globRuleMatch? u <|>
    p.annotatedMatch? u

/-- What a use of a member violates. -/
def memberHit? (p : Policy) (u : MemberUse) : Option Hit :=
  (p.memberMatch? u).map (fun (r, c) => .rule r c u.onMethod) <|> u.holder?.bind fun h =>
    p.internalHit? h.name

end Policy

end JvmAudit
