import JvmAudit.Descriptor.Parser
import JvmAudit.Pattern

/-!
# Rules

A rule forbids a class, one overload of a method, a member by its name alone, or every element that
carries an annotation. Its key identifies it among all rules; its display is the text form, with
parameters spelled as in Java.
-/

namespace JvmAudit

/-- What a rule forbids of the classes that its owner pattern names. -/
inductive RuleTarget where
  /-- The class itself, wherever it is referred to. -/
  | type
  /-- One overload of a method or constructor. -/
  | overload (name : String) (params : List FieldType)
  /-- A field, or every method of that name. -/
  | member (name : String)
  /-- Elements that carry the annotation which the owner pattern names. -/
  | annotated
  deriving DecidableEq, Repr

/-- A rule. -/
structure Rule where
  owner : NamePattern
  target : RuleTarget
  /-- Why it is forbidden; may be empty. -/
  reason : String
  deriving DecidableEq, Repr

namespace RuleTarget

/-- The member that is forbidden. -/
def member? : RuleTarget → Option String
  | .overload name _ => some name
  | .member name => some name
  | _ => none

/-- The parameters in descriptor form, in parentheses. -/
def paramsText (params : List FieldType) : String :=
  .ofList ('(' :: params.flatMap FieldType.render ++ [')'])

/-- The parameters of an overload in descriptor form. -/
def params? : RuleTarget → Option String
  | .overload _ params => some (paramsText params)
  | _ => none

end RuleTarget

namespace Rule

/-- The key of a member. -/
def memberKey (owner name : String) : String := owner ++ "#" ++ name

/-- The identity of a rule, the same for every spelling of it. -/
def key (r : Rule) : String :=
  match r.target with
  | .annotated => "@" ++ r.owner.text
  | .overload name params => memberKey r.owner.text name ++ RuleTarget.paramsText params
  | .member name => memberKey r.owner.text name
  | .type => r.owner.text

/-- The text form of a rule, without its reason. -/
def display (r : Rule) : String :=
  match r.target with
  | .annotated => "@" ++ r.owner.text
  | .overload name params =>
    memberKey r.owner.text name ++ "(" ++ Text.join "," (params.map FieldType.spelling) ++ ")"
  | .member name => memberKey r.owner.text name
  | .type => r.owner.text

end Rule

end JvmAudit
