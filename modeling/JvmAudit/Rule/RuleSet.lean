import JvmAudit.Classpath.Lineage
import JvmAudit.Rule.Book

/-!
# Rule sets

The rules of a book bound to a class path. A rule about one class is kept if the class can be loaded
and, for a rule about a member, some class of its lineage declares the member; otherwise it is
dropped or, unless it is lenient, it makes binding fail in strict mode. Rules with patterns and
rules about annotations are kept as they are.

Rules about one class are found by their keys.
-/

namespace JvmAudit

/-- Rules that are ready for matching. -/
structure RuleSet where
  /-- Rules about one class, by key. -/
  exact : List (String × Rule)
  /-- Rules whose owner is a pattern, in the order of registration. -/
  globs : List Rule
  /-- Rules about annotations, in the order of registration. -/
  annotated : List Rule
  /-- The rules that were dropped. -/
  unresolved : List String
  deriving DecidableEq, Repr

namespace RuleSet

/-- No rules. -/
def empty : RuleSet := ⟨[], [], [], []⟩

/-- Rules by key with one more; it takes the place of the one with the same key. -/
def put (key : String) (r : Rule) : List (String × Rule) → List (String × Rule)
  | [] => [(key, r)]
  | e :: rest => if e.1 = key then (key, r) :: rest else e :: put key r rest

/-- The rule about one overload of a class. -/
def overload? (s : RuleSet) (owner name params : String) : Option Rule :=
  s.exact.lookup (Rule.memberKey owner name ++ params)

/-- The rule about a member of a class, whatever its parameters. -/
def member? (s : RuleSet) (owner name : String) : Option Rule :=
  s.exact.lookup (Rule.memberKey owner name)

/-- The rule about a class. -/
def type? (s : RuleSet) (name : String) : Option Rule := s.exact.lookup name

/-- The first rule about any of these annotations. -/
def annotated? (s : RuleSet) (annotations : List String) : Option Rule :=
  s.annotated.find? fun r => annotations.any r.owner.accepts

/-- The number of rules that can match. -/
def size (s : RuleSet) : Nat := s.exact.length + s.globs.length + s.annotated.length

/-- Whether no rule can match. -/
def isEmpty (s : RuleSet) : Bool := s.size == 0

/-- The keys of the rules that can match, sorted. -/
def keys (s : RuleSet) : List String :=
  (s.exact.map (·.1) ++ s.globs.map Rule.key ++ s.annotated.map Rule.key).mergeSort (· ≤ ·)

end RuleSet

namespace Rule

variable {mentioned : List String}

/-- The reason for which the class of a rule is not found, by what there is for its name. -/
def ownerReason? (owner : String) : Option ClassFile → Option UnresolvedReason
  | some _ => none
  | none => some (.missingClasses [owner])

/-- The reason for which the member of a rule is not found, by what became of the search for it. -/
def memberReason? (owner name : String) : MemberResolution → Option UnresolvedReason
  | .resolved _ (some _) _ => none
  | .resolved _ none [] => some (.missingMember name owner)
  | .resolved _ none missing => some (.missingClasses missing)
  | .unresolvable owner => some (.missingClasses [owner])

/-- How the member of a rule is searched. -/
def memberQuery? (r : Rule) : Option (String × MemberQuery) :=
  match r.target with
  | .overload name params => some (name, .overload name (RuleTarget.paramsText params))
  | .member name => some (name, .named name)
  | _ => none

/-- The reason for which what a rule about one class forbids is not found. -/
def unresolved? (r : Rule) : Query mentioned ClasspathError (Option UnresolvedReason) :=
  let owner := r.owner.text
  match r.memberQuery? with
  | some (name, query) => memberReason? owner name <$> query.resolve owner
  | none => ownerReason? owner <$> Query.look owner

/-- What becomes of a rule when it is bound to a class path. -/
inductive Binding where
  | exact
  | glob
  | annotated
  | unresolved (reason : UnresolvedReason)
  deriving DecidableEq, Repr

/-- A rule about one class is bound, unless there is a reason not to. -/
def Binding.ofReason : Option UnresolvedReason → Binding
  | none => .exact
  | some reason => .unresolved reason

/-- What becomes of a rule. -/
def binding (r : Rule) : Query mentioned ClasspathError Binding :=
  if r.target = .annotated then return .annotated
  else if r.owner.isGlob then return .glob
  else Binding.ofReason <$> r.unresolved?

end Rule

namespace RuleBook

variable {mentioned : List String}

/-- A set with one more rule. -/
def place (set : RuleSet) (r : Rule) : Rule.Binding → RuleSet
  | .exact => { set with exact := RuleSet.put r.key r set.exact }
  | .glob => { set with globs := set.globs ++ [r] }
  | .annotated => { set with annotated := set.annotated ++ [r] }
  | .unresolved _ => { set with unresolved := set.unresolved ++ [r.display] }

/-- A set with one more rule, unless the rule must be found and is not. -/
def settle (strict : Bool) (set : RuleSet) (p : PendingRule) (binding : Rule.Binding) :
    Except RuleBookError RuleSet :=
  match binding with
  | .unresolved reason =>
    if strict && !p.lenient then .error (.unresolvable p.origin p.line p.rule.display reason)
    else .ok (place set p.rule binding)
  | _ => .ok (place set p.rule binding)

/-- Binds one rule. -/
def bindRule (strict : Bool) (set : RuleSet) (p : PendingRule) :
    Query mentioned RuleBookError RuleSet := do
  let binding ← p.rule.binding.adapt RuleBookError.classpath
  Query.ofExcept (settle strict set p binding)

/-- Binds the rules of a book, in the order of registration. -/
def bind (book : RuleBook) (strict : Bool) : Query mentioned RuleBookError RuleSet :=
  book.rules.foldlM (bindRule strict) .empty

/-- Binds the rules of a book to a class path. -/
def freeze (book : RuleBook) (s : ClassSource) (strict : Bool) : Except RuleBookError RuleSet :=
  s.answer (book.bind strict).run

end RuleBook

end JvmAudit
