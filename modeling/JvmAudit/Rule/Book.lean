import JvmAudit.Classpath.Error
import JvmAudit.Proofs.Catalog.Plain
import JvmAudit.Rule.Source

/-!
# Rule books

A rule book collects rules from texts, files and catalogs. Of rules with the same key the first one
counts, and a catalog counts once. A source is taken as a whole or not at all: it is read, and what
it includes is looked up, before its first rule is added.

Rules of catalogs are lenient: the runtime that they speak of need not be on the class path.

## Termination

Taking in a source takes in the catalogs that it includes, which are sources themselves. That ends
since no catalog includes another one (`Catalog.content_ne_includeBundled`): `includeDepth` is the
number of rounds that are left.
-/

namespace JvmAudit

/-- Why a rule cannot be bound to the class path. -/
inductive UnresolvedReason where
  | missingClasses (names : List String)
  | missingMember (name owner : String)
  deriving DecidableEq, Repr

/-- The text of a reason. -/
def UnresolvedReason.message : UnresolvedReason → String
  | .missingClasses names => "class " ++ Text.join ", " names ++ " not found"
  | .missingMember name owner => s!"member '{name}' not found in {owner} or its supertypes"

/-- Why rules cannot be loaded, or bound to the class path. -/
inductive RuleBookError where
  | parse (e : RuleTextError)
  /-- A catalog that is asked for at `origin`. -/
  | bundled (origin : String) (cause : CatalogError)
  | io (path : String) (cause : FileError)
  | unresolvable (origin : String) (line : Nat) (rule : String) (reason : UnresolvedReason)
  | classpath (e : ClasspathError)
  deriving DecidableEq, Repr

/-- The text of an error. -/
def RuleBookError.message : RuleBookError → String
  | .parse e => e.message
  | .bundled origin cause => s!"{origin}: {cause.message}"
  | .io path cause => s!"Failed to read signatures file {path}: {cause.message}"
  | .unresolvable origin line rule reason =>
    s!"{origin}:{line}: signature '{rule}' cannot be resolved: {reason.message}"
  | .classpath e => e.message

/-- A rule and where it comes from. -/
structure PendingRule where
  rule : Rule
  /-- Whether the rule may be dropped if its class or member is not found. -/
  lenient : Bool
  origin : String
  line : Nat
  deriving DecidableEq, Repr

/-- The rules collected so far. -/
structure RuleBook where
  /-- In the order of registration. -/
  rules : List PendingRule
  /-- The keys of the rules, as a set. -/
  keys : List String
  /-- The runtime version for catalogs that need one. -/
  target : Option String
  /-- The catalogs that were taken in, as a set. -/
  catalogs : List String
  deriving DecidableEq, Repr

namespace RuleBook

/-- A book without rules. -/
def empty : RuleBook := ⟨[], [], none, []⟩

/-- A computation that changes a book, also if it fails. -/
abbrev Load := ExceptT RuleBookError (StateM RuleBook)

/-- Notes a key; gives whether it is new. -/
def insertKey (key : String) : Load Bool := do
  if key ∈ (← get).keys then return false
  modify fun book => { book with keys := key :: book.keys }
  return true

/-- Notes a catalog; gives whether it is new. -/
def insertCatalog (name : String) : Load Bool := do
  if name ∈ (← get).catalogs then return false
  modify fun book => { book with catalogs := name :: book.catalogs }
  return true

/-- Adds the rules with new keys and counts them, beginning with `added`. -/
def addRules (added : Nat) : List PendingRule → Load Nat
  | [] => return added
  | p :: ps => do
    if ← insertKey p.rule.key then
      modify fun book => { book with rules := book.rules ++ [p] }
      addRules (added + 1) ps
    else addRules added ps

/-- The rules among the entries of a source. -/
def rulesOf (origin : String) (lenient : Bool) (entries : List Entry) : List PendingRule :=
  entries.filterMap fun e =>
    match e.content with
    | .rule r => some ⟨r, e.lenient || lenient, origin, e.line⟩
    | .includeBundled _ => none

/-- The catalogs that the entries of a source include, with their lines. -/
def includesOf (entries : List Entry) : List (String × Nat) :=
  entries.filterMap fun e =>
    match e.content with
    | .rule _ => none
    | .includeBundled name => some (name, e.line)

/-- The place of a line in a source. -/
def lineOrigin (origin : String) (line : Nat) : String := s!"{origin}:{line}"

/-- Looks up the catalogs that a source includes. -/
def checkIncludes (origin : String) (target : Option String) : List (String × Nat) → Load Unit
  | [] => return ()
  | (name, line) :: rest =>
    match Catalog.resolve name target with
    | .error e => throw (.bundled (lineOrigin origin line) e)
    | .ok _ => checkIncludes origin target rest

/-- A bound for the steps to take in what a source includes. The texts of catalogs include nothing,
so to take in one catalog has the bound 2. -/
def includeDepth : List (String × Nat) → Nat
  | [] => 0
  | _ :: rest => rest.length + 3

theorem includesOf_eq_nil {name origin : String} {target : Option String} {c : ResolvedCatalog}
    {entries : List Entry} (hc : Catalog.resolve name target = .ok c)
    (he : RuleText.parse origin c.text = .ok entries) : includesOf entries = [] := by
  refine List.filterMap_eq_nil_iff.2 fun e hmem => ?_
  cases hcontent : e.content with
  | rule r => rfl
  | includeBundled n => exact absurd hcontent (Catalog.content_ne_includeBundled hc he e hmem n)

mutual

/-- Takes in a catalog on behalf of `origin`, unless that was done before; gives the number of new
rules. -/
def includeCatalog (origin name : String) (target : Option String) : Load Nat :=
  match _hc : Catalog.resolve name target with
  | .error e => throw (.bundled origin e)
  | .ok c => do
    if ← insertCatalog c.name then
      match _he : RuleText.parse c.name c.text with
      | .error e => throw (.parse e)
      | .ok entries => addEntries c.name true entries
    else return 0
termination_by 2
decreasing_by
  rw [includesOf_eq_nil _hc _he]
  exact Nat.lt_succ_self 1

/-- Takes in the entries of a source: its rules, and then the catalogs that it includes; gives the
number of new rules. -/
def addEntries (origin : String) (lenient : Bool) (entries : List Entry) : Load Nat := do
  let target := (← get).target
  checkIncludes origin target (includesOf entries)
  let added ← addRules 0 (rulesOf origin lenient entries)
  includeAll origin target added (includesOf entries)
termination_by includeDepth (includesOf entries) + 1

/-- Takes in catalogs that a source includes and counts the new rules, beginning with `added`. -/
def includeAll (origin : String) (target : Option String) (added : Nat)
    (includes : List (String × Nat)) : Load Nat :=
  match includes with
  | [] => return added
  | (name, line) :: rest => do
    let more ← includeCatalog (lineOrigin origin line) name target
    includeAll origin target (added + more) rest
termination_by includeDepth includes
decreasing_by
  · exact Nat.lt_add_left _ (Nat.lt_succ_self 2)
  · cases rest with
    | nil => exact Nat.succ_pos 2
    | cons i rest => exact Nat.lt_succ_self _

end

/-- Takes in a text; gives the number of new rules. -/
def addText (origin text : String) : Load Nat :=
  match RuleText.parse origin text with
  | .error e => throw (.parse e)
  | .ok entries => addEntries origin false entries

/-- Takes in a file. -/
def addFile (files : FileTree) (path : String) : Load Nat := do
  match files.readText path with
  | .ok text => addText path text
  | .error e => throw (.io path e)

/-- Takes in a catalog. A target version given here counts instead of the one of the book. -/
def addBundled (name : String) (target : Option String) : Load Nat := do
  let target := target.or (← get).target
  includeCatalog "bundled" name target

/-- Sets the runtime version. -/
def setTarget (version : Option String) : Load Unit :=
  modify fun book => { book with target := version }

/-- Runs a computation on a book. -/
def run {α : Type} (book : RuleBook) (load : Load α) : Except RuleBookError α × RuleBook :=
  (ExceptT.run load).run book

end RuleBook

end JvmAudit
