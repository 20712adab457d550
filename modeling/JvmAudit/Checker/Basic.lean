import JvmAudit.Checker.Error
import JvmAudit.Classpath.Cache
import JvmAudit.Scan.Basic

/-!
# Checks

A check goes through stages: rules are loaded; the rules are bound to the class path, at the latest
when the first class is queued; classes are queued; the check runs, once. An operation that is
called at the wrong stage fails and changes nothing. Queued classes come before those of the class
path.

A run scans all queued classes. If the class path fails, the first failure is the result and there
is no report. Otherwise there is a report, also if the run fails because classes are missing or
rules are violated.
-/

namespace JvmAudit

/-- What makes a check fail, and whether internal runtime classes are banned. -/
structure CheckerOptions where
  forbidInternalRuntime : Bool
  failOnMissingClasses : Bool
  failOnUnresolvableSignatures : Bool
  failOnViolation : Bool
  deriving DecidableEq, Repr

/-- Everything fails, and internal runtime classes are allowed. -/
def CheckerOptions.default : CheckerOptions := ⟨false, true, true, true⟩

/-- A check. -/
structure Checker where
  options : CheckerOptions
  /-- The class path, with the classes to check in front, and what was found on it. -/
  resolver : Resolver
  book : RuleBook
  suppression : Suppression
  /-- The bound rules. -/
  rules : Option RuleSet
  /-- The classes to check. -/
  queue : List ClassFile
  /-- The names that are taken by classes to check. -/
  queued : List String
  stage : Stage
  report : Report

namespace Checker

/-- A computation that changes a check, also if it fails. -/
abbrev CheckM := ExceptT CheckerError (StateM Checker)

/-- The source of classes of a check. -/
abbrev source (c : Checker) : ClassSource := c.resolver.source

/-- A new check. -/
def new (source : ClassSource) (options : CheckerOptions) : Checker :=
  ⟨options, .ofSource source, .empty, .empty, none, [], [], .configured, .empty⟩

/-- A new check on a class path. -/
def ofClasspath (files : FileTree) (classpath : Classpath) (options : CheckerOptions) :
    Except CheckerError Checker :=
  match ClassSource.ofClasspath files classpath with
  | .ok source => .ok (new source options)
  | .error e => .error (.ofClasspath e)

/-- Runs a computation on a check. -/
def perform {α : Type} (c : Checker) (action : CheckM α) : Except CheckerError α × Checker :=
  (ExceptT.run action).run c

/-- Fails unless an operation is allowed now. -/
def require (operation : Operation) : CheckM Unit := do
  let stage := (← get).stage
  if operation.allowed stage then return () else throw (.invalidState operation stage)

/-- Adds a pattern for annotations that exempt. -/
def suppress (pattern : String) : CheckM Unit := do
  require .suppress
  modify fun c => { c with suppression := c.suppression.add pattern }

/-- Runs a computation on the rule book. -/
def onBook {α : Type} (load : RuleBook.Load α) : CheckM α := do
  let (result, book) := (← get).book.run load
  modify fun c => { c with book }
  match result with
  | .ok a => return a
  | .error e => throw (.ofRuleBook e)

/-- Sets the runtime version for catalogs. -/
def setTarget (version : String) : CheckM Unit := do
  require .setTarget
  onBook (RuleBook.setTarget (some version))

/-- Loads rules from a text; gives the number of new rules. -/
def addText (text : String) : CheckM Nat := do
  require .parseText
  onBook (RuleBook.addText "inline signatures" text)

/-- Loads rules from a file; gives the number of new rules. -/
def addFile (files : FileTree) (path : String) : CheckM Nat := do
  require .parseFile
  onBook (RuleBook.addFile files path)

/-- Loads a catalog; gives the number of new rules. -/
def addBundled (name : String) (target : Option String) : CheckM Nat := do
  require .parseBundled
  onBook (RuleBook.addBundled name target)

/-- Binds the rules to the class path, if that was not done. -/
def freeze : CheckM Unit := do
  let c ← get
  if c.stage = .configured then
    let (result, resolver) :=
      c.resolver.answer (c.book.bind c.options.failOnUnresolvableSignatures).run
    set { c with resolver }
    match result with
    | .ok rules => modify fun c => { c with rules := some rules, stage := .signaturesLoaded }
    | .error e => throw (.ofRuleBook e)

/-- Binds the rules, and tells whether nothing can ever match. -/
def hasNoSignatures : CheckM Bool := do
  freeze
  let c ← get
  return (c.rules.map RuleSet.isEmpty).getD true && !c.options.forbidInternalRuntime

/-- A check with one more class. -/
def push (c : Checker) (cls : ClassFile) : Checker :=
  { c with
    resolver := c.resolver.addOverlay cls
    queue := c.queue ++ [cls]
    queued := cls.name :: c.queued
    stage := .classesQueued }

/-- A check with one more class, unless its name is taken. -/
def enqueue (c : Checker) (cls : ClassFile) : Checker :=
  if cls.name ∈ c.queued then c else c.push cls

/-- Queues a class file. -/
def addClass (origin : String) (data : Bytes) : CheckM Unit := do
  require .addClass
  freeze
  match ClassFile.parse .full data with
  | .ok cls => modify (·.enqueue cls)
  | .error e => throw (.ofClassFile origin e)

/-- Reads and queues a class file; that it can be read is checked first. -/
def addClassFile (files : FileTree) (path : String) : CheckM Unit := do
  match files.read path with
  | .ok data => addClass path data.toList
  | .error e => throw (.io path e)

/-- The scanner of a check with these rules. -/
def scanner (c : Checker) (rules : RuleSet) : Scanner :=
  ⟨⟨rules, c.options.forbidInternalRuntime⟩, c.source, c.suppression⟩

/-- The report for the scans of the queued classes. -/
def reportOf (rules : RuleSet) (scans : List ClassScan) : Report :=
  ⟨scans.flatMap (·.violations), scans.length, Scanner.sortedNames (scans.flatMap (·.missing)),
    rules.unresolved⟩

/-- What a report makes a run fail with. -/
def failure? (options : CheckerOptions) (r : Report) : Option CheckerError :=
  if options.failOnMissingClasses && !r.missingClasses.isEmpty then
    some (.missingClasses r.missingClasses)
  else if options.failOnViolation && !r.violations.isEmpty then some (.policy r.violations.length)
  else none

/-- Scans all queued classes, one after the other. -/
def scans (c : Checker) (rules : RuleSet) : List (Except ClasspathError ClassScan) × Resolver :=
  c.resolver.answer (c.queue.mapM fun cls =>
    (Policy.scan ⟨rules, c.options.forbidInternalRuntime⟩ c.suppression cls).run)

/-- What a run does after the rules were bound: it scans all classes, and the first failure
decides. -/
def finish (c : Checker) : Except CheckerError Report × Checker :=
  let c := { c with stage := .ran }
  match c.rules with
  | none => (.error (.invalidState .run c.stage), c)
  | some rules =>
    let (scans, resolver) := c.scans rules
    let c := { c with resolver }
    match scans.mapM id with
    | .error e => (.error (.ofClasspath e), c)
    | .ok scans =>
      let report := reportOf rules scans
      let c := { c with report }
      match failure? c.options report with
      | some e => (.error e, c)
      | none => (.ok report, c)

/-- Scans the queued classes. -/
def run : CheckM Report := do
  require .run
  freeze
  ExceptT.mk fun c => c.finish

end Checker

end JvmAudit
