import JvmAudit.Proofs.Pointwise
import JvmAudit.Proofs.Rule.Loading

/-!
# What a book holds

A book is made by a sequence of calls, and its rules are what the successful ones gave, one behind
the other, and of rules with the same key the first one (`rules_of_calls`). What a source gives is
said by its lines (`Yields`, `Source.Gives`): its own rules, and then those of the catalogs that it
includes.

A catalog that was taken in before is passed over as a whole, without a look at its rules. That
makes no difference, since a name stands for one catalog only and all keys of that catalog are in
the book (`Complete`).
-/

namespace JvmAudit.RuleBook

open Result

variable {book : RuleBook} {source : Source} {given : Contents} {c : ResolvedCatalog}

/-! ## What a source gives -/

/-- What the entries of a source give, in their order: rules, and catalogs with the lines that
include them. A rule may be dropped if the entry says so, or if all rules of the source may. -/
inductive Yields (origin : String) (lenient : Bool) :
    List Entry → List PendingRule → List (String × Nat) → Prop
  | nil : Yields origin lenient [] [] []
  | rule {r : Rule} {tolerant : Bool} {line : Nat} {entries : List Entry} {rules : List PendingRule}
    {includes : List (String × Nat)} (h : Yields origin lenient entries rules includes) :
    Yields origin lenient (⟨.rule r, tolerant, line⟩ :: entries)
      (⟨r, tolerant || lenient, origin, line⟩ :: rules) includes
  | catalog {name : String} {tolerant : Bool} {line : Nat} {entries : List Entry}
    {rules : List PendingRule} {includes : List (String × Nat)}
    (h : Yields origin lenient entries rules includes) :
    Yields origin lenient (⟨.includeBundled name, tolerant, line⟩ :: entries) rules ((name,
      line) :: includes)

/-- The rules of a catalog: those of its lines, all of which may be dropped. It includes no other
one. -/
def CatalogGives (c : ResolvedCatalog) (rules : List PendingRule) : Prop :=
  ∃ entries, RuleText.parse c.name c.text = .ok entries ∧ Yields c.name true entries rules []

/-- What a source gives for a target version: its own rules and behind them those of the catalogs
that it includes, each in the order of the lines. -/
inductive Source.Gives (target : Option String) :
    Source → List PendingRule → List ResolvedCatalog → Prop
  | text {origin content : String} {entries : List Entry} {own : List PendingRule}
    {includes : List (String × Nat)} {catalogs : List ResolvedCatalog}
    {rules : List (List PendingRule)} (hparse : RuleText.parse origin content = .ok entries)
    (hyields : Yields origin false entries own includes)
    (hcatalogs : List.Forall₂ (fun i c => Catalog.resolve i.1 target = .ok c) includes catalogs)
    (hrules : List.Forall₂ CatalogGives catalogs rules) :
    Gives target (.text origin content) (own ++ rules.flatten) catalogs
  | file {files : FileTree} {path content : String} {rules : List PendingRule}
    {catalogs : List ResolvedCatalog} (hread : files.readText path = .ok content)
    (h : Gives target (.text path content) rules catalogs) :
      Gives target (.file files path) rules catalogs
  | bundled {name : String} {version : Option String} {c : ResolvedCatalog}
    {rules : List PendingRule}
    (hc : Catalog.resolve name (version.or target) = .ok c) (hrules : CatalogGives c rules) :
    Gives target (.bundled name version) rules [c]

/-- What the entries yield can be computed. -/
theorem yields_rulesOf (origin : String) (lenient : Bool) (entries : List Entry) :
    Yields origin lenient entries (rulesOf origin lenient entries) (includesOf entries) := by
  induction entries with
  | nil => exact .nil
  | cons e entries ih =>
    obtain ⟨content, tolerant, line⟩ := e
    cases content with
    | rule r => exact ih.rule
    | includeBundled name => exact ih.catalog

/-- What the entries yield is determined by them. -/
theorem Yields.eq {origin : String} {lenient : Bool} {entries : List Entry}
    {rules : List PendingRule}
    {includes : List (String × Nat)} (h : Yields origin lenient entries rules includes) :
    rules = rulesOf origin lenient entries ∧ includes = includesOf entries := by
  induction h with
  | nil => exact ⟨rfl, rfl⟩
  | rule _ ih =>
    obtain ⟨rfl, rfl⟩ := ih
    exact ⟨rfl, rfl⟩
  | catalog _ ih =>
    obtain ⟨rfl, rfl⟩ := ih
    exact ⟨rfl, rfl⟩

/-- The entries of a lenient source yield lenient rules only. -/
theorem Yields.lenient {origin : String} {entries : List Entry} {rules : List PendingRule}
    {includes : List (String × Nat)} (h : Yields origin true entries rules includes) :
    ∀ p ∈ rules, p.lenient = true := by
  induction h with
  | nil => simp
  | rule _ ih => exact List.forall_mem_cons.2 ⟨Bool.or_true _, ih⟩
  | catalog _ ih => exact ih

/-- A catalog that comes with the program. -/
def IsBundled (c : ResolvedCatalog) : Prop := ∃ name target, Catalog.resolve name target = .ok c

/-- Every bundled catalog gives rules, since its text can be read. -/
theorem catalogGives_of_isBundled (h : IsBundled c) : CatalogGives c (catalogRules c) := by
  obtain ⟨name, target, hc⟩ := h
  obtain ⟨entries, hentries, hincludes, hrules⟩ := catalogRules_eq hc
  have hyields := yields_rulesOf c.name true entries
  rw [hincludes] at hyields
  exact ⟨entries, hentries, hrules ▸ hyields⟩

/-- The rules that a catalog gives are determined by its text. -/
theorem CatalogGives.eq {rules : List PendingRule} (h : CatalogGives c rules) :
    rules = catalogRules c := by
  obtain ⟨entries, hentries, hyields⟩ := h
  simp [catalogRules, hentries, Except.toOption, hyields.eq.1]

theorem eq_map_catalogRules {catalogs : List ResolvedCatalog} {rules : List (List PendingRule)}
    (h : List.Forall₂ CatalogGives catalogs rules) : rules = catalogs.map catalogRules := by
  induction h with
  | nil => rfl
  | cons hc _ ih => rw [List.map_cons, ← hc.eq, ih]

/-- Catalogs that were found are those that the names stand for, one by one. -/
theorem forall₂_catalogsAt {origin : String} {target : Option String}
    {includes : List (String × Nat)}
    {catalogs : List ResolvedCatalog} (h : catalogsAt origin target includes = .ok catalogs) :
    List.Forall₂ (fun i c => Catalog.resolve i.1 target = .ok c) includes catalogs :=
  (mapM_eq_ok.1 h).imp fun _ _ hi => mapError_eq_ok.1 hi

/-- If each name stands for a catalog, the catalogs are found. -/
theorem catalogsAt_of_forall₂ {target : Option String} {includes : List (String × Nat)}
    {catalogs : List ResolvedCatalog}
    (h : List.Forall₂ (fun i c => Catalog.resolve i.1 target = .ok c) includes catalogs)
    (origin : String) :
    catalogsAt origin target includes = .ok catalogs :=
  mapM_eq_ok.2 (h.imp fun _ _ hi => mapError_eq_ok.2 hi)

theorem forall₂_catalogGives {catalogs : List ResolvedCatalog} (h : ∀ c ∈ catalogs, IsBundled c) :
    List.Forall₂ CatalogGives catalogs (catalogs.map catalogRules) :=
  List.forall₂_map_right_iff.2
    (List.forall₂_same.2 fun c hc => catalogGives_of_isBundled (h c hc))

theorem isBundled_of_textContents {target : Option String} {origin text : String}
    (h : textContents target origin text = .ok given) (hc : c ∈ given.catalogs) : IsBundled c := by
  obtain ⟨entries, _, h⟩ := bind_eq_ok.1 h
  obtain ⟨catalogs, hcatalogs, h⟩ := bind_eq_ok.1 h
  cases h
  obtain ⟨i, _, hi⟩ := exists_of_mem_mapM hcatalogs hc
  exact ⟨i.1, target, mapError_eq_ok.1 hi⟩

/-- What was computed from a text is what the text gives. -/
theorem gives_text {target : Option String} {origin text : String}
    (h : textContents target origin text = .ok given) :
    Source.Gives target (.text origin text) given.rules given.catalogs := by
  have hbundled : ∀ c ∈ given.catalogs, IsBundled c := fun c hc => isBundled_of_textContents h hc
  obtain ⟨entries, hentries, h⟩ := bind_eq_ok.1 h
  obtain ⟨catalogs, hcatalogs, h⟩ := bind_eq_ok.1 h
  cases h
  rw [Contents.rules, List.flatMap_def]
  exact .text (mapError_eq_ok.1 hentries) (yields_rulesOf origin false entries)
    (forall₂_catalogsAt hcatalogs) (forall₂_catalogGives hbundled)

/-- What a source has to give is what its lines give. -/
theorem gives_of_contents {target : Option String} (h : source.contents target = .ok given) :
    source.Gives target given.rules given.catalogs := by
  cases source with
  | text origin content => exact gives_text h
  | file files path =>
    obtain ⟨content, hread, h⟩ := bind_eq_ok.1 h
    exact .file (mapError_eq_ok.1 hread) (gives_text h)
  | bundled name version =>
    obtain ⟨c, hc, h⟩ := bind_eq_ok.1 h
    cases h
    have hrules := catalogGives_of_isBundled ⟨_, _, mapError_eq_ok.1 hc⟩
    rw [Contents.rules, List.nil_append, List.flatMap_singleton]
    exact .bundled (mapError_eq_ok.1 hc) hrules

/-- What the lines of a source give is what it has to give. -/
theorem Source.Gives.exists_contents {target : Option String} {rules : List PendingRule}
    {catalogs : List ResolvedCatalog} (h : source.Gives target rules catalogs) :
    ∃ own, source.contents target = .ok ⟨own, catalogs⟩ ∧
    rules = own ++ catalogs.flatMap catalogRules := by
  induction h with
  | @text origin _ _ _ _ _ _ hparse hyields hcatalogs hrules =>
    obtain ⟨rfl, rfl⟩ := hyields.eq
    refine ⟨_, ?_, by rw [eq_map_catalogRules hrules, List.flatMap_def]⟩
    have hcatalogs := catalogsAt_of_forall₂ hcatalogs origin
    exact bind_eq_ok.2 ⟨_, mapError_eq_ok.2 hparse, bind_eq_ok.2 ⟨_, hcatalogs, rfl⟩⟩
  | file hread _ ih =>
    obtain ⟨own, hcontents, hrules⟩ := ih
    refine ⟨own, ?_, hrules⟩
    simp only [Source.contents, hread, Except.mapError]
    exact hcontents
  | bundled hc hrules =>
    refine ⟨[], ?_, by rw [hrules.eq]; simp⟩
    simp only [Source.contents, catalogAt, hc]
    rfl

/-! ## Calls -/

/-- A step in the making of a book. -/
inductive Call where
  | setTarget (version : Option String)
  | load (source : Source)

/-- All rules that a source has to give; none if it cannot be loaded. -/
def Source.rules (target : Option String) (source : Source) : List PendingRule :=
  (source.contents target).toOption.elim [] Contents.rules

namespace Call

/-- The book after a call, whether or not that succeeds. -/
def apply (book : RuleBook) : Call → RuleBook
  | .setTarget version => (book.run (RuleBook.setTarget version)).2
  | .load source => (book.run source.load).2

/-- The rules that a call gives to a book, if it succeeds. -/
def rules (book : RuleBook) : Call → List PendingRule
  | .setTarget _ => []
  | .load source => if (book.run source.load).1.isOk then source.rules book.target else []

end Call

/-- The book after some calls. -/
def after (book : RuleBook) (calls : List Call) : RuleBook := calls.foldl Call.apply book

/-- The rules of all calls that succeed, one behind the other. -/
def rulesGiven (book : RuleBook) : List Call → List PendingRule
  | [] => []
  | call :: calls => call.rules book ++ rulesGiven (call.apply book) calls

/-- The rules that calls gave to a book, one behind the other. Only loads that succeed give any. -/
inductive Given : RuleBook → List Call → List PendingRule → Prop
  | nil {book : RuleBook} : Given book [] []
  | setTarget {book : RuleBook} {version : Option String} {calls : List Call}
    {rules : List PendingRule}
    (h : Given (book.run (RuleBook.setTarget version)).2 calls rules) :
    Given book (.setTarget version :: calls) rules
  | failed {book book' : RuleBook} {source : Source} {e : RuleBookError} {calls : List Call}
    {rules : List PendingRule} (hrun : book.run source.load = (.error e, book'))
    (h : Given book' calls rules) : Given book (.load source :: calls) rules
  | loaded {book book' : RuleBook} {source : Source} {n : Nat} {calls : List Call}
    {new rules : List PendingRule} {catalogs : List ResolvedCatalog}
    (hrun : book.run source.load = (.ok n, book')) (hgives : source.Gives book.target new catalogs)
    (h : Given book' calls rules) : Given book (.load source :: calls) (new ++ rules)

/-- Of rules with the same key the first one. -/
def firstByKey (ps : List PendingRule) : List PendingRule :=
  ps.eraseDupsBy (·.rule.key == ·.rule.key)

/-- A call leads from a reachable book to a reachable book. -/
theorem reachable_apply (h : Reachable book) (call : Call) : Reachable (call.apply book) := by
  cases call with
  | setTarget version => exact h.setTarget version
  | load source =>
    cases source with
    | text origin content => exact h.addText origin content
    | file files path => exact h.addFile files path
    | bundled name target => exact h.addBundled name target

theorem reachable_after (h : Reachable book) (calls : List Call) :
    Reachable (book.after calls) := by
  unfold after
  induction calls generalizing book with
  | nil => exact h
  | cons call calls ih => exact ih (reachable_apply h call)

/-- One step of a run: a load that fails changes nothing, and one that succeeds takes in what the
source has to give. -/
theorem apply_cases (book : RuleBook) (call : Call) :
    (call.rules book = [] ∧ ∃ target, call.apply book = { book with target }) ∨
      ∃ source given, call = .load source ∧ source.contents book.target = .ok given ∧
        call.rules book = given.rules ∧ call.apply book = book.takeIn given := by
  cases call with
  | setTarget version => exact .inl ⟨rfl, version, rfl⟩
  | load source =>
    cases h : source.contents book.target with
    | error e =>
      have hrun := Source.run_load_of_error h
      refine .inl ⟨?_, book.target, ?_⟩
      · simp [Call.rules, hrun, Except.isOk, Except.toBool]
      · simp [Call.apply, hrun]
    | ok given =>
      have hrun := Source.run_load_of_ok h
      refine .inr ⟨source, given, rfl, h, ?_, ?_⟩
      · simp [Call.rules, hrun, Source.rules, h, Except.isOk, Except.toBool, Except.toOption]
      · simp [Call.apply, hrun]

/-- The rules that the calls give, one by one, can be computed. -/
theorem given_rulesGiven (book : RuleBook) (calls : List Call) :
    Given book calls (rulesGiven book calls) := by
  induction calls generalizing book with
  | nil => exact .nil
  | cons call calls ih =>
    cases call with
    | setTarget version => exact .setTarget (ih _)
    | load source =>
      have hrest := ih (Call.apply book (.load source))
      cases h : source.contents book.target with
      | error e =>
        have hrun := Source.run_load_of_error h
        simp only [rulesGiven, Call.apply, Call.rules, hrun] at hrest ⊢
        exact .failed hrun hrest
      | ok given =>
        have hrun := Source.run_load_of_ok h
        have hrules : Call.rules book (.load source) = given.rules := by
          simp [Call.rules, hrun, Source.rules, h, Except.isOk, Except.toBool, Except.toOption]
        simp only [Call.apply, hrun] at hrest
        rw [rulesGiven, hrules]
        simp only [Call.apply, hrun]
        exact .loaded hrun (gives_of_contents h) hrest

/-- The rules that calls gave are determined. -/
theorem Given.eq {calls : List Call} {rules : List PendingRule} (h : Given book calls rules) :
    rules = rulesGiven book calls := by
  induction h with
  | nil => rfl
  | setTarget _ ih => exact ih
  | failed hrun _ ih =>
    simp only [rulesGiven, Call.apply, Call.rules, hrun]
    exact ih
  | loaded hrun hgives _ ih =>
    obtain ⟨own, hcontents, hnew⟩ := hgives.exists_contents
    simp only [rulesGiven, Call.apply, Call.rules, hrun, Source.rules, hcontents]
    rw [ih, hnew]
    rfl

/-! ## The lines of entries -/

theorem line_mem_of_mem_entries {message : String} {lenient : Bool}
    {lines : List (Nat × Line)} {e : Entry}
    (h : e ∈ Line.entries message lenient lines) : e.line ∈ lines.map (·.1) := by
  rcases Line.exists_line_of_mem_entries h with ⟨_, _, _, hmem⟩ | ⟨_, _, hmem⟩
  · exact List.mem_map.2 ⟨_, hmem, rfl⟩
  · exact List.mem_map.2 ⟨_, hmem, rfl⟩

/-- The entries of a text stand in the order of its lines, with at most one entry for a line. -/
theorem pairwise_entries {message : String} {lenient : Bool} {lines : List (Nat × Line)}
    (h : (lines.map (·.1)).Pairwise (· < ·)) :
    (Line.entries message lenient lines).Pairwise (·.line < ·.line) := by
  induction lines generalizing message lenient with
  | nil => exact .nil
  | cons l lines ih =>
    obtain ⟨n, line⟩ := l
    obtain ⟨hn, hlines⟩ := List.pairwise_cons.1 h
    have hlater : ∀ {message : String}
        {lenient : Bool}, ∀ e ∈ Line.entries message lenient lines, n < e.line :=
      fun e he => hn e.line (line_mem_of_mem_entries he)
    cases line with
    | blank => exact ih hlines
    | defaultMessage text => exact ih hlines
    | ignoreUnresolvable => exact ih hlines
    | includeBundled name => exact List.pairwise_cons.2 ⟨hlater, ih hlines⟩
    | rule owner target reason => exact List.pairwise_cons.2 ⟨hlater, ih hlines⟩

theorem map_fst_of_parseLines {origin : String} {numbered : List (Nat × List Char)}
    {lines : List (Nat × Line)} (h : numbered.mapM (RuleText.parseLine origin) = .ok lines) :
    lines.map (·.1) = numbered.map (·.1) := by
  have hline : ∀ l l', RuleText.parseLine origin l = .ok l' → l'.1 = l.1 := by
    intro l l' hl
    unfold RuleText.parseLine at hl
    split at hl
    · cases hl
      rfl
    · cases hl
  induction mapM_eq_ok.1 h with
  | nil => rfl
  | cons hl _ ih => rw [List.map_cons, List.map_cons, hline _ _ hl, ih (mapM_eq_ok.2 ‹_›)]

/-- The entries of a text stand in the order of its lines. -/
theorem pairwise_line_of_parse {origin text : String} {entries : List Entry}
    (h : RuleText.parse origin text = .ok entries) : entries.Pairwise (·.line < ·.line) := by
  obtain ⟨lines, hlines, h⟩ := bind_eq_ok.1 h
  cases h
  refine pairwise_entries ?_
  rw [map_fst_of_parseLines hlines, RuleText.numbered, List.map_map]
  have hsucc : ((fun l : Nat × List Char => l.1) ∘ fun l : List Char × Nat => (l.2 + 1, l.1)) =
      (· + 1) ∘ Prod.snd := rfl
  rw [hsucc, ← List.map_map, List.zipIdx_map_snd, List.pairwise_map]
  exact (List.pairwise_lt_range' 1).imp fun hlt => Nat.succ_lt_succ hlt

/-! ## Rules and their keys -/

theorem mem_keys_add {p : PendingRule} {key : String} :
    key ∈ (book.add p).keys ↔ key ∈ book.keys ∨ p.rule.key = key := by
  unfold add
  split
  · next hp =>
    constructor
    · exact .inl
    · rintro (h | rfl)
      · exact h
      · exact hp
  · simp only [List.mem_cons]
    rw [or_comm, eq_comm]

/-- The keys of a book grow by those of the rules that are added. -/
theorem mem_keys_addAll {ps : List PendingRule} {key : String} :
    key ∈ (book.addAll ps).keys ↔ key ∈ book.keys ∨ ∃ p ∈ ps, p.rule.key = key := by
  unfold addAll
  induction ps generalizing book with
  | nil => simp
  | cons p ps ih => rw [List.foldl_cons, ih, mem_keys_add, List.exists_mem_cons_iff, or_assoc]

theorem addAll_append (book : RuleBook) (ps qs : List PendingRule) :
    book.addAll (ps ++ qs) = (book.addAll ps).addAll qs := List.foldl_append

/-- Rules whose keys are all in the book change nothing. -/
theorem addAll_eq_self {ps : List PendingRule} (h : ∀ p ∈ ps, p.rule.key ∈ book.keys) :
    book.addAll ps = book := by
  unfold addAll
  induction ps with
  | nil => rfl
  | cons p ps ih =>
    rw [List.foldl_cons, add, if_pos (h p List.mem_cons_self)]
    exact ih fun q hq => h q (List.mem_cons_of_mem _ hq)

theorem catalogs_addAll (book : RuleBook) (ps : List PendingRule) :
    (book.addAll ps).catalogs = book.catalogs := by
  unfold addAll
  induction ps generalizing book with
  | nil => rfl
  | cons p ps ih =>
    rw [List.foldl_cons, ih, add]
    split
    · rfl
    · rfl

/-- Behind the rules that are there come those with new keys, and of these with the same key the
first one. -/
theorem rules_addAll (book : RuleBook) (ps : List PendingRule) :
    (book.addAll ps).rules = book.rules ++ firstByKey (ps.filter (·.rule.key ∉ book.keys)) := by
  unfold addAll
  induction ps generalizing book with
  | nil => simp [firstByKey]
  | cons p ps ih =>
    rw [List.foldl_cons, ih, add]
    by_cases hp : p.rule.key ∈ book.keys
    · rw [if_pos hp, List.filter_cons_of_neg (by simpa using hp)]
    · rw [if_neg hp, List.filter_cons_of_pos (by simpa using hp), firstByKey, firstByKey,
        List.eraseDupsBy_cons, List.filter_filter]
      -- what is left out now is what has one of the old keys or that of the new rule
      have hkeys : (fun q : PendingRule => decide (q.rule.key ∉ p.rule.key :: book.keys)) =
          fun q => decide ((q.rule.key == p.rule.key) = false) &&
            decide (q.rule.key ∉ book.keys) := by
        funext q
        rw [Bool.eq_iff_iff]
        simp
      simp only [hkeys]
      simp

/-- Two books have the same rules and keys; their targets and catalogs may differ. -/
structure SameRules (book book' : RuleBook) : Prop where
  rules : book.rules = book'.rules
  keys : book.keys = book'.keys

theorem SameRules.refl (book : RuleBook) : SameRules book book := ⟨rfl, rfl⟩

theorem SameRules.trans {a b c : RuleBook} (hab : SameRules a b) (hbc : SameRules b c) :
    SameRules a c :=
  ⟨hab.rules.trans hbc.rules, hab.keys.trans hbc.keys⟩

/-- Books with the same rules still have the same rules when the same rules are added. -/
theorem SameRules.addAll {book' : RuleBook} (h : SameRules book book') (ps : List PendingRule) :
    SameRules (book.addAll ps) (book'.addAll ps) := by
  unfold RuleBook.addAll
  induction ps generalizing book book' with
  | nil => exact h
  | cons p ps ih =>
    refine ih ?_
    unfold add
    rw [h.keys]
    split
    · exact h
    · exact ⟨congrArg (· ++ [p]) h.rules, rfl⟩

/-! ## Catalogs -/

theorem isBundled_of_contents {target : Option String} (h : source.contents target = .ok given)
    (hc : c ∈ given.catalogs) : IsBundled c := by
  cases source with
  | text origin content => exact isBundled_of_textContents h hc
  | file files path =>
    obtain ⟨content, _, h⟩ := bind_eq_ok.1 h
    exact isBundled_of_textContents h hc
  | bundled name version =>
    obtain ⟨c', hc', h⟩ := bind_eq_ok.1 h
    cases h
    rw [List.mem_singleton.1 hc]
    exact ⟨name, version.or target, mapError_eq_ok.1 hc'⟩

/-- The keys of all catalogs that were taken in are there. -/
def Complete (book : RuleBook) : Prop :=
  ∀ c, IsBundled c → c.name ∈ book.catalogs → ∀ p ∈ catalogRules c, p.rule.key ∈ book.keys

theorem complete_empty : Complete .empty := by
  intro c _ hc
  cases hc

theorem Complete.addAll (h : Complete book) (ps : List PendingRule) :
    Complete (book.addAll ps) := by
  intro c hbundled hc p hp
  rw [catalogs_addAll] at hc
  exact mem_keys_addAll.2 (.inl (h c hbundled hc p hp))

/-- A catalog that is taken in is complete: all of its keys are in the book afterwards. -/
theorem Complete.take (h : Complete book) (hc : IsBundled c) : Complete (book.take c) := by
  unfold RuleBook.take
  split
  · exact h
  · intro c' hbundled hname p hp
    rw [catalogs_addAll] at hname
    rw [mem_keys_addAll]
    rcases List.mem_cons.1 hname with hname | hname
    · -- the same name, so it is the same catalog
      obtain ⟨name, target, hc⟩ := hc
      obtain ⟨name', target', hc'⟩ := hbundled
      rw [Catalog.resolve_inj hc' hc hname] at hp
      exact .inr ⟨p, hp, rfl⟩
    · exact .inl (h c' hbundled hname p hp)

/-- Whether a catalog is passed over or not makes no difference to the rules. -/
theorem Complete.sameRules_take (h : Complete book) (hc : IsBundled c) :
    SameRules (book.take c) (book.addAll (catalogRules c)) := by
  unfold RuleBook.take
  split
  · -- passed over, and all its keys are there
    next hname =>
      rw [addAll_eq_self (h c hc hname)]
      exact .refl book
  · have hsame : SameRules { book with catalogs := c.name :: book.catalogs } book := ⟨rfl, rfl⟩
    exact hsame.addAll _

/-- To take in catalogs adds the rules of all of them, though some may be passed over. -/
theorem Complete.foldl_take {catalogs : List ResolvedCatalog} (h : Complete book)
    (hcs : ∀ c ∈ catalogs, IsBundled c) :
    Complete (catalogs.foldl RuleBook.take book) ∧
      SameRules (catalogs.foldl RuleBook.take book)
        (book.addAll (catalogs.flatMap catalogRules)) := by
  induction catalogs generalizing book with
  | nil => exact ⟨h, .refl book⟩
  | cons c catalogs ih =>
    have hc := hcs c List.mem_cons_self
    obtain ⟨hcomplete, hsame⟩ := ih (h.take hc) fun x hx => hcs x (List.mem_cons_of_mem _ hx)
    refine ⟨hcomplete, ?_⟩
    rw [List.foldl_cons, List.flatMap_cons, addAll_append]
    exact hsame.trans ((h.sameRules_take hc).addAll _)

/-- To take in a source adds all its rules. -/
theorem Complete.takeIn (h : Complete book) (hcs : ∀ c ∈ given.catalogs, IsBundled c) :
    Complete (book.takeIn given) ∧ SameRules (book.takeIn given) (book.addAll given.rules) := by
  rw [Contents.rules, addAll_append]
  exact (h.addAll given.own).foldl_take hcs

/-- A call adds all the rules that it gives. -/
theorem Complete.apply (h : Complete book) (call : Call) :
    Complete (call.apply book) ∧ SameRules (call.apply book) (book.addAll (call.rules book)) := by
  rcases apply_cases book call with ⟨hrules, target, happly⟩ | ⟨source, given, _, hgiven,
    hrules, happly⟩
  · rw [hrules, happly]
    exact ⟨h, rfl, rfl⟩
  · rw [hrules, happly]
    exact h.takeIn fun c hc => isBundled_of_contents hgiven hc

/-- After any calls the rules are those that were added one by one. -/
theorem Complete.after (h : Complete book) (calls : List Call) :
    Complete (book.after calls) ∧
    SameRules (book.after calls) (book.addAll (rulesGiven book calls)) := by
  unfold RuleBook.after
  induction calls generalizing book with
  | nil => exact ⟨h, .refl book⟩
  | cons call calls ih =>
    obtain ⟨hcomplete, hsame⟩ := h.apply call
    obtain ⟨hcomplete', hsame'⟩ := ih hcomplete
    refine ⟨hcomplete', ?_⟩
    rw [List.foldl_cons, rulesGiven, addAll_append]
    exact hsame'.trans (hsame.addAll _)

/-! ## Loading again -/

/-- A book has what a source has to give. -/
structure Has (book : RuleBook) (given : Contents) : Prop where
  own : ∀ p ∈ given.own, p.rule.key ∈ book.keys
  catalogs : ∀ c ∈ given.catalogs, c.name ∈ book.catalogs

theorem Has.mono {book' : RuleBook} (h : Has book given) (hb : Contained book book') :
    Has book' given :=
  ⟨fun p hp => hb.keys (h.own p hp), fun c hc => hb.catalogs (h.catalogs c hc)⟩

theorem name_mem_take (book : RuleBook) (c : ResolvedCatalog) :
    c.name ∈ (book.take c).catalogs := by
  unfold take
  split
  · assumption
  · exact (contained_addAll _ _).catalogs List.mem_cons_self

theorem name_mem_foldl_take (book : RuleBook) (catalogs : List ResolvedCatalog) :
    ∀ c ∈ catalogs, c.name ∈ (catalogs.foldl take book).catalogs := by
  induction catalogs generalizing book with
  | nil => simp
  | cons c catalogs ih =>
    intro c' hc'
    rcases List.mem_cons.1 hc' with rfl | hc'
    · exact (contained_foldl_take _ catalogs).catalogs (name_mem_take book c')
    · exact ih (book.take c) c' hc'

/-- A book has all of a source that it has taken in. -/
theorem has_takeIn (book : RuleBook) (given : Contents) : Has (book.takeIn given) given := by
  refine ⟨fun p hp => ?_, name_mem_foldl_take _ given.catalogs⟩
  refine (contained_foldl_take _ given.catalogs).keys ?_
  exact mem_keys_addAll.2 (.inr ⟨p, hp, rfl⟩)

/-- A call takes nothing away from a book. -/
theorem contained_apply (book : RuleBook) (call : Call) : Contained book (call.apply book) := by
  rcases apply_cases book call with ⟨_, target, happly⟩ | ⟨source, given, _, _, _, happly⟩
  · rw [happly]
    exact ⟨List.prefix_rfl, List.Subset.refl _, List.Subset.refl _⟩
  · rw [happly]
    exact contained_takeIn book given

theorem contained_after (book : RuleBook) (calls : List Call) :
    Contained book (book.after calls) := by
  unfold after
  induction calls generalizing book with
  | nil => exact .refl book
  | cons call calls ih => exact (contained_apply book call).trans (ih (call.apply book))

/-- A source that the book has already changes nothing. -/
theorem takeIn_eq_self (h : Has book given) : book.takeIn given = book := by
  have hcatalogs : ∀ catalogs : List ResolvedCatalog, (∀ c ∈ catalogs, c.name ∈ book.catalogs) →
      catalogs.foldl take book = book := by
    intro catalogs hcs
    induction catalogs with
    | nil => rfl
    | cons c catalogs ih =>
      rw [List.foldl_cons, take, if_pos (hcs c List.mem_cons_self)]
      exact ih fun x hx => hcs x (List.mem_cons_of_mem _ hx)
  rw [takeIn, addAll_eq_self h.own]
  exact hcatalogs given.catalogs h.catalogs

/-- To load what is there adds nothing. -/
theorem run_load_of_has (hgiven : source.contents book.target = .ok given) (h : Has book given) :
    book.run source.load = (.ok 0, book) := by
  rw [Source.run_load_of_ok hgiven, takeIn_eq_self h, growth, Nat.sub_self]

theorem contents_bundled {name : String} {target version : Option String}
    (hc : Catalog.resolve name (target.or version) = .ok c) :
    (Source.bundled name target).contents version = .ok ⟨[], [c]⟩ := by
  simp only [Source.contents, catalogAt, hc]
  rfl

/-- A catalog that is there is not taken in again, however it is asked for. -/
theorem run_load_of_name_mem {name : String} {target : Option String}
    (hc : Catalog.resolve name (target.or book.target) = .ok c) (hname : c.name ∈ book.catalogs) :
    book.run (Source.bundled name target).load = (.ok 0, book) :=
  run_load_of_has (contents_bundled hc) ⟨by simp, by simpa using hname⟩

/-- **What a book holds.** After any calls, some of which may fail, the rules of a book are those
that the successful ones gave, in that order, and of rules with the same key the first one. No key
is there twice, and the keys of the book are those of its rules. A text gives its own rules by line
and behind them those of the catalogs that it includes; every catalog can be taken in, and its rules
are lenient.

A load that succeeds gives the number of rules that the book gains. From then on, whatever else is
loaded, the same source adds nothing for the same target version, and neither does any name for a
catalog that came with it. -/
theorem rules_of_calls {calls : List Call} {book : RuleBook}
    (hbook : RuleBook.empty.after calls = book) :
    (∃ given, Given .empty calls given) ∧
    (∀ given, Given .empty calls given → book.rules = firstByKey given) ∧
    (book.rules.map (·.rule.key)).Nodup ∧ book.keys.Nodup ∧
    (∀ key, key ∈ book.keys ↔ ∃ p ∈ book.rules, p.rule.key = key) ∧
    (∀ c, IsBundled c → ∃ rules, CatalogGives c rules ∧ ∀ p ∈ rules, p.lenient = true) ∧
    (∀ origin text entries, RuleText.parse origin text = .ok entries →
      entries.Pairwise (·.line < ·.line)) ∧
    ∀ source n book', book.run (Source.load source) = (.ok n, book') →
      book'.rules.length = book.rules.length + n ∧
      ∃ rules catalogs, source.Gives book.target rules catalogs ∧
      ∀ more later, book'.after more = later →
        (later.target = book.target → later.run source.load = (.ok 0, later)) ∧
        ∀ c ∈ catalogs, ∀ name target c', Catalog.resolve name (target.or later.target) = .ok c' →
          c'.name = c.name → later.run (Source.bundled name target).load = (.ok 0, later) := by
  subst hbook
  have hsame := (complete_empty.after calls).2
  have hsound : Sound (RuleBook.empty.after calls) := (reachable_after .refl calls).sound
  refine ⟨⟨_, given_rulesGiven .empty calls⟩, fun given hgiven => ?_, hsound.rules_nodup,
    hsound.keys_nodup, hsound.keys, fun c hc => ?_, fun _ _ _ => pairwise_line_of_parse, ?_⟩
  · rw [hsame.rules, rules_addAll, hgiven.eq]
    simp [RuleBook.empty]
  · have hgives := catalogGives_of_isBundled hc
    obtain ⟨entries, _, hyields⟩ := id hgives
    exact ⟨_, hgives, hyields.lenient⟩
  · intro source n book' hrun
    obtain ⟨given, hgiven, hn⟩ := Source.exists_contents_of_ok (congrArg Prod.fst hrun)
    rw [Source.run_load_of_ok hgiven] at hrun
    cases hrun
    have hcontained := contained_takeIn (RuleBook.empty.after calls) given
    refine ⟨?_, given.rules, given.catalogs, gives_of_contents hgiven, ?_⟩
    · have := hcontained.rules.length_le
      unfold growth
      omega
    · -- what came with the source is still there, whatever was loaded since
      rintro more later rfl
      have hhas := (has_takeIn (RuleBook.empty.after calls) given).mono (contained_after _ more)
      refine ⟨fun htarget => run_load_of_has (htarget ▸ hgiven) hhas,
        fun c hc name target c' hc' hname => ?_⟩
      exact run_load_of_name_mem hc' (hname ▸ hhas.catalogs c hc)

/-- What is seen of some rules: how they are written, their reasons, whether they are lenient, and
their lines. -/
def outline (rules : List PendingRule) : List (String × String × Bool × Nat) :=
  rules.map fun p => (p.rule.display, p.rule.reason, p.lenient, p.line)

/-- Two rules with the same key and a catalog between them, a text that cannot be read, and a
catalog first for the target version and then by a name with the version in it. -/
theorem rules_of_calls_other_name :
    let rules := "lib.A one\n@includeBundled jdk-system-out\nlib.B\nlib.A two"
    let book := RuleBook.empty.after
      [.load (.text "rules" rules), .load (.text "broken" "lib.C\nlib.D("), .setTarget (some "8")]
    outline book.rules =
      [("lib.A", "one", false, 1), ("lib.B", "", false, 3),
        ("java.lang.System#out", "Write to a logger instead of the console", true, 2),
        ("java.lang.System#err", "Write to a logger instead of the console", true, 3),
        ("java.lang.Throwable#printStackTrace()",
          "Write to a logger instead of the console", true, 4)] ∧
    ∃ n book', book.run (Source.bundled "jdk-unsafe" none).load = (.ok n, book') ∧
      book'.rules.length = book.rules.length + n ∧
      (book'.after [.setTarget none]).run (Source.bundled "jdk-unsafe-1.8" none).load =
        (.ok 0, book'.after [.setTarget none]) := by
  intro rules book
  obtain ⟨_, hrules, _, _, _, _, _, hloads⟩ := rules_of_calls (show _ = book from rfl)
  constructor
  · have hview : ((Source.text "rules" rules).contents none).map (outline <| firstByKey ·.rules) =
        .ok [("lib.A", "one", false, 1), ("lib.B", "", false, 3),
          ("java.lang.System#out", "Write to a logger instead of the console", true, 2),
          ("java.lang.System#err", "Write to a logger instead of the console", true, 3),
          ("java.lang.Throwable#printStackTrace()", "Write to a logger instead of the console",
            true, 4)] := by decide +kernel
    have hparse : RuleText.parse "broken" "lib.C\nlib.D(" =
        .error ⟨"broken", 2, .invalidClassName "lib.D("⟩ := by decide +kernel
    have hbroken : ∀ target, (Source.text "broken" "lib.C\nlib.D(").contents target =
        .error (.parse ⟨"broken", 2, .invalidClassName "lib.D("⟩) := by
      intro target
      simp only [Source.contents, textContents, hparse]
      rfl
    obtain ⟨given, hgiven, hview⟩ := map_eq_ok.1 hview
    have hbook : book.rules = firstByKey (given.rules ++ []) :=
      hrules _ (.loaded (Source.run_load_of_ok hgiven) (gives_of_contents hgiven)
        (.failed (Source.run_load_of_error (hbroken _)) (.setTarget .nil)))
    rw [hbook, List.append_nil]
    exact hview
  · have hname : (Catalog.resolve "jdk-unsafe" (some "8")).map (·.name) = .ok "jdk-unsafe-8" := by
      decide +kernel
    have hname' : (Catalog.resolve "jdk-unsafe-1.8" none).map (·.name) = .ok "jdk-unsafe-8" := by
      decide +kernel
    obtain ⟨c, hc, hname⟩ := map_eq_ok.1 hname
    obtain ⟨c', hc', hname'⟩ := map_eq_ok.1 hname'
    have hgiven : (Source.bundled "jdk-unsafe" none).contents book.target = .ok ⟨[], [c]⟩ :=
      contents_bundled hc
    have hrun := Source.run_load_of_ok hgiven
    obtain ⟨hgrowth, _, catalogs, hgives, hagain⟩ := hloads _ _ _ hrun
    obtain ⟨_, hgiven', _⟩ := hgives.exists_contents
    rw [hgiven] at hgiven'
    cases hgiven'
    refine ⟨_, _, hrun, hgrowth, ?_⟩
    exact (hagain [.setTarget none] _ rfl).2 c List.mem_cons_self "jdk-unsafe-1.8" none c' hc'
      (hname'.trans hname.symm)

end JvmAudit.RuleBook
