import JvmAudit.Proofs.Catalog.Basic
import JvmAudit.Proofs.Rule.Book

/-!
# Loading rules

What a source contributes to a book is said without the book: its own rules and the catalogs that it
includes, or why it cannot be loaded (`Source.contents`). A load then either fails for that reason
and leaves the book as it was, or takes in all of it (`Source.run_load_of_error`,
`Source.run_load_of_ok`).

A source is checked before its first rule is added, but the catalogs are read only afterwards. That
nothing can fail then is a fact about the catalogs: each of them can be read, for every version.
-/

namespace JvmAudit.RuleBook

open Result

/-! ## What there is to load -/

/-- Where rules are loaded from. -/
inductive Source where
  | text (origin text : String)
  | file (files : FileTree) (path : String)
  | bundled (name : String) (target : Option String)

/-- What a source has to give. -/
structure Contents where
  /-- Its own rules, by line. -/
  own : List PendingRule
  /-- The catalogs that it includes, by line. -/
  catalogs : List ResolvedCatalog
  deriving DecidableEq, Repr

/-- The rules of a catalog. -/
def catalogRules (c : ResolvedCatalog) : List PendingRule :=
  ((RuleText.parse c.name c.text).toOption.map (rulesOf c.name true)).getD []

namespace Contents

/-- All rules, those of the catalogs last. -/
def rules (contents : Contents) : List PendingRule :=
  contents.own ++ contents.catalogs.flatMap catalogRules

end Contents

/-- The catalog that is asked for at `origin`. -/
def catalogAt (origin name : String) (target : Option String) :
    Except RuleBookError ResolvedCatalog :=
  (Catalog.resolve name target).mapError (.bundled origin)

/-- The catalogs that the lines of a source include. -/
def catalogsAt (origin : String) (target : Option String) (includes : List (String × Nat)) :
    Except RuleBookError (List ResolvedCatalog) :=
  includes.mapM fun i => catalogAt (lineOrigin origin i.2) i.1 target

/-- What a text has to give. -/
def textContents (target : Option String) (origin text : String) :
    Except RuleBookError Contents := do
  let entries ← (RuleText.parse origin text).mapError .parse
  let catalogs ← catalogsAt origin target (includesOf entries)
  return ⟨rulesOf origin false entries, catalogs⟩

namespace Source

def load : Source → Load Nat
  | .text origin content => addText origin content
  | .file files path => addFile files path
  | .bundled name target => addBundled name target

/-- What a source has to give to a book with this target version, or why it cannot be loaded. -/
def contents (target : Option String) : Source → Except RuleBookError Contents
  | .text origin content => textContents target origin content
  | .file files path => do textContents target path (← (files.readText path).mapError (.io path))
  | .bundled name version => do return ⟨[], [← catalogAt "bundled" name (version.or target)]⟩

end Source

/-! ## What a load does -/

variable {book : RuleBook} {origin name text : String} {target : Option String}
  {c : ResolvedCatalog}

/-- A book with a catalog, unless it is there. -/
def take (book : RuleBook) (c : ResolvedCatalog) : RuleBook :=
  if c.name ∈ book.catalogs then book
  else { book with catalogs := c.name :: book.catalogs }.addAll (catalogRules c)

/-- A book with all that a source has to give. -/
def takeIn (book : RuleBook) (contents : Contents) : RuleBook :=
  contents.catalogs.foldl take (book.addAll contents.own)

/-- The catalogs that a source includes are looked up, and the book stays as it is. -/
theorem run_checkIncludes (book : RuleBook) (origin : String) (target : Option String)
    (includes : List (String × Nat)) :
    book.run (checkIncludes origin target includes) =
      ((catalogsAt origin target includes).map fun _ => (), book) := by
  induction includes with
  | nil => rfl
  | cons i rest ih =>
    unfold checkIncludes
    rw [catalogsAt, List.mapM_cons, catalogAt]
    cases Catalog.resolve i.1 target with
    | error e => rfl
    | ok c =>
      simp only [ih, catalogsAt]
      cases rest.mapM fun i => catalogAt (lineOrigin origin i.2) i.1 target with
      | error e => rfl
      | ok cs => rfl

/-- The rules of a catalog are those of its lines: no catalog includes another one. -/
theorem catalogRules_eq (h : Catalog.resolve name target = .ok c) :
    ∃ entries, RuleText.parse c.name c.text = .ok entries ∧ includesOf entries = [] ∧
      catalogRules c = rulesOf c.name true entries := by
  obtain ⟨entries, hentries, -⟩ := Catalog.exists_parse_of_resolve h c.name
  exact ⟨entries, hentries, includesOf_eq_nil h hentries,
    by simp [catalogRules, hentries, Except.toOption]⟩

/-- The entries of a source that includes no catalog are its rules. -/
theorem run_addEntries_of_nil (book : RuleBook) (origin : String) (lenient : Bool)
    {entries : List Entry} (h : includesOf entries = []) :
    book.run (addEntries origin lenient entries) =
      (.ok (book.growth (book.addAll (rulesOf origin lenient entries))),
        book.addAll (rulesOf origin lenient entries)) := by
  have hcheck := run_checkIncludes book origin book.target []
  rw [addEntries, h, run_bind_of_ok (run_get book), run_bind_of_ok hcheck,
    run_bind_of_ok (run_addRules book 0 _), includeAll, Nat.zero_add]
  rfl

/-- A catalog is taken in unless it is there, and the count is the number of rules that the book
gains. -/
theorem run_includeCatalog (book : RuleBook) (h : catalogAt origin name target = .ok c) :
    book.run (includeCatalog origin name target) =
      (.ok (book.growth (book.take c)), book.take c) := by
  have hc := mapError_eq_ok.1 h
  have hname := run_insertCatalog book c.name
  rw [includeCatalog]
  split
  · next e he =>
    rw [hc] at he
    cases he
  · next c' hc' =>
    rw [hc] at hc'
    cases hc'
    by_cases hin : c.name ∈ book.catalogs
    · rw [if_pos hin] at hname
      rw [run_bind_of_ok hname, take, if_pos hin, growth, Nat.sub_self]
      rfl
    · -- the catalog counts as loaded from here on, and reading it must not fail any more
      rw [if_neg hin] at hname
      obtain ⟨entries, hentries, hincludes, hrules⟩ := catalogRules_eq hc
      rw [run_bind_of_ok hname, if_pos rfl, take, if_neg hin, hrules]
      split
      · next e he =>
        rw [hentries] at he
        cases he
      · next entries' he =>
        rw [hentries] at he
        cases he
        exact run_addEntries_of_nil _ c.name true hincludes

/-- A catalog that cannot be found is the failure, and nothing is added. -/
theorem run_includeCatalog_of_error {e : RuleBookError} (book : RuleBook)
    (h : catalogAt origin name target = .error e) :
    book.run (includeCatalog origin name target) = (.error e, book) := by
  unfold catalogAt at h
  rw [includeCatalog]
  split
  · next e' he =>
    rw [he] at h
    cases h
    rfl
  · next c hc =>
    rw [hc] at h
    cases h

/-- What a book has is in the other one too, with its rules in front. -/
structure Contained (book book' : RuleBook) : Prop where
  rules : book.rules <+: book'.rules
  keys : book.keys ⊆ book'.keys
  catalogs : book.catalogs ⊆ book'.catalogs

theorem Contained.refl (book : RuleBook) : Contained book book :=
  ⟨List.prefix_rfl, List.Subset.refl _, List.Subset.refl _⟩

theorem Contained.trans {a b c : RuleBook} (hab : Contained a b) (hbc : Contained b c) :
    Contained a c :=
  ⟨hab.rules.trans hbc.rules, List.Subset.trans hab.keys hbc.keys,
    List.Subset.trans hab.catalogs hbc.catalogs⟩

theorem contained_add (book : RuleBook) (p : PendingRule) : Contained book (book.add p) := by
  unfold add
  split
  · exact .refl book
  · exact ⟨List.prefix_append _ _, List.subset_cons_self _ _, List.Subset.refl _⟩

theorem contained_addAll (book : RuleBook) (ps : List PendingRule) :
    Contained book (book.addAll ps) := by
  unfold addAll
  induction ps generalizing book with
  | nil => exact .refl book
  | cons p ps ih => exact (contained_add book p).trans (ih (book.add p))

theorem contained_take (book : RuleBook) (c : ResolvedCatalog) : Contained book (book.take c) := by
  unfold take
  split
  · exact .refl book
  · have hname : Contained book { book with catalogs := c.name :: book.catalogs } :=
      ⟨List.prefix_rfl, List.Subset.refl _, List.subset_cons_self _ _⟩
    exact hname.trans (contained_addAll _ _)

theorem contained_foldl_take (book : RuleBook) (catalogs : List ResolvedCatalog) :
    Contained book (catalogs.foldl take book) := by
  induction catalogs generalizing book with
  | nil => exact .refl book
  | cons c catalogs ih => exact (contained_take book c).trans (ih (book.take c))

/-- To take in a source removes nothing. -/
theorem contained_takeIn (book : RuleBook) (given : Contents) :
    Contained book (book.takeIn given) :=
  (contained_addAll book given.own).trans (contained_foldl_take _ given.catalogs)

/-- The number of new rules adds up along a growing book. -/
theorem growth_add_growth {a b c : RuleBook} (hab : Contained a b) (hbc : Contained b c) :
    a.growth b + b.growth c = a.growth c := by
  have := hab.rules.length_le
  have := hbc.rules.length_le
  unfold growth
  omega

/-- The catalogs that a source includes are taken in one by one. -/
theorem run_includeAll {includes : List (String × Nat)} {catalogs : List ResolvedCatalog}
    (h : catalogsAt origin target includes = .ok catalogs) (added : Nat) :
    book.run (includeAll origin target added includes) =
      (.ok (added + book.growth (catalogs.foldl take book)), catalogs.foldl take book) := by
  induction includes generalizing book catalogs added with
  | nil =>
    rw [catalogsAt, List.mapM_nil] at h
    cases h
    rw [includeAll, List.foldl_nil, growth, Nat.sub_self]
    rfl
  | cons i rest ih =>
    rw [catalogsAt, List.mapM_cons] at h
    obtain ⟨c, hc, h⟩ := bind_eq_ok.1 h
    obtain ⟨cs, hcs, h⟩ := bind_eq_ok.1 h
    cases h
    have hgrowth :=
      growth_add_growth (contained_take book c) (contained_foldl_take (book.take c) cs)
    rw [includeAll, run_bind_of_ok (run_includeCatalog book hc), ih hcs, List.foldl_cons, ← hgrowth,
      Nat.add_assoc]

/-- The entries of a source are its rules, and then those of the catalogs that it includes. -/
theorem run_addEntries (lenient : Bool) {entries : List Entry} {catalogs : List ResolvedCatalog}
    (h : catalogsAt origin book.target (includesOf entries) = .ok catalogs) :
    book.run (addEntries origin lenient entries) =
      (.ok (book.growth (book.takeIn ⟨rulesOf origin lenient entries, catalogs⟩)),
        book.takeIn ⟨rulesOf origin lenient entries, catalogs⟩) := by
  have hcheck := run_checkIncludes book origin book.target (includesOf entries)
  rw [h] at hcheck
  have hgrowth := growth_add_growth (contained_addAll book (rulesOf origin lenient entries))
    (contained_foldl_take _ catalogs)
  rw [addEntries, run_bind_of_ok (run_get book), run_bind_of_ok hcheck,
    run_bind_of_ok (run_addRules book 0 _), run_includeAll h, Nat.zero_add, takeIn, ← hgrowth]

/-- A text that cannot be loaded adds nothing, not even the rules of its own lines. -/
theorem run_addText_of_error {e : RuleBookError}
    (h : textContents book.target origin text = .error e) :
    book.run (addText origin text) = (.error e, book) := by
  unfold textContents at h
  unfold addText
  cases hentries : RuleText.parse origin text with
  | error e' =>
    rw [hentries] at h
    cases h
    rfl
  | ok entries =>
    rw [hentries] at h
    have hcheck := run_checkIncludes book origin book.target (includesOf entries)
    rcases bind_eq_error.1
      (show (catalogsAt origin book.target (includesOf entries) >>= _) = _ from h) with
      h | ⟨catalogs, _, h⟩
    · rw [h] at hcheck
      simp only [addEntries]
      rw [run_bind_of_ok (run_get book), run_bind_of_error hcheck]
    · cases h

/-- A text that can be loaded is taken in as a whole, and the number of new rules is returned. -/
theorem run_addText_of_ok {contents : Contents}
    (h : textContents book.target origin text = .ok contents) :
    book.run (addText origin text) =
      (.ok (book.growth (book.takeIn contents)), book.takeIn contents) := by
  obtain ⟨entries, hentries, h⟩ := bind_eq_ok.1 h
  obtain ⟨catalogs, hcatalogs, h⟩ := bind_eq_ok.1 h
  cases h
  unfold addText
  rw [mapError_eq_ok.1 hentries]
  exact run_addEntries false hcatalogs

namespace Source

/-- A source that cannot be loaded leaves the book as it was. -/
theorem run_load_of_error {source : Source} {e : RuleBookError}
    (h : source.contents book.target = .error e) :
    book.run source.load = (.error e, book) := by
  cases source with
  | text origin content => exact run_addText_of_error h
  | file files path =>
    show book.run (addFile files path) = _
    unfold addFile
    rcases bind_eq_error.1 h with h | ⟨content, hread, h⟩
    · cases hread : files.readText path with
      | error e' =>
        rw [hread] at h
        cases h
        rfl
      | ok content => simp [hread, Except.mapError] at h
    · rw [mapError_eq_ok.1 hread]
      exact run_addText_of_error h
  | bundled name version =>
    unfold load addBundled
    rcases bind_eq_error.1 h with h | ⟨c, _, h⟩
    · rw [run_bind_of_ok (run_get book), run_includeCatalog_of_error book h]
    · cases h

/-- A source that can be loaded is taken in as a whole. -/
theorem run_load_of_ok {source : Source} {given : Contents}
    (h : source.contents book.target = .ok given) :
    book.run source.load = (.ok (book.growth (book.takeIn given)), book.takeIn given) := by
  cases source with
  | text origin content => exact run_addText_of_ok h
  | file files path =>
    obtain ⟨content, hread, h⟩ := bind_eq_ok.1 h
    show book.run (addFile files path) = _
    unfold addFile
    rw [mapError_eq_ok.1 hread]
    exact run_addText_of_ok h
  | bundled name version =>
    obtain ⟨c, hc, h⟩ := bind_eq_ok.1 h
    cases h
    unfold load addBundled
    rw [run_bind_of_ok (run_get book)]
    exact run_includeCatalog book hc

/-- A load fails exactly as the source does, whatever is in the book. -/
theorem run_load_eq_error_iff {source : Source} {e : RuleBookError} :
    (book.run source.load).1 = .error e ↔ source.contents book.target = .error e := by
  cases h : source.contents book.target with
  | error e' => rw [run_load_of_error h]; simp
  | ok given => rw [run_load_of_ok h]; simp

/-- The number that a load returns is that of the rules that are new in the book. -/
theorem exists_contents_of_ok {source : Source} {n : Nat} (h : (book.run source.load).1 = .ok n) :
    ∃ given, source.contents book.target = .ok given ∧ n = book.growth (book.takeIn given) := by
  cases hgiven : source.contents book.target with
  | error e =>
    rw [run_load_of_error hgiven] at h
    cases h
  | ok given =>
    rw [run_load_of_ok hgiven] at h
    cases h
    exact ⟨given, rfl, rfl⟩

end Source

/-- **A load happens as a whole or not at all.** It fails exactly if the file or a line of it cannot
be read, or a catalog that it asks for cannot be given, whatever rules and catalogs the book has. A
load that fails leaves the book as it was: its rules and keys, its catalogs and its target version.
To set the target version never fails. -/
theorem load_all_or_nothing (book : RuleBook) (source : Source) (e : RuleBookError) :
    ((book.run source.load).1 = .error e ↔ source.contents book.target = .error e) ∧
    ((book.run source.load).1 = .error e → (book.run source.load).2 = book) ∧
    ∀ version, book.run (setTarget version) = (.ok (), { book with target := version }) := by
  refine ⟨Source.run_load_eq_error_iff, fun h => ?_, fun version => rfl⟩
  rw [Source.run_load_of_error (Source.run_load_eq_error_iff.1 h)]

/-- The third line asks for a catalog that does not exist, behind a rule and a catalog that could be
added. -/
theorem load_all_or_nothing_unknown_catalog :
    let book : RuleBook :=
  ⟨[⟨⟨.ofText "lib.A", .type, "old"⟩, false, "first", 1⟩], ["lib.A"], some "8", ["jdk-exec"]⟩
    book.run (addText "rules" "lib.B\n@includeBundled jdk-unsafe\n@includeBundled jdk-safe") =
      (.error (.bundled "rules:3" (.unknownCatalog "jdk-safe")), book) := by
  intro book
  have h : Source.contents book.target
      (.text "rules" "lib.B\n@includeBundled jdk-unsafe\n@includeBundled jdk-safe") =
      .error (.bundled "rules:3" (.unknownCatalog "jdk-safe")) := by decide +kernel
  obtain ⟨hfails, hkeeps, _⟩ := load_all_or_nothing book
    (.text "rules" "lib.B\n@includeBundled jdk-unsafe\n@includeBundled jdk-safe")
    (.bundled "rules:3" (.unknownCatalog "jdk-safe"))
  exact Prod.ext (hfails.2 h) (hkeeps (hfails.2 h))

end JvmAudit.RuleBook
