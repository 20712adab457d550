import JvmAudit.Proofs.Catalog.Canonical
import JvmAudit.Proofs.Rule.Lines
import JvmAudit.Proofs.Rule.Loading

/-!
# Catalogs without versions and the target version

A catalog that is the same for all versions is given as if there were no target, provided that the
target is a version. So a load that asks for such catalogs only does the same to a book with any
such target and to a book without one: it is the same result of two runs, and the books differ in
their targets only (`RuleBook.run_load_untargeted`).

A target that is no version is another matter. It is read before the catalog is looked at, and a
load that asks for a catalog by its bare name fails.

What a source asks for does not depend on the target (`Source.asks`). The target comes in where the
catalogs are looked up.
-/

namespace JvmAudit

/-! ## Names -/

namespace Catalog

variable {name : String} {target : Option String} {c : Catalog}

/-- The name of a catalog that is the same for all versions. -/
def IsPlainName (name : String) : Prop := ∃ c ∈ all, c.versioned = false ∧ c.name = name

/-- Whatever version is selected, the catalog is given as without one. -/
theorem Selects.resolve_of_plain {version : Option Nat} (hs : Selects name target c version)
    (hplain : c.versioned = false) :
    resolve name target = resolve c.name none := by
  obtain ⟨r, hr, hversion⟩ := exists_gives_version hs.mem none hplain.symm
  have happlied : ∀ version, c.applied version = r.version := by
    intro version
    rw [applied_of_plain hplain, hversion]
  rw [hs.resolve_of_gives hr (happlied _), (Selects.plain hs.mem).resolve_of_gives hr (happlied _)]

theorem IsPlainName.resolve_eq (h : IsPlainName name) (ht : IsTarget target) :
    resolve name target = resolve name none := by
  obtain ⟨c, hc, hplain, rfl⟩ := h
  obtain ⟨version, hs⟩ := exists_selects_name hc ht
  exact hs.resolve_of_plain hplain

theorem IsPlainName.exists_resolve (h : IsPlainName name) : ∃ r, resolve name none = .ok r := by
  obtain ⟨c, hc, hplain, rfl⟩ := h
  obtain ⟨r, hr, hversion⟩ := exists_gives_version hc none hplain.symm
  exact ⟨r, (Selects.plain hc).resolve_of_gives hr (by rw [applied_of_plain hplain, hversion])⟩

/-- The target is read before the catalog is looked at. -/
theorem IsPlainName.resolve_of_invalid (h : IsPlainName name) {text : String}
    (ht : ¬IsTarget (some text)) :
    resolve name (some text) = .error (.invalidVersion text) := by
  obtain ⟨c, hc, -, rfl⟩ := h
  cases hparse : Version.parse text with
  | ok v => exact absurd (isTarget_some_iff.2 ⟨v, hparse⟩) ht
  | error e =>
    rw [Version.eq_of_parse_error hparse] at hparse
    unfold resolve
    rw [splitName_name hc]
    simp only [Option.mapM_some, hparse]
    rfl

/-- If a catalog without versions is given at all, it is the one that is given without a target. -/
theorem IsPlainName.resolve_none_of_ok {r : ResolvedCatalog} (h : IsPlainName name)
    (hr : resolve name target = .ok r) :
    resolve name none = .ok r := by
  by_cases ht : IsTarget target
  · rw [← h.resolve_eq ht, hr]
  · cases target with
    | none => exact hr
    | some text =>
      rw [h.resolve_of_invalid ht] at hr
      cases hr

end Catalog

/-! ## What a source asks for -/

namespace RuleBook

open Result Catalog

/-- The rules of a source itself, and the names of the catalogs that it asks for, each with the
place where it does. -/
structure Asked where
  own : List PendingRule
  catalogs : List (String × String)

/-- All of these catalogs are the same for all versions. -/
def Asked.IsPlain (asked : Asked) : Prop := ∀ a ∈ asked.catalogs, IsPlainName a.2

/-- What there is to load, with a target version. -/
def Asked.contents (target : Option String) (asked : Asked) : Except RuleBookError Contents :=
  (asked.catalogs.mapM fun a => catalogAt a.1 a.2 target).map (Contents.mk asked.own)

/-- What a text asks for. -/
def textAsks (origin text : String) : Except RuleBookError Asked := do
  let entries ← (RuleText.parse origin text).mapError .parse
  return ⟨rulesOf origin false entries, (includesOf entries).map fun i =>
    (lineOrigin origin i.2, i.1)⟩

namespace Source

/-- What a source asks for, or why it cannot be read. -/
def asks : Source → Except RuleBookError Asked
  | .text origin content => textAsks origin content
  | .file files path => do textAsks path (← (files.readText path).mapError (.io path))
  | .bundled name _ => .ok ⟨[], [("bundled", name)]⟩

/-- The target that counts for a source: its own, or that of the book. -/
def targetFor (target : Option String) : Source → Option String
  | .bundled _ version => version.or target
  | _ => target

/-- A source without a target of its own. -/
def untargeted : Source → Source
  | .bundled name _ => .bundled name none
  | source => source

theorem asks_untargeted (source : Source) : source.untargeted.asks = source.asks := by
  cases source <;> rfl

theorem targetFor_untargeted (source : Source) : source.untargeted.targetFor none = none := by
  cases source <;> rfl

end Source

theorem textContents_eq (target : Option String) (origin text : String) :
    textContents target origin text = textAsks origin text >>= Asked.contents target := by
  unfold textContents textAsks
  cases (RuleText.parse origin text).mapError RuleBookError.parse with
  | error e => rfl
  | ok entries =>
    show (catalogsAt origin target (includesOf entries) >>= _) = Asked.contents target _
    rw [catalogsAt, Asked.contents, List.mapM_map]
    rfl

/-- The target counts only where the catalogs are looked up. -/
theorem Source.contents_eq (source : Source) (target : Option String) :
    source.contents target = source.asks >>= Asked.contents (source.targetFor target) := by
  cases source with
  | text origin content => exact textContents_eq target origin content
  | file files path =>
    show ((files.readText path).mapError (.io path) >>= fun content =>
        textContents target path content) =
      ((files.readText path).mapError (.io path) >>= fun content => textAsks path content) >>=
        Asked.contents target
    cases (files.readText path).mapError (RuleBookError.io path) with
    | error e => rfl
    | ok content => exact textContents_eq target path content
  | bundled name version =>
    show (catalogAt "bundled" name (version.or target) >>= fun c => pure ⟨[], [c]⟩) =
      Asked.contents (version.or target) ⟨[], [("bundled", name)]⟩
    simp only [Asked.contents, List.mapM_cons, List.mapM_nil]
    cases catalogAt "bundled" name (version.or target) with
    | error e => rfl
    | ok c => rfl

/-! ## Looking up catalogs without versions -/

variable {asked : Asked} {target : Option String}

theorem Asked.IsPlain.contents_eq (h : asked.IsPlain) (ht : IsTarget target) :
    asked.contents target = asked.contents none := by
  unfold Asked.contents
  rw [mapM_congr]
  intro a ha
  rw [catalogAt, catalogAt, (h a ha).resolve_eq ht]

theorem Asked.contents_of_invalid {text : String} {a : String × String}
    {rest : List (String × String)}
    (hasked : asked.catalogs = a :: rest) (ha : IsPlainName a.2) (ht : ¬IsTarget (some text)) :
    asked.contents (some text) = .error (.bundled a.1 (.invalidVersion text)) := by
  unfold Asked.contents
  rw [hasked, List.mapM_cons, catalogAt, ha.resolve_of_invalid ht]
  rfl

/-- Whatever else a source asks for, a catalog without versions comes as it is given without a
target. -/
theorem Asked.forall₂_of_contents {given : Contents} (h : asked.contents target = .ok given) :
    List.Forall₂ (fun a c => IsPlainName a.2 → resolve a.2 none = .ok c)
      asked.catalogs given.catalogs := by
  obtain ⟨catalogs, hcatalogs, rfl⟩ := map_eq_ok.1 h
  refine (mapM_eq_ok.1 hcatalogs).imp fun a c hc hplain => ?_
  exact hplain.resolve_none_of_ok (mapError_eq_ok.1 hc)

/-! ## Books that differ in their targets -/

/-- The book for another target version. -/
def retarget (book : RuleBook) (target : Option String) : RuleBook := { book with target }

variable (book : RuleBook)

theorem retarget_add (p : PendingRule) :
    (book.retarget target).add p = (book.add p).retarget target := by
  show (if p.rule.key ∈ book.keys then _ else _) = _
  unfold add
  split
  · rfl
  · rfl

theorem retarget_addAll (ps : List PendingRule) :
    (book.retarget target).addAll ps = (book.addAll ps).retarget target := by
  unfold addAll
  induction ps generalizing book with
  | nil => rfl
  | cons p ps ih => rw [List.foldl_cons, List.foldl_cons, retarget_add, ih]

theorem retarget_take (c : ResolvedCatalog) :
    (book.retarget target).take c = (book.take c).retarget target := by
  show (if c.name ∈ book.catalogs then _ else _) = _
  unfold take
  split
  · rfl
  · exact retarget_addAll { book with catalogs := c.name :: book.catalogs } _

theorem retarget_takeIn (given : Contents) :
    (book.retarget target).takeIn given = (book.takeIn given).retarget target := by
  have hcatalogs : ∀ (catalogs : List ResolvedCatalog) (book : RuleBook),
      catalogs.foldl take (book.retarget target) = (catalogs.foldl take book).retarget target := by
    intro catalogs
    induction catalogs with
    | nil => exact fun _ => rfl
    | cons c catalogs ih =>
      intro book
      rw [List.foldl_cons, List.foldl_cons, retarget_take, ih]
  rw [takeIn, takeIn, retarget_addAll, hcatalogs]

variable {book}

/-- **Two runs.** A source that asks only for catalogs without versions is loaded alike for every
target that is a version and without a target: the same result, the same rules and the same
catalogs. -/
theorem run_load_untargeted {source : Source} (hasks : source.asks = .ok asked)
    (hplain : asked.IsPlain) (ht : IsTarget (source.targetFor book.target)) :
    (book.retarget none).run source.untargeted.load =
      ((book.run source.load).1, (book.run source.load).2.retarget none) := by
  have hcontents : source.untargeted.contents (book.retarget none).target =
      source.contents book.target := by
    show source.untargeted.contents none = _
    rw [Source.contents_eq, Source.contents_eq, Source.asks_untargeted,
      Source.targetFor_untargeted, hasks]
    exact (hplain.contents_eq ht).symm
  cases hgiven : source.contents book.target with
  | error e =>
    rw [Source.run_load_of_error hgiven, Source.run_load_of_error (hcontents.trans hgiven)]
  | ok given =>
    rw [Source.run_load_of_ok hgiven, Source.run_load_of_ok (hcontents.trans hgiven),
      retarget_takeIn]
    rfl

/-- The first catalog fails if the target is no version, and the book stays as it was. -/
theorem run_load_of_invalid {source : Source} {text : String} {a : String × String}
    {rest : List (String × String)}
    (hasks : source.asks = .ok asked) (hasked : asked.catalogs = a :: rest) (ha : IsPlainName a.2)
    (htarget : source.targetFor book.target = some text) (ht : ¬IsTarget (some text)) :
    book.run source.load = (.error (.bundled a.1 (.invalidVersion text)), book) := by
  refine Source.run_load_of_error ?_
  rw [Source.contents_eq, hasks, htarget]
  exact Asked.contents_of_invalid hasked ha ht

/-- A line that includes a catalog asks for it. -/
theorem asks_includeLine {name : String} (h : IsPlainName name) (origin : String) :
    (Source.text origin ("@includeBundled " ++ name)).asks =
      .ok ⟨[], [(lineOrigin origin 1, name)]⟩ := by
  have hlines : ∀ c ∈ Catalog.all, ('\n' ∉ ("@includeBundled " ++ c.name).toList) ∧
      Line.parse ("@includeBundled " ++ c.name).toList = .ok (.includeBundled c.name) := by
    decide +kernel
  obtain ⟨c, hc, -, rfl⟩ := h
  obtain ⟨hnewline, hparse⟩ := hlines c hc
  have htext := RuleText.parse_ofList_of_ok hnewline hparse origin
  rw [String.ofList_toList] at htext
  show textAsks origin _ = _
  unfold textAsks
  rw [htext]
  rfl

/-- **The target and catalogs without versions.** Such a catalog is given alike without a target and
for every target that is a version, and with a version behind its name for every target whatsoever;
a target that is no version fails, if the name is bare.

The same holds for loads. A source that asks for such catalogs only does the same to a book with a
target that is a version as to the book without one: it adds the same rules and catalogs, or fails
alike. Whatever else a source asks for, if it can be loaded, then each such catalog comes as it is
given without a target. A target that is no version fails at the first catalog that is asked for,
and nothing is added. -/
theorem plain_loads_alike (book : RuleBook) :
    (∀ name, IsPlainName name →
      (∃ c, resolve name none = .ok c) ∧
      (∀ text, IsTarget (some text) → resolve name (some text) = resolve name none) ∧
      (∀ text, ¬IsTarget (some text) → resolve name (some text) = .error (.invalidVersion text)) ∧
      (∀ suffix v target, Version.parse suffix = .ok v →
        resolve (name ++ "-" ++ suffix) target = resolve name none) ∧
      (∀ target, (Source.bundled name target).asks = .ok ⟨[], [("bundled", name)]⟩) ∧
      ∀ origin, (Source.text origin ("@includeBundled " ++ name)).asks =
        .ok ⟨[], [(lineOrigin origin 1, name)]⟩) ∧
    ∀ source asked, Source.asks source = .ok asked →
      (asked.IsPlain → IsTarget (source.targetFor book.target) →
        (book.retarget none).run source.untargeted.load =
          ((book.run source.load).1, (book.run source.load).2.retarget none)) ∧
      (∀ given, source.contents book.target = .ok given →
        List.Forall₂ (fun a c => IsPlainName a.2 → resolve a.2 none = .ok c)
          asked.catalogs given.catalogs) ∧
      ∀ text a rest, source.targetFor book.target = some text → ¬IsTarget (some text) →
        asked.catalogs = a :: rest → IsPlainName a.2 →
        book.run source.load = (.error (.bundled a.1 (.invalidVersion text)), book) := by
  refine ⟨fun name hname =>
    ⟨hname.exists_resolve, fun text => hname.resolve_eq, fun text => hname.resolve_of_invalid, ?_,
    fun target => rfl, asks_includeLine hname⟩, fun source asked hasks =>
      ⟨run_load_untargeted hasks, ?_, ?_⟩⟩
  · intro suffix v target hv
    obtain ⟨c, hc, hplain, rfl⟩ := hname
    exact (Selects.suffix hc hv target).resolve_of_plain hplain
  · intro given hgiven
    rw [Source.contents_eq, hasks] at hgiven
    exact Asked.forall₂_of_contents hgiven
  · intro text a rest htarget ht hcatalogs ha
    exact run_load_of_invalid hasks hcatalogs ha htarget ht

theorem isPlainName_exec : IsPlainName "jdk-exec" := by
  unfold IsPlainName
  decide +kernel

/-- A text with a rule and a catalog, in a book with another catalog and a target; and the catalog
with a target of its own that is no version. -/
theorem plain_loads_alike_exec :
    let book : RuleBook := ⟨[], [], some "1.8", ["jdk-reflection"]⟩
    let source : Source := .text "rules" "lib.A\n@includeBundled jdk-exec"
    (book.retarget none).run source.load =
      ((book.run source.load).1, (book.run source.load).2.retarget none) ∧
    book.run (addBundled "jdk-exec" (some "eight")) =
        (.error (.bundled "bundled" (.invalidVersion "eight")), book) := by
  intro book source
  obtain ⟨hnames, hloads⟩ := plain_loads_alike book
  obtain ⟨-, -, -, -, hbundled, -⟩ := hnames "jdk-exec" isPlainName_exec
  have hasks : (source.asks).map Asked.catalogs = .ok [("rules:2", "jdk-exec")] := by decide +kernel
  obtain ⟨asked, hasks, hcatalogs⟩ := map_eq_ok.1 hasks
  have hplain : asked.IsPlain := by
    intro a ha
    rw [hcatalogs, List.mem_singleton] at ha
    rw [ha]
    exact isPlainName_exec
  have hvalid : IsTarget (source.targetFor book.target) := isTarget_some_iff.2 ⟨8, rfl⟩
  have hinvalid : ¬IsTarget (some "eight") := by
    rw [isTarget_some_iff, not_exists]
    intro v hv
    cases hv
  exact ⟨(hloads source asked hasks).1 hplain hvalid,
    (hloads _ _ (hbundled (some "eight"))).2.2 "eight" _ _ rfl hinvalid rfl isPlainName_exec⟩

/-- A target that is no version is not passed over by a catalog without versions. -/
theorem invalid_target_refused :
    ¬∀ name, IsPlainName name → ∀ text, resolve name (some text) = resolve name none := by
  intro h
  have hsame := h "jdk-exec" isPlainName_exec "eight"
  obtain ⟨c, hc⟩ := isPlainName_exec.exists_resolve
  have herror : resolve "jdk-exec" (some "eight") = .error (.invalidVersion "eight") := rfl
  rw [herror, hc] at hsame
  cases hsame

end RuleBook

end JvmAudit
