import JvmAudit.Catalog.Basic
import JvmAudit.Proofs.Rule.Source

/-!
# Catalogs are plain rule texts

The text of a catalog is put together from fragments, and each fragment is a rule text that includes
no catalog. So every catalog can be read, for every version, and none includes another one
(`exists_parse_of_resolve`).
-/

namespace JvmAudit.Catalog

open Result

variable {c : Catalog} {r : ResolvedCatalog} {name : String} {target : Option String}

/-! ## Catalogs for a version -/

/-- A catalog as it is used for a version, if it is versioned, and without one otherwise. -/
structure Gives (c : Catalog) (r : ResolvedCatalog) : Prop where
  mem : c ∈ all
  versioned : r.version.isSome = c.versioned
  name : r.name = c.nameFor r.version
  text : c.textFor r.version = .ok r.text

theorem mem_of_splitName {version : Option Nat}
    (h : splitName name = .ok (c, version)) : c ∈ all := by
  unfold splitName at h
  split at h
  · next found hfound =>
    cases h
    exact List.mem_of_find?_eq_some hfound
  · split at h
    · cases h
    · split at h
      · cases h
      · next found hfound =>
        obtain ⟨v, _, hpair⟩ := map_eq_ok.1 h
        cases hpair
        exact List.mem_of_find?_eq_some hfound

theorem exists_gives (h : resolve name target = .ok r) : ∃ c : Catalog, c.Gives r := by
  obtain ⟨⟨c, given⟩, hsplit, h⟩ := bind_eq_ok.1 h
  have hversion : ∃ version, (c.textFor version).map (fun text =>
      let version := if c.versioned then version else none
      ResolvedCatalog.mk (c.nameFor version) version text) = .ok r := by
    cases given with
    | some v => exact ⟨some v, h⟩
    | none =>
      obtain ⟨version, _, h⟩ := bind_eq_ok.1 h
      exact ⟨version, h⟩
  obtain ⟨version, h⟩ := hversion
  obtain ⟨text, htext, rfl⟩ := map_eq_ok.1 h
  refine ⟨c, mem_of_splitName hsplit, ?_, rfl, ?_⟩
  · cases hversioned : c.versioned with
    | false => rfl
    | true =>
      -- a versioned catalog has no text without a version
      cases version with
      | none => simp [textFor, hversioned] at htext
      | some v => rfl
  · cases hversioned : c.versioned with
    | false => simpa [textFor, hversioned] using htext
    | true => simpa [hversioned] using htext

/-! ## Texts -/

/-- Whether a line can be read and includes no catalog. -/
def isOwnLine (cs : List Char) : Bool :=
  match Line.parse cs with
  | .ok (.includeBundled _) => false
  | .ok _ => true
  | .error _ => false

/-- Whether a text ends a line, unless it is empty, and each line can be read and includes no
catalog. -/
def isOwnText (cs : List Char) : Bool :=
  (cs.isEmpty || cs.getLast? == some '\n') && (Text.lines cs).all isOwnLine

theorem isOwnText_iff {cs : List Char} :
    isOwnText cs = true ↔ (cs = [] ∨ cs.getLast? = some '\n') ∧
    ∀ line ∈ Text.lines cs, isOwnLine line = true := by
  simp [isOwnText]

theorem isOwnText_fragments : ∀ c ∈ all, ∀ f ∈ c.fragments, isOwnText f.text.toList = true := by
  simp only [all, List.forall_mem_cons, List.not_mem_nil, false_imp_iff, implies_true, and_true,
    CatalogText.jdkUnsafe, CatalogText.jdkUnsafe5, CatalogText.jdkDeprecated,
    CatalogText.jdkDeprecated9, CatalogText.jdkDeprecated18, CatalogText.jdkSystemOut,
    CatalogText.jdkReflection, CatalogText.jdkNonPortable, CatalogText.jdkExec]
  and_intros
  -- the characters of a literal are taken as they are written, decoding them would take too long
  all_goals
    rw [String.toList_ofList]
    decide +kernel

theorem isOwnText_append {front back : List Char} (hf : isOwnText front = true)
    (hb : isOwnText back = true) :
    isOwnText (front ++ back) = true := by
  rw [isOwnText_iff] at hf hb ⊢
  refine ⟨?_, ?_⟩
  · rcases hb.1 with rfl | hlast
    · rw [List.append_nil]
      exact hf.1
    · rw [List.getLast?_append, hlast]
      exact .inr rfl
  · intro line hline
    rw [Text.lines_append hf.1] at hline
    rcases List.mem_append.1 hline with hline | hline
    · exact hf.2 line hline
    · exact hb.2 line hline

theorem isOwnText_addFragment {text : String} {f : Fragment} (ht : isOwnText text.toList = true)
    (hf : isOwnText f.text.toList = true) : isOwnText (addFragment text f).toList = true := by
  have hboth : isOwnText (text ++ f.text).toList = true := by
    rw [String.toList_append]
    exact isOwnText_append ht hf
  unfold addFragment
  simp only
  split
  · exact hboth
  · rw [String.toList_append]
    exact isOwnText_append hboth (by decide)

/-- Whichever fragments are taken, the text is one that can be read and includes no catalog. -/
theorem isOwnText_textWhere (hc : c ∈ all) (keep : Fragment → Bool) :
    isOwnText (c.textWhere keep).toList = true := by
  have hfragments : ∀ f ∈ c.fragments.filter keep, isOwnText f.text.toList = true := fun f hf =>
    isOwnText_fragments c hc f (List.mem_filter.1 hf).1
  have hfold : ∀ (fragments : List Fragment)
      (text : String), (∀ f ∈ fragments, isOwnText f.text.toList = true) →
      isOwnText text.toList = true →
          isOwnText (fragments.foldl addFragment text).toList = true := by
    intro fragments
    induction fragments with
    | nil => exact fun _ _ ht => ht
    | cons f fragments ih =>
      intro text hall ht
      obtain ⟨hf, hrest⟩ := List.forall_mem_cons.1 hall
      exact ih _ hrest (isOwnText_addFragment ht hf)
  exact hfold _ "" hfragments rfl

theorem Gives.isOwnText (h : c.Gives r) : isOwnText r.text.toList = true := by
  have htext := h.text
  unfold textFor at htext
  split at htext
  · split at htext
    · rw [← Except.ok.inj htext]
      exact isOwnText_textWhere h.mem _
    · cases htext
  · rw [← Except.ok.inj htext]
    exact isOwnText_textWhere h.mem _

/-- Every catalog is a rule text, for every version, and includes no catalog. -/
theorem exists_parse_of_resolve (h : resolve name target = .ok r) (origin : String) :
    ∃ entries, RuleText.parse origin r.text = .ok entries ∧
    ∀ e ∈ entries, ∀ n, e.content ≠ .includeBundled n := by
  obtain ⟨c, hc⟩ := exists_gives h
  have hown := (isOwnText_iff.1 hc.isOwnText).2
  have hread : ∀ cs ∈ Text.lines r.text.toList, ∃ line, Line.parse cs = .ok line := by
    intro cs hcs
    have hline := hown cs hcs
    cases hparse : Line.parse cs with
    | ok line => exact ⟨line, rfl⟩
    | error e => simp [isOwnLine, hparse] at hline
  obtain ⟨lines, hlines, hfrom⟩ := RuleText.exists_lines hread origin
  refine ⟨Line.entries "" false lines, by simp only [RuleText.parse, hlines]; rfl, ?_⟩
  intro e he n hn
  rcases Line.exists_line_of_mem_entries he with ⟨r, reason, hr, _⟩ | ⟨n', _, hmem⟩
  · simp [hn] at hr
  · obtain ⟨cs, hcs, hparse⟩ := hfrom _ hmem
    have hline := hown cs hcs
    simp [isOwnLine, hparse] at hline

/-- Nothing that a catalog asks for is a further catalog. -/
theorem content_ne_includeBundled {origin : String} {entries : List Entry}
    (h : resolve name target = .ok r) (he : RuleText.parse origin r.text = .ok entries) :
    ∀ e ∈ entries, ∀ n, e.content ≠ .includeBundled n := by
  obtain ⟨entries', hentries, hown⟩ := exists_parse_of_resolve h origin
  rw [he] at hentries
  cases hentries
  exact hown

end JvmAudit.Catalog
