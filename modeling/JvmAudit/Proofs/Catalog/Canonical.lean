import JvmAudit.Proofs.Catalog.Basic
import JvmAudit.Proofs.Catalog.Version

/-!
# Canonical names of catalogs

Which catalog and which version a request asks for is said without looking into the name: the name
is that of the catalog, and the version is the target version, or the name is that of the catalog
with a dash and the version behind it (`Selects`). A request succeeds iff it selects something, and
a versioned catalog with a version.

The name of the catalog that is given is canonical: it asks for the same catalog again, and if the
catalog is versioned, it does so whatever the target is. A later version only adds text at the end.

## Main results

* `Selects.resolve_eq`, `exists_selects`: what a request selects is what it gets
* `textWhere_isPrefixOf`: the text of a version starts with that of each earlier version
* `resolve_canonical`: canonical names
-/

namespace JvmAudit.Catalog

open Result

variable {c : Catalog} {r : ResolvedCatalog} {name text : String} {target : Option String}
  {version : Option Nat} {v : Nat}

/-! ## What a request selects -/

/-- The catalog and the version that a request asks for: by a version behind the name, whatever the
target, or by the target version, or without a version. -/
inductive Selects : String → Option String → Catalog → Option Nat → Prop
  | suffix {c : Catalog} {text : String} {v : Nat} (hc : c ∈ all) (hv : Version.parse text = .ok v)
    (target : Option String) : Selects (c.name ++ "-" ++ text) target c (some v)
  | target {c : Catalog} {text : String} {v : Nat} (hc : c ∈ all)
    (hv : Version.parse text = .ok v) :
    Selects c.name (some text) c (some v)
  | plain {c : Catalog} (hc : c ∈ all) : Selects c.name none c none

/-- No target, or one that is a version. -/
def IsTarget (target : Option String) : Prop := ∀ text ∈ target, ∃ v, Version.parse text = .ok v

theorem isTarget_some_iff : IsTarget (some text) ↔ ∃ v, Version.parse text = .ok v := by
  simp [IsTarget]

/-- The name of a catalog selects it. -/
theorem exists_selects_name (hc : c ∈ all) (h : IsTarget target) :
    ∃ version, Selects c.name target c version := by
  cases target with
  | none => exact ⟨none, .plain hc⟩
  | some text =>
    obtain ⟨v, hv⟩ := isTarget_some_iff.1 h
    exact ⟨some v, .target hc hv⟩

theorem Selects.mem (h : Selects name target c version) : c ∈ all := by
  cases h <;> assumption

/-- A version that is selected can be written as one. -/
theorem Selects.bounds (h : Selects name target c (some v)) : 1 ≤ v ∧ v < Version.bound := by
  cases h with
  | suffix _ hv _ => exact Version.bounds_of_parse hv
  | target _ hv => exact Version.bounds_of_parse hv

theorem find?_name (hc : c ∈ all) : find? c.name = some c := by
  have hfound : (find? c.name).isSome = true := by
    rw [find?, List.find?_isSome]
    exact ⟨c, hc, by simp⟩
  obtain ⟨c', hc'⟩ := Option.isSome_iff_exists.1 hfound
  have hname : c'.name = c.name := by simpa using List.find?_some hc'
  rw [hc', eq_of_name_eq (List.mem_of_find?_eq_some hc') hc hname]

theorem mem_and_name_of_find? (h : find? name = some c) : c ∈ all ∧ c.name = name :=
  ⟨List.mem_of_find?_eq_some h, by simpa using List.find?_some h⟩

/-- No catalog has the name of another one with a dash and something behind it. -/
theorem find?_suffix (hc : c ∈ all) (hdash : '-' ∉ text.toList) :
    find? (c.name ++ "-" ++ text) = none := by
  have hfronts : ∀ c' ∈ all, ∀ c ∈ all,
      (Text.cutLast '-' c'.name.toList).map (·.1) ≠ some c.name.toList := by
    decide +kernel
  cases hfind : find? (c.name ++ "-" ++ text) with
  | none => rfl
  | some c' =>
    obtain ⟨hc', hname⟩ := mem_and_name_of_find? hfind
    have hfront := hfronts c' hc' c hc
    rw [hname] at hfront
    simp [Text.cutLast_append _ hdash] at hfront

/-- The bare name of a catalog names it, without a version. -/
theorem splitName_name (hc : c ∈ all) : splitName c.name = .ok (c, none) := by
  rw [splitName, find?_name hc]

/-- A name with a version behind it names the catalog in this version. -/
theorem splitName_suffix (hc : c ∈ all) (hv : Version.parse text = .ok v) :
    splitName (c.name ++ "-" ++ text) = .ok (c, some v) := by
  have hdash := Version.dash_notMem_of_parse hv
  have hcut : Text.cutLast '-' (c.name ++ "-" ++ text).toList =
      some (c.name.toList, text.toList) := by
    simp [Text.cutLast_append _ hdash]
  rw [splitName, find?_suffix hc hdash, hcut]
  simp only [String.ofList_toList]
  rw [find?_name hc, hv]
  rfl

/-- A name is that of a catalog, or that of a catalog with a dash and a version behind it. -/
theorem splitName_cases (h : splitName name = .ok (c, version)) : c ∈ all ∧
    (version = none ∧ name = c.name ∨
      ∃ text v, version = some v ∧ Version.parse text = .ok v ∧ name = c.name ++ "-" ++ text) := by
  unfold splitName at h
  split at h
  · next found hfound =>
    cases h
    obtain ⟨hc, hname⟩ := mem_and_name_of_find? hfound
    exact ⟨hc, .inl ⟨rfl, hname.symm⟩⟩
  · split at h
    · cases h
    · next base suffix hcut =>
      split at h
      · cases h
      · next found hfound =>
        obtain ⟨v, hv, hpair⟩ := map_eq_ok.1 h
        cases hpair
        obtain ⟨hc, hname⟩ := mem_and_name_of_find? hfound
        refine ⟨hc, .inr ⟨_, v, rfl, hv, ?_⟩⟩
        rw [← String.toList_inj, (Text.cutLast_eq_some_iff.1 hcut).2, hname]
        simp

/-! ## What a request gets -/

/-- The version that counts: that of a versioned catalog. -/
def applied (c : Catalog) (version : Option Nat) : Option Nat :=
  if c.versioned then version else none

/-- A request gets what it selects. -/
theorem Selects.resolve_eq (h : Selects name target c version) : resolve name target =
    (c.textFor version).map fun text =>
      ⟨c.nameFor (c.applied version), c.applied version, text⟩ := by
  cases h with
  | suffix hc hv target =>
    unfold resolve
    rw [splitName_suffix hc hv]
    rfl
  | target hc hv =>
    unfold resolve
    rw [splitName_name hc]
    simp only [Option.mapM_some, hv]
    rfl
  | plain hc =>
    unfold resolve
    rw [splitName_name hc]
    rfl

/-- A request that gets something selects it. -/
theorem exists_selects (h : resolve name target = .ok r) :
    ∃ c version, Selects name target c version := by
  obtain ⟨⟨c, given⟩, hsplit, hget⟩ := bind_eq_ok.1 h
  obtain ⟨hc, ⟨rfl, rfl⟩ | ⟨text, v, rfl, hv, rfl⟩⟩ := splitName_cases hsplit
  · cases target with
    | none => exact ⟨c, none, .plain hc⟩
    | some text =>
      cases hv : Version.parse text with
      | ok v => exact ⟨c, some v, .target hc hv⟩
      | error e =>
        obtain ⟨version, hversion, -⟩ := bind_eq_ok.1 hget
        rw [Option.mapM_some, hv] at hversion
        cases hversion
  · exact ⟨c, some v, .suffix hc hv target⟩

theorem textFor_applied (c : Catalog) (version : Option Nat) :
    c.textFor (c.applied version) = c.textFor version := by
  unfold textFor applied
  cases c.versioned <;> rfl

/-- What is resolved is what the selected catalog gives in the selected version. -/
theorem Selects.gives (hs : Selects name target c version) (h : resolve name target = .ok r) :
    c.Gives r ∧ r.version = c.applied version := by
  rw [hs.resolve_eq] at h
  obtain ⟨text, htext, rfl⟩ := map_eq_ok.1 h
  refine ⟨⟨hs.mem, ?_, rfl, ?_⟩, rfl⟩
  · cases hversioned : c.versioned with
    | false => simp [applied, hversioned]
    | true =>
      -- a versioned catalog has no text without a version
      cases version with
      | none => simp [textFor, hversioned] at htext
      | some v => simp [applied, hversioned]
  · rw [textFor_applied]
    exact htext

/-- All requests for a catalog and a version that counts get the same. -/
theorem Selects.resolve_of_gives (hs : Selects name target c version) (hr : c.Gives r)
    (hversion : c.applied version = r.version) : resolve name target = .ok r := by
  rw [hs.resolve_eq, ← textFor_applied, hversion, hr.text, ← hr.name]
  rfl

theorem exists_gives_version (hc : c ∈ all) (version : Option Nat)
    (h : version.isSome = c.versioned) :
    ∃ r : ResolvedCatalog, c.Gives r ∧ r.version = version := by
  have htext : ∃ text, c.textFor version = .ok text := by
    unfold textFor
    cases version with
    | none => exact ⟨_, by rw [← h]; rfl⟩
    | some v => exact ⟨_, by rw [← h]; rfl⟩
  obtain ⟨text, htext⟩ := htext
  exact ⟨⟨c.nameFor version, version, text⟩, ⟨hc, h, rfl, htext⟩, rfl⟩

/-! ## Later versions -/

theorem addFragment_isPrefixOf (text : String) (f : Fragment) :
    text.toList <+: (addFragment text f).toList := by
  unfold addFragment
  simp only
  split
  · simp
  · simp

/-- Fragments are put behind the text. -/
theorem foldl_addFragment_isPrefixOf (text : String) (fragments : List Fragment) :
    text.toList <+: (fragments.foldl addFragment text).toList := by
  induction fragments generalizing text with
  | nil => exact List.prefix_rfl
  | cons f fragments ih => exact (addFragment_isPrefixOf text f).trans (ih (addFragment text f))

/-- The fragments for a version come first among those for a later one, as they are in the order of
their versions. -/
theorem filter_since_isPrefixOf {fragments : List Fragment} {v v' : Nat}
    (hsorted : fragments.Pairwise (·.since ≤ ·.since)) (hv : v ≤ v') :
    fragments.filter (·.since ≤ v) <+: fragments.filter (·.since ≤ v') := by
  induction fragments with
  | nil => exact List.prefix_rfl
  | cons f fragments ih =>
    obtain ⟨hfirst, hrest⟩ := List.pairwise_cons.1 hsorted
    by_cases hf : f.since ≤ v
    · have hf' : f.since ≤ v' := Nat.le_trans hf hv
      rw [List.filter_cons_of_pos (by simpa using hf), List.filter_cons_of_pos (by simpa using hf')]
      exact List.prefix_cons_inj f |>.2 (ih hrest)
    · -- no later fragment is for this version either
      have hnone : (f :: fragments).filter (·.since ≤ v) = [] := by
        rw [List.filter_eq_nil_iff]
        intro g hg
        rcases List.mem_cons.1 hg with rfl | hg
        · simpa using hf
        · have := hfirst g hg
          simp only [decide_eq_true_eq]
          omega
      rw [hnone]
      exact List.nil_prefix

/-- The fragments of each catalog stand by the version from which they count. -/
theorem fragments_sorted : ∀ c ∈ all, c.fragments.Pairwise (·.since ≤ ·.since) := by decide +kernel

/-- The text of a version starts with that of each earlier version. -/
theorem textWhere_isPrefixOf (hc : c ∈ all) {v v' : Nat} (hv : v ≤ v') :
    (c.textWhere (·.since ≤ v)).toList <+: (c.textWhere (·.since ≤ v')).toList := by
  obtain ⟨later, hlater⟩ := filter_since_isPrefixOf (fragments_sorted c hc) hv
  unfold textWhere
  rw [← hlater, List.foldl_append]
  exact foldl_addFragment_isPrefixOf _ later

/-- A later version has the text of an earlier one in front. -/
theorem Gives.text_isPrefixOf {r' : ResolvedCatalog} {v v' : Nat} (h : c.Gives r) (h' : c.Gives r')
    (hr : r.version = c.applied (some v)) (hr' : r'.version = c.applied (some v')) (hv : v ≤ v') :
    r.text.toList <+: r'.text.toList := by
  have htext := h.text
  have htext' := h'.text
  rw [hr, textFor_applied, textFor] at htext
  rw [hr', textFor_applied, textFor] at htext'
  cases hversioned : c.versioned with
  | false =>
    rw [hversioned] at htext htext'
    have hsame : r.text = r'.text := Except.ok.inj (htext.symm.trans htext')
    exact hsame ▸ List.prefix_rfl
  | true =>
    rw [hversioned] at htext htext'
    rw [← Except.ok.inj htext, ← Except.ok.inj htext']
    exact textWhere_isPrefixOf h.mem hv

/-! ## Canonical names -/

theorem applied_of_versioned (h : c.versioned = true) (version : Option Nat) :
    c.applied version = version := by
  rw [applied, if_pos h]

theorem applied_of_plain (h : c.versioned = false) (version : Option Nat) :
    c.applied version = none := by
  rw [applied, h]
  rfl

/-- The ways to write a version. -/
theorem selects_toString (hc : c ∈ all) {n : Nat} (hpos : 1 ≤ n) (hbound : n < Version.bound)
    (target : Option String) :
    Selects (c.name ++ "-" ++ toString n) target c (some n) ∧
    Selects (c.name ++ "-" ++ ("1." ++ toString n)) target c (some n) ∧
    Selects c.name (some (toString n)) c (some n) ∧
    Selects c.name (some ("1." ++ toString n)) c (some n) := by
  obtain ⟨hplain, hera⟩ := Version.parse_toString hpos hbound
  exact ⟨.suffix hc hplain target, .suffix hc hera target, .target hc hplain, .target hc hera⟩

/-- The name of a catalog with its version stands for just this catalog, whatever the target. -/
theorem Gives.resolve_name_of_versioned (h : c.Gives r) (hversioned : c.versioned = true)
    (hv : r.version = some v) (hpos : 1 ≤ v) (hbound : v < Version.bound) (target : Option String) :
    resolve r.name target = .ok r := by
  have hname : r.name = c.name ++ "-" ++ toString v := by
    rw [h.name, hv]
    rfl
  rw [hname]
  refine (selects_toString h.mem hpos hbound target).1.resolve_of_gives h ?_
  rw [applied_of_versioned hversioned, hv]

theorem Gives.resolve_name_of_plain (h : c.Gives r) (hplain : c.versioned = false)
    (hv : r.version = none) (htarget : IsTarget target) : resolve r.name target = .ok r := by
  have hname : r.name = c.name := by
    rw [h.name, hv]
    rfl
  obtain ⟨version, hselects⟩ := exists_selects_name h.mem htarget
  rw [hname]
  refine hselects.resolve_of_gives h ?_
  rw [applied_of_plain hplain, hv]

/-- **Names of catalogs are canonical.** A request that gets a catalog selects it. If the catalog is
versioned, it comes with the version that was selected, and its name asks for the same again,
whatever the target is. If not, it comes without a version, and its name asks for the same again
with every target that is a version, or without one.

All requests that select the same catalog and version get the same, whether the version stands in
the name or is the target, and whether it is written `N` or `1.N`. The text for a version starts
with the text for each earlier version. -/
theorem resolve_canonical (h : resolve name target = .ok r) :
    (∃ c version, Selects name target c version) ∧
    ∀ c version, Selects name target c version →
      (c.versioned = true → ∃ v, version = some v ∧ r.version = some v ∧ 1 ≤ v ∧
        ∀ other, resolve r.name other = .ok r) ∧
      (c.versioned = false → r.version = none ∧
        ∀ other, IsTarget other → resolve r.name other = .ok r) ∧
      (∀ name' target' version', Selects name' target' c version' → c.applied version' = r.version →
        resolve name' target' = .ok r) ∧
      (∀ n other, 1 ≤ n → n < Version.bound →
        Selects (c.name ++ "-" ++ toString n) other c (some n) ∧
        Selects (c.name ++ "-" ++ ("1." ++ toString n)) other c (some n) ∧
        Selects c.name (some (toString n)) c (some n) ∧
        Selects c.name (some ("1." ++ toString n)) c (some n)) ∧
      ∀ name' target' v v', version = some v → Selects name' target' c (some v') → v ≤ v' →
        ∃ r', resolve name' target' = .ok r' ∧ r.text.toList <+: r'.text.toList := by
  refine ⟨exists_selects h, fun c version hs => ?_⟩
  obtain ⟨hgives, hversion⟩ := hs.gives h
  refine ⟨fun hversioned => ?_, fun hplain => ?_,
    fun name' target' version' hs' => hs'.resolve_of_gives hgives,
    fun n other hpos hbound => selects_toString hs.mem hpos hbound other, ?_⟩
  · rw [applied_of_versioned hversioned] at hversion
    have hsome : r.version.isSome = true := hgives.versioned.trans hversioned
    obtain ⟨v, hv⟩ := Option.isSome_iff_exists.1 hsome
    have hselected : version = some v := hversion.symm.trans hv
    rw [hselected] at hs
    obtain ⟨hpos, hbound⟩ := hs.bounds
    exact ⟨v, hselected, hv, hpos, hgives.resolve_name_of_versioned hversioned hv hpos hbound⟩
  · rw [applied_of_plain hplain] at hversion
    exact ⟨hversion, fun other htarget => hgives.resolve_name_of_plain hplain hversion htarget⟩
  · rintro name' target' v v' rfl hs' hv
    have hsome : (c.applied (some v')).isSome = c.versioned := by
      cases hversioned : c.versioned with
      | false => rw [applied_of_plain hversioned]; rfl
      | true => rw [applied_of_versioned hversioned]; rfl
    obtain ⟨r', hgives', hversion'⟩ := exists_gives_version hs.mem _ hsome
    exact ⟨r', hs'.resolve_of_gives hgives' hversion'.symm,
      hgives.text_isPrefixOf hgives' hversion hversion' hv⟩

/-- A version in the name, against another target; then the canonical name with a target that is no
version, the same version as a target, and a later one. -/
theorem resolve_canonical_deprecated :
    ∃ r r', resolve "jdk-deprecated-1.8" (some "17") = .ok r ∧ r.version = some 8 ∧
      resolve r.name (some "eleven") = .ok r ∧ resolve "jdk-deprecated" (some "1.8") = .ok r ∧
      resolve "jdk-deprecated" (some "11") = .ok r' ∧ r.text.toList <+: r'.text.toList := by
  obtain ⟨c, hc, hname, hversioned⟩ : ∃ c ∈ all, c.name = "jdk-deprecated" ∧ c.versioned = true :=
    ⟨_, List.mem_cons_of_mem _ List.mem_cons_self, rfl, rfl⟩
  have hs : Selects "jdk-deprecated-1.8" (some "17") c (some 8) := by
    have h := Selects.suffix hc (show Version.parse "1.8" = .ok 8 from rfl) (some "17")
    rwa [hname] at h
  have hs' : Selects "jdk-deprecated" (some "1.8") c (some 8) := by
    have h := Selects.target hc (show Version.parse "1.8" = .ok 8 from rfl)
    rwa [hname] at h
  have hlater : Selects "jdk-deprecated" (some "11") c (some 11) := by
    have h := Selects.target hc (show Version.parse "11" = .ok 11 from rfl)
    rwa [hname] at h
  obtain ⟨r, hr, hversion⟩ : ∃ r, resolve "jdk-deprecated-1.8" (some "17") = .ok r ∧
      r.version = some 8 :=
    map_eq_ok.1 (show (resolve "jdk-deprecated-1.8" (some "17")).map (·.version) =
      .ok (some 8) by decide +kernel)
  obtain ⟨hcanonical, -, hsame, -, hprefix⟩ := (resolve_canonical hr).2 c (some 8) hs
  obtain ⟨v, -, -, -, hother⟩ := hcanonical hversioned
  obtain ⟨r', hr', htext⟩ := hprefix _ _ 8 11 rfl hlater (by decide)
  have happlied : c.applied (some 8) = r.version := by
    rw [hversion, applied_of_versioned hversioned]
  exact ⟨r, r', hr, hversion, hother _, hsame _ _ _ hs' happlied, hr', htext⟩

end JvmAudit.Catalog
