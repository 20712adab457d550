import JvmAudit.Proofs.Catalog.Plain
import Mathlib.Data.List.Nodup

/-!
# Catalogs by their names

The name of a catalog, as it is used, stands for the catalog: whatever spelling of the name and
whatever target version led there, the same name means the same text (`resolve_inj`). A version is
written in digits only, so the last dash of such a name tells where the version begins.
-/

namespace JvmAudit.Catalog

open Result

variable {c c' : Catalog} {r r' : ResolvedCatalog} {name : String} {target : Option String}

/-! ## Names -/

theorem toList_nameFor_some (c : Catalog) (v : Nat) :
    (c.nameFor (some v)).toList = c.name.toList ++ '-' :: Nat.toDigits 10 v := by
  simp [nameFor]

theorem dash_notMem_toDigits (v : Nat) : '-' ∉ Nat.toDigits 10 v := fun h =>
  absurd (Nat.isDigit_of_mem_toDigits (by decide) (by decide) h) (by decide)

theorem cutLast_nameFor_some (c : Catalog) (v : Nat) :
    Text.cutLast '-' (c.nameFor (some v)).toList = some (c.name.toList, Nat.toDigits 10 v) := by
  rw [toList_nameFor_some]
  exact Text.cutLast_append _ (dash_notMem_toDigits v)

theorem eq_of_name_eq (hc : c ∈ all) (hc' : c' ∈ all) (h : c.name = c'.name) : c = c' :=
  List.inj_on_of_nodup_map (f := Catalog.name) (by decide +kernel) hc hc' h

/-- No catalog without versions has a name that looks like that of a versioned one. -/
theorem nameFor_some_ne (hc : c ∈ all) (hc' : c' ∈ all) (hplain : c'.versioned = false)
    (hversioned : c.versioned = true) (v : Nat) : c.nameFor (some v) ≠ c'.name := by
  have hcut : ∀ c' ∈ all, c'.versioned = false → ∀ c ∈ all, c.versioned = true →
      (Text.cutLast '-' c'.name.toList).map (·.1) ≠ some c.name.toList := by decide +kernel
  intro hname
  have hfront := hcut c' hc' hplain c hc hversioned
  rw [← hname, cutLast_nameFor_some] at hfront
  exact hfront rfl

theorem nameFor_inj (hr : c.Gives r) (hr' : c'.Gives r') (h : r.name = r'.name) :
    c = c' ∧ r.version = r'.version := by
  rw [hr.name, hr'.name] at h
  have hversioned := hr.versioned
  have hversioned' := hr'.versioned
  cases hv : r.version with
  | none =>
    cases hv' : r'.version with
    | none =>
      rw [hv, hv'] at h
      exact ⟨eq_of_name_eq hr.mem hr'.mem h, rfl⟩
    | some v' =>
      rw [hv] at hversioned h
      rw [hv'] at hversioned' h
      exact absurd h.symm (nameFor_some_ne hr'.mem hr.mem hversioned.symm hversioned'.symm v')
  | some v =>
    cases hv' : r'.version with
    | none =>
      rw [hv] at hversioned h
      rw [hv'] at hversioned' h
      exact absurd h (nameFor_some_ne hr.mem hr'.mem hversioned'.symm hversioned.symm v)
    | some v' =>
      rw [hv, hv'] at h
      have hcut := congrArg (fun n => Text.cutLast '-' n.toList) h
      simp only [cutLast_nameFor_some, Option.some.injEq, Prod.mk.injEq, String.toList_inj] at hcut
      have hdigits := congrArg (Nat.ofDigitChars 10 · 0) hcut.2
      simp only [Nat.ofDigitChars_ten_toDigits] at hdigits
      exact ⟨eq_of_name_eq hr.mem hr'.mem hcut.1, by rw [hdigits]⟩

/-- A catalog is known by its name. -/
theorem resolve_inj {name' : String} {target' : Option String} (h : resolve name target = .ok r)
    (h' : resolve name' target' = .ok r') (hname : r.name = r'.name) : r = r' := by
  obtain ⟨c, hc⟩ := exists_gives h
  obtain ⟨c', hc'⟩ := exists_gives h'
  obtain ⟨rfl, hversion⟩ := nameFor_inj hc hc' hname
  have htext : r.text = r'.text := by
    have := hc.text
    rw [hversion, hc'.text] at this
    exact (Except.ok.inj this).symm
  cases r
  cases r'
  simp_all

end JvmAudit.Catalog
