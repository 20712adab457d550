import JvmAudit.Proofs.Result
import Mathlib.Data.List.Forall2

/-!
# Lists of computations

A list of computations succeeds iff each of them does, and then the results belong to the inputs one
by one. If two lists of computations fail alike, element by element, so do the whole lists.
-/

namespace JvmAudit.Result

variable {ε α β : Type}

/-- The results of computations that all succeed belong to the inputs, one by one. -/
theorem mapM_eq_ok {f : α → Except ε β} {l : List α} {bs : List β} :
    l.mapM f = .ok bs ↔ List.Forall₂ (fun a b => f a = .ok b) l bs := by
  induction l generalizing bs with
  | nil =>
    rw [List.mapM_nil]
    constructor
    · intro h
      cases h
      exact .nil
    · intro h
      cases h
      rfl
  | cons a l ih =>
    rw [List.mapM_cons]
    constructor
    · intro h
      obtain ⟨b, hb, h⟩ := bind_eq_ok.1 h
      obtain ⟨bs', hbs, h⟩ := bind_eq_ok.1 h
      cases h
      exact .cons hb (ih.1 hbs)
    · intro h
      cases h with
      | cons hb hbs => rw [hb, ih.2 hbs]; rfl

/-- If computations all succeed, each of them does. -/
theorem ok_of_mem_mapM {f : α → Except ε β} {l : List α} {bs : List β} {a : α}
    (h : l.mapM f = .ok bs) (ha : a ∈ l) : ∃ b, f a = .ok b := by
  rw [mapM_eq_ok] at h
  induction h with
  | nil => cases ha
  | cons hx _ ih =>
    rcases List.mem_cons.1 ha with rfl | ha
    · exact ⟨_, hx⟩
    · exact ih ha

variable {γ : Type} {R : α → β → Prop}

theorem Agree.mapM {f : γ → Except ε α} {g : γ → Except ε β} {l : List γ}
    (h : ∀ c ∈ l, Agree R (f c) (g c)) : Agree (List.Forall₂ R) (l.mapM f) (l.mapM g) := by
  induction l with
  | nil => exact .ok .nil
  | cons c l ih =>
    rw [List.mapM_cons, List.mapM_cons]
    refine (h c List.mem_cons_self).bind fun a b hab => ?_
    refine (ih fun x hx => h x (List.mem_cons_of_mem _ hx)).bind fun as bs hall => ?_
    exact .ok (.cons hab hall)

end JvmAudit.Result
