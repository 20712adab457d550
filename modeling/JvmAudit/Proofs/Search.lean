/-!
# Searches

A search for something with a property is right if what it finds has the property, and if it finds
something whenever there is something to find. Searches that are tried one after the other are right
for either property.
-/

namespace JvmAudit

/-- A search finds something with a property iff there is something with it. -/
structure Finds {α : Type} (found : Option α) (P : α → Prop) : Prop where
  sound : ∀ a, found = some a → P a
  complete : ∀ a, P a → found ≠ none

namespace Finds

variable {α β : Type} {P Q : α → Prop}

theorem congr {found : Option α} (h : Finds found P) (hPQ : ∀ a, P a ↔ Q a) : Finds found Q :=
  ⟨fun a ha => (hPQ a).1 (h.sound a ha), fun a ha => h.complete a ((hPQ a).2 ha)⟩

theorem of_iff {found : Option α} (h : ∀ a, found = some a ↔ P a) : Finds found P :=
  ⟨fun a => (h a).1, fun a ha => by rw [(h a).2 ha]; simp⟩

/-- A search in two places finds what one of them has. -/
theorem orElse {first second : Option α} (hf : Finds first P) (hs : Finds second Q) :
    Finds (first <|> second) fun a => P a ∨ Q a := by
  cases first with
  | none =>
    refine ⟨fun a ha => .inr (hs.sound a ha), ?_⟩
    rintro a (ha | ha)
    · exact absurd rfl (hf.complete a ha)
    · exact hs.complete a ha
  | some b =>
    refine ⟨?_, fun a _ => by simp⟩
    intro a ha
    exact .inl (hf.sound a ha)

theorem map {found : Option α} (h : Finds found P) (f : α → β) :
    Finds (found.map f) fun b => ∃ a, P a ∧ f a = b := by
  refine ⟨?_, ?_⟩
  · intro b hb
    obtain ⟨a, ha, rfl⟩ := Option.map_eq_some_iff.1 hb
    exact ⟨a, h.sound a ha, rfl⟩
  · rintro _ ⟨a, ha, rfl⟩ hn
    exact h.complete a ha (Option.map_eq_none_iff.1 hn)

/-- A search that depends on what was found first. -/
theorem bind {γ : Type} {first : Option γ} {f : γ → Option α} {R : γ → α → Prop}
    (h : ∀ c, first = some c → Finds (f c) (R c)) :
    Finds (first.bind f) fun a => ∃ c, first = some c ∧ R c a := by
  cases first with
  | none =>
    refine ⟨fun a ha => absurd ha (by simp), ?_⟩
    rintro a ⟨c, hc, _⟩
    cases hc
  | some c =>
    refine ⟨fun a ha => ⟨c, rfl, (h c rfl).sound a ha⟩, ?_⟩
    rintro a ⟨d, hd, ha⟩
    cases hd
    exact (h c rfl).complete a ha

/-- The search through a list by a test. -/
theorem find? {l : List α} {p : α → Bool} : Finds (l.find? p) fun a => a ∈ l ∧ p a = true := by
  refine ⟨fun a ha => ⟨List.mem_of_find?_eq_some ha, List.find?_some ha⟩, ?_⟩
  rintro a ⟨ha, hp⟩ hn
  exact List.find?_eq_none.1 hn a ha hp

/-- The search through a list by another search. -/
theorem findSome? {γ : Type} {l : List γ} {f : γ → Option α} {R : γ → α → Prop}
    (h : ∀ c ∈ l, Finds (f c) (R c)) : Finds (l.findSome? f) fun a => ∃ c ∈ l, R c a := by
  refine ⟨?_, ?_⟩
  · intro a ha
    obtain ⟨c, hc, hf⟩ := List.exists_of_findSome?_eq_some ha
    exact ⟨c, hc, (h c hc).sound a hf⟩
  · rintro a ⟨c, hc, ha⟩ hn
    exact (h c hc).complete a ha (List.findSome?_eq_none_iff.1 hn c hc)

theorem ofSome (a : α) : Finds (some a) fun b => a = b := .of_iff fun b => by simp

/-- A search that is made under a condition only. -/
theorem ite {c : Prop} [Decidable c] {found : Option α} (h : Finds found P) :
    Finds (if c then found else none) fun a => c ∧ P a := by
  by_cases hc : c
  · rw [if_pos hc]
    exact h.congr fun a => by simp [hc]
  · rw [if_neg hc]
    exact .of_iff fun a => by simp [hc]

end Finds

end JvmAudit
