import JvmAudit.Text.Cut

/-!
# Cut text

Where a text is cut if it is put together from parts: at the first separator, at the last one, at
every one, and into lines. A part that has no separator of its own is found again.
-/

namespace JvmAudit.Text

variable {sep : Char} {front back : List Char}

theorem cutFirst_append (h : sep ∉ front) (back : List Char) :
    cutFirst sep (front ++ sep :: back) = some (front, back) := by
  have hfront : ∀ c ∈ front, (c != sep) = true := fun c hc => by
    simpa using fun heq : c = sep => h (heq ▸ hc)
  unfold cutFirst
  rw [List.dropWhile_append_of_pos hfront, List.takeWhile_append_of_pos hfront]
  simp

theorem cutFirst_of_notMem {cs : List Char} (h : sep ∉ cs) : cutFirst sep cs = none := by
  have hcs : ∀ c ∈ cs, (c != sep) = true := fun c hc => by
    simpa using fun heq : c = sep => h (heq ▸ hc)
  have hdrop : (cs ++ []).dropWhile (· != sep) = [] := List.dropWhile_append_of_pos hcs
  rw [List.append_nil] at hdrop
  unfold cutFirst
  rw [hdrop]

/-- A text is cut at its first separator. -/
theorem cutFirst_eq_some_iff {cs : List Char} :
    cutFirst sep cs = some (front, back) ↔ sep ∉ front ∧ cs = front ++ sep :: back := by
  constructor
  · intro h
    by_cases hmem : sep ∈ cs
    · obtain ⟨before, after, rfl, hbefore⟩ := List.eq_append_cons_of_mem hmem
      rw [cutFirst_append hbefore] at h
      cases h
      exact ⟨hbefore, rfl⟩
    · rw [cutFirst_of_notMem hmem] at h
      cases h
  · rintro ⟨hfront, rfl⟩
    exact cutFirst_append hfront back

theorem cutLast_append (front : List Char) (h : sep ∉ back) :
    cutLast sep (front ++ sep :: back) = some (front, back) := by
  have hreverse : (front ++ sep :: back).reverse = back.reverse ++ sep :: front.reverse := by simp
  rw [cutLast, hreverse, cutFirst_append (by simpa using h)]
  simp

/-- A text is cut at its last separator. -/
theorem cutLast_eq_some_iff {cs : List Char} :
    cutLast sep cs = some (front, back) ↔ sep ∉ back ∧ cs = front ++ sep :: back := by
  constructor
  · intro h
    obtain ⟨⟨after, before⟩, hcut, hparts⟩ := Option.map_eq_some_iff.1 h
    obtain ⟨hafter, hcs⟩ := cutFirst_eq_some_iff.1 hcut
    cases hparts
    refine ⟨by simpa using hafter, ?_⟩
    rw [← List.reverse_reverse cs, hcs]
    simp
  · rintro ⟨hback, rfl⟩
    exact cutLast_append front hback

/-- A separator that is in neither front decides where the parts end. -/
theorem append_cons_inj {a b a' b' : List Char} (ha : sep ∉ a) (ha' : sep ∉ a') :
    a ++ sep :: b = a' ++ sep :: b' ↔ a = a' ∧ b = b' := by
  refine ⟨fun h => ?_, by rintro ⟨rfl, rfl⟩; rfl⟩
  have hcut := congrArg (cutFirst sep) h
  rw [cutFirst_append ha, cutFirst_append ha'] at hcut
  simpa using hcut

/-! ## Pieces -/

theorem splitOn_cons (c : Char) (cs : List Char) :
    splitOn sep (c :: cs) = splitStep sep c (splitOn sep cs) := rfl

theorem splitOn_ne_nil (sep : Char) (cs : List Char) : splitOn sep cs ≠ [] := by
  cases cs with
  | nil => simp [splitOn]
  | cons c cs =>
    rw [splitOn_cons]
    unfold splitStep
    split
    · simp
    · split <;> simp

/-- A separator cuts a text in two, and the pieces are those of both parts. -/
theorem splitOn_append_cons (front back : List Char) :
    splitOn sep (front ++ sep :: back) = splitOn sep front ++ splitOn sep back := by
  induction front with
  | nil => simp [splitStep, splitOn]
  | cons c front ih =>
    rw [List.cons_append, splitOn_cons, splitOn_cons, ih]
    unfold splitStep
    split
    · rfl
    · cases hpieces : splitOn sep front with
      | nil => exact absurd hpieces (splitOn_ne_nil sep front)
      | cons p ps => rfl

theorem exists_mem_splitOn {c : Char} {cs : List Char} (hc : c ≠ sep) (h : c ∈ cs) :
    ∃ part ∈ splitOn sep cs, c ∈ part := by
  induction cs with
  | nil => cases h
  | cons x cs ih =>
    rw [splitOn_cons]
    unfold splitStep
    rcases List.mem_cons.1 h with rfl | h
    · rw [if_neg hc]
      split
      · exact ⟨[c], by simp⟩
      · next p ps _ => exact ⟨c :: p, by simp⟩
    · obtain ⟨part, hp, hm⟩ := ih h
      split
      · exact ⟨part, List.mem_cons_of_mem _ hp, hm⟩
      · split
        · next he => simp [he] at hp
        · next p ps he =>
          rw [he] at hp
          rcases List.mem_cons.1 hp with rfl | hp
          · exact ⟨x :: part, List.mem_cons_self, List.mem_cons_of_mem _ hm⟩
          · exact ⟨part, List.mem_cons_of_mem _ hp, hm⟩

/-- No piece has a separator. -/
theorem notMem_of_mem_splitOn {part cs : List Char} (h : part ∈ splitOn sep cs) : sep ∉ part := by
  induction cs generalizing part with
  | nil =>
    rw [splitOn, List.foldr_nil, List.mem_singleton] at h
    simp [h]
  | cons c cs ih =>
    rw [splitOn_cons] at h
    unfold splitStep at h
    split at h
    · rcases List.mem_cons.1 h with rfl | h
      · simp
      · exact ih h
    · next hc =>
      split at h
      · next hnil => exact absurd hnil (splitOn_ne_nil sep cs)
      · next p ps hcons =>
        rw [hcons] at ih
        rcases List.mem_cons.1 h with rfl | h
        · simpa [Ne.symm hc] using ih List.mem_cons_self
        · exact ih (List.mem_cons_of_mem _ h)

theorem splitOn_of_notMem {cs : List Char} (h : sep ∉ cs) : splitOn sep cs = [cs] := by
  induction cs with
  | nil => rfl
  | cons c cs ih =>
    rw [List.mem_cons, not_or] at h
    rw [splitOn_cons, ih h.2, splitStep, if_neg (Ne.symm h.1)]

/-- Parts that are joined by the separator are found again. -/
theorem splitOn_intercalate {parts : List (List Char)} (h : ∀ part ∈ parts, sep ∉ part)
    (hne : parts ≠ []) :
    splitOn sep (List.intercalate [sep] parts) = parts := by
  induction parts with
  | nil => exact absurd rfl hne
  | cons part parts ih =>
    cases parts with
    | nil =>
      rw [List.intercalate_singleton, splitOn_of_notMem (h part List.mem_cons_self)]
    | cons next parts =>
      rw [List.intercalate_cons_cons, List.append_assoc, List.singleton_append, splitOn_append_cons,
        splitOn_of_notMem (h part List.mem_cons_self),
          ih (fun p hp => h p (List.mem_cons_of_mem _ hp)) (by simp)]
      rfl

/-- The pieces joined by the separator are the text. -/
theorem intercalate_splitOn (sep : Char) (cs : List Char) :
    List.intercalate [sep] (splitOn sep cs) = cs := by
  induction cs with
  | nil => rfl
  | cons c cs ih =>
    rw [splitOn_cons]
    unfold splitStep
    cases hpieces : splitOn sep cs with
    | nil => exact absurd hpieces (splitOn_ne_nil sep cs)
    | cons p ps =>
      rw [hpieces] at ih
      split
      · next hsep =>
        rw [List.intercalate_cons_cons, ih, hsep]
        rfl
      · -- the first piece gets the character, whether others follow or not
        cases ps with
        | nil => simpa using ih
        | cons q ps => simpa [List.intercalate_cons_cons] using ih

theorem mem_replaceChar {old new c : Char} {cs : List Char} (h : c ∈ replaceChar old new cs) :
    c ∈ cs ∨ c = new := by
  obtain ⟨x, hx, heq⟩ := List.mem_map.1 h
  split at heq
  · exact .inr heq.symm
  · exact .inl (heq ▸ hx)

/-- Another separator takes the place of the first one. -/
theorem replaceChar_intercalate {new : Char} {parts : List (List Char)}
    (h : ∀ part ∈ parts, sep ∉ part) :
    replaceChar sep new (List.intercalate [sep] parts) = List.intercalate [new] parts := by
  have hpart : ∀ part ∈ parts, replaceChar sep new part = part := by
    intro part hpart
    refine (List.map_congr_left fun c hc => if_neg ?_).trans (List.map_id part)
    rintro rfl
    exact h part hpart hc
  induction parts with
  | nil => rfl
  | cons part parts ih =>
    cases parts with
    | nil => simpa using hpart part List.mem_cons_self
    | cons next parts =>
      have hlater := ih (fun p hp => h p (List.mem_cons_of_mem _ hp)) fun p hp =>
        hpart p (List.mem_cons_of_mem _ hp)
      have happend : ∀ a b : List Char, replaceChar sep new (a ++ b) =
          replaceChar sep new a ++ replaceChar sep new b :=
        fun a b => List.map_append
      rw [List.intercalate_cons_cons, List.intercalate_cons_cons, happend, happend, hlater,
        hpart part List.mem_cons_self]
      simp [replaceChar]

theorem mem_intercalate {c : Char} {parts : List (List Char)}
    (h : c ∈ List.intercalate [sep] parts) :
    c = sep ∨ ∃ part ∈ parts, c ∈ part := by
  induction parts with
  | nil => cases h
  | cons part parts ih =>
    cases parts with
    | nil =>
      rw [List.intercalate_singleton] at h
      exact .inr ⟨part, List.mem_cons_self, h⟩
    | cons next parts =>
      rw [List.intercalate_cons_cons, List.mem_append, List.mem_append, List.mem_singleton] at h
      rcases h with (h | h) | h
      · exact .inr ⟨part, List.mem_cons_self, h⟩
      · exact .inl h
      · rcases ih h with h | ⟨part', hpart, hmem⟩
        · exact .inl h
        · exact .inr ⟨part', List.mem_cons_of_mem _ hpart, hmem⟩

/-! ## Parts with separators between them -/

/-- No part between the separators is empty, and all their characters are of a kind. -/
def IsParted (sep : Char) (p : Char → Bool) (cs : List Char) : Prop :=
  ∀ part ∈ splitOn sep cs, part ≠ [] ∧ ∀ c ∈ part, p c = true

section IsParted

variable {p : Char → Bool} {cs : List Char}

theorem all_splitOn_iff :
    ((splitOn sep cs).all fun part => !part.isEmpty && part.all p) = true ↔ IsParted sep p cs := by
  simp [IsParted]

theorem IsParted.mem {c : Char} (h : IsParted sep p cs) (hc : c ∈ cs) : p c = true ∨ c = sep := by
  by_cases hsep : c = sep
  · exact .inr hsep
  · obtain ⟨part, hpart, hmem⟩ := exists_mem_splitOn hsep hc
    exact .inl ((h part hpart).2 c hmem)

/-- The text starts with a part. -/
theorem IsParted.exists_cons (h : IsParted sep p cs) : ∃ c rest, cs = c :: rest ∧ p c = true := by
  cases cs with
  | nil => exact absurd rfl (h [] (by simp [splitOn])).1
  | cons c rest =>
    refine ⟨c, rest, rfl, ?_⟩
    rcases h.mem List.mem_cons_self with hc | rfl
    · exact hc
    · exact absurd rfl (h [] (by simp [splitOn_cons, splitStep])).1

/-- The text ends with a part. -/
theorem IsParted.getLast? {c : Char} (h : IsParted sep p cs) (hc : c ∈ cs.getLast?) :
    p c = true := by
  obtain ⟨front, rfl⟩ := List.getLast?_eq_some_iff.1 hc
  rcases h.mem (c := c) (by simp) with hp | rfl
  · exact hp
  · have hlast : [] ∈ splitOn c (front ++ [c]) := by
      rw [splitOn_append_cons]
      simp [splitOn]
    exact absurd rfl (h [] hlast).1

end IsParted

/-! ## Lines -/

/-- No line has a line feed. -/
theorem notMem_of_mem_lines {line cs : List Char} (h : line ∈ lines cs) : '\n' ∉ line := by
  unfold lines at h
  simp only at h
  split at h
  · exact notMem_of_mem_splitOn ((List.dropLast_subset _ h))
  · exact notMem_of_mem_splitOn h

theorem lines_of_notMem {cs : List Char} (h : '\n' ∉ cs) (hne : cs ≠ []) : lines cs = [cs] := by
  unfold lines
  rw [splitOn_of_notMem h]
  simp [hne]

theorem lines_append_cons (front back : List Char) :
    lines (front ++ '\n' :: back) = splitOn '\n' front ++ lines back := by
  have hne := splitOn_ne_nil '\n' back
  have hlast : (splitOn '\n' front ++ splitOn '\n' back).getLast? =
      (splitOn '\n' back).getLast? := by
    rw [List.getLast?_append, List.getLast?_eq_some_getLast hne, Option.some_or]
  unfold lines
  simp only [splitOn_append_cons, hlast, List.dropLast_append_of_ne_nil hne]
  split <;> rfl

/-- The lines of two texts, if the first one ends a line. -/
theorem lines_append {front : List Char} (h : front = [] ∨ front.getLast? = some '\n')
    (back : List Char) :
    lines (front ++ back) = lines front ++ lines back := by
  rcases h with rfl | h
  · rfl
  · obtain ⟨front, rfl⟩ := List.getLast?_eq_some_iff.1 h
    have hfront : lines (front ++ ['\n']) = splitOn '\n' front := by
      rw [lines_append_cons]
      exact List.append_nil _
    rw [hfront, List.append_assoc, List.singleton_append, lines_append_cons]

end JvmAudit.Text
