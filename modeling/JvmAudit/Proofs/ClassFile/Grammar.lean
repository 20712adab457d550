import JvmAudit.Proofs.ClassFile.Consumption

/-!
# Readers and their grammars

A grammar says which bytes are the word of a value. A reader parses a grammar if it takes a word off
the front and gives the value of the word, and succeeds on no other input (`Reader.Parses`).

More can be said where the only faults are those of a stated kind: if the reader fails at the end of
the input, the input is a part of a word, and if it fails otherwise, the input has such a fault
(`Reader.Outcome`). For a sequence of readers it takes that whatever the first one has read can be
continued to a word.
-/

namespace JvmAudit

/-! ## Numbers -/

theorem be2_lt (a b : UInt8) : be2 a b < 0x10000 := by
  have ha := a.toNat_lt
  have hb := b.toNat_lt
  unfold be2
  omega

/-- Two bytes are what is written for the number that they make. -/
theorem put2_be2 (a b : UInt8) : put2 (be2 a b) = [a, b] := by
  have hb := b.toNat_lt
  have hhigh : be2 a b / 0x100 = a.toNat := by
    unfold be2
    omega
  have hlow : UInt8.ofNat (be2 a b) = b := by
    apply UInt8.toNat_inj.1
    rw [toNat_byte]
    unfold be2
    omega
  unfold put2
  rw [hhigh, hlow, UInt8.ofNat_toNat]

namespace Reader

variable {α β : Type} {G G' : α → Bytes → Prop} {E : Bytes → ClassError → Prop} {r : Reader α}
  {data word : Bytes} {a : α}

/-! ## Parsing -/

/-- The words of the grammar are read, whatever follows them, and nothing else is. -/
def Parses (r : Reader α) (G : α → Bytes → Prop) : Prop :=
  ∀ data a rest, r data = .ok (a, rest) ↔ ∃ word, G a word ∧ data = word ++ rest

/-- A word of the grammar is read as its value, whatever follows. -/
theorem Parses.reads (h : Parses r G) (hword : G a word) : Reads r word a :=
  fun rest => (h _ a rest).2 ⟨word, hword, rfl⟩

/-- Nothing is read but words of the grammar. -/
def Yields (r : Reader α) (G : α → Bytes → Prop) : Prop :=
  ∀ data a rest, r data = .ok (a, rest) → ∃ word, G a word ∧ data = word ++ rest

theorem Parses.yields (h : Parses r G) (hG : ∀ a word, G a word → G' a word) : Yields r G' := by
  intro data a rest hread
  obtain ⟨word, hword, hdata⟩ := (h data a rest).1 hread
  exact ⟨word, hG a word hword, hdata⟩

/-- The second reader goes on with the word that the first one has begun. -/
theorem Parses.yields_bind {f : α → Reader β} {H : β → Bytes → Prop} (hr : Parses r G)
    (hf : ∀ a front, G a front → Yields (f a) fun b word => H b (front ++ word)) :
    Yields (r >>= f) H := by
  intro data b rest h
  rw [run_bind] at h
  obtain ⟨⟨a, middle⟩, ha, hb⟩ := Result.bind_eq_ok.1 h
  obtain ⟨front, hfront, rfl⟩ := (hr data a middle).1 ha
  obtain ⟨back, hback, rfl⟩ := hf a front hfront middle b rest hb
  exact ⟨front ++ back, hback, by rw [List.append_assoc]⟩

/-- In a sequence the second reader gets what the first one leaves. -/
theorem Reads.run_bind (h : Reads r word a) (f : α → Reader β) (rest : Bytes) :
    (r >>= f) (word ++ rest) = f a rest := by
  rw [Reader.run_bind, h]
  rfl

theorem Parses.congr (h : Parses r G) (hG : ∀ a word, G a word ↔ G' a word) : Parses r G' := by
  intro data a rest
  rw [h]
  exact exists_congr fun word => and_congr_left fun _ => hG a word

theorem parses_pure (a : α) : Parses (pure a) fun a' word => a' = a ∧ word = [] := by
  intro data a' rest
  constructor
  · intro h
    cases h
    exact ⟨[], ⟨rfl, rfl⟩, rfl⟩
  · rintro ⟨_, ⟨rfl, rfl⟩, rfl⟩
    rfl

theorem parses_throw (e : ClassError) : Parses (throw e : Reader α) fun _ _ => False :=
  fun _ _ _ => ⟨nofun, nofun⟩

/-- What takes no bytes has the empty word. -/
theorem parses_lift (x : Except ClassError α) :
    Parses (liftM x) fun a word => x = .ok a ∧ word = [] := by
  cases x with
  | ok a => exact (parses_pure a).congr fun a' word => by rw [Except.ok.injEq, eq_comm (a := a)]
  | error e => exact (parses_throw e).congr fun a word => by simp

/-- The words of a sequence are words of its parts, one behind the other. -/
theorem Parses.bind {f : α → Reader β} {H : α → β → Bytes → Prop} (hr : Parses r G)
    (hf : ∀ a, Parses (f a) (H a)) :
    Parses (r >>= f) fun b word => ∃ a front back, G a front ∧ H a b back ∧
    word = front ++ back := by
  intro data b rest
  rw [run_bind, Result.bind_eq_ok]
  constructor
  · rintro ⟨⟨a, middle⟩, ha, hb⟩
    obtain ⟨front, hfront, rfl⟩ := (hr data a middle).1 ha
    obtain ⟨back, hback, rfl⟩ := (hf a middle b rest).1 hb
    exact ⟨front ++ back, ⟨a, front, back, hfront, hback, rfl⟩, by rw [List.append_assoc]⟩
  · rintro ⟨_, ⟨a, front, back, hfront, hback, rfl⟩, rfl⟩
    rw [List.append_assoc]
    exact ⟨(a, back ++ rest), hr.reads hfront _, (hf a).reads hback rest⟩

theorem Parses.map {f : α → β} (hr : Parses r G) :
    Parses (do return f (← r)) fun b word => ∃ a, G a word ∧ b = f a := by
  refine (hr.bind fun a => parses_pure (f a)).congr fun b word => ?_
  constructor
  · rintro ⟨a, front, _, hfront, ⟨rfl, rfl⟩, rfl⟩
    exact ⟨a, by rwa [List.append_nil], rfl⟩
  · rintro ⟨a, hword, rfl⟩
    exact ⟨a, word, [], hword, ⟨rfl, rfl⟩, (List.append_nil word).symm⟩

/-- A number of two bytes is any number that fits. -/
theorem parses_u2 : Parses u2 fun n word => n < 0x10000 ∧ word = put2 n := by
  intro data n rest
  constructor
  · intro h
    rcases data with _ | ⟨a, _ | ⟨b, data⟩⟩
    · cases h
    · cases h
    · cases h
      exact ⟨[a, b], ⟨be2_lt a b, (put2_be2 a b).symm⟩, rfl⟩
  · rintro ⟨_, ⟨hn, rfl⟩, rfl⟩
    exact reads_u2 hn rest

/-! ## Tables -/

theorem exists_words (h : ∃ a word, G a word) (n : Nat) :
    ∃ as word, as.length = n ∧ Words G as word := by
  obtain ⟨a, front, h⟩ := h
  induction n with
  | zero => exact ⟨[], [], rfl, rfl⟩
  | succ n ih =>
    obtain ⟨as, back, rfl, hback⟩ := ih
    exact ⟨a :: as, front ++ back, rfl, front, back, h, hback, rfl⟩

/-- A fixed number of items, by induction on the number. -/
theorem Parses.times (h : Parses r G) (n : Nat) :
    Parses (times n r) fun as word => as.length = n ∧ Words G as word := by
  induction n with
  | zero =>
    refine (parses_pure []).congr fun as word => ?_
    cases as with
    | nil => simp [Words]
    | cons a as => simp
  | succ n ih =>
    rw [times_succ]
    refine (h.bind fun a => ih.map).congr fun as word => ?_
    constructor
    · rintro ⟨a, front, back, hfront, ⟨as, ⟨rfl, hback⟩, rfl⟩, rfl⟩
      exact ⟨rfl, front, back, hfront, hback, rfl⟩
    · rintro ⟨hlen, hwords⟩
      cases as with
      | nil => cases hlen
      | cons a as =>
        obtain ⟨front, back, hfront, hback, rfl⟩ := hwords
        exact ⟨a, front, back, hfront, ⟨as, ⟨Nat.succ.inj hlen, hback⟩, rfl⟩, rfl⟩

/-- The word of a table is the number of its items and their words. -/
theorem Parses.table (h : Parses r G) :
    Parses (table r) fun as word => as.length < 0x10000 ∧ ∃ back, Words G as back ∧
    word = put2 as.length ++ back := by
  refine (parses_u2.bind h.times).congr fun as word => ?_
  constructor
  · rintro ⟨_, _, back, ⟨hn, rfl⟩, ⟨rfl, hback⟩, rfl⟩
    exact ⟨hn, back, hback, rfl⟩
  · rintro ⟨hn, back, hback, rfl⟩
    exact ⟨as.length, _, back, ⟨hn, rfl⟩, ⟨rfl, hback⟩, rfl⟩

/-- Items fail with the first one that does. -/
theorem times_eq_error {as : List α} {rest : Bytes} {n : Nat} {e : ClassError} (h : Parses r G)
    (hwords : Words G as word)
    (hlt : as.length < n) (he : r rest = .error e) : times n r (word ++ rest) = .error e := by
  induction as generalizing word n with
  | nil =>
    obtain ⟨m, rfl⟩ := Nat.exists_eq_add_one_of_ne_zero (Nat.ne_of_gt hlt)
    rw [hwords, List.nil_append, times_succ, run_bind, he]
    rfl
  | cons a as ih =>
    obtain ⟨m, rfl⟩ := Nat.exists_eq_add_one_of_ne_zero (Nat.ne_of_gt (Nat.zero_lt_of_lt hlt))
    obtain ⟨front, back, hfront, hback, rfl⟩ := hwords
    rw [times_succ, List.append_assoc, (h.reads hfront).run_bind, run_bind,
      ih hback (Nat.lt_of_succ_lt_succ hlt)]
    rfl

/-! ## Failing -/

/-- What a reader may make of an input: a value whose word stands in front, the end of the input
inside a word, or a fault. -/
inductive Outcome (G : α → Bytes → Prop) (E : Bytes → ClassError → Prop) (data : Bytes) :
    Except ClassError (α × Bytes) → Prop
  | value {a : α} {word rest : Bytes} (h : G a word)
    (hdata : data = word ++ rest) : Outcome G E data (.ok (a, rest))
  | cut {a : α} {missing : Bytes} (h : G a (data ++ missing)) (hne : missing ≠ []) :
    Outcome G E data (.error .unexpectedEof)
  | fault {e : ClassError} (h : E data e) : Outcome G E data (.error e)

/-- To parse a grammar it is enough to read its words and to give a value for nothing else. -/
theorem parses_of_outcome (h : ∀ data, Outcome G E data (r data))
    (hreads : ∀ a word, G a word → Reads r word a) :
    Parses r G := by
  intro data a rest
  constructor
  · intro hread
    have hdata := h data
    rw [hread] at hdata
    cases hdata with
    | value h hdata => exact ⟨_, h, hdata⟩
  · rintro ⟨word, hword, rfl⟩
    exact hreads a word hword rest

section Sequences

variable {H : β → Bytes → Prop} {F : Bytes → ClassError → Prop}

theorem outcome_pure {b : β} (h : H b []) (data : Bytes) :
    Outcome H F data ((pure b : Reader β) data) := .value h rfl

/-- Two bytes are read, or the input ends too early. -/
theorem outcome_u2 (data : Bytes) :
    Outcome (fun n word => n < 0x10000 ∧ word = put2 n) (fun _ _ => False) data (u2 data) := by
  rcases data with _ | ⟨a, _ | ⟨b, data⟩⟩
  · have hzero : 0 < 0x10000 ∧ [] ++ put2 0 = put2 0 := ⟨by omega, rfl⟩
    exact .cut hzero (by simp [put2])
  · have hzero : be2 a 0 < 0x10000 ∧ [a] ++ [0] = put2 (be2 a 0) :=
      ⟨be2_lt a 0, (put2_be2 a 0).symm⟩
    exact .cut hzero (by simp)
  · exact .value ⟨be2_lt a b, rfl⟩ (by rw [put2_be2]; rfl)

/-- Behind the first byte of a word stands the rest of the word. -/
theorem Outcome.cons {tag : UInt8} {result : Except ClassError (β × Bytes)}
    (h : Outcome (fun b word => H b (tag :: word)) (fun back e => F (tag :: back) e) data result) :
    Outcome H F (tag :: data) result := by
  cases h with
  | value h hdata => exact .value h (by rw [hdata]; rfl)
  | cut h hne => exact .cut h hne
  | fault h => exact .fault h

/-- The second reader goes on with the word that the first one has begun, and every word that can be
begun like that can be ended. -/
theorem Outcome.bind {f : α → Reader β} (hr : Outcome G E data (r data))
    (hf : ∀ a front rest, G a front → data = front ++ rest →
      Outcome (fun b word => H b (front ++ word)) (fun back e => F (front ++ back) e)
        rest (f a rest))
    (hcut : ∀ a front, G a front → ∃ b back, H b (front ++ back))
    (hfault : ∀ e, E data e → F data e) :
    Outcome H F data ((r >>= f) data) := by
  rw [run_bind]
  generalize r data = result at hr
  cases hr with
  | @value a front rest h hdata =>
    show Outcome H F data (f a rest)
    have hnext := hf a front rest h hdata
    generalize f a rest = result at hnext
    cases hnext with
    | value hb hrest => exact .value hb (by rw [hdata, hrest, List.append_assoc])
    | cut hb hne => exact .cut (by rwa [hdata, List.append_assoc]) hne
    | fault he => exact .fault (by rwa [hdata])
  | @cut a missing h hne =>
    obtain ⟨b, back, hb⟩ := hcut a _ h
    exact .cut (by rwa [← List.append_assoc]) (by simp [hne])
  | fault h => exact .fault (hfault _ h)

end Sequences

/-- If items fail, the fault is behind some of them. -/
theorem outcome_times (hword : ∃ a word, G a word)
    (h : ∀ part : Bytes, part.length ≤ data.length → Outcome G E part (r part)) (n : Nat) :
    Outcome (fun as word => as.length = n ∧ Words G as word)
      (fun data e =>
        ∃ as word rest, as.length < n ∧ Words G as word ∧ data = word ++ rest ∧ E rest e)
      data (times n r data) := by
  induction n generalizing data with
  | zero => exact outcome_pure ⟨rfl, rfl⟩ data
  | succ n ih =>
    rw [times_succ]
    refine (h data (Nat.le_refl _)).bind ?_ ?_ ?_
    · rintro a front rest hfront rfl
      have hrest : ∀ part : Bytes, part.length ≤ rest.length → Outcome G E part (r part) := by
        intro part hpart
        refine h part ?_
        rw [List.length_append]
        omega
      refine (ih hrest).bind ?_ ?_ ?_
      · rintro as back rest ⟨rfl, hback⟩ rfl
        exact outcome_pure ⟨rfl, front, back, hfront, hback, by rw [List.append_nil]⟩ rest
      · rintro as back ⟨rfl, hback⟩
        exact ⟨a :: as, [], rfl, front, back, hfront, hback, by rw [List.append_nil]⟩
      · rintro e ⟨as, back, rest, hlt, hback, rfl, he⟩
        exact ⟨a :: as, front ++ back, rest, Nat.succ_lt_succ hlt,
          ⟨front, back, hfront, hback, rfl⟩, by rw [List.append_assoc], he⟩
    · intro a front hfront
      obtain ⟨as, back, rfl, hback⟩ := exists_words hword n
      exact ⟨a :: as, back, rfl, front, back, hfront, hback, rfl⟩
    · intro e he
      exact ⟨[], [], data, Nat.zero_lt_succ n, rfl, rfl, he⟩

end Reader

end JvmAudit
