import JvmAudit.Rule.Book

/-!
# Books that can be made

A rule book is made by loading texts, files and catalogs, in any order; a load that fails counts
too. In every such book all rules are well-formed, no two of them have the same key, and the keys
are those of the rules (`Reachable.sound`). A book that grows keeps its rules, and new ones come
behind them (`Grows.rules_prefix`).

A load is a sequence of steps on the book, so a condition that each step keeps is kept by the load
(`Keeps`). The conditions of interest do not look at the target and the catalogs, so they need only
survive a further rule (`Stable`).
-/

namespace JvmAudit.RuleBook

/-- A book grows into the books that can be made from it, whether or not the loads succeed. -/
inductive Grows (book : RuleBook) : RuleBook → Prop
  | refl : Grows book book
  | setTarget {book' : RuleBook} (h : Grows book book') (version : Option String) :
    Grows book (book'.run (RuleBook.setTarget version)).2
  | addText {book' : RuleBook} (h : Grows book book') (origin text : String) :
    Grows book (book'.run (RuleBook.addText origin text)).2
  | addFile {book' : RuleBook} (h : Grows book book') (files : FileTree) (path : String) :
    Grows book (book'.run (RuleBook.addFile files path)).2
  | addBundled {book' : RuleBook} (h : Grows book book') (name : String) (target : Option String) :
    Grows book (book'.run (RuleBook.addBundled name target)).2

/-- The books that can be made from the empty one. -/
abbrev Reachable (book : RuleBook) : Prop := Grows .empty book

theorem Grows.trans {a b c : RuleBook} (h : Grows a b) (h' : Grows b c) : Grows a c := by
  induction h' with
  | refl => exact h
  | setTarget _ version ih => exact ih.setTarget version
  | addText _ origin text ih => exact ih.addText origin text
  | addFile _ files path ih => exact ih.addFile files path
  | addBundled _ name target ih => exact ih.addBundled name target

/-- All rules are well-formed and have different keys, and these are the keys of the book. -/
structure Sound (book : RuleBook) : Prop where
  wellFormed : ∀ p ∈ book.rules, p.rule.WellFormed
  rules_nodup : (book.rules.map (·.rule.key)).Nodup
  keys_nodup : book.keys.Nodup
  keys : ∀ key, key ∈ book.keys ↔ ∃ p ∈ book.rules, p.rule.key = key

/-! ## Runs -/

section Run

variable {α β : Type} {book book' : RuleBook}

/-- Loads in sequence: the second one sees the book that the first one leaves, unless that fails. -/
theorem run_bind (book : RuleBook) (load : Load α) (next : α → Load β) :
    book.run (load >>= next) =
      match book.run load with
      | (.ok a, book') => book'.run (next a)
      | (.error e, book') => (.error e, book') := by
  cases h : book.run load with
  | mk result book' =>
    cases result with
    | ok a => exact Result.run_bind_ok h
    | error e => exact Result.run_bind_error h

theorem run_bind_of_ok {load : Load α} {next : α → Load β} {a : α}
    (h : book.run load = (.ok a, book')) :
    book.run (load >>= next) = book'.run (next a) := Result.run_bind_ok h

theorem run_bind_of_error {load : Load α} {next : α → Load β} {e : RuleBookError}
    (h : book.run load = (.error e, book')) : book.run (load >>= next) = (.error e, book') :=
  Result.run_bind_error h

theorem run_get (book : RuleBook) : book.run get = (.ok book, book) := rfl

theorem run_modify (book : RuleBook) (change : RuleBook → RuleBook) :
    book.run (modify change) = (.ok (), change book) := rfl

end Run

/-! ## Adding rules -/

/-- A book with one more rule, unless there is one with its key. -/
def add (book : RuleBook) (p : PendingRule) : RuleBook :=
  if p.rule.key ∈ book.keys then book
  else { book with rules := book.rules ++ [p], keys := p.rule.key :: book.keys }

/-- A book with more rules. -/
def addAll (book : RuleBook) (ps : List PendingRule) : RuleBook := ps.foldl add book

/-- The number of rules that one book has more than another. -/
def growth (book book' : RuleBook) : Nat := book'.rules.length - book.rules.length

/-- No rule is lost when rules are added. -/
theorem length_le_length_addAll (book : RuleBook) (ps : List PendingRule) :
    book.rules.length ≤ (book.addAll ps).rules.length := by
  unfold addAll
  induction ps generalizing book with
  | nil => exact Nat.le_refl _
  | cons p ps ih =>
    refine Nat.le_trans ?_ (ih (book.add p))
    unfold add
    split
    · exact Nat.le_refl _
    · simp

/-- A key is new iff it is not there, and is there afterwards. -/
theorem run_insertKey (book : RuleBook) (key : String) :
    book.run (insertKey key) =
      if key ∈ book.keys then (.ok false, book) else (.ok true,
        { book with keys := key :: book.keys }) := by
  unfold insertKey
  rw [run_bind_of_ok (run_get book)]
  split
  · rfl
  · rfl

/-- A catalog is new iff it is not there, and is there afterwards. -/
theorem run_insertCatalog (book : RuleBook) (name : String) :
    book.run (insertCatalog name) =
      if name ∈ book.catalogs then (.ok false, book)
      else (.ok true, { book with catalogs := name :: book.catalogs }) := by
  unfold insertCatalog
  rw [run_bind_of_ok (run_get book)]
  split
  · rfl
  · rfl

/-- Rules are added one by one, and the count is the number of rules that the book gains. -/
theorem run_addRules (book : RuleBook) (added : Nat) (ps : List PendingRule) :
    book.run (addRules added ps) =
      (.ok (added + book.growth (book.addAll ps)), book.addAll ps) := by
  induction ps generalizing book added with
  | nil =>
    rw [growth, addAll, List.foldl_nil, Nat.sub_self]
    rfl
  | cons p ps ih =>
    have hkey := run_insertKey book p.rule.key
    unfold addRules
    by_cases h : p.rule.key ∈ book.keys
    · rw [if_pos h] at hkey
      rw [run_bind_of_ok hkey, addAll, List.foldl_cons, add, if_pos h]
      exact ih book added
    · rw [if_neg h] at hkey
      have hcount : added + 1 + (book.add p).growth ((book.add p).addAll ps) =
          added + book.growth ((book.add p).addAll ps) := by
        have hle := length_le_length_addAll (book.add p) ps
        have hlen : (book.add p).rules.length = book.rules.length + 1 := by
          rw [add, if_neg h]
          simp
        unfold growth
        omega
      rw [run_bind_of_ok hkey, if_pos rfl, run_bind_of_ok (run_modify _ _), addAll, List.foldl_cons]
      refine Eq.trans (b := (book.add p).run (addRules (added + 1) ps)) ?_ ?_
      · rw [add, if_neg h]
      · rw [ih (book.add p), hcount, addAll]

/-! ## Conditions that loads keep -/

/-- A condition on the book is kept by a load, also if that fails. -/
def Keeps (P : RuleBook → Prop) {α : Type} (load : Load α) : Prop :=
  ∀ book, P book → P (book.run load).2

section Keeps

variable {P : RuleBook → Prop} {α β : Type}

theorem keeps_pure (a : α) : Keeps P (pure a) := fun _ h => h

theorem keeps_throw (e : RuleBookError) : Keeps P (throw e : Load α) := fun _ h => h

theorem keeps_get : Keeps P (get : Load RuleBook) := fun _ h => h

/-- Loads in sequence keep what each of them keeps. -/
theorem Keeps.bind {load : Load α} {next : α → Load β} (h : Keeps P load)
    (hn : ∀ a, Keeps P (next a)) :
    Keeps P (load >>= next) := by
  intro book hb
  have hl := h book hb
  rw [run_bind]
  split
  · next a book' he =>
    rw [he] at hl
    exact hn a book' hl
  · next e book' he =>
    rw [he] at hl
    exact hl

/-- To check that catalogs exist does not change the book. -/
theorem keeps_checkIncludes (origin : String) (target : Option String)
    (includes : List (String × Nat)) :
    Keeps P (checkIncludes origin target includes) := by
  induction includes with
  | nil => exact keeps_pure _
  | cons i rest ih =>
    unfold checkIncludes
    split
    · exact keeps_throw _
    · exact ih

end Keeps

/-! ## Conditions that a further rule keeps -/

/-- A condition on the rules of a book that a further rule does not break. -/
structure Stable (P : RuleBook → Prop) : Prop where
  target : ∀ {book : RuleBook}, P book → ∀ target, P { book with target }
  catalogs : ∀ {book : RuleBook}, P book → ∀ catalogs, P { book with catalogs }
  add : ∀ {book : RuleBook}, P book → ∀ p : PendingRule, p.rule.WellFormed → P (book.add p)

/-- The rules of a text are well-formed. -/
theorem wellFormed_of_mem_rulesOf {origin text origin' : String} {lenient : Bool}
    {entries : List Entry} (h : RuleText.parse origin text = .ok entries) :
    ∀ p ∈ rulesOf origin' lenient entries, p.rule.WellFormed := by
  intro p hp
  obtain ⟨e, he, hc⟩ := List.mem_filterMap.1 hp
  split at hc
  · next r hr =>
    cases hc
    exact RuleText.wellFormed_of_mem_parse h he hr
  · cases hc

namespace Stable

variable {P : RuleBook → Prop}

/-- What is stable under the addition of a rule is stable under that of many. -/
theorem addAll (hP : Stable P) {book : RuleBook} {ps : List PendingRule} (h : P book)
    (hps : ∀ p ∈ ps, p.rule.WellFormed) : P (book.addAll ps) := by
  unfold RuleBook.addAll
  induction ps generalizing book with
  | nil => exact h
  | cons p ps ih =>
    exact ih (hP.add h p (hps p List.mem_cons_self)) fun q hq => hps q (List.mem_cons_of_mem _ hq)

/-- The loop that adds rules one by one keeps what is stable. -/
theorem keeps_addRules (hP : Stable P) (added : Nat) {ps : List PendingRule}
    (hps : ∀ p ∈ ps, p.rule.WellFormed) : Keeps P (addRules added ps) := by
  intro book h
  rw [run_addRules]
  exact hP.addAll h hps

theorem keeps_insertCatalog (hP : Stable P) (name : String) : Keeps P (insertCatalog name) := by
  intro book h
  rw [run_insertCatalog]
  split
  · exact h
  · exact hP.catalogs h _

/-- The entries of a source, if its catalogs are no trouble. -/
theorem keeps_addEntries_of (hP : Stable P) {origin text origin' : String} (lenient : Bool)
    {entries : List Entry} (h : RuleText.parse origin text = .ok entries)
    (hincludes : ∀ target added, Keeps P (includeAll origin' target added (includesOf entries))) :
    Keeps P (addEntries origin' lenient entries) := by
  rw [addEntries]
  refine keeps_get.bind fun book => (keeps_checkIncludes _ _ _).bind fun _ => ?_
  exact (hP.keeps_addRules 0 (wellFormed_of_mem_rulesOf h)).bind fun added => hincludes _ added

/-- To include a catalog keeps what is stable. The recursion goes over the catalogs that were not
taken in yet. -/
theorem keeps_includeCatalog (hP : Stable P) (origin name : String) (target : Option String) :
    Keeps P (includeCatalog origin name target) := by
  rw [includeCatalog]
  split
  · exact keeps_throw _
  · next c hc =>
    refine (hP.keeps_insertCatalog c.name).bind fun isNew => ?_
    cases isNew with
    | false => exact keeps_pure _
    | true =>
      simp only [if_true]
      split
      · exact keeps_throw _
      · next entries he =>
        -- the catalog includes no other one
        refine hP.keeps_addEntries_of true he fun target added => ?_
        rw [includesOf_eq_nil hc he, includeAll]
        exact keeps_pure _

/-- The same for all catalogs that a text includes. -/
theorem keeps_includeAll (hP : Stable P) (origin : String) (target : Option String) (added : Nat)
    (includes : List (String × Nat)) : Keeps P (includeAll origin target added includes) := by
  induction includes generalizing added with
  | nil =>
    rw [includeAll]
    exact keeps_pure _
  | cons i rest ih =>
    rw [includeAll]
    exact (hP.keeps_includeCatalog _ _ _).bind fun more => ih (added + more)

/-- To load a text keeps what is stable, also if it fails. -/
theorem keeps_addText (hP : Stable P) (origin text : String) : Keeps P (addText origin text) := by
  unfold addText
  split
  · exact keeps_throw _
  · next entries he =>
    exact hP.keeps_addEntries_of false he fun target added => hP.keeps_includeAll _ target added _

theorem keeps_addFile (hP : Stable P) (files : FileTree) (path : String) :
    Keeps P (addFile files path) := by
  unfold addFile
  cases files.readText path with
  | ok text => exact hP.keeps_addText path text
  | error e => exact keeps_throw _

/-- What a further rule does not break holds of all books that can be made. -/
theorem of_grows (hP : Stable P) {book book' : RuleBook} (hg : Grows book book')
    (h : P book) : P book' := by
  induction hg with
  | refl => exact h
  | setTarget _ version ih => exact hP.target ih version
  | addText _ origin text ih => exact hP.keeps_addText origin text _ ih
  | addFile _ files path ih => exact hP.keeps_addFile files path _ ih
  | addBundled _ name target ih =>
    exact (keeps_get.bind fun _ => hP.keeps_includeCatalog _ _ _) _ ih

end Stable

/-! ## Rules of books -/

theorem sound_empty : Sound .empty := by
  constructor <;> simp [RuleBook.empty]

/-- A rule whose key is new is put behind the others, and its key is noted. -/
theorem Sound.add {book : RuleBook} {p : PendingRule} (h : Sound book) (hp : p.rule.WellFormed) :
    Sound (book.add p) := by
  unfold RuleBook.add
  split
  · exact h
  · next hk =>
    have hnew : ∀ q ∈ book.rules, q.rule.key ≠ p.rule.key := fun q hq heq =>
      hk ((h.keys _).2 ⟨q, hq, heq⟩)
    refine ⟨?_, ?_, List.nodup_cons.2 ⟨hk, h.keys_nodup⟩, ?_⟩
    · intro q hq
      rcases List.mem_append.1 hq with hq | hq
      · exact h.wellFormed q hq
      · rw [List.mem_singleton.1 hq]
        exact hp
    · rw [List.map_append, List.nodup_append]
      refine ⟨h.rules_nodup, by simp, ?_⟩
      intro a ha b hb hab
      obtain ⟨q, hq, rfl⟩ := List.mem_map.1 ha
      rw [List.map_singleton, List.mem_singleton] at hb
      exact hnew q hq (hab.trans hb)
    · intro key
      simp only [List.mem_cons, h.keys, List.mem_append, List.not_mem_nil, or_false]
      constructor
      · rintro (rfl | ⟨q, hq, rfl⟩)
        · exact ⟨p, .inr rfl, rfl⟩
        · exact ⟨q, .inl hq, rfl⟩
      · rintro ⟨q, hq | rfl, rfl⟩
        · exact .inr ⟨q, hq, rfl⟩
        · exact .inl rfl

/-- Soundness is kept by everything that loads rules. -/
theorem stable_sound : Stable Sound where
  target h _ := ⟨h.wellFormed, h.rules_nodup, h.keys_nodup, h.keys⟩
  catalogs h _ := ⟨h.wellFormed, h.rules_nodup, h.keys_nodup, h.keys⟩
  add h _ hp := h.add hp

/-- In a book that can be made all rules are well-formed and have different keys, and these are its
keys. -/
theorem Reachable.sound {book : RuleBook} (h : Reachable book) : Sound book :=
  stable_sound.of_grows h sound_empty

/-- A book that grows keeps its rules, and new ones come behind them. -/
theorem Grows.rules_prefix {book book' : RuleBook} (h : Grows book book') :
    book.rules <+: book'.rules := by
  have hstable : Stable fun b => book.rules <+: b.rules := by
    refine ⟨fun hb _ => hb, fun hb _ => hb, fun {b} hb p _ => ?_⟩
    unfold RuleBook.add
    split
    · exact hb
    · exact hb.trans (List.prefix_append _ _)
  exact hstable.of_grows h List.prefix_rfl

end JvmAudit.RuleBook
