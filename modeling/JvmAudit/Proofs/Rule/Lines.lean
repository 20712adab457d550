import JvmAudit.Proofs.Pointwise
import JvmAudit.Proofs.Rule.Source
import JvmAudit.Proofs.Text.Blank

/-!
# Rule texts are read line by line

What a line says does not depend on the lines around it. Only two things are carried from line to
line, a default message and whether rules may be dropped, and both can be told from the lines before
(`messageOf`, `isTolerant`). A carriage return in front of a line feed is a blank at the end of its
line.

So the entries of a text are those that its lines give as texts of their own, each put into the
context of the lines before it (`Follows`), and a text fails with the first of its lines that fails
alone. In particular a text that ends a line can be continued without any change to its entries.

## Main results

* `gives_cons_iff`: what the first line adds
* `gives_iff_follows`: what a list of lines gives
* `parse_line_by_line`: what a text gives, or how it fails
-/

namespace JvmAudit

open Result

namespace RuleText

/-! ## The context of a line -/

/-- What follows the word of a directive. Blanks around the line aside, a directive is `@` and the
word, and then nothing, or a blank and more text. -/
def directiveText? (word : String) (line : List Char) : Option String :=
  ((Text.dropFront ('@' :: word.toList) (Text.trim line)).filter
      (·.head?.all Text.isBlank)).map fun rest =>
    .ofList (Text.trim rest)

/-- The default message that lines set: that of the last line which sets one, or the empty one. -/
def messageOf (lines : List (List Char)) : String :=
  (lines.filterMap (directiveText? "defaultMessage")).getLast?.getD ""

/-- Whether some line says that rules may be dropped. -/
def isTolerant (lines : List (List Char)) : Bool :=
  lines.any fun line => (directiveText? "ignoreUnresolvable" line).isSome

/-- A rule with a reason of its own keeps it, any other one takes the default message. -/
def withMessage (message : String) : EntryContent → EntryContent
  | .rule r => .rule { r with reason := if r.reason = "" then message else r.reason }
  | .includeBundled name => .includeBundled name

/-- An entry that a line gives alone, in the context of the lines before it. -/
def inContext (before : List (List Char)) (e : Entry) : Entry :=
  ⟨withMessage (messageOf before) e.content, isTolerant before, before.length + 1⟩

/-- The entries of lines that stand behind others. As a text of its own a line gives nothing or one
entry, and behind other lines it gives that entry in their context. -/
inductive Follows (origin : String) : List (List Char) → List (List Char) → List Entry → Prop
  | nil (before : List (List Char)) : Follows origin before [] []
  | nothing {before rest : List (List Char)} {line : List Char} {entries : List Entry}
    (halone : parse origin (.ofList line) = .ok [])
    (hrest : Follows origin (before ++ [line]) rest entries) :
    Follows origin before (line :: rest) entries
  | entry {before rest : List (List Char)} {line : List Char} {e : Entry} {entries : List Entry}
    (halone : parse origin (.ofList line) = .ok [e])
    (hrest : Follows origin (before ++ [line]) rest entries) :
    Follows origin before (line :: rest) (inContext before e :: entries)

end RuleText

/-! ## Directives -/

namespace RuleText

theorem directiveText?_eq_some_iff {word text : String} {line : List Char} :
    directiveText? word line = some text ↔ ∃ rest, Text.trim line = '@' :: (word.toList ++ rest) ∧
      (∀ c ∈ rest.head?, Text.isBlank c = true) ∧ text = .ofList (Text.trim rest) := by
  simp only [directiveText?, Option.map_eq_some_iff, Option.filter_eq_some_iff,
    Text.dropFront_eq_some_iff, Option.all_eq_true, List.cons_append, and_assoc,
    eq_comm (a := text), Option.mem_def]

end RuleText

namespace Line

open RuleText

/-- The word of a directive decides what the line says. -/
theorem directive_cases {cs : List Char} {line : Line} (h : directive cs = .ok line) :
    (cs.takeWhile (!Text.isBlank ·) = "defaultMessage".toList ∧
      line = .defaultMessage (.ofList (Text.trim (cs.dropWhile (!Text.isBlank ·))))) ∨
    (cs.takeWhile (!Text.isBlank ·) = "ignoreUnresolvable".toList ∧ line = .ignoreUnresolvable) ∨
    (∃ name, line = .includeBundled name) ∨
    ∃ owner rest, line = .rule owner .annotated (reason? rest) := by
  unfold directive at h
  simp only at h
  split at h
  · next hword =>
    cases h
    exact .inl ⟨hword, rfl⟩
  split at h
  · next hword =>
    cases h
    exact .inr (.inl ⟨hword, rfl⟩)
  split at h
  · split at h
    · cases h
    · cases h
      exact .inr (.inr (.inl ⟨_, rfl⟩))
  split at h
  · obtain ⟨p, _, h⟩ := bind_eq_ok.1 h
    cases h
    exact .inr (.inr (.inr ⟨p, _, rfl⟩))
  · cases h

/-- A line that is neither a directive nor a rule says nothing. -/
theorem parse_cases {cs : List Char} {line : Line} (h : parse cs = .ok line) :
    line = .blank ∨ (∃ rest, Text.trim cs = '@' :: rest ∧ directive rest = .ok line) ∨
      ∃ owner target rest, line = .rule owner target (reason? rest) := by
  unfold parse at h
  split at h
  · cases h
    exact .inl rfl
  · cases h
    exact .inl rfl
  · next rest htrim => exact .inr (.inl ⟨rest, htrim, h⟩)
  · simp only at h
    obtain ⟨⟨owner, target⟩, _, h⟩ := bind_eq_ok.1 h
    cases h
    exact .inr (.inr ⟨owner, target, _, rfl⟩)

/-- A line with a known word behind its `@`. -/
theorem parse_of_directiveText? {word text : String} {cs : List Char}
    (hword : word.toList.any Text.isBlank = false)
    (h : directiveText? word cs = some text) : ∃ rest, parse cs = directive rest ∧
      rest.takeWhile (!Text.isBlank ·) = word.toList ∧
      text = .ofList (Text.trim (rest.dropWhile (!Text.isBlank ·))) := by
  obtain ⟨rest, htrim, hrest, rfl⟩ := directiveText?_eq_some_iff.1 h
  have hplain : ∀ c ∈ word.toList, Text.isBlank c = false := by simpa using hword
  obtain ⟨htake, hdrop⟩ := Text.span_word hplain hrest
  refine ⟨word.toList ++ rest, ?_, htake, by rw [hdrop]⟩
  unfold parse
  rw [htrim]
  rfl

/-- A line that starts with a word behind its `@`. -/
theorem directiveText?_of_takeWhile {word : String} {cs rest : List Char}
    (htrim : Text.trim cs = '@' :: rest) (hword : rest.takeWhile (!Text.isBlank ·) = word.toList) :
    directiveText? word cs = some (.ofList (Text.trim (rest.dropWhile (!Text.isBlank ·)))) := by
  refine directiveText?_eq_some_iff.2 ⟨_, ?_, Text.isBlank_head?_dropWhile_not, rfl⟩
  rw [← hword, List.takeWhile_append_dropWhile, htrim]

/-- A line says a default message iff it is that directive. -/
theorem parse_eq_defaultMessage_iff {cs : List Char} {text : String} :
    parse cs = .ok (.defaultMessage text) ↔ directiveText? "defaultMessage" cs = some text := by
  constructor
  · intro h
    rcases parse_cases h with hline | ⟨rest, htrim, hdirective⟩ | ⟨_, _, _, hline⟩
    · cases hline
    · rcases directive_cases hdirective with
        ⟨hword, hline⟩ | ⟨_, hline⟩ | ⟨_, hline⟩ | ⟨_, _, hline⟩
      · cases hline
        exact directiveText?_of_takeWhile htrim hword
      all_goals cases hline
    · cases hline
  · intro h
    obtain ⟨rest, hparse, hword, rfl⟩ := parse_of_directiveText? (by decide) h
    rw [hparse]
    unfold directive
    simp only
    rw [if_pos hword]
    rfl

/-- A line says that rules may be dropped iff it is that directive. -/
theorem parse_eq_ignoreUnresolvable_iff {cs : List Char} :
    parse cs = .ok .ignoreUnresolvable ↔ (directiveText? "ignoreUnresolvable" cs).isSome := by
  constructor
  · intro h
    rcases parse_cases h with hline | ⟨rest, htrim, hdirective⟩ | ⟨_, _, _, hline⟩
    · cases hline
    · rcases directive_cases hdirective with ⟨_, hline⟩ | ⟨hword, _⟩ | ⟨_, hline⟩ | ⟨_, _, hline⟩
      · cases hline
      · rw [directiveText?_of_takeWhile htrim hword]
        rfl
      all_goals cases hline
    · cases hline
  · intro h
    obtain ⟨text, htext⟩ := Option.isSome_iff_exists.1 h
    obtain ⟨rest, hparse, hword, -⟩ := parse_of_directiveText? (by decide) htext
    rw [hparse]
    unfold directive
    simp only
    rw [if_neg (by rw [hword]; decide), if_pos hword]
    rfl

/-- A reason that a line gives is not empty. -/
theorem reason?_ne_empty (cs : List Char) : reason? cs ≠ some "" := by
  have hne : ∀ cs : List Char,
      (if cs.isEmpty then none else some (String.ofList cs)) ≠ some "" := by
    intro cs
    cases cs <;> simp
  unfold reason?
  exact hne _

theorem reason_ne_empty {cs : List Char} {owner : NamePattern} {target : RuleTarget}
    {reason : String} (h : parse cs = .ok (.rule owner target (some reason))) : reason ≠ "" := by
  rintro rfl
  rcases parse_cases h with hline | ⟨_, _, hdirective⟩ | ⟨_, _, rest, hline⟩
  · cases hline
  · rcases directive_cases hdirective with ⟨_, hline⟩ | ⟨_, hline⟩ | ⟨_, hline⟩ | ⟨_, rest, hline⟩
    · cases hline
    · cases hline
    · cases hline
    · simp only [rule.injEq] at hline
      exact reason?_ne_empty rest hline.2.2.symm
  · simp only [rule.injEq] at hline
    exact reason?_ne_empty rest hline.2.2.symm

end Line

/-! ## One more line -/

namespace RuleText

variable {before : List (List Char)} {line : List Char} {said : Line}

theorem messageOf_of_message {text : String} (h : Line.parse line = .ok (.defaultMessage text)) :
    messageOf (before ++ [line]) = text := by
  rw [Line.parse_eq_defaultMessage_iff] at h
  simp [messageOf, h]

theorem messageOf_of_ne (h : Line.parse line = .ok said)
    (hne : ∀ text, said ≠ .defaultMessage text) :
    messageOf (before ++ [line]) = messageOf before := by
  have hnone : directiveText? "defaultMessage" line = none := by
    rw [Option.eq_none_iff_forall_ne_some]
    intro text htext
    rw [← Line.parse_eq_defaultMessage_iff, h] at htext
    exact hne text (Except.ok.inj htext)
  simp [messageOf, hnone]

theorem isTolerant_of_ignore (h : Line.parse line = .ok .ignoreUnresolvable) :
    isTolerant (before ++ [line]) = true := by
  rw [Line.parse_eq_ignoreUnresolvable_iff] at h
  simp [isTolerant, h]

theorem isTolerant_of_ne (h : Line.parse line = .ok said) (hne : said ≠ .ignoreUnresolvable) :
    isTolerant (before ++ [line]) = isTolerant before := by
  have hnone : ¬(directiveText? "ignoreUnresolvable" line).isSome := by
    rw [← Line.parse_eq_ignoreUnresolvable_iff, h]
    exact fun heq => hne (Except.ok.inj heq)
  rw [Option.not_isSome_iff_eq_none] at hnone
  simp [isTolerant, hnone]

/-- A line adds what it gives alone, in the context of the lines before it, and is part of the
context of the next one. -/
theorem entries_cons (h : Line.parse line = .ok said) (rest : List (Nat × Line)) :
    Line.entries (messageOf before) (isTolerant before) ((before.length + 1, said) :: rest) =
      (Line.entries "" false [(1, said)]).map (inContext before) ++
        Line.entries (messageOf (before ++ [line])) (isTolerant (before ++ [line])) rest := by
  cases said with
  | blank =>
    rw [messageOf_of_ne h (by simp), isTolerant_of_ne h (by simp)]
    rfl
  | defaultMessage text =>
    rw [messageOf_of_message h, isTolerant_of_ne h (by simp)]
    rfl
  | ignoreUnresolvable =>
    rw [messageOf_of_ne h (by simp), isTolerant_of_ignore h]
    rfl
  | includeBundled name =>
    rw [messageOf_of_ne h (by simp), isTolerant_of_ne h (by simp)]
    rfl
  | rule owner target reason =>
    rw [messageOf_of_ne h (by simp), isTolerant_of_ne h (by simp)]
    cases reason with
    | none => rfl
    | some reason =>
      -- a reason of its own is kept
      simp [Line.entries, inContext, withMessage, Line.reason_ne_empty h]

/-! ## Lines as texts -/

theorem parse_ofList_of_ok (hline : '\n' ∉ line) (h : Line.parse line = .ok said)
    (origin : String) :
    parse origin (.ofList line) = .ok (Line.entries "" false [(1, said)]) := by
  unfold parse numbered
  rw [String.toList_ofList]
  cases line with
  | nil =>
    cases h
    rfl
  | cons c cs =>
    rw [Text.lines_of_notMem hline (by simp)]
    simp [parseLine, h]

theorem parse_ofList_of_error {cause : RuleSyntaxError} (hline : '\n' ∉ line)
    (h : Line.parse line = .error cause)
    (origin : String) : parse origin (.ofList line) = .error ⟨origin, 1, cause⟩ := by
  unfold parse numbered
  rw [String.toList_ofList]
  cases line with
  | nil => cases h
  | cons c cs =>
    rw [Text.lines_of_notMem hline (by simp)]
    simp [parseLine, h]

/-- What a line gives alone tells what it says. -/
theorem exists_said (hline : '\n' ∉ line) {origin : String} {own : List Entry}
    (h : parse origin (.ofList line) = .ok own) :
    ∃ said, Line.parse line = .ok said ∧ Line.entries "" false [(1, said)] = own := by
  cases hsaid : Line.parse line with
  | error cause =>
    rw [parse_ofList_of_error hline hsaid] at h
    cases h
  | ok said =>
    rw [parse_ofList_of_ok hline hsaid] at h
    exact ⟨said, rfl, Except.ok.inj h⟩

/-- Alone a line gives at most one entry. -/
theorem own_cases (hline : '\n' ∉ line) {origin : String} {own : List Entry}
    (h : parse origin (.ofList line) = .ok own) : own = [] ∨ ∃ e, own = [e] := by
  obtain ⟨said, -, rfl⟩ := exists_said hline h
  cases said with
  | blank => exact .inl rfl
  | defaultMessage text => exact .inl rfl
  | ignoreUnresolvable => exact .inl rfl
  | includeBundled name => exact .inr ⟨_, rfl⟩
  | rule owner target reason => exact .inr ⟨_, rfl⟩

/-! ## All lines -/

/-- The lines behind `n` others, with their numbers. -/
def numberedFrom (n : Nat) (lines : List (List Char)) : List (Nat × List Char) :=
  (lines.zipIdx n).map fun l => (l.2 + 1, l.1)

theorem numbered_eq (text : String) : numbered text = numberedFrom 0 (Text.lines text.toList) := rfl

theorem numberedFrom_cons (n : Nat) (line : List Char) (lines : List (List Char)) :
    numberedFrom n (line :: lines) = (n + 1, line) :: numberedFrom (n + 1) lines := rfl

theorem parseLine_eq_ok_iff {origin : String} {n : Nat} {l : Nat × Line} :
    parseLine origin (n, line) = .ok l ↔ ∃ said, Line.parse line = .ok said ∧ l = (n, said) := by
  cases hsaid : Line.parse line <;> simp [parseLine, hsaid, eq_comm]

theorem parseLine_eq_error_iff {origin : String} {n : Nat} {e : RuleTextError} :
    parseLine origin (n, line) = .error e ↔ ∃ cause, Line.parse line = .error cause ∧
    e = ⟨origin, n, cause⟩ := by
  cases hsaid : Line.parse line <;> simp [parseLine, hsaid, eq_comm]

variable {origin : String} {lines : List (List Char)} {entries : List Entry}

/-- Lines that stand behind others are read as these entries. -/
def Gives (origin : String) (before lines : List (List Char)) (entries : List Entry) : Prop :=
  ∃ said, (numberedFrom before.length lines).mapM (parseLine origin) = .ok said ∧
    Line.entries (messageOf before) (isTolerant before) said = entries

/-- Lines give what the first one gives alone, in context, and then what the others give behind
it. -/
theorem gives_cons_iff (hline : '\n' ∉ line) : Gives origin before (line :: lines) entries ↔
    ∃ own later, parse origin (.ofList line) = .ok own ∧
    Gives origin (before ++ [line]) lines later ∧
      entries = own.map (inContext before) ++ later := by
  unfold Gives
  rw [numberedFrom_cons, List.length_append, List.length_singleton, List.mapM_cons]
  constructor
  · rintro ⟨said, h, rfl⟩
    obtain ⟨l, hl, h⟩ := bind_eq_ok.1 h
    obtain ⟨rest, hrest, h⟩ := bind_eq_ok.1 h
    cases h
    obtain ⟨first, hfirst, rfl⟩ := parseLine_eq_ok_iff.1 hl
    exact ⟨_, _, parse_ofList_of_ok hline hfirst origin, ⟨rest, hrest, rfl⟩,
      entries_cons hfirst rest⟩
  · rintro ⟨own, _, halone, ⟨rest, hrest, rfl⟩, rfl⟩
    obtain ⟨first, hfirst, rfl⟩ := exists_said hline halone
    refine ⟨(before.length + 1, first) :: rest, ?_, entries_cons hfirst rest⟩
    rw [parseLine_eq_ok_iff.2 ⟨first, hfirst, rfl⟩, hrest]
    rfl

theorem gives_iff_follows (hlines : ∀ line ∈ lines, '\n' ∉ line) :
    Gives origin before lines entries ↔ Follows origin before lines entries := by
  induction lines generalizing before entries with
  | nil =>
    constructor
    · rintro ⟨said, h, rfl⟩
      cases h
      exact .nil before
    · intro h
      cases h
      exact ⟨[], rfl, rfl⟩
  | cons line lines ih =>
    have hline := hlines line List.mem_cons_self
    have hlater : ∀ l ∈ lines, '\n' ∉ l := fun l hl => hlines l (List.mem_cons_of_mem _ hl)
    rw [gives_cons_iff hline]
    constructor
    · rintro ⟨own, later, halone, hgives, rfl⟩
      rcases own_cases hline halone with rfl | ⟨e, rfl⟩
      · exact .nothing halone ((ih hlater).1 hgives)
      · exact .entry halone ((ih hlater).1 hgives)
    · intro h
      cases h with
      | nothing halone hrest => exact ⟨[], _, halone, (ih hlater).2 hrest, rfl⟩
      | entry halone hrest => exact ⟨[_], _, halone, (ih hlater).2 hrest, rfl⟩

/-- The entries of a text are those of its lines. -/
theorem parse_eq_ok_iff {text : String} :
    parse origin text = .ok entries ↔ Follows origin [] (Text.lines text.toList) entries := by
  have hlines : ∀ line ∈ Text.lines text.toList, '\n' ∉ line := fun _ => Text.notMem_of_mem_lines
  rw [← gives_iff_follows hlines]
  constructor
  · intro h
    obtain ⟨said, hsaid, h⟩ := bind_eq_ok.1 h
    exact ⟨said, hsaid, Except.ok.inj h⟩
  · rintro ⟨said, hsaid, rfl⟩
    exact bind_eq_ok.2 ⟨said, hsaid, rfl⟩

theorem numberedFrom_eq_append {n : Nat} {front back : List (Nat × List Char)} {l : Nat × List Char}
    (h : numberedFrom n lines = front ++ l :: back) :
    ∃ before line after, lines = before ++ line :: after ∧
      front.map (·.2) = before ∧ l = (n + before.length + 1, line) := by
  induction front generalizing n lines with
  | nil =>
    cases lines with
    | nil => cases h
    | cons line lines =>
      rw [numberedFrom_cons] at h
      cases h
      exact ⟨[], line, lines, rfl, rfl, rfl⟩
  | cons f front ih =>
    cases lines with
    | nil => cases h
    | cons line lines =>
      rw [numberedFrom_cons] at h
      obtain ⟨rfl, hlater⟩ := List.cons.inj h
      obtain ⟨before, stop, after, rfl, rfl, rfl⟩ := ih hlater
      refine ⟨line :: front.map (·.2), stop, after, rfl, rfl, ?_⟩
      simp only [List.length_cons]
      congr 1
      omega

/-- A text fails with the first of its lines that fails alone. -/
theorem exists_first_of_parse_error {text : String} {e : RuleTextError}
    (h : parse origin text = .error e) :
    ∃ before line after cause, Text.lines text.toList = before ++ line :: after ∧
      (∀ l ∈ before, ∃ own, parse origin (.ofList l) = .ok own) ∧
      parse origin (.ofList line) = .error ⟨origin, 1, cause⟩ ∧
      e = ⟨origin, before.length + 1, cause⟩ := by
  have hlines : ∀ line ∈ Text.lines text.toList, '\n' ∉ line := fun _ => Text.notMem_of_mem_lines
  rcases bind_eq_error.1 h with h | ⟨_, _, h⟩
  · obtain ⟨front, l, back, hsplit, hfront, herror⟩ := mapM_eq_error.1 h
    rw [numbered_eq] at hsplit
    obtain ⟨before, line, after, htext, rfl, rfl⟩ := numberedFrom_eq_append hsplit
    obtain ⟨cause, hcause, rfl⟩ := parseLine_eq_error_iff.1 herror
    refine ⟨_, line, after, cause, htext, fun l hl => ?_, ?_, by rw [Nat.zero_add]⟩
    · obtain ⟨⟨n, _⟩, hmem, rfl⟩ := List.mem_map.1 hl
      obtain ⟨b, hb⟩ := hfront _ hmem
      obtain ⟨said, hsaid, -⟩ := parseLine_eq_ok_iff.1 hb
      exact ⟨_, parse_ofList_of_ok (hlines _ (htext ▸ List.mem_append_left _ hl)) hsaid origin⟩
    · exact parse_ofList_of_error (hlines line (by simp [htext])) hcause origin
  · cases h

theorem Follows.exists_own (h : Follows origin before lines entries) :
    ∀ line ∈ lines, ∃ own, parse origin (.ofList line) = .ok own := by
  induction h with
  | nil before => simp
  | nothing halone _ ih =>
    intro l hl
    rcases List.mem_cons.1 hl with rfl | hl
    · exact ⟨_, halone⟩
    · exact ih l hl
  | entry halone _ ih =>
    intro l hl
    rcases List.mem_cons.1 hl with rfl | hl
    · exact ⟨_, halone⟩
    · exact ih l hl

/-- The entries of the first lines come first. -/
theorem Follows.exists_prefix {more : List (List Char)}
    (h : Follows origin before (lines ++ more) entries) :
    ∃ front, Follows origin before lines front ∧ front <+: entries := by
  induction lines generalizing before entries with
  | nil => exact ⟨[], .nil before, List.nil_prefix⟩
  | cons line lines ih =>
    cases h with
    | nothing halone hrest =>
      obtain ⟨front, hfront, hprefix⟩ := ih hrest
      exact ⟨front, .nothing halone hfront, hprefix⟩
    | entry halone hrest =>
      obtain ⟨front, hfront, hprefix⟩ := ih hrest
      exact ⟨_, .entry halone hfront, (List.prefix_cons_inj _).2 hprefix⟩

/-- **A text is read line by line.** It fails iff one of its lines fails as a text of its own, and
then with the number of the first such line and with what is wrong with that line. Else its entries
are those of its lines, in their order and each in the context of the lines before it: a rule
without a reason takes the last default message, and an entry is lenient iff a line before it says
so.

So what stands in front of a text, and ends with a line, gives the first entries. -/
theorem parse_line_by_line (origin text : String) :
    ((∃ e, parse origin text = .error e) ↔
      ∃ line ∈ Text.lines text.toList, ∃ e, parse origin (.ofList line) = .error e) ∧
    (∀ e, parse origin text = .error e →
      ∃ before line after cause, Text.lines text.toList = before ++ line :: after ∧
        (∀ l ∈ before, ∃ own, parse origin (.ofList l) = .ok own) ∧
        parse origin (.ofList line) = .error ⟨origin, 1, cause⟩ ∧
        e = ⟨origin, before.length + 1, cause⟩) ∧
    (∀ entries, parse origin text = .ok entries →
      Follows origin [] (Text.lines text.toList) entries) ∧
    ∀ front back entries, text = front ++ back → front = "" ∨ front.toList.getLast? = some '\n' →
      parse origin text = .ok entries →
      ∃ first, parse origin front = .ok first ∧ first <+: entries := by
  refine ⟨⟨?_, ?_⟩, fun _ => exists_first_of_parse_error, fun _ => parse_eq_ok_iff.1, ?_⟩
  · rintro ⟨e, h⟩
    obtain ⟨before, line, after, cause, htext, -, hline, -⟩ := exists_first_of_parse_error h
    exact ⟨line, by simp [htext], _, hline⟩
  · rintro ⟨line, hmem, e, hline⟩
    cases htext : parse origin text with
    | error e => exact ⟨e, rfl⟩
    | ok entries =>
      obtain ⟨own, hown⟩ := (parse_eq_ok_iff.1 htext).exists_own line hmem
      rw [hown] at hline
      cases hline
  · rintro front back entries rfl hfront h
    rw [parse_eq_ok_iff, String.toList_append, Text.lines_append (by simpa using hfront)] at h
    obtain ⟨first, hfirst, hprefix⟩ := h.exists_prefix
    exact ⟨first, parse_eq_ok_iff.2 hfirst, hprefix⟩

/-- A default message and a rule. -/
def timerFront : String := "@defaultMessage  use a clock \napp.Timer\n"

/-- Rules that may be dropped. -/
def timerBack : String :=
  "@ignoreUnresolvable\n# the rest\napp.Timer#stop() @ it blocks\n@includeBundled jdk-unsafe"

def timerEntries : List Entry :=
  [⟨.rule ⟨.ofText "app.Timer", .type, "use a clock"⟩, false, 2⟩,
    ⟨.rule ⟨.ofText "app.Timer", .overload "stop" [], "it blocks"⟩, true, 5⟩,
    ⟨.includeBundled "jdk-unsafe", true, 6⟩]

/-- Two texts one behind the other, and the first one in front of an unknown directive. -/
theorem parse_line_by_line_timer :
    parse "rules.txt" (timerFront ++ timerBack) = .ok timerEntries ∧
    Follows "rules.txt" [] (Text.lines (timerFront ++ timerBack).toList) timerEntries ∧
    (∃ first, parse "rules.txt" timerFront = .ok first ∧ first <+: timerEntries) ∧
    ∃ e, parse "rules.txt" (timerFront ++ "@ignore") = .error e := by
  have h : parse "rules.txt" (timerFront ++ timerBack) = .ok timerEntries := by decide +kernel
  have hend : timerFront.toList.getLast? = some '\n' := by decide +kernel
  obtain ⟨-, -, hfollows, hfirst⟩ := parse_line_by_line "rules.txt" (timerFront ++ timerBack)
  obtain ⟨hfails, -, -, -⟩ := parse_line_by_line "rules.txt" (timerFront ++ "@ignore")
  have hlast : parse "rules.txt" (.ofList "@ignore".toList) =
      .error ⟨"rules.txt", 1, .unknownDirective "@ignore"⟩ := by decide +kernel
  exact ⟨h, hfollows _ h, hfirst _ _ _ rfl (.inr hend) h,
    hfails.2 ⟨"@ignore".toList, by decide +kernel, _, hlast⟩⟩

end RuleText

end JvmAudit
