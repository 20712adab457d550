import JvmAudit.ClassFile.Annotations
import JvmAudit.Proofs.ClassFile.Grammar
import JvmAudit.Proofs.Descriptor.Grammar

/-!
# Where annotations end

The values of an annotation are read only to find their end, so an error of one byte there would be
an error in every annotation behind it. A value is read from its bytes and from nothing else. If no
value stands in front of the input, then either the input ends inside of one, or a byte that is no
tag stands where a value has to begin. Such a place is given by the bytes in front of it
(`ElementValue.Awaits`): all values there are complete, and the counts ask for one more.

The readers recurse on the bytes that are left, and the induction is on their number. What is read
of an attribute is then a list of annotations, however deep their values nest
(`Annotations.parses_readNames`).

## Main results

* `ElementValue.reads_next`: what is written is read back
* `ElementValue.outcome_next`: what can become of an input
* `Annotations.values_end_exactly`: both, and the names that are read
-/

namespace JvmAudit

open Reader

/-! ## Values that can be written -/

namespace ElementValue

mutual

/-- The tag of a constant is one of a constant, and all indices and counts fit into two bytes. -/
def Fits : ElementValue → Prop
  | .const tag index => tag ∈ constTags ∧ index < 0x10000
  | .enumConst type name => type < 0x10000 ∧ name < 0x10000
  | .nested type pairs => type < 0x10000 ∧ pairs.length < 0x10000 ∧ PairsFit pairs
  | .array values => values.length < 0x10000 ∧ ValuesFit values

/-- Named values that can be written. -/
def PairsFit : List (Nat × ElementValue) → Prop
  | [] => True
  | (name, value) :: rest => name < 0x10000 ∧ Fits value ∧ PairsFit rest

/-- Values that can be written. -/
def ValuesFit : List ElementValue → Prop
  | [] => True
  | value :: rest => Fits value ∧ ValuesFit rest

end

/-- All tags of values. -/
def tags : List UInt8 := constTags ++ [enumTag, annotationTag, arrayTag]

/-- The bytes in front of a place where a value has to begin: none at all, or those of a nested
annotation or of a list that is complete up to one of its values, and the bytes in front of a place
in that value. -/
inductive Awaits : Bytes → Prop
  | here : Awaits []
  | pair {type count name : Nat} {pairs : List (Nat × ElementValue)} {front : Bytes}
    (htype : type < 0x10000) (hcount : count < 0x10000) (hlt : pairs.length < count)
    (hpairs : PairsFit pairs) (hname : name < 0x10000) (h : Awaits front) :
    Awaits (annotationTag :: (put2 type ++
      (put2 count ++ (encodePairs pairs ++ (put2 name ++ front)))))
  | item {count : Nat} {values : List ElementValue} {front : Bytes} (hcount : count < 0x10000)
    (hlt : values.length < count) (hvalues : ValuesFit values) (h : Awaits front) :
    Awaits (arrayTag :: (put2 count ++ (encodeValues values ++ front)))

/-- The word of a value. -/
def Word (v : ElementValue) (word : Bytes) : Prop := v.Fits ∧ word = v.encode

/-- The word of a named value. -/
def PairWord (p : Nat × ElementValue) (word : Bytes) : Prop :=
  p.1 < 0x10000 ∧ p.2.Fits ∧ word = put2 p.1 ++ p.2.encode

/-- A byte that is no tag stands where a value has to begin. -/
def Unknown (data : Bytes) (e : ClassError) : Prop :=
  ∃ front tag rest, Awaits front ∧ tag ∉ tags ∧ data = front ++ tag :: rest ∧
    e = .invalidElementTag tag

/-- A byte that is no tag stands where the value of a pair has to begin. -/
def PairUnknown (data : Bytes) (e : ClassError) : Prop :=
  ∃ name rest, name < 0x10000 ∧ data = put2 name ++ rest ∧ Unknown rest e

theorem encode_nested (type : Nat) (pairs : List (Nat × ElementValue)) :
    (nested type pairs).encode =
      annotationTag :: (put2 type ++ (put2 pairs.length ++ encodePairs pairs)) := by
  simp [encode]

/-- The words of values one behind the other are what is written for a list of values. -/
theorem words_values_iff {values : List ElementValue} {word : Bytes} :
    Words Word values word ↔ ValuesFit values ∧ word = encodeValues values := by
  induction values generalizing word with
  | nil => rw [Words, ValuesFit, encodeValues, true_and]
  | cons v values ih =>
    rw [Words, ValuesFit, encodeValues]
    constructor
    · rintro ⟨front, back, ⟨hv, rfl⟩, hvalues, rfl⟩
      obtain ⟨hfit, rfl⟩ := ih.1 hvalues
      exact ⟨⟨hv, hfit⟩, rfl⟩
    · rintro ⟨⟨hv, hfit⟩, rfl⟩
      exact ⟨_, _, ⟨hv, rfl⟩, ih.2 ⟨hfit, rfl⟩, rfl⟩

/-- The words of pairs one behind the other are what is written for a list of pairs. -/
theorem words_pairs_iff {pairs : List (Nat × ElementValue)} {word : Bytes} :
    Words PairWord pairs word ↔ PairsFit pairs ∧ word = encodePairs pairs := by
  induction pairs generalizing word with
  | nil => rw [Words, PairsFit, encodePairs, true_and]
  | cons p pairs ih =>
    rw [Words, PairsFit, encodePairs]
    constructor
    · rintro ⟨front, back, ⟨hname, hv, rfl⟩, hpairs, rfl⟩
      obtain ⟨hfit, rfl⟩ := ih.1 hpairs
      exact ⟨⟨hname, hv, hfit⟩, rfl⟩
    · rintro ⟨⟨hname, hv, hfit⟩, rfl⟩
      exact ⟨_, _, ⟨hname, hv, rfl⟩, ih.2 ⟨hfit, rfl⟩, rfl⟩

/-- A value that can stand anywhere, the number at index zero. -/
theorem word_zero : Word (.const 0x49 0) (0x49 :: put2 0) := ⟨⟨by decide, by omega⟩, rfl⟩

theorem pairWord_zero (name : Nat) (h : name < 0x10000) :
    PairWord (name, .const 0x49 0) (put2 name ++ 0x49 :: put2 0) := ⟨h, word_zero.1, rfl⟩

/-! ## One value

The readers without the bounds that make them end, and what they do on each tag. -/

/-- Reads a value. -/
def next : Reader ElementValue := fun data => (read data).map fun p => (p.1, p.2.val)

/-- Reads a named value. -/
def nextPair : Reader (Nat × ElementValue) := do return (← u2, ← next)

/-- The reader of a list with its bounds on the rest is a plain repetition. -/
theorem readValues_eq_times (n : Nat) (data : Bytes) :
    (readValues n data).map (fun p => (p.1, p.2.val)) = times n next data := by
  induction n generalizing data with
  | zero =>
    rw [readValues]
    rfl
  | succ n ih =>
    rw [readValues, times_succ, run_bind, next]
    cases read data with
    | error e => rfl
    | ok p =>
      show (readValues n p.2.val >>= _).map _ = (times n next p.2.val >>= _)
      rw [← ih]
      cases readValues n p.2.val with
      | error e => rfl
      | ok q => rfl

/-- The same for a list of pairs. -/
theorem readPairs_eq_times (n : Nat) (data : Bytes) :
    (readPairs n data).map (fun p => (p.1, p.2.val)) = times n nextPair data := by
  induction n generalizing data with
  | zero =>
    rw [readPairs]
    rfl
  | succ n ih =>
    rw [times_succ, run_bind, nextPair, run_bind, readPairs.eq_def]
    rcases data with _ | ⟨a, _ | ⟨b, data⟩⟩
    · rfl
    · rfl
    · show (read data >>= _).map _ = ((next data >>= _) >>= _)
      rw [next]
      cases read data with
      | error e => rfl
      | ok p =>
        show (readPairs n p.2.val >>= _).map _ = (times n nextPair p.2.val >>= _)
        rw [← ih]
        cases readPairs n p.2.val with
        | error e => rfl
        | ok q => rfl

theorem next_nil : next [] = .error .unexpectedEof := by
  rw [next, read]
  rfl

section Tags

variable {tag : UInt8} (data : Bytes)

theorem next_const (h : tag ∈ constTags) :
    next (tag :: data) = (do return .const tag (← u2) : Reader _) data := by
  rw [next, read.eq_def, run_bind]
  simp only [if_pos h]
  rcases data with _ | ⟨a, _ | ⟨b, data⟩⟩ <;> rfl

theorem next_enum :
    next (enumTag :: data) = (do return .enumConst (← u2) (← u2) : Reader _) data := by
  rw [next, read.eq_def, run_bind]
  simp only [show enumTag ∉ constTags by decide, if_false, if_true]
  rcases data with _ | ⟨a, _ | ⟨b, _ | ⟨c, _ | ⟨d, data⟩⟩⟩⟩ <;> rfl

/-- A nested annotation: its type, and as many pairs as it announces. -/
theorem next_nested :
    next (annotationTag :: data) =
      (do return .nested (← u2) (← times (← u2) nextPair) : Reader _) data := by
  rw [next, read.eq_def, run_bind]
  simp only [show annotationTag ∉ constTags by decide, show annotationTag ≠ enumTag by decide,
    if_false, if_true]
  rcases data with _ | ⟨a, _ | ⟨b, _ | ⟨c, _ | ⟨d, data⟩⟩⟩⟩
  · rfl
  · rfl
  · rfl
  · rfl
  · show _ = (times (be2 c d) nextPair data >>= fun p =>
      pure (ElementValue.nested (be2 a b) p.1, p.2))
    rw [← readPairs_eq_times]
    simp only
    cases readPairs (be2 c d) data with
    | error e => rfl
    | ok p => rfl

/-- A list: as many values as it announces. -/
theorem next_array :
    next (arrayTag :: data) = (do return .array (← times (← u2) next) : Reader _) data := by
  rw [next, read.eq_def, run_bind]
  simp only [show arrayTag ∉ constTags by decide, show arrayTag ≠ enumTag by decide,
    show arrayTag ≠ annotationTag by decide, if_false, if_true]
  rcases data with _ | ⟨a, _ | ⟨b, data⟩⟩
  · rfl
  · rfl
  · show _ = (times (be2 a b) next data >>= fun p => pure (ElementValue.array p.1, p.2))
    rw [← readValues_eq_times]
    simp only
    cases readValues (be2 a b) data with
    | error e => rfl
    | ok p => rfl

/-- Any other tag is refused by name. -/
theorem next_unknown (h : tag ∉ tags) : next (tag :: data) = .error (.invalidElementTag tag) := by
  simp only [tags, List.mem_append, List.mem_cons, List.not_mem_nil, or_false, not_or] at h
  obtain ⟨hconst, henum, hannotation, harray⟩ := h
  rw [next, read.eq_def]
  simp only [hconst, henum, hannotation, harray, if_false]
  rfl

end Tags

/-! ## What is written is read back -/

theorem reads_tagged {tag : UInt8} {r : Reader ElementValue} {data : Bytes} {v : ElementValue}
    (htag : ∀ data, next (tag :: data) = r data) (h : Reads r data v) :
    Reads next (tag :: data) v :=
  fun rest => (htag _).trans (h rest)

/-- A list is read back if each of its values is. -/
theorem reads_values {values : List ElementValue} (h : ValuesFit values)
    (hread : ∀ v ∈ values, v.Fits → Reads next v.encode v) :
    Reads (times values.length next) (encodeValues values) values := by
  induction values with
  | nil => exact reads_pure []
  | cons v values ih =>
    rw [List.length_cons, times_succ, encodeValues]
    have hrest := ih h.2 fun w hw => hread w (List.mem_cons_of_mem _ hw)
    exact (hread v List.mem_cons_self h.1).bind hrest.map

/-- Named values are read back if each of the values is. -/
theorem reads_pairs {pairs : List (Nat × ElementValue)} (h : PairsFit pairs)
    (hread : ∀ p ∈ pairs, p.2.Fits → Reads next p.2.encode p.2) :
    Reads (times pairs.length nextPair) (encodePairs pairs) pairs := by
  induction pairs with
  | nil => exact reads_pure []
  | cons p pairs ih =>
    rw [List.length_cons, times_succ, encodePairs]
    have hrest := ih h.2.2 fun q hq => hread q (List.mem_cons_of_mem _ hq)
    exact ((reads_u2 h.1).bind (hread p List.mem_cons_self h.2.1).map).bind hrest.map

/-- A value is read back from its bytes. -/
theorem reads_next : ∀ v : ElementValue, v.Fits → Reads next v.encode v
  | .const tag index, h => by
    rw [encode]
    exact reads_tagged (next_const · h.1) (reads_u2 h.2).map
  | .enumConst type name, h => by
    rw [encode]
    exact reads_tagged next_enum ((reads_u2 h.1).bind (reads_u2 h.2).map)
  | .nested type pairs, h => by
    have hpairs := reads_pairs h.2.2 fun p hmem hp => reads_next p.2 hp
    rw [encode_nested]
    exact reads_tagged next_nested ((reads_u2 h.1).bind ((reads_u2 h.2.1).bind hpairs.map))
  | .array values, h => by
    have hvalues := reads_values h.2 fun w hmem hw => reads_next w hw
    rw [encode]
    exact reads_tagged next_array ((reads_u2 h.1).bind hvalues.map)
decreasing_by
  · have hpairs := List.sizeOf_lt_of_mem hmem
    have hpair : sizeOf p.2 < sizeOf p := by
      cases p
      simp only [Prod.mk.sizeOf_spec]
      omega
    simp only [nested.sizeOf_spec]
    omega
  · have hvalues := List.sizeOf_lt_of_mem hmem
    simp only [array.sizeOf_spec]
    omega

/-! ## What can become of an input

One lemma for each tag; the values inside of a value are read from fewer bytes. -/

section Outcomes

variable {data : Bytes}

theorem outcome_const {tag : UInt8} (htag : tag ∈ constTags) :
    Outcome Word Unknown (tag :: data) (next (tag :: data)) := by
  rw [next_const data htag]
  refine ((outcome_u2 data).bind ?_ ?_ nofun).cons
  · rintro index _ rest ⟨hindex, rfl⟩ rfl
    exact outcome_pure ⟨⟨htag, hindex⟩, by simp [encode]⟩ rest
  · rintro index _ ⟨hindex, rfl⟩
    exact ⟨.const tag index, [], ⟨htag, hindex⟩, by simp [encode]⟩

theorem outcome_enum : Outcome Word Unknown (enumTag :: data) (next (enumTag :: data)) := by
  rw [next_enum]
  refine ((outcome_u2 data).bind ?_ ?_ nofun).cons
  · rintro type _ rest ⟨htype, rfl⟩ rfl
    refine (outcome_u2 rest).bind ?_ ?_ nofun
    · rintro name _ rest ⟨hname, rfl⟩ rfl
      exact outcome_pure ⟨⟨htype, hname⟩, by simp [encode]⟩ rest
    · rintro name _ ⟨hname, rfl⟩
      exact ⟨.enumConst type name, [], ⟨htype, hname⟩, by simp [encode]⟩
  · rintro type _ ⟨htype, rfl⟩
    exact ⟨.enumConst type 0, put2 0, ⟨htype, by omega⟩, rfl⟩

section Nested

variable (h : ∀ part : Bytes, part.length ≤ data.length → Outcome Word Unknown part (next part))
include h

/-- A pair is read, is cut off, or has an unknown tag where its value starts. -/
theorem outcome_nextPair : Outcome PairWord PairUnknown data (nextPair data) := by
  refine (outcome_u2 data).bind ?_ ?_ nofun
  · rintro name _ rest ⟨hname, rfl⟩ rfl
    refine (h rest (by simp)).bind ?_ ?_ ?_
    · rintro v _ rest ⟨hv, rfl⟩ rfl
      exact outcome_pure ⟨hname, hv, by rw [List.append_nil]⟩ rest
    · rintro v _ ⟨hv, rfl⟩
      exact ⟨(name, v), [], hname, hv, by rw [List.append_nil]⟩
    · intro e he
      exact ⟨name, rest, hname, rfl, he⟩
  · rintro name _ ⟨hname, rfl⟩
    exact ⟨_, _, pairWord_zero name hname⟩

theorem outcome_nested :
    Outcome Word Unknown (annotationTag :: data) (next (annotationTag :: data)) := by
  rw [next_nested]
  refine ((outcome_u2 data).bind ?_ ?_ nofun).cons
  · rintro type _ rest ⟨htype, rfl⟩ rfl
    refine (outcome_u2 rest).bind ?_ ?_ nofun
    · rintro count _ rest ⟨hcount, rfl⟩ rfl
      have hpair : ∀ part : Bytes, part.length ≤ rest.length →
          Outcome PairWord PairUnknown part (nextPair part) := by
        intro part hpart
        refine outcome_nextPair fun sub hsub => h sub ?_
        simp only [List.length_append]
        omega
      refine (outcome_times ⟨_, _, pairWord_zero 0 (by omega)⟩ hpair count).bind ?_ ?_ ?_
      · rintro pairs _ rest ⟨rfl, hpairs⟩ rfl
        obtain ⟨hfit, rfl⟩ := words_pairs_iff.1 hpairs
        exact outcome_pure ⟨⟨htype, hcount, hfit⟩, by simp [encode]⟩ rest
      · rintro pairs _ ⟨rfl, hpairs⟩
        obtain ⟨hfit, rfl⟩ := words_pairs_iff.1 hpairs
        exact ⟨.nested type pairs, [], ⟨htype, hcount, hfit⟩, by simp [encode]⟩
      · rintro e ⟨pairs, _, _, hlt, hpairs, rfl, name, _, hname, rfl, front, tag, rest, hfront,
          htag, rfl, rfl⟩
        obtain ⟨hfit, rfl⟩ := words_pairs_iff.1 hpairs
        exact ⟨_, tag, rest, .pair htype hcount hlt hfit hname hfront, htag, by simp, rfl⟩
    · rintro count _ ⟨hcount, rfl⟩
      obtain ⟨pairs, _, rfl, hpairs⟩ := exists_words ⟨_, _, pairWord_zero 0 (by omega)⟩ count
      obtain ⟨hfit, rfl⟩ := words_pairs_iff.1 hpairs
      exact ⟨.nested type pairs, _, ⟨htype, hcount, hfit⟩, by rw [encode_nested]⟩
  · rintro type _ ⟨htype, rfl⟩
    exact ⟨.nested type [], put2 0, ⟨htype, by simp, trivial⟩, by simp [encode, encodePairs]⟩

theorem outcome_array : Outcome Word Unknown (arrayTag :: data) (next (arrayTag :: data)) := by
  rw [next_array]
  refine ((outcome_u2 data).bind ?_ ?_ nofun).cons
  · rintro count _ rest ⟨hcount, rfl⟩ rfl
    have hvalue : ∀ part : Bytes, part.length ≤ rest.length →
        Outcome Word Unknown part (next part) := by
      intro part hpart
      refine h part ?_
      rw [List.length_append]
      omega
    refine (outcome_times ⟨_, _, word_zero⟩ hvalue count).bind ?_ ?_ ?_
    · rintro values _ rest ⟨rfl, hvalues⟩ rfl
      obtain ⟨hfit, rfl⟩ := words_values_iff.1 hvalues
      exact outcome_pure ⟨⟨hcount, hfit⟩, by simp [encode]⟩ rest
    · rintro values _ ⟨rfl, hvalues⟩
      obtain ⟨hfit, rfl⟩ := words_values_iff.1 hvalues
      exact ⟨.array values, [], ⟨hcount, hfit⟩, by simp [encode]⟩
    · rintro e ⟨values, _, _, hlt, hvalues, rfl, front, tag, rest, hfront, htag, rfl, rfl⟩
      obtain ⟨hfit, rfl⟩ := words_values_iff.1 hvalues
      exact ⟨_, tag, rest, .item hcount hlt hfit hfront, htag, by simp, rfl⟩
  · rintro count _ ⟨hcount, rfl⟩
    obtain ⟨values, _, rfl, hvalues⟩ := exists_words ⟨_, _, word_zero⟩ count
    obtain ⟨hfit, rfl⟩ := words_values_iff.1 hvalues
    exact ⟨.array values, _, ⟨hcount, hfit⟩, rfl⟩

end Nested

end Outcomes

/-- A value is read, is cut off, or has an unknown tag. The induction is on the length of the input,
since values nest. -/
theorem outcome_next (data : Bytes) : Outcome Word Unknown data (next data) := by
  induction hlen : data.length using Nat.strongRecOn generalizing data with
  | _ n ih =>
    cases data with
    | nil =>
      rw [next_nil]
      exact .cut word_zero (by simp)
    | cons tag data =>
      have hshorter : ∀ part : Bytes, part.length ≤ data.length →
          Outcome Word Unknown part (next part) := by
        intro part hpart
        refine ih part.length ?_ part rfl
        rw [← hlen, List.length_cons]
        omega
      by_cases htag : tag ∈ tags
      · simp only [tags, List.mem_append, List.mem_cons, List.not_mem_nil, or_false] at htag
        rcases htag with hconst | rfl | rfl | rfl
        · exact outcome_const hconst
        · exact outcome_enum
        · exact outcome_nested hshorter
        · exact outcome_array hshorter
      · rw [next_unknown data htag]
        exact .fault ⟨[], tag, data, .here, htag, rfl, rfl⟩

/-- What is read is exactly what is written for a value that fits. -/
theorem parses_next : Parses next Word :=
  parses_of_outcome outcome_next fun v _ h => h.2 ▸ reads_next v h.1

theorem parses_nextPair : Parses nextPair PairWord := by
  refine parses_of_outcome (fun data => outcome_nextPair fun part _ => outcome_next part) ?_
  rintro ⟨name, v⟩ _ ⟨hname, hv, rfl⟩
  exact (reads_u2 hname).bind (reads_next v hv).map

/-! ## How reading fails -/

/-- Reading fails at the first byte that is no tag. -/
theorem next_of_awaits {front : Bytes} {tag : UInt8} (h : Awaits front) (htag : tag ∉ tags)
    (rest : Bytes) :
    next (front ++ tag :: rest) = .error (.invalidElementTag tag) := by
  induction h with
  | here => exact next_unknown rest htag
  | @pair type count name pairs front htype hcount hlt hpairs hname _ ih =>
    have hfail : nextPair (put2 name ++ (front ++ tag :: rest)) =
        .error (.invalidElementTag tag) := by
      rw [nextPair, (reads_u2 hname).run_bind, run_bind, ih]
      rfl
    have htimes := times_eq_error parses_nextPair (words_pairs_iff.2 ⟨hpairs, rfl⟩) hlt hfail
    rw [List.cons_append, next_nested]
    simp only [List.append_assoc]
    rw [(reads_u2 htype).run_bind, (reads_u2 hcount).run_bind, run_bind, htimes]
    rfl
  | @item count values front hcount hlt hvalues _ ih =>
    have htimes := times_eq_error parses_next (words_values_iff.2 ⟨hvalues, rfl⟩) hlt ih
    rw [List.cons_append, next_array]
    simp only [List.append_assoc]
    rw [(reads_u2 hcount).run_bind, run_bind, htimes]
    rfl

/-- A tag is refused iff it is unknown and stands where a value starts. -/
theorem next_eq_invalid_iff {data : Bytes} {tag : UInt8} :
    next data = .error (.invalidElementTag tag) ↔
    ∃ front rest, Awaits front ∧ tag ∉ tags ∧ data = front ++ tag :: rest := by
  constructor
  · intro h
    have houtcome := outcome_next data
    rw [h] at houtcome
    cases houtcome with
    | fault hfault =>
      obtain ⟨front, _, rest, hfront, htag, rfl, heq⟩ := hfault
      cases heq
      exact ⟨front, rest, hfront, htag, rfl⟩
  · rintro ⟨front, rest, hfront, htag, rfl⟩
    exact next_of_awaits hfront htag rest

/-- Reading fails at the end of the input iff bytes are missing for a value. -/
theorem next_eq_eof_iff {data : Bytes} : next data = .error .unexpectedEof ↔
    ∃ v missing, Fits v ∧ missing ≠ [] ∧ data ++ missing = v.encode := by
  have houtcome := outcome_next data
  constructor
  · intro h
    rw [h] at houtcome
    cases houtcome with
    | @cut v missing hword hne => exact ⟨v, missing, hword.1, hne, hword.2⟩
    | fault hfault =>
      obtain ⟨_, _, _, _, _, _, heq⟩ := hfault
      cases heq
  · rintro ⟨v, missing, hv, hne, hencode⟩
    have hread : next (data ++ missing) = .ok (v, []) := by
      rw [hencode, ← List.append_nil v.encode]
      exact reads_next v hv []
    generalize hnext : next data = result at houtcome
    cases houtcome with
    | cut => rfl
    | @value w word rest hword hdata =>
      -- a value in front of the input would leave the missing bytes over
      rw [hdata, List.append_assoc, parses_next.reads hword] at hread
      obtain ⟨-, hnil⟩ := Prod.mk.inj (Except.ok.inj hread)
      exact absurd (List.append_eq_nil_iff.1 hnil).2 hne
    | fault hfault =>
      obtain ⟨front, tag, rest, hfront, htag, rfl, rfl⟩ := hfault
      rw [List.append_assoc, List.cons_append, next_of_awaits hfront htag] at hread
      cases hread

/-- There are only two ways to fail: at the end of the input, and at an unknown tag. -/
theorem error_cases {data : Bytes} {e : ClassError} (h : next data = .error e) :
    e = .unexpectedEof ∨ ∃ tag, e = .invalidElementTag tag := by
  have houtcome := outcome_next data
  rw [h] at houtcome
  cases houtcome with
  | cut => exact .inl rfl
  | fault hfault =>
    obtain ⟨_, tag, _, _, _, _, rfl⟩ := hfault
    exact .inr ⟨tag, rfl⟩

end ElementValue

/-! ## Annotations of an attribute -/

/-- An annotation: the index of its descriptor, and its named values. -/
structure AnnotationEntry where
  type : Nat
  pairs : List (Nat × ElementValue)

namespace AnnotationEntry

/-- All indices and counts fit into two bytes. -/
def Fits (a : AnnotationEntry) : Prop := (ElementValue.nested a.type a.pairs).Fits

/-- The bytes of an annotation: those of a nested one without the tag. -/
def encode (a : AnnotationEntry) : Bytes :=
  put2 a.type ++ (put2 a.pairs.length ++ ElementValue.encodePairs a.pairs)

/-- The descriptor in the pool is that of a class with this dotted name. -/
def IsNamed (pool : Pool) (a : AnnotationEntry) (name : String) : Prop :=
  ∃ internal, internal ≠ "" ∧ ';' ∉ internal.toList ∧
    pool.utf8 a.type = .ok ("L" ++ internal ++ ";") ∧
    name = binaryName internal

end AnnotationEntry

namespace Annotations

open ElementValue

/-- The descriptor of an annotation names a class iff it is that of an object type. -/
theorem className?_eq_some_iff {descriptor name : String} : className? descriptor = some name ↔
    ∃ internal, internal ≠ "" ∧ ';' ∉ internal.toList ∧ descriptor = "L" ++ internal ++ ";" ∧
    name = binaryName internal := by
  have hobject : ∀ internal : String, FieldType.ofDescriptor? descriptor =
    some ⟨0, .object internal⟩ ↔
      (internal ≠ "" ∧ ';' ∉ internal.toList) ∧ descriptor = "L" ++ internal ++ ";" := by
    intro internal
    have htext : descriptor = "L" ++ internal ++ ";" ↔
        FieldType.render ⟨0, .object internal⟩ = descriptor.toList := by
      rw [← String.toList_inj, eq_comm]
      simp [FieldType.render, BaseType.render]
    rw [FieldType.ofDescriptor?_eq_some_iff, htext]
    simp [BaseType.Readable]
  constructor
  · intro h
    unfold className? at h
    split at h
    · next internal hread =>
      cases h
      obtain ⟨⟨hne, hsemicolon⟩, hdescriptor⟩ := (hobject internal).1 hread
      exact ⟨internal, hne, hsemicolon, hdescriptor, rfl⟩
    · cases h
  · rintro ⟨internal, hne, hsemicolon, hdescriptor, rfl⟩
    unfold className?
    simp only [(hobject internal).2 ⟨⟨hne, hsemicolon⟩, hdescriptor⟩]

theorem elements_eq : elements = table nextPair := by
  funext data
  show (u2 data >>= fun p => (readPairs p.1 p.2).map _) = (u2 data >>= fun p =>
    times p.1 nextPair p.2)
  cases u2 data with
  | error e => rfl
  | ok p => exact readPairs_eq_times p.1 p.2

/-- An annotation is read as the name of its class, and its values up to their end. -/
theorem parses_readName (pool : Pool) :
    Parses (readName pool) fun name word =>
      ∃ a : AnnotationEntry, a.Fits ∧ a.IsNamed pool name ∧ word = a.encode := by
  refine (parses_u2.bind fun type => (parses_lift (pool.utf8 type)).bind
    (H := fun descriptor name word => className? descriptor = some name ∧
      ∃ pairs : List (Nat × ElementValue), pairs.length < 0x10000 ∧ PairsFit pairs ∧
        word = put2 pairs.length ++ encodePairs pairs)
    fun descriptor => ?_).congr fun name word => ?_
  · cases className? descriptor with
    | none => exact (parses_throw _).congr fun _ _ => by simp
    | some name =>
      rw [elements_eq]
      refine (parses_nextPair.table.map (f := fun _ => name)).congr fun name' word => ?_
      constructor
      · rintro ⟨pairs, ⟨hlt, back, hwords, rfl⟩, rfl⟩
        obtain ⟨hfit, rfl⟩ := words_pairs_iff.1 hwords
        exact ⟨rfl, pairs, hlt, hfit, rfl⟩
      · rintro ⟨hname, pairs, hlt, hfit, rfl⟩
        exact ⟨pairs, ⟨hlt, _, words_pairs_iff.2 ⟨hfit, rfl⟩, rfl⟩, (Option.some.inj hname).symm⟩
  constructor
  · rintro ⟨type, _, _, ⟨htype, rfl⟩,
      ⟨descriptor, _, _, ⟨hutf8, rfl⟩, ⟨hname, pairs, hlt, hfit, rfl⟩, rfl⟩, rfl⟩
    obtain ⟨internal, hne, hsemicolon, rfl, rfl⟩ := className?_eq_some_iff.1 hname
    exact ⟨⟨type, pairs⟩, ⟨htype, hlt, hfit⟩, ⟨internal, hne, hsemicolon, hutf8, rfl⟩, rfl⟩
  · rintro ⟨⟨type, pairs⟩, ⟨htype, hlt, hfit⟩, ⟨internal, hne, hsemicolon, hutf8, rfl⟩, rfl⟩
    have hname := className?_eq_some_iff.2 ⟨internal, hne, hsemicolon, rfl, rfl⟩
    exact ⟨type, _, _, ⟨htype, rfl⟩,
      ⟨_, _, _, ⟨hutf8, rfl⟩, ⟨hname, pairs, hlt, hfit, rfl⟩, rfl⟩, rfl⟩

theorem words_annotations_iff {pool : Pool} {names : List String} {word : Bytes} :
    Words (fun name word =>
        ∃ a : AnnotationEntry, a.Fits ∧ a.IsNamed pool name ∧ word = a.encode) names word ↔
      ∃ annotations : List AnnotationEntry, (∀ a ∈ annotations, a.Fits) ∧
        List.Forall₂ (AnnotationEntry.IsNamed pool) annotations names ∧
        word = annotations.flatMap AnnotationEntry.encode := by
  induction names generalizing word with
  | nil =>
    rw [Words]
    constructor
    · rintro rfl
      exact ⟨[], by simp, .nil, rfl⟩
    · rintro ⟨_, -, ⟨⟩, rfl⟩
      rfl
  | cons name names ih =>
    rw [Words]
    constructor
    · rintro ⟨_, back, ⟨a, ha, hname, rfl⟩, hback, rfl⟩
      obtain ⟨annotations, hfit, hnames, rfl⟩ := ih.1 hback
      exact ⟨a :: annotations, List.forall_mem_cons.2 ⟨ha, hfit⟩, .cons hname hnames,
        List.flatMap_cons.symm⟩
    · rintro ⟨_, hfit, hnames, rfl⟩
      cases hnames with
      | @cons a _ annotations _ hname hnames =>
        obtain ⟨ha, hfit⟩ := List.forall_mem_cons.1 hfit
        exact ⟨_, _, ⟨a, ha, hname, rfl⟩, ih.2 ⟨annotations, hfit, hnames, rfl⟩, List.flatMap_cons⟩

/-- The annotations of an attribute are a table of annotations, and their names are read in this
order. -/
theorem parses_readNames (pool : Pool) : Parses (readNames pool) fun names word =>
    ∃ annotations : List AnnotationEntry,
      annotations.length < 0x10000 ∧ (∀ a ∈ annotations, a.Fits) ∧
      List.Forall₂ (AnnotationEntry.IsNamed pool) annotations names ∧
      word = put2 annotations.length ++ annotations.flatMap AnnotationEntry.encode := by
  refine (parses_readName pool).table.congr fun names word => ?_
  constructor
  · rintro ⟨hlt, back, hback, rfl⟩
    obtain ⟨annotations, hfit, hnames, rfl⟩ := words_annotations_iff.1 hback
    rw [← hnames.length_eq] at hlt ⊢
    exact ⟨annotations, hlt, hfit, hnames, rfl⟩
  · rintro ⟨annotations, hlt, hfit, hnames, rfl⟩
    rw [hnames.length_eq] at hlt ⊢
    exact ⟨hlt, _, words_annotations_iff.2 ⟨annotations, hfit, hnames, rfl⟩, rfl⟩

/-- **Annotations end where their values do.** A value is read iff its bytes stand in front, and
reading stops right behind them. Otherwise it fails: at the end of the input iff bytes are missing
for a value, and with a tag iff this is the first byte that stands where a value has to begin and is
no tag. So what is read of an attribute are the names of its annotations in their order, and of none
inside of their values; what follows the last one is ignored. -/
theorem values_end_exactly (data : Bytes) :
    (∀ v rest, (∃ h, ElementValue.read data = .ok (v, ⟨rest, h⟩)) ↔
      v.Fits ∧ data = v.encode ++ rest) ∧
    (ElementValue.read data = .error .unexpectedEof ↔
      ∃ (v : ElementValue) (missing : Bytes), v.Fits ∧ missing ≠ [] ∧ data ++ missing = v.encode) ∧
    (∀ tag, ElementValue.read data = .error (.invalidElementTag tag) ↔
      ∃ front rest, Awaits front ∧ tag ∉ tags ∧ data = front ++ tag :: rest) ∧
    (∀ e, ElementValue.read data = .error e →
      e = .unexpectedEof ∨ ∃ tag, e = .invalidElementTag tag) ∧
    ∀ pool names, readFrom data (readNames pool) = .ok names ↔
      ∃ (annotations : List AnnotationEntry) (rest : Bytes),
        annotations.length < 0x10000 ∧ (∀ a ∈ annotations, a.Fits) ∧
        List.Forall₂ (AnnotationEntry.IsNamed pool) annotations names ∧
        data = put2 annotations.length ++ annotations.flatMap AnnotationEntry.encode ++ rest := by
  have herror : ∀ e, ElementValue.read data = .error e ↔ next data = .error e := by
    intro e
    unfold next
    cases ElementValue.read data with
    | ok p => exact ⟨nofun, nofun⟩
    | error e' => simp [Except.map]
  refine ⟨fun v rest => ?_, (herror _).trans next_eq_eof_iff,
    fun tag => (herror _).trans next_eq_invalid_iff, fun e he => error_cases ((herror e).1 he),
    fun pool names => ?_⟩
  · have hparse : next data = .ok (v, rest) ↔ v.Fits ∧ data = v.encode ++ rest := by
      refine (parses_next data v rest).trans ⟨?_, fun ⟨hv, hdata⟩ => ⟨_, ⟨hv, rfl⟩, hdata⟩⟩
      rintro ⟨_, ⟨hv, rfl⟩, rfl⟩
      exact ⟨hv, rfl⟩
    rw [← hparse, next, Result.map_eq_ok]
    constructor
    · rintro ⟨h, hread⟩
      exact ⟨_, hread, rfl⟩
    · rintro ⟨⟨_, _, h⟩, hread, heq⟩
      cases heq
      exact ⟨h, hread⟩
  · unfold readFrom
    rw [Result.map_eq_ok]
    constructor
    · rintro ⟨⟨_, rest⟩, hread, rfl⟩
      obtain ⟨_, ⟨annotations, hlt, hfit, hnames, rfl⟩, rfl⟩ :=
        (parses_readNames pool _ _ _).1 hread
      exact ⟨annotations, rest, hlt, hfit, hnames, rfl⟩
    · rintro ⟨annotations, rest, hlt, hfit, hnames, rfl⟩
      exact ⟨(names, rest), (parses_readNames pool _ _ _).2 ⟨_,
        ⟨annotations, hlt, hfit, hnames, rfl⟩, rfl⟩, rfl⟩

/-- A list of a number and a nested annotation, up to the value of the annotation's only pair. -/
def openList : Bytes := [arrayTag, 0, 2, 0x49, 0, 1, annotationTag, 0, 7, 0, 1, 0, 8]

/-- A byte that is no tag is refused whatever follows it; if there is none, the value is missing. -/
theorem values_end_exactly_openList :
    (∀ rest, ElementValue.read (openList ++ 0x78 :: rest) = .error (.invalidElementTag 0x78)) ∧
    ElementValue.read openList = .error .unexpectedEof := by
  refine ⟨fun rest => ?_, ?_⟩
  · refine ((values_end_exactly _).2.2.1 0x78).2 ⟨openList, rest, ?_, by decide, rfl⟩
    have hnested :
        Awaits (annotationTag :: (put2 7 ++ (put2 1 ++ (encodePairs [] ++ (put2 8 ++ []))))) :=
      .pair (by decide) (by decide) (by decide) trivial (by decide) .here
    have hnumber : ValuesFit [.const 0x49 1] := ⟨⟨by decide, by decide⟩, trivial⟩
    exact @Awaits.item 2 _ _ (by decide) (by decide) hnumber hnested
  · refine (values_end_exactly openList).2.1.2
      ⟨.array [.const 0x49 1, .nested 7 [(8, .const 0x49 0)]], [0x49, 0, 0], ?_, by decide,
        by decide +kernel⟩
    exact ⟨by decide, ⟨by decide, by decide⟩,
      ⟨by decide, by decide, by decide, ⟨by decide, by decide⟩, trivial⟩, trivial⟩

end Annotations

end JvmAudit
