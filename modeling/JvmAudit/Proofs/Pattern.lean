import JvmAudit.Pattern
import JvmAudit.Proofs.Text.Utf8
import Mathlib.Data.List.Chain
import Mathlib.Data.List.Forall2

/-!
# What patterns match

A pattern is read as a sequence of segments (`Segment`): single characters that are no stars, and
runs of stars that are as long as possible. There is one such reading (`Segment.isReading_iff`). A
name matches if it can be cut into pieces, one for each segment: the character itself, a piece
without a dot for a single star, any piece for more stars (`Segment.Splits`).

Matching works on bytes. After a run, a name may be left at a byte that is inside a character. Then
only another run can go on, so the character could have been left to that run or the one before as a
whole (`Segment.Agrees`).

## Main results

* `ClassGlob.accepts_iff_splits`: what a pattern matches
-/

namespace JvmAudit

open String (utf8EncodeChar)
open Utf8 (encode IsInside)

/-- A part of a pattern. -/
inductive Segment where
  /-- A character that is no star. -/
  | letter (c : Char) (hc : c ≠ '*')
  /-- A star and so many more. -/
  | stars (more : Nat)

namespace Segment

/-- A segment as written. -/
def spelling : Segment → List Char
  | letter c _ => [c]
  | stars more => List.replicate (more + 1) '*'

/-- Whether this is a run of stars. -/
def isStars : Segment → Bool
  | letter .. => false
  | stars _ => true

/-- The segments of a pattern: together they are the pattern, and no run of stars is followed by
another one. -/
structure IsReading (pattern : List Char) (segments : List Segment) : Prop where
  spelled : segments.flatMap spelling = pattern
  maximal : segments.IsChain fun s t => ¬(s.isStars = true ∧ t.isStars = true)

/-- What a segment stands for. -/
def Fits : Segment → List Char → Prop
  | letter c _, piece => piece = [c]
  | stars 0, piece => '.' ∉ piece
  | stars (_ + 1), _ => True

/-- A name can be cut into pieces, one for each segment. -/
def Splits (segments : List Segment) (name : List Char) : Prop :=
  ∃ pieces, List.Forall₂ Fits segments pieces ∧ pieces.flatten = name

variable {c : Char} {hc : c ≠ '*'} {more : Nat} {s : Segment} {segments : List Segment}
  {pattern name : List Char}

/-! ## Readings -/

/-- Puts a star in front of what was read. -/
def addStar : List Segment → List Segment
  | stars more :: rest => stars (more + 1) :: rest
  | rest => stars 0 :: rest

/-- The segments of a pattern. -/
def read : List Char → List Segment
  | [] => []
  | c :: cs => if hc : c = '*' then addStar (read cs) else letter c hc :: read cs

/-- A star before a pattern starts a run of stars or makes the first run longer. -/
theorem isReading_addStar (h : IsReading pattern segments) :
    IsReading ('*' :: pattern) (addStar segments) := by
  obtain ⟨rfl, hmaximal⟩ := h
  cases segments with
  | nil => exact ⟨rfl, .singleton _⟩
  | cons s rest =>
    obtain ⟨hnext, hrest⟩ := List.isChain_cons.1 hmaximal
    cases s with
    | letter c hc => exact ⟨rfl, .cons_cons (by simp [isStars]) hmaximal⟩
    | stars more => exact ⟨rfl, List.isChain_cons.2 ⟨hnext, hrest⟩⟩

/-- Every pattern can be read, with runs of stars as long as possible. -/
theorem isReading_read (pattern : List Char) : IsReading pattern (read pattern) := by
  induction pattern with
  | nil => exact ⟨rfl, .nil⟩
  | cons c cs ih =>
    unfold read
    by_cases hc : c = '*'
    · rw [dif_pos hc, hc]
      exact isReading_addStar ih
    · rw [dif_neg hc]
      refine ⟨by simp [spelling, ih.spelled], List.isChain_cons.2 ⟨by simp [isStars], ih.maximal⟩⟩

theorem addStar_of_head (h : ∀ s ∈ segments.head?, s.isStars = false) :
    addStar segments = stars 0 :: segments := by
  cases segments with
  | nil => rfl
  | cons s rest =>
    cases s with
    | letter c hc => rfl
    | stars more => exact absurd (h _ rfl) (by simp [isStars])

/-- Stars before something else are one run. -/
theorem read_replicate (h : ∀ s ∈ (read pattern).head?, s.isStars = false) (more : Nat) :
    read (List.replicate (more + 1) '*' ++ pattern) = stars more :: read pattern := by
  induction more with
  | zero => simpa [read] using addStar_of_head h
  | succ more ih => rw [List.replicate_succ, List.cons_append, read, dif_pos rfl, ih, addStar]

/-- A pattern can be read in one way. -/
theorem isReading_iff : IsReading pattern segments ↔ segments = read pattern := by
  constructor
  · rintro ⟨rfl, hmaximal⟩
    induction segments with
    | nil => rfl
    | cons s rest ih =>
      obtain ⟨hnext, hrest⟩ := List.isChain_cons.1 hmaximal
      have ih := ih hrest
      cases s with
      | letter c hc =>
        rw [List.flatMap_cons, spelling, List.singleton_append, read, dif_neg hc, ← ih]
      | stars more =>
        have hhead : ∀ s ∈ (read (rest.flatMap spelling)).head?, s.isStars = false := by
          intro s hs
          rw [← ih] at hs
          simpa [isStars] using hnext s hs
        rw [List.flatMap_cons, spelling, read_replicate hhead, ← ih]
  · rintro rfl
    exact isReading_read pattern

/-! ## Pieces of a name -/

@[simp]
theorem splits_nil : Splits [] name ↔ name = [] := by
  constructor
  · rintro ⟨pieces, hfits, rfl⟩
    cases hfits
    rfl
  · rintro rfl
    exact ⟨[], .nil, rfl⟩

/-- A name splits along a pattern if its first piece fits and the rest splits along the rest. -/
theorem splits_cons :
    Splits (s :: segments) name ↔ ∃ piece rest, name = piece ++ rest ∧ s.Fits piece ∧
    Splits segments rest := by
  constructor
  · rintro ⟨pieces, hfits, rfl⟩
    cases hfits with
    | cons hpiece hrest => exact ⟨_, _, rfl, hpiece, _, hrest, rfl⟩
  · rintro ⟨piece, rest, rfl, hpiece, pieces, hrest, rfl⟩
    exact ⟨piece :: pieces, .cons hpiece hrest, rfl⟩

theorem splits_letter :
    Splits (letter c hc :: segments) name ↔ ∃ rest, name = c :: rest ∧ Splits segments rest := by
  rw [splits_cons]
  constructor
  · rintro ⟨piece, rest, rfl, rfl, hrest⟩
    exact ⟨rest, rfl, hrest⟩
  · rintro ⟨rest, rfl, hrest⟩
    exact ⟨[c], rest, rfl, rfl, hrest⟩

/-- One star stands for anything without a dot, two or more for anything. -/
theorem fits_stars_iff {piece : List Char} :
    (stars more).Fits piece ↔ (more = 0 → '.' ∉ piece) := by
  cases more <;> simp [Fits]

/-! ## Compilation -/

/-- What a segment is compiled to. -/
def pieces : Segment → List Piece
  | letter c _ => (utf8EncodeChar c).map .byte
  | stars 0 => [.star]
  | stars (_ + 1) => [.doubleStar]

theorem utf8EncodeChar_star : utf8EncodeChar '*' = [Piece.starByte] := by decide

theorem utf8EncodeChar_dot : utf8EncodeChar '.' = [Piece.dotByte] := by decide

/-- Bytes other than that of a star stand for themselves. -/
theorem compile_bytes {bytes : List UInt8} (h : Piece.starByte ∉ bytes) (rest : List UInt8) :
    Piece.compile (bytes ++ rest) = bytes.map .byte ++ Piece.compile rest := by
  induction bytes with
  | nil => rfl
  | cons b bytes ih =>
    simp only [List.mem_cons, not_or] at h
    obtain ⟨hb, hbytes⟩ := h
    rw [List.cons_append, Piece.compile, if_neg (Ne.symm hb), ih hbytes]
    rfl

theorem encode_replicate (n : Nat) :
    encode (List.replicate n '*') = List.replicate n Piece.starByte := by
  induction n with
  | zero => rfl
  | succ n ih =>
    rw [List.replicate_succ, Utf8.encode_cons, ih, utf8EncodeChar_star]
    rfl

/-- A run of stars is compiled to one piece. -/
theorem compile_stars {rest : List UInt8} (h : rest.head? ≠ some Piece.starByte) (more : Nat) :
    Piece.compile (List.replicate (more + 1) Piece.starByte ++ rest) =
      (stars more).pieces ++ Piece.compile rest := by
  cases more with
  | zero =>
    rw [List.replicate_one, List.singleton_append, Piece.compile, if_pos rfl, if_neg h]
    rfl
  | succ more =>
    have hdrop :
        (List.replicate (more + 1) Piece.starByte ++ rest).dropWhile (· == Piece.starByte) =
          rest := by
      rw [List.dropWhile_append_of_pos (by simp)]
      cases rest with
      | nil => rfl
      | cons b rest => exact List.dropWhile_cons_of_neg (by simpa using h)
    rw [List.replicate_succ, List.cons_append, Piece.compile, if_pos rfl,
      if_pos (by simp [List.replicate_succ]), hdrop]
    rfl

/-- No other character is encoded with the byte of a star. -/
theorem starByte_notMem (hc : c ≠ '*') : Piece.starByte ∉ utf8EncodeChar c := fun hb =>
  hc (Utf8.eq_of_mem_utf8EncodeChar utf8EncodeChar_star hb)

/-- A pattern is compiled segment by segment. -/
theorem compile_encode (h : IsReading pattern segments) :
    Piece.compile (encode pattern) = segments.flatMap pieces := by
  obtain ⟨rfl, hmaximal⟩ := h
  induction segments with
  | nil => simp [Piece.compile]
  | cons s rest ih =>
    obtain ⟨hnext, hrest⟩ := List.isChain_cons.1 hmaximal
    rw [List.flatMap_cons, Utf8.encode_append, List.flatMap_cons, ← ih hrest]
    cases s with
    | letter c hc => simpa [spelling, pieces] using compile_bytes (starByte_notMem hc) _
    | stars more =>
      rw [spelling, encode_replicate]
      refine compile_stars ?_ more
      -- what follows the stars is the end or another character
      cases rest with
      | nil => simp
      | cons t rest =>
        cases t with
        | stars n => exact absurd ⟨rfl, rfl⟩ (hnext _ rfl)
        | letter c hc =>
          intro hhead
          obtain ⟨b, bytes, hb, _⟩ := Utf8.exists_utf8EncodeChar c
          have hfirst : b = Piece.starByte := by simpa [spelling, hb] using hhead
          exact starByte_notMem hc (by simp [hb, hfirst])

/-! ## Matching -/

theorem accepts_bytes {bytes name : List UInt8} {ps : List Piece} :
    Piece.accepts (bytes.map .byte ++ ps) name = true ↔
      ∃ rest, name = bytes ++ rest ∧ Piece.accepts ps rest = true := by
  induction bytes generalizing name with
  | nil => simp
  | cons b bytes ih =>
    cases name with
    | nil => simp [Piece.accepts, Text.afterOne]
    | cons x name => simp [Piece.accepts, Text.afterOne, ih, and_assoc]

/-- A run of stars accepts bytes, without that of a dot if the run is a single star. -/
theorem accepts_stars {name : List UInt8} {ps : List Piece} :
    Piece.accepts ((stars more).pieces ++ ps) name = true ↔
      ∃ run rest, name = run ++ rest ∧ (more = 0 → Piece.dotByte ∉ run) ∧
      Piece.accepts ps rest = true := by
  cases more with
  | zero =>
    have hrun : ∀ run : List UInt8, run.all (· != Piece.dotByte) = true ↔
        (0 = 0 → Piece.dotByte ∉ run) := by
      intro run
      simp only [List.all_eq_true, bne_iff_ne, ne_eq, forall_const]
      exact ⟨fun h hd => h _ hd rfl, fun h b hb hd => h (hd ▸ hb)⟩
    show Text.afterRun (· != Piece.dotByte) (Piece.accepts ps) name = true ↔ _
    simp only [Text.afterRun_eq_true, hrun]
  | succ more =>
    show Text.afterRun (fun _ => true) (Piece.accepts ps) name = true ↔ _
    simp [Text.afterRun_eq_true]

/-- Matching bytes against segments is right between two characters, and does not match too much
inside one. -/
structure Agrees (segments : List Segment) : Prop where
  between : ∀ name, Piece.accepts (segments.flatMap pieces) (encode name) = true ↔
    Splits segments name
  inside : ∀ tail name, IsInside tail →
    Piece.accepts (segments.flatMap pieces) (tail ++ encode name) = true →
    Splits segments name

theorem agrees_nil : Agrees [] := by
  refine ⟨?_, ?_⟩
  · intro name
    rw [splits_nil]
    cases name with
    | nil => simp [Piece.accepts]
    | cons c name => simp [Piece.accepts]
  · intro tail name htail h
    simp [Piece.accepts, htail.ne_nil] at h

/-- A letter is compared byte by byte, and no other character starts with the same bytes. -/
theorem Agrees.letter (h : Agrees segments) (c : Char) (hc : c ≠ '*') :
    Agrees (letter c hc :: segments) := by
  refine ⟨?_, ?_⟩
  · intro name
    rw [List.flatMap_cons, pieces, accepts_bytes, splits_letter]
    constructor
    · rintro ⟨rest, hname, hrest⟩
      cases name with
      | nil => simp at hname
      | cons d name =>
        obtain ⟨rfl, rfl⟩ := Utf8.utf8EncodeChar_inj hname
        exact ⟨name, rfl, (h.between name).1 hrest⟩
    · rintro ⟨rest, rfl, hrest⟩
      exact ⟨encode rest, rfl, (h.between rest).2 hrest⟩
  · intro tail name htail haccepts
    rw [List.flatMap_cons, pieces, accepts_bytes] at haccepts
    obtain ⟨rest, hname, _⟩ := haccepts
    -- the first byte of a character is not found inside one
    obtain ⟨b, bytes, hb, hfirst⟩ := Utf8.exists_utf8EncodeChar c
    cases tail with
    | nil => exact absurd rfl htail.ne_nil
    | cons x tail =>
      rw [hb] at hname
      obtain ⟨rfl, _⟩ := List.cons.inj hname
      exact absurd hfirst (htail.continues x List.mem_cons_self)

/-- Stars may take bytes from the middle of a character as far as the pieces are concerned. If the
rest accepts, the cut is between characters after all. -/
theorem Agrees.between_stars (h : Agrees segments) (more : Nat) (name : List Char) :
    Piece.accepts ((stars more :: segments).flatMap pieces) (encode name) = true ↔
      Splits (stars more :: segments) name := by
  simp only [List.flatMap_cons, accepts_stars, splits_cons, fits_stars_iff]
  constructor
  · rintro ⟨run, rest, hname, hrun, hrest⟩
    rcases Utf8.encode_eq_append hname with ⟨before, after, rfl, rfl, rfl⟩ |
      ⟨before, c, after, front, back, rfl, hcut, hfront, hback, rfl, rfl⟩
    · refine ⟨before, after, rfl, ?_, (h.between after).1 hrest⟩
      intro hmore
      rw [← Utf8.mem_encode_iff utf8EncodeChar_dot]
      exact hrun hmore
    · -- the run gets the character that was cut, which is longer than a dot
      refine ⟨before ++ [c], after, by simp, ?_, h.inside back after hback hrest⟩
      intro hmore hdot
      rcases List.mem_append.1 hdot with hbefore | hc
      · refine hrun hmore (List.mem_append_left _ ?_)
        rwa [Utf8.mem_encode_iff utf8EncodeChar_dot]
      · rw [← List.mem_singleton.1 hc, utf8EncodeChar_dot] at hcut
        have hlength := congrArg List.length hcut
        have hfront := List.length_pos_iff.2 hfront
        have hback := List.length_pos_iff.2 hback.ne_nil
        simp only [List.length_singleton, List.length_append] at hlength
        omega
  · rintro ⟨piece, rest, rfl, hpiece, hrest⟩
    refine ⟨encode piece, encode rest, by simp, ?_, (h.between rest).2 hrest⟩
    intro hmore
    rw [Utf8.mem_encode_iff utf8EncodeChar_dot]
    exact hpiece hmore

theorem Agrees.stars (h : Agrees segments) (more : Nat) : Agrees (stars more :: segments) := by
  refine ⟨h.between_stars more, ?_⟩
  intro tail name htail haccepts
  rw [List.flatMap_cons, accepts_stars] at haccepts
  obtain ⟨run, rest, hname, hrun, hrest⟩ := haccepts
  rcases List.append_eq_append_iff.1 hname with ⟨run', rfl, hbehind⟩ | ⟨tail', rfl, rfl⟩
  · -- the run goes on behind the character
    rw [← h.between_stars, List.flatMap_cons, accepts_stars]
    refine ⟨run', rest, hbehind, ?_, hrest⟩
    intro hmore hdot
    exact hrun hmore (List.mem_append_right _ hdot)
  · -- the run ends inside the character or with it
    have hsplits : Splits segments name := by
      by_cases htail' : tail' = []
      · subst htail'
        exact (h.between name).1 hrest
      · refine h.inside tail' name ⟨htail', ?_⟩ hrest
        intro b hb
        exact htail.continues b (List.mem_append_right _ hb)
    exact splits_cons.2 ⟨[], name, rfl, fits_stars_iff.2 (by simp), hsplits⟩

/-- The bytes of a name are accepted iff the name splits along the pattern. -/
theorem agrees (segments : List Segment) : Agrees segments := by
  induction segments with
  | nil => exact agrees_nil
  | cons s segments ih =>
    cases s with
    | letter c hc => exact ih.letter c hc
    | stars more => exact ih.stars more

end Segment

/-! ## Patterns -/

/-- A pattern without stars matches its own text. -/
theorem ClassGlob.accepts_iff_of_not_isGlob {pattern name : String} (h : isGlob pattern = false) :
    (⟨pattern⟩ : ClassGlob).accepts name = true ↔ pattern = name := by
  have hstar : Piece.starByte ∉ Utf8.bytes pattern := by
    rw [Utf8.bytes_eq_encode, Utf8.mem_encode_iff Segment.utf8EncodeChar_star]
    simpa [isGlob] using h
  have hpieces : (⟨pattern⟩ : ClassGlob).pieces = (Utf8.bytes pattern).map .byte ++ [] := by
    simpa [pieces, Piece.compile] using Segment.compile_bytes hstar []
  rw [accepts_eq, hpieces, Segment.accepts_bytes]
  constructor
  · rintro ⟨rest, hname, hrest⟩
    obtain rfl : rest = [] := by simpa [Piece.accepts] using hrest
    rw [List.append_nil] at hname
    exact (Utf8.bytes_inj hname).symm
  · rintro rfl
    exact ⟨[], by simp, rfl⟩

/-- **What a pattern matches.** A pattern can be read in one way as single characters and runs of
stars, and it matches the names that can be cut into pieces for these. Whether it is matched piece
by piece or, without stars, compared makes no difference. -/
theorem ClassGlob.accepts_iff_splits (pattern name : String) :
    ∃ segments, (∀ other, Segment.IsReading pattern.toList other ↔ other = segments) ∧
      ((⟨pattern⟩ : ClassGlob).accepts name = true ↔ Segment.Splits segments name.toList) ∧
      (NamePattern.ofText pattern).accepts name = (⟨pattern⟩ : ClassGlob).accepts name := by
  have hreading : Segment.IsReading pattern.toList (Segment.read pattern.toList) :=
    Segment.isReading_read _
  refine ⟨Segment.read pattern.toList, fun _ => Segment.isReading_iff, ?_, ?_⟩
  · rw [ClassGlob.accepts_eq, ClassGlob.pieces, Utf8.bytes_eq_encode, Utf8.bytes_eq_encode,
      Segment.compile_encode hreading]
    exact (Segment.agrees _).between _
  · unfold NamePattern.ofText
    by_cases h : ClassGlob.isGlob pattern = true
    · rw [if_pos h]
      rfl
    · rw [if_neg h, Bool.eq_iff_iff, ClassGlob.accepts_iff_of_not_isGlob (by simpa using h)]
      exact beq_iff_eq

-- stars match characters that share their first byte with the one behind them
example : (⟨"**.Ü*é"⟩ : ClassGlob).accepts "sun.misc.Übèéé" = true := by cbv

example : (⟨"**.Ü*é"⟩ : ClassGlob).accepts "sun.misc.Übé.é" = false := by cbv

end JvmAudit
