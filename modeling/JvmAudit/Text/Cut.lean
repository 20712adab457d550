/-!
# Cutting text

Splitting a text at a separator, finding a separator, and taking a fixed text off the front or the
end. All of it is plain list work; long texts are walked by `foldr`, which runs in constant stack.
-/

namespace JvmAudit.Text

/-- Puts one character in front of the first piece, or opens a new piece at a separator. -/
def splitStep (sep c : Char) (pieces : List (List Char)) : List (List Char) :=
  if c = sep then [] :: pieces
  else
    match pieces with
    | [] => [[c]]
    | p :: ps => (c :: p) :: ps

/-- The pieces between the separators; a text without separator is one piece, also the empty one. -/
def splitOn (sep : Char) (cs : List Char) : List (List Char) := cs.foldr (splitStep sep) [[]]

/-- The pieces before each line feed, and what follows the last one if it is not empty. -/
def lines (cs : List Char) : List (List Char) :=
  let pieces := splitOn '\n' cs
  if pieces.getLast? = some [] then pieces.dropLast else pieces

/-- The text in front of the first separator and the text behind it. -/
def cutFirst (sep : Char) (cs : List Char) : Option (List Char × List Char) :=
  match cs.dropWhile (· != sep) with
  | [] => none
  | _ :: back => some (cs.takeWhile (· != sep), back)

/-- The text in front of the last separator and the text behind it. -/
def cutLast (sep : Char) (cs : List Char) : Option (List Char × List Char) :=
  (cutFirst sep cs.reverse).map fun (back, front) => (front.reverse, back.reverse)

/-- What follows `front` at the start of `cs`. -/
def dropFront : List Char → List Char → Option (List Char)
  | [], cs => some cs
  | _ :: _, [] => none
  | f :: fs, c :: cs => if f = c then dropFront fs cs else none

/-- What precedes `back` at the end of `cs`. -/
def dropBack (back cs : List Char) : Option (List Char) :=
  (dropFront back.reverse cs.reverse).map List.reverse

/-- `old` replaced by `new`, character by character. -/
def replaceChar (old new : Char) (cs : List Char) : List Char :=
  cs.map fun c => if c = old then new else c

/-- The texts joined by `sep`. -/
def join (sep : String) (parts : List String) : String := sep.intercalate parts

theorem length_lt_of_cutFirst {sep : Char} {cs front back : List Char}
    (h : cutFirst sep cs = some (front, back)) : back.length < cs.length := by
  unfold cutFirst at h
  split at h
  · cases h
  · next x b hs =>
    simp only [Option.some.injEq, Prod.mk.injEq] at h
    have := (List.dropWhile_suffix (· != sep) (l := cs)).length_le
    rw [hs, List.length_cons] at this
    rw [← h.2]
    omega

theorem dropFront_eq_some_iff {front cs rest : List Char} :
    dropFront front cs = some rest ↔ cs = front ++ rest := by
  induction front generalizing cs with
  | nil => simp [dropFront, eq_comm]
  | cons f fs ih =>
    cases cs with
    | nil => simp [dropFront]
    | cons c cs =>
      by_cases h : f = c
      · simp [dropFront, h, ih]
      · simp only [dropFront, h, if_false, List.cons_append, List.cons.injEq,
          reduceCtorEq, false_iff, not_and]
        exact fun hc => absurd hc.symm h

theorem dropBack_eq_some_iff {back cs rest : List Char} :
    dropBack back cs = some rest ↔ cs = rest ++ back := by
  simp only [dropBack, Option.map_eq_some_iff, dropFront_eq_some_iff]
  constructor
  · rintro ⟨r, h, rfl⟩
    have := congrArg List.reverse h
    simpa using this
  · rintro rfl
    exact ⟨rest.reverse, by simp, by simp⟩

end JvmAudit.Text
