import JvmAudit.Descriptor.Parser
import JvmAudit.Proofs.Text.Utf8

/-!
# Descriptors by characters

A descriptor is read byte by byte. Here it is read character by character (`FieldType.read`,
`MethodType.readParams`), which comes to the same (`Cursor.agree_readType`,
`Cursor.agree_readParams`): all that is looked for are characters of one byte, and such a byte is
part of no other character. So the reader by bytes always stands between two characters
(`Cursor.At`), and no class name is cut out of the text inside one.

The readers are exact for the types that are printed: they give a type for a text iff the text is
what is printed for the type (`FieldType.ofDescriptor?_eq_some_iff`,
`MethodType.ofDescriptor?_eq_some_iff`).
-/

namespace JvmAudit

open Descriptor (Cursor)

/-- A base type that is read back from its descriptor: the name of a class is not empty and has no
semicolon. -/
def BaseType.Readable : BaseType → Prop
  | .primitive _ => True
  | .object name => name.toList ≠ [] ∧ ';' ∉ name.toList

/-! ## Base types -/

/-- The primitive type with this letter. -/
def Primitive.ofLetter? (c : Char) : Option Primitive := all.find? (·.tag == c)

theorem Primitive.ofLetter?_eq_some_iff {c : Char} {p : Primitive} :
    ofLetter? c = some p ↔ p.tag = c := by
  constructor
  · intro h
    simpa using List.find?_some h
  · rintro rfl
    cases p <;> rfl

namespace BaseType

variable {cs rest : List Char} {base : BaseType}

/-- Reads the name of a class and the semicolon behind it. -/
def readName (cs : List Char) : Option (BaseType × List Char) :=
  match Text.cutFirst ';' cs with
  | some (c :: name, rest) => some (.object (.ofList (c :: name)), rest)
  | _ => none

/-- Reads a type that is no array. -/
def read : List Char → Option (BaseType × List Char)
  | [] => none
  | c :: cs =>
    match Primitive.ofLetter? c with
    | some p => some (.primitive p, cs)
    | none => if c = 'L' then readName cs else none

/-- A class name reaches to the first semicolon and is not empty. -/
theorem readName_eq_some_iff : readName cs = some (base, rest) ↔
    ∃ name, base = .object name ∧ base.Readable ∧ cs = name.toList ++ ';' :: rest := by
  unfold readName
  constructor
  · intro h
    split at h
    · next c name back hcut =>
      cases h
      obtain ⟨hname, rfl⟩ := Text.cutFirst_eq_some_iff.1 hcut
      refine ⟨_, rfl, ⟨by simp, ?_⟩, ?_⟩
      · rwa [String.toList_ofList]
      · rw [String.toList_ofList]
    · cases h
  · rintro ⟨name, rfl, ⟨hne, hname⟩, rfl⟩
    obtain ⟨c, chars, hchars⟩ := List.exists_cons_of_ne_nil hne
    rw [Text.cutFirst_append hname, hchars]
    simp only
    rw [← hchars, String.ofList_toList]

/-- Reading takes the descriptor of a base type off the front. -/
theorem read_eq_some_iff :
    read cs = some (base, rest) ↔ base.Readable ∧ cs = base.render ++ rest := by
  constructor
  · intro h
    cases cs with
    | nil => cases h
    | cons c cs =>
      rw [read] at h
      split at h
      · next p hp =>
        cases h
        exact ⟨trivial, by rw [← Primitive.ofLetter?_eq_some_iff.1 hp]; rfl⟩
      · split at h
        · next hc =>
          obtain ⟨name, rfl, hbase, rfl⟩ := readName_eq_some_iff.1 h
          exact ⟨hbase, by simp [hc, render]⟩
        · cases h
  · rintro ⟨hbase, rfl⟩
    cases base with
    | primitive p =>
      show read (p.tag :: rest) = _
      rw [read, Primitive.ofLetter?_eq_some_iff.2 rfl]
    | object name =>
      have hcs : (object name).render ++ rest = 'L' :: (name.toList ++ ';' :: rest) := by
        simp [render]
      rw [hcs]
      exact readName_eq_some_iff.2 ⟨name, rfl, hbase, rfl⟩

end BaseType

/-! ## Types -/

namespace FieldType

variable {cs rest : List Char} {t : FieldType} {text : String}

/-- Reads one type off the front. -/
def read : List Char → Option (FieldType × List Char)
  | '[' :: cs => (read cs).map fun (t, rest) => (⟨t.dims + 1, t.base⟩, rest)
  | cs => (BaseType.read cs).map fun (base, rest) => (⟨0, base⟩, rest)

theorem read_of_head? (h : cs.head? ≠ some '[') :
    read cs = (BaseType.read cs).map fun (base, rest) => (⟨0, base⟩, rest) := by
  unfold read
  split
  · exact absurd rfl h
  · rfl

/-- A type is read back from its descriptor, whatever follows. -/
theorem read_render (h : t.base.Readable) (rest : List Char) :
    read (t.render ++ rest) = some (t, rest) := by
  obtain ⟨dims, base⟩ := t
  induction dims with
  | zero =>
    have hhead : (base.render ++ rest).head? ≠ some '[' := by
      cases base with
      | primitive p => cases p <;> simp [BaseType.render, Primitive.tag]
      | object name => simp [BaseType.render]
    show read (base.render ++ rest) = _
    rw [read_of_head? hhead, BaseType.read_eq_some_iff.2 ⟨h, rfl⟩]
    rfl
  | succ n ih =>
    show read ('[' :: (render ⟨n, base⟩ ++ rest)) = _
    rw [read, ih h]
    rfl

/-- Reading takes the descriptor of a type off the front. -/
theorem read_eq_some_iff :
    read cs = some (t, rest) ↔ t.base.Readable ∧ cs = t.render ++ rest := by
  constructor
  · intro h
    fun_induction read cs generalizing t rest with
    | case1 cs ih =>
      obtain ⟨⟨u, back⟩, hu, he⟩ := Option.map_eq_some_iff.1 h
      obtain ⟨hbase, rfl⟩ := ih hu
      cases he
      exact ⟨hbase, rfl⟩
    | case2 cs =>
      obtain ⟨⟨base, back⟩, hread, he⟩ := Option.map_eq_some_iff.1 h
      cases he
      exact BaseType.read_eq_some_iff.1 hread
  · rintro ⟨hbase, rfl⟩
    exact read_render hbase rest

/-- Reading a type shortens the text. -/
theorem length_lt_of_read (h : read cs = some (t, rest)) : rest.length < cs.length := by
  obtain ⟨_, rfl⟩ := read_eq_some_iff.1 h
  have hpos : 0 < t.base.render.length := by
    cases t.base <;> simp [BaseType.render]
  simp only [render, List.length_append]
  omega

end FieldType

/-! ## Method types -/

namespace MethodType

variable {cs rest : List Char} {ts : List FieldType} {t : MethodType} {text : String}

/-- Reads types up to the closing parenthesis, and that too. -/
def readParams (cs : List Char) : Option (List FieldType × List Char) :=
  match cs with
  | ')' :: rest => some ([], rest)
  | cs =>
    match _h : FieldType.read cs with
    | none => none
    | some (t, rest) => (readParams rest).map fun (ts, rest) => (t :: ts, rest)
termination_by cs.length
decreasing_by exact FieldType.length_lt_of_read _h

/-- Reads the type of a result. -/
def readResult : List Char → Option (Option FieldType × List Char)
  | 'V' :: rest => some (none, rest)
  | cs => (FieldType.read cs).map fun (t, rest) => (some t, rest)

theorem readParams_of_head? (h : cs.head? ≠ some ')') :
    readParams cs = (FieldType.read cs).bind fun (t, rest) =>
      (readParams rest).map fun (ts, rest) => (t :: ts, rest) := by
  rw [readParams.eq_def]
  split
  · exact absurd rfl h
  · split
    · next hnone => rw [hnone]; rfl
    · next hsome => rw [hsome]; rfl

/-- Rendered parameters are read back, by induction on the list. -/
theorem readParams_render {params : List FieldType} (h : ∀ t ∈ params, t.base.Readable)
    (rest : List Char) :
    readParams (params.flatMap FieldType.render ++ ')' :: rest) = some (params, rest) := by
  induction params with
  | nil => rw [List.flatMap_nil, List.nil_append, readParams]
  | cons t params ih =>
    have hread :=
      FieldType.read_render (h t List.mem_cons_self)
        (params.flatMap FieldType.render ++ ')' :: rest)
    rw [List.flatMap_cons, List.append_assoc, readParams.eq_def]
    split
    · next hclosed =>
      -- no type starts with the closing parenthesis
      rw [hclosed] at hread
      cases hread
    · split
      · next hnone => exact absurd (hnone.symm.trans hread) (by simp)
      · next u back hsome =>
        cases hsome.symm.trans hread
        rw [ih fun u hu => h u (List.mem_cons_of_mem _ hu)]
        rfl

/-- A method type that is read back from its descriptor. -/
def Readable (t : MethodType) : Prop := ∀ u ∈ t.types, u.base.Readable

/-- What is read as parameters is what is rendered for them, up to the closing parenthesis. -/
theorem readParams_eq_some_iff : readParams cs = some (ts, rest) ↔
    (∀ t ∈ ts, t.base.Readable) ∧ cs = ts.flatMap FieldType.render ++ ')' :: rest := by
  constructor
  · intro h
    fun_induction readParams cs generalizing ts rest with
    | case1 back =>
      cases h
      exact ⟨by simp, rfl⟩
    | case2 => cases h
    | case3 cs _ t back hread ih =>
      obtain ⟨⟨us, tail⟩, hus, he⟩ := Option.map_eq_some_iff.1 h
      cases he
      obtain ⟨hrest, rfl⟩ := ih hus
      obtain ⟨ht, rfl⟩ := FieldType.read_eq_some_iff.1 hread
      refine ⟨fun u hu => ?_, by rw [List.flatMap_cons, List.append_assoc]⟩
      rcases List.mem_cons.1 hu with rfl | hu
      · exact ht
      · exact hrest u hu
  · rintro ⟨hts, rfl⟩
    exact readParams_render hts rest

theorem readResult_of_head? (h : cs.head? ≠ some 'V') :
    readResult cs = (FieldType.read cs).map fun (t, rest) => (some t, rest) := by
  unfold readResult
  split
  · exact absurd rfl h
  · rfl

/-- What is read as a result is what is rendered for it, `V` for none. -/
theorem readResult_eq_some_iff {result : Option FieldType} : readResult cs = some (result, rest) ↔
    (∀ t ∈ result, t.base.Readable) ∧ cs = (result.map FieldType.render).getD ['V'] ++ rest := by
  by_cases hvoid : cs.head? = some 'V'
  · obtain ⟨back, rfl⟩ := List.head?_eq_some_iff.1 hvoid
    rw [readResult]
    cases result with
    | none => simp [eq_comm]
    | some t =>
      -- no type is written as `V`
      have hread : FieldType.read ('V' :: back) = none := rfl
      simp only [Option.some.injEq, Prod.mk.injEq, reduceCtorEq, false_and, false_iff]
      rintro ⟨ht, hcs⟩
      rw [FieldType.read_eq_some_iff.2 ⟨ht t rfl, hcs⟩] at hread
      cases hread
  · rw [readResult_of_head? hvoid]
    cases result with
    | none =>
      constructor
      · intro h
        obtain ⟨_, _, he⟩ := Option.map_eq_some_iff.1 h
        cases he
      · rintro ⟨_, rfl⟩
        exact absurd rfl hvoid
    | some t =>
      have hsome : (FieldType.read cs).map (fun (t, rest) => (some t, rest)) = some (some t, rest) ↔
          FieldType.read cs = some (t, rest) := by
        cases FieldType.read cs <;> simp [Prod.ext_iff]
      rw [hsome, FieldType.read_eq_some_iff]
      simp

theorem readable_iff :
    t.Readable ↔ (∀ u ∈ t.params, u.base.Readable) ∧ ∀ u ∈ t.result, u.base.Readable := by
  simp [Readable, types, or_imp, forall_and]

end MethodType

/-! ## Cursors -/

namespace Descriptor.Cursor

variable {α : Type} {c : Cursor} {cs : List Char} {x : Char}

/-- The cursor is between two characters, and these are the ones behind it. -/
def At (c : Cursor) (cs : List Char) : Prop :=
  ∃ front, c.text.toList = front ++ cs ∧ c.pos = (Utf8.encode front).length

/-- A cursor starts in front of all characters. -/
theorem at_start (text : String) : (start text).At text.toList := ⟨[], rfl, rfl⟩

theorem At.peek_eq (h : c.At cs) : c.peek = (Utf8.encode cs).head? := by
  obtain ⟨front, htext, hpos⟩ := h
  unfold peek
  rw [Utf8.bytes_eq_encode, htext, Utf8.encode_append, hpos,
    List.getElem?_append_right (Nat.le_refl _), Nat.sub_self, List.head?_eq_getElem?]

/-- The next byte is a character of one byte only where that is the next character. -/
theorem At.peek_eq_some_iff (hx : x.utf8Size = 1) (h : c.At cs) :
    c.peek = some x.toUInt8 ↔ cs.head? = some x := by
  have hbytes : String.utf8EncodeChar x = [x.toUInt8] := String.utf8EncodeChar_eq_singleton hx
  rw [h.peek_eq]
  cases cs with
  | nil => simp
  | cons y cs =>
    obtain ⟨b, rest, hy, _⟩ := Utf8.exists_utf8EncodeChar y
    rw [Utf8.encode_cons, hy, List.cons_append, List.head?_cons, List.head?_cons, Option.some.injEq,
      Option.some.injEq]
    constructor
    · rintro rfl
      exact Utf8.eq_of_mem_utf8EncodeChar hbytes (by simp [hy])
    · rintro rfl
      rw [hy] at hbytes
      exact List.head_eq_of_cons_eq hbytes

/-- A character of one byte can be told by this byte, since no other character starts with it. -/
theorem At.isAt_iff (hx : x.utf8Size = 1) (h : c.At cs) : c.isAt x = true ↔ cs.head? = some x := by
  rw [isAt, beq_iff_eq, h.peek_eq_some_iff hx]

/-- Behind a character of one byte the cursor is between two characters again. -/
theorem At.skip (hx : x.utf8Size = 1) (h : c.At (x :: cs)) : c.skip.At cs := by
  obtain ⟨front, htext, hpos⟩ := h
  refine ⟨front ++ [x], by simp [Cursor.skip, htext], ?_⟩
  simp [Cursor.skip, hpos, hx]

theorem At.peek_eq_none_iff (h : c.At cs) : c.peek = none ↔ cs = [] := by
  rw [h.peek_eq, List.head?_eq_none_iff, Utf8.encode_eq_nil_iff]

/-- A reader by bytes and one by characters do the same: both fail, or both have the same result and
the same characters behind it. -/
inductive Agree : Except Failure (α × Cursor) → Option (α × List Char) → Prop
  | invalid : Agree (.error .invalid) none
  | ok {a : α} {c : Cursor} {rest : List Char} (h : c.At rest) : Agree (.ok (a, c)) (some (a, rest))

/-- If the cursor fails, the characters are refused too, and the failure is not one inside a
character. -/
theorem Agree.of_error {e : Failure} {y : Option (α × List Char)} (h : Agree (.error e) y) :
    e = .invalid ∧ y = none := by
  cases h
  exact ⟨rfl, rfl⟩

/-- If the cursor gives a value, the characters give the same one, and the rest is the same. -/
theorem Agree.of_ok {a : α} {y : Option (α × List Char)} (h : Agree (.ok (a, c)) y) :
    ∃ rest, y = some (a, rest) ∧ c.At rest := by
  cases h with
  | ok h => exact ⟨_, rfl, h⟩

theorem Agree.map {β : Type} {x : Except Failure (α × Cursor)} {y : Option (α × List Char)}
    (h : Agree x y) (f : α → β) :
    Agree (x.map fun (a, c) => (f a, c)) (y.map fun (a, rest) => (f a, rest)) := by
  cases h with
  | invalid => exact .invalid
  | ok h => exact .ok h

/-- A class name is cut out between two characters. -/
theorem agree_readName (h : c.At cs) : Agree c.readName (BaseType.readName cs) := by
  obtain ⟨front, htext, hpos⟩ := h
  unfold readName BaseType.readName
  rw [Utf8.cutAt?_eq_some_iff.2 ⟨htext, hpos.symm⟩]
  simp only [Utf8.offset?_eq]
  cases hcut : Text.cutFirst ';' cs with
  | none => exact .invalid
  | some parts =>
    obtain ⟨name, rest⟩ := parts
    obtain ⟨_, rfl⟩ := Text.cutFirst_eq_some_iff.1 hcut
    cases name with
    | nil => exact .invalid
    | cons first name =>
      have hne : (Utf8.encode (first :: name)).length ≠ 0 := by
        rw [Ne, Utf8.length_encode_eq_zero_iff]
        exact List.cons_ne_nil _ _
      simp only [Option.map_some, if_neg hne, Utf8.cutAt?_eq_some_iff.2 ⟨rfl, rfl⟩]
      refine .ok ⟨front ++ (first :: name) ++ [';'], by simp [htext], ?_⟩
      have hsemicolon : (Utf8.encode [';']).length = 1 := rfl
      simp only [Utf8.encode_append, List.length_append, hsemicolon]
      omega

/-- The next byte tells as much as the next character whether that is a certain one of one byte. -/
theorem At.peek_cons {y : Char} {b : UInt8} (h : c.At (y :: cs)) (hb : c.peek = some b)
    (hx : x.utf8Size = 1) : b = x.toUInt8 ↔ y = x := by
  have hiff := h.peek_eq_some_iff hx
  rwa [hb, List.head?_cons, Option.some.injEq, Option.some.injEq] at hiff

/-- A base type is read alike by bytes and by characters. -/
theorem agree_readBase (h : c.At cs) : Agree c.readBase (BaseType.read cs) := by
  unfold readBase
  cases cs with
  | nil =>
    rw [h.peek_eq_none_iff.2 rfl]
    exact .invalid
  | cons y cs =>
    obtain ⟨b, hb⟩ := Option.ne_none_iff_exists'.1 fun hnone =>
      List.cons_ne_nil y cs (h.peek_eq_none_iff.1 hnone)
    have hsize : ∀ p : Primitive, p.tag.utf8Size = 1 := by
      intro p
      cases p <;> rfl
    have hletter : Primitive.ofTag? b = Primitive.ofLetter? y := by
      unfold Primitive.ofTag? Primitive.ofLetter?
      congr 1
      funext p
      rw [Bool.eq_iff_iff, beq_iff_eq, beq_iff_eq, eq_comm, h.peek_cons hb (hsize p), eq_comm]
    rw [BaseType.read, hb]
    simp only [hletter]
    cases hp : Primitive.ofLetter? y with
    | some p =>
      rw [← Primitive.ofLetter?_eq_some_iff.1 hp] at h
      exact .ok (h.skip (hsize p))
    | none =>
      simp only [h.peek_cons hb (x := 'L') rfl]
      by_cases hy : y = 'L'
      · subst hy
        rw [if_pos rfl, if_pos rfl]
        exact agree_readName (h.skip rfl)
      · rw [if_neg hy, if_neg hy]
        exact .invalid

/-- Brackets are counted before the base type is read, and each adds a dimension. -/
theorem agree_skipBrackets (h : c.At cs) (dims : Nat) :
    Agree ((c.skipBrackets dims).2.readBase.map fun (base, c') =>
        (FieldType.mk (c.skipBrackets dims).1 base, c'))
      ((FieldType.read cs).map fun (t, rest) => (⟨dims + t.dims, t.base⟩, rest)) := by
  fun_induction skipBrackets c dims generalizing cs with
  | case1 c dims hat ih =>
    obtain ⟨cs, rfl⟩ := List.head?_eq_some_iff.1 ((h.isAt_iff rfl).1 hat)
    have hcount : ∀ t : FieldType, dims + (t.dims + 1) = dims + 1 + t.dims := by
      intro t
      omega
    rw [FieldType.read, Option.map_map]
    simp only [Function.comp_def, hcount]
    exact ih (h.skip rfl)
  | case2 c dims hat =>
    rw [FieldType.read_of_head? fun hhead => hat ((h.isAt_iff rfl).2 hhead), Option.map_map]
    exact (agree_readBase h).map _

/-- A type is read by bytes as it is by characters. -/
theorem agree_readType (h : c.At cs) : Agree c.readType (FieldType.read cs) := by
  have hread := agree_skipBrackets h 0
  simp only [Nat.zero_add] at hread
  cases hy : FieldType.read cs with
  | none =>
    rw [hy] at hread
    exact hread
  | some read =>
    rw [hy] at hread
    exact hread

/-- Parameters and the parenthesis behind them are read by bytes as they are by characters. -/
theorem agree_readParams (h : c.At cs) (params : List FieldType) :
    Agree (do
        let (ts, c) ← c.readParams params
        let c ← c.expect ')'
        return (ts, c))
      ((MethodType.readParams cs).map fun (ts, rest) => (params ++ ts, rest)) := by
  fun_induction readParams c params generalizing cs with
  | case1 c params hat =>
    obtain ⟨rest, rfl⟩ := List.head?_eq_some_iff.1 ((h.isAt_iff rfl).1 hat)
    have hparams : MethodType.readParams (')' :: rest) = some ([], rest) := by
      rw [MethodType.readParams]
    have hexpect : c.expect ')' = .ok c.skip := if_pos hat
    rw [hparams]
    show Agree (c.expect ')' >>= fun c => .ok (params, c)) (some (params ++ [], rest))
    rw [hexpect, List.append_nil]
    exact .ok (h.skip rfl)
  | case2 c params hat hpeek =>
    rw [h.peek_eq_none_iff.1 hpeek]
    have hparams : MethodType.readParams [] = none := by
      rw [MethodType.readParams_of_head? (by simp)]
      rfl
    rw [hparams]
    exact .invalid
  | case3 c params hat hpeek e hread =>
    obtain ⟨rfl, hnone⟩ := (hread ▸ agree_readType h).of_error
    rw [MethodType.readParams_of_head? fun hhead => hat ((h.isAt_iff rfl).2 hhead), hnone]
    exact .invalid
  | case4 c params hat hpeek t c' hread ih =>
    obtain ⟨rest, hsome, hrest⟩ := (hread ▸ agree_readType h).of_ok
    rw [MethodType.readParams_of_head? fun hhead => hat ((h.isAt_iff rfl).2 hhead), hsome]
    have hmore := ih hrest
    simp only [List.append_assoc, List.singleton_append] at hmore
    show Agree _ (Option.map _ ((MethodType.readParams rest).map _))
    rw [Option.map_map]
    exact hmore

/-- A result is read alike by bytes and by characters. -/
theorem agree_readResult (h : c.At cs) : Agree c.readResult (MethodType.readResult cs) := by
  unfold readResult
  by_cases hat : c.isAt 'V' = true
  · obtain ⟨rest, rfl⟩ := List.head?_eq_some_iff.1 ((h.isAt_iff rfl).1 hat)
    rw [if_pos hat]
    exact .ok (h.skip rfl)
  · rw [if_neg hat, MethodType.readResult_of_head? fun hhead => hat ((h.isAt_iff rfl).2 hhead)]
    exact (agree_readType h).map some

theorem At.finish_eq (h : c.At cs) : c.finish = if cs = [] then .ok () else .error .invalid := by
  obtain ⟨front, htext, hpos⟩ := h
  have hend : c.pos = (Utf8.bytes c.text).length ↔ cs = [] := by
    rw [Utf8.bytes_eq_encode, htext, Utf8.encode_append, List.length_append, hpos,
      ← Utf8.length_encode_eq_zero_iff]
    omega
  unfold finish
  simp only [hend]

end Descriptor.Cursor

/-! ## Whole descriptors -/

namespace Descriptor

variable {α : Type} {x : Except Failure α} {P : α → Prop}

/-- A reader gives exactly the results with a property; otherwise the text is invalid. -/
structure Exact (x : Except Failure α) (P : α → Prop) : Prop where
  eq_ok_iff : ∀ a, x = .ok a ↔ P a
  eq_invalid : ∀ e, x = .error e → e = .invalid

/-- An exact parser gives a value iff it is the right one. -/
theorem Exact.toOption_eq_some_iff (h : Exact x P) {a : α} : x.toOption = some a ↔ P a := by
  rw [← h.eq_ok_iff]
  cases x <;> simp [Except.toOption]

theorem Exact.congr {Q : α → Prop} (h : Exact x P) (hPQ : ∀ a, P a ↔ Q a) : Exact x Q :=
  ⟨fun a => (h.eq_ok_iff a).trans (hPQ a), h.eq_invalid⟩

theorem exact_invalid (h : ∀ a, ¬P a) : Exact (.error .invalid) P :=
  ⟨fun a => ⟨nofun, fun ha => absurd ha (h a)⟩, fun _ he => (Except.error.inj he).symm⟩

/-- A text is read as a whole if no characters are left. -/
theorem exact_finish {β : Type} {x : Except Failure (α × Cursor)} {y : Option (α × List Char)}
    (h : Cursor.Agree x y) (f : α → β) :
    Exact (x >>= fun read => read.2.finish >>= fun _ => .ok (f read.1))
      fun b => ∃ a, y = some (a, []) ∧ f a = b := by
  cases h with
  | invalid => exact exact_invalid nofun
  | @ok a c rest h =>
    show Exact (c.finish >>= fun _ => .ok (f a)) _
    rw [h.finish_eq]
    by_cases hrest : rest = []
    · subst hrest
      refine ⟨fun b => ?_, nofun⟩
      show Except.ok (f a) = .ok b ↔ _
      simp
    · rw [if_neg hrest]
      refine exact_invalid ?_
      rintro b ⟨a', hb, -⟩
      cases hb
      exact hrest rfl

end Descriptor

open Descriptor

/-- A text is read as a type iff it is the descriptor of the type. -/
theorem FieldType.exact_parse (text : String) :
    Exact (FieldType.parse text) fun t => t.base.Readable ∧ t.render = text.toList := by
  have hread := exact_finish (Cursor.agree_readType (Cursor.at_start text)) id
  simp only [FieldType.read_eq_some_iff, List.append_nil, id, exists_eq_right,
    eq_comm (a := text.toList)] at hread
  exact hread

namespace MethodType

variable {c : Cursor} {cs : List Char}

/-- What stands behind the opening parenthesis of a method type. -/
theorem render_eq_cons_iff {t : MethodType} : t.render = '(' :: cs ↔
    cs = t.params.flatMap FieldType.render ++
      ')' :: ((t.result.map FieldType.render).getD ['V'] ++ []) := by
  rw [List.append_nil, eq_comm, render, List.cons_append, List.cons_inj_right]

/-- What follows the opening parenthesis of a method type is read exactly. -/
theorem exact_rest (h : c.At cs) :
    Exact (do
        let (params, c) ← c.readParams []
        let c ← c.expect ')'
        let (result, c) ← c.readResult
        c.finish
        return MethodType.mk params result)
      fun t => t.Readable ∧ t.render = '(' :: cs := by
  have hparams := Cursor.agree_readParams h []
  have hnone : readParams cs = none → ∀ t : MethodType, ¬(t.Readable ∧ t.render = '(' :: cs) := by
    rintro hnone t ⟨ht, hrender⟩
    rw [readParams_eq_some_iff.2 ⟨(readable_iff.1 ht).1, render_eq_cons_iff.1 hrender⟩] at hnone
    cases hnone
  cases hread : c.readParams [] with
  | error e =>
    rw [hread] at hparams
    obtain ⟨rfl, hmap⟩ := hparams.of_error
    exact exact_invalid (hnone (Option.map_eq_none_iff.1 hmap))
  | ok read =>
    obtain ⟨params, c'⟩ := read
    rw [hread] at hparams
    replace hparams : Cursor.Agree (c'.expect ')' >>= fun c => .ok (params, c))
        ((readParams cs).map fun (ts, rest) => ([] ++ ts, rest)) := hparams
    show Exact (c'.expect ')' >>= fun c => c.readResult >>= fun read =>
      read.2.finish >>= fun _ => .ok (MethodType.mk params read.1)) _
    cases hclose : c'.expect ')' with
    | error e =>
      rw [hclose] at hparams
      obtain ⟨rfl, hmap⟩ := hparams.of_error
      exact exact_invalid (hnone (Option.map_eq_none_iff.1 hmap))
    | ok back =>
      rw [hclose] at hparams
      obtain ⟨rest, hmap, hat⟩ := hparams.of_ok
      obtain ⟨⟨ts, rest'⟩, hsome, hpair⟩ := Option.map_eq_some_iff.1 hmap
      obtain ⟨rfl, rfl⟩ : ts = params ∧ rest' = rest := by simpa using hpair
      refine (exact_finish (Cursor.agree_readResult hat) (MethodType.mk ts)).congr fun t => ?_
      simp only [readResult_eq_some_iff]
      constructor
      · rintro ⟨result, ⟨hresult, hrest⟩, rfl⟩
        obtain ⟨hts, hcs⟩ := readParams_eq_some_iff.1 hsome
        exact ⟨readable_iff.2 ⟨hts, hresult⟩, render_eq_cons_iff.2 (hrest ▸ hcs)⟩
      · rintro ⟨ht, hrender⟩
        obtain ⟨hts, hresult⟩ := readable_iff.1 ht
        have hboth := readParams_eq_some_iff.2 ⟨hts, render_eq_cons_iff.1 hrender⟩
        rw [hsome] at hboth
        cases hboth
        exact ⟨t.result, ⟨hresult, rfl⟩, rfl⟩

end MethodType

/-- A text is read as a method type iff it is the descriptor of the type. -/
theorem MethodType.exact_parse (text : String) :
    Exact (MethodType.parse text) fun t => t.Readable ∧ t.render = text.toList := by
  have hstart := Cursor.at_start text
  unfold MethodType.parse
  by_cases hopen : text.toList.head? = some '('
  · have hexpect : (Cursor.start text).expect '(' = .ok (Cursor.start text).skip :=
      if_pos ((hstart.isAt_iff rfl).2 hopen)
    obtain ⟨cs, hcs⟩ := List.head?_eq_some_iff.1 hopen
    rw [hcs] at hstart ⊢
    rw [hexpect]
    exact exact_rest (hstart.skip rfl)
  · have hexpect : (Cursor.start text).expect '(' = .error .invalid :=
      if_neg fun hat => hopen ((hstart.isAt_iff rfl).1 hat)
    rw [hexpect]
    refine exact_invalid ?_
    rintro t ⟨_, hrender⟩
    exact hopen (by rw [← hrender]; rfl)

theorem FieldType.ofDescriptor?_eq_some_iff {text : String} {t : FieldType} :
    ofDescriptor? text = some t ↔ t.base.Readable ∧ t.render = text.toList :=
  (exact_parse text).toOption_eq_some_iff

theorem MethodType.ofDescriptor?_eq_some_iff {text : String} {t : MethodType} :
    ofDescriptor? text = some t ↔ t.Readable ∧ t.render = text.toList :=
  (exact_parse text).toOption_eq_some_iff

end JvmAudit
