import JvmAudit.Proofs.Text.Cut
import JvmAudit.Text.Utf8

/-!
# Characters and bytes

The UTF-8 bytes of a text, cut anywhere. A cut falls between two characters or inside one
(`Utf8.encode_eq_append`), and no byte behind the first one of a character can begin a character
(`Utf8.IsInside`). A text can be cut at the places that are between two characters, and nowhere else
(`Utf8.cutAt?_eq_some_iff`).
-/

namespace JvmAudit.Utf8

open String (utf8EncodeChar)

/-- The bytes of characters. -/
def encode (cs : List Char) : List UInt8 := cs.flatMap utf8EncodeChar

@[simp]
theorem encode_nil : encode [] = [] := rfl

@[simp]
theorem encode_cons (c : Char) (cs : List Char) :
    encode (c :: cs) = utf8EncodeChar c ++ encode cs :=
  List.flatMap_cons

@[simp]
theorem encode_append (cs ds : List Char) : encode (cs ++ ds) = encode cs ++ encode ds :=
  List.flatMap_append

theorem bytes_eq_encode (text : String) : bytes text = encode text.toList := by
  unfold bytes encode
  rw [String.toUTF8, ← String.utf8Encode_toList, List.utf8Encode, List.toList_data_toByteArray]

/-- Different texts have different bytes. -/
theorem bytes_inj {a b : String} (h : bytes a = bytes b) : a = b := by
  refine String.toByteArray_inj.1 (ByteArray.ext ?_)
  exact Array.toList_inj.1 h

/-! ## One character -/

/-- The bytes of a character are not the front of those of another one. -/
theorem utf8EncodeChar_inj {c d : Char} {x y : List UInt8}
    (h : utf8EncodeChar c ++ x = utf8EncodeChar d ++ y) :
    c = d ∧ x = y := by
  have hcd : c = d := by
    have hc := ByteArray.utf8DecodeChar?_utf8EncodeChar_append (b := x.toByteArray) (c := c)
    have hd := ByteArray.utf8DecodeChar?_utf8EncodeChar_append (b := y.toByteArray) (c := d)
    rw [← List.toByteArray_append, h, List.toByteArray_append, hd] at hc
    exact (Option.some.inj hc).symm
  subst hcd
  exact ⟨rfl, List.append_cancel_left h⟩

/-- The bytes of a character begin with one that can only stand first. -/
theorem exists_utf8EncodeChar (c : Char) :
    ∃ b rest, utf8EncodeChar c = b :: rest ∧ b.IsUTF8FirstByte := by
  cases h : utf8EncodeChar c with
  | nil => exact absurd h String.utf8EncodeChar_ne_nil
  | cons b rest =>
    refine ⟨b, rest, rfl, ?_⟩
    have hfirst := UInt8.isUTF8FirstByte_getElem_zero_utf8EncodeChar (c := c)
    simpa only [h, List.getElem_cons_zero] using hfirst

/-- Bytes of one character behind its first one. -/
structure IsInside (bytes : List UInt8) : Prop where
  ne_nil : bytes ≠ []
  continues : ∀ b ∈ bytes, ¬b.IsUTF8FirstByte

/-- A byte inside a character is not one that can stand first. -/
theorem isInside_of_append {c : Char} {front back : List UInt8}
    (h : utf8EncodeChar c = front ++ back)
    (hfront : front ≠ []) (hback : back ≠ []) : IsInside back := by
  refine ⟨hback, ?_⟩
  intro b hb hfirst
  obtain ⟨i, hi, rfl⟩ := List.mem_iff_getElem.1 hb
  have hlength : front.length + i < (utf8EncodeChar c).length := by
    rw [h, List.length_append]
    omega
  have hget : (utf8EncodeChar c)[front.length + i] = back[i] := by
    simp [h]
  rw [← hget, UInt8.isUTF8FirstByte_getElem_utf8EncodeChar] at hfirst
  have := List.length_pos_iff.2 hfront
  omega

/-- A byte that is a character by itself is part of no other character. -/
theorem eq_of_mem_utf8EncodeChar {c d : Char} {b : UInt8} (hd : utf8EncodeChar d = [b])
    (hb : b ∈ utf8EncodeChar c) :
    c = d := by
  have hfirst : b.IsUTF8FirstByte := by
    obtain ⟨b', rest, hb', hfirst⟩ := exists_utf8EncodeChar d
    rw [hd] at hb'
    cases hb'
    exact hfirst
  obtain ⟨front, back, h⟩ := List.append_of_mem hb
  cases front with
  | nil =>
    have happend : utf8EncodeChar c ++ [] = utf8EncodeChar d ++ back := by
      rw [List.append_nil, h, hd]
      rfl
    exact (utf8EncodeChar_inj happend).1
  | cons x front =>
    have hinside := isInside_of_append h (List.cons_ne_nil x front) (List.cons_ne_nil b back)
    exact absurd hfirst (hinside.continues b List.mem_cons_self)

/-! ## Cuts -/

/-- A character of one byte is in a text iff its byte is in the encoded text. -/
theorem mem_encode_iff {d : Char} {b : UInt8} (hd : utf8EncodeChar d = [b]) {cs : List Char} :
    b ∈ encode cs ↔ d ∈ cs := by
  unfold encode
  rw [List.mem_flatMap]
  constructor
  · rintro ⟨c, hc, hb⟩
    exact eq_of_mem_utf8EncodeChar hd hb ▸ hc
  · intro hmem
    exact ⟨d, hmem, by simp [hd]⟩

/-- A cut falls between two characters or inside one. -/
theorem encode_eq_append {cs : List Char} {x y : List UInt8} (h : encode cs = x ++ y) :
    (∃ before after, cs = before ++ after ∧ x = encode before ∧ y = encode after) ∨
    ∃ before c after front back, cs = before ++ c :: after ∧
    utf8EncodeChar c = front ++ back ∧ front ≠ [] ∧
      IsInside back ∧ x = encode before ++ front ∧ y = back ++ encode after := by
  induction cs generalizing x with
  | nil =>
    obtain ⟨rfl, rfl⟩ := List.append_eq_nil_iff.1 h.symm
    exact .inl ⟨[], [], rfl, rfl, rfl⟩
  | cons c cs ih =>
    rw [encode_cons] at h
    rcases List.append_eq_append_iff.1 h with ⟨x', rfl, hrest⟩ | ⟨back, hc, rfl⟩
    · -- the cut is behind this character
      rcases ih hrest with ⟨before, after, rfl, rfl, rfl⟩ | ⟨before, d, after, front, back, rfl, hd,
        hf, hb, rfl, rfl⟩
      · exact .inl ⟨c :: before, after, rfl, rfl, rfl⟩
      · exact .inr ⟨c :: before, d, after, front, back, rfl, hd, hf, hb, by simp, rfl⟩
    · by_cases hx : x = []
      · subst hx
        exact .inl ⟨[], c :: cs, rfl, rfl, by simp [hc]⟩
      by_cases hback : back = []
      · subst hback
        exact .inl ⟨[c], cs, rfl, by simp [hc], rfl⟩
      · exact .inr ⟨[], c, cs, x, back, rfl, hc, hx, isInside_of_append hc hx hback, rfl, rfl⟩

/-! ## Places -/

theorem encode_eq_nil_iff {cs : List Char} : encode cs = [] ↔ cs = [] := by
  cases cs with
  | nil => simp
  | cons c cs => simp [String.utf8EncodeChar_ne_nil]

theorem length_encode_cons (c : Char) (cs : List Char) :
    (encode (c :: cs)).length = c.utf8Size + (encode cs).length := by
  rw [encode_cons, List.length_append, String.length_utf8EncodeChar]

theorem length_encode_eq_zero_iff {cs : List Char} : (encode cs).length = 0 ↔ cs = [] := by
  rw [List.length_eq_zero_iff, encode_eq_nil_iff]

/-- A text can be cut behind any of its characters. -/
theorem cutAt?_append (front back : List Char) :
    cutAt? (encode front).length (front ++ back) = some (front, back) := by
  induction front with
  | nil => unfold cutAt?; rfl
  | cons c front ih =>
    have hsize := c.utf8Size_pos
    obtain ⟨n, hn⟩ : ∃ n, (encode (c :: front)).length = n + 1 :=
      Nat.exists_eq_succ_of_ne_zero (by rw [length_encode_cons]; omega)
    have hrest : n + 1 - c.utf8Size = (encode front).length := by
      rw [← hn, length_encode_cons]
      omega
    rw [hn, List.cons_append, cutAt?, if_pos (by rw [← hn, length_encode_cons]; omega), hrest, ih]
    rfl

/-- A text can be cut at a place iff that is between two characters. -/
theorem cutAt?_eq_some_iff {n : Nat} {cs front back : List Char} :
    cutAt? n cs = some (front, back) ↔ cs = front ++ back ∧ (encode front).length = n := by
  constructor
  · intro h
    fun_induction cutAt? n cs generalizing front with
    | case1 =>
      cases h
      exact ⟨rfl, rfl⟩
    | case2 => cases h
    | case3 n c cs hle ih =>
      obtain ⟨⟨front', back'⟩, hrest, hparts⟩ := Option.map_eq_some_iff.1 h
      cases hparts
      obtain ⟨rfl, hlength⟩ := ih hrest
      refine ⟨rfl, ?_⟩
      rw [length_encode_cons]
      omega
    | case4 => cases h
  · rintro ⟨rfl, rfl⟩
    exact cutAt?_append front back

/-- The first place of a character is where the text is cut at it. -/
theorem offset?_eq (sep : Char) (cs : List Char) :
    offset? sep cs = (Text.cutFirst sep cs).map fun parts => (encode parts.1).length := by
  induction cs with
  | nil => rfl
  | cons c cs ih =>
    unfold offset?
    by_cases hc : c = sep
    · rw [if_pos hc, hc]
      have hcut : Text.cutFirst sep (sep :: cs) = some ([], cs) :=
        Text.cutFirst_append List.not_mem_nil cs
      rw [hcut]
      rfl
    · rw [if_neg hc, ih]
      have hcut : Text.cutFirst sep (c :: cs) =
          (Text.cutFirst sep cs).map fun parts => (c :: parts.1, parts.2) := by
        simp only [Text.cutFirst, List.dropWhile_cons, List.takeWhile_cons, bne_iff_ne.2 hc,
          if_true]
        cases cs.dropWhile (· != sep) <;> rfl
      rw [hcut, Option.map_map, Option.map_map]
      congr 1
      funext parts
      exact (length_encode_cons c parts.1).symm

end JvmAudit.Utf8
