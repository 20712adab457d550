/-!
# UTF-16 units

A text as a sequence of 16-bit units: a character below U+10000 is one unit, any other a high and a
low surrogate. Decoding refuses a surrogate without its partner.
-/

namespace JvmAudit.Text

/-- The units of one character. -/
def charUnits (c : Char) : List Nat :=
  if c.toNat < 0x10000 then [c.toNat]
  else [0xD800 + (c.toNat - 0x10000) / 0x400, 0xDC00 + (c.toNat - 0x10000) % 0x400]

/-- The units of a text. -/
def units (cs : List Char) : List Nat := cs.flatMap charUnits

/-- The text with these units. -/
def ofUnits? : List Nat → Option (List Char)
  | [] => some []
  | u :: rest =>
    if u < 0xD800 || 0xE000 ≤ u then (ofUnits? rest).map (Char.ofNat u :: ·)
    else if u < 0xDC00 then
      match rest with
      | v :: rest =>
        if 0xDC00 ≤ v && v < 0xE000 then
          (ofUnits? rest).map (Char.ofNat (0x10000 + (u - 0xD800) * 0x400 + (v - 0xDC00)) :: ·)
        else none
      | [] => none
    else none

end JvmAudit.Text
