import JvmAudit.Text.Utf16

/-!
# Modified UTF-8

The encoding of text in class files: each UTF-16 unit is written on its own, in one byte (U+0001 to
U+007F), two bytes (U+0000 and U+0080 to U+07FF) or three. So no zero byte occurs, and a character
above U+FFFF takes six bytes.

Reading is more liberal than writing: a zero byte is read as U+0000, and a sequence may be longer
than needed.
-/

namespace JvmAudit.ModifiedUtf8

/-- The bytes of one unit. -/
def encodeUnit (u : Nat) : List UInt8 :=
  if 1 ≤ u && u < 0x80 then [.ofNat u]
  else if u < 0x800 then [.ofNat (0xC0 + u / 0x40), .ofNat (0x80 + u % 0x40)]
  else [.ofNat (0xE0 + u / 0x1000), .ofNat (0x80 + u / 0x40 % 0x40), .ofNat (0x80 + u % 0x40)]

/-- The bytes of a text. -/
def encode (text : String) : List UInt8 := (Text.units text.toList).flatMap encodeUnit

/-- Whether a byte has the form `10xxxxxx`. -/
def isTail (b : UInt8) : Bool := b.toNat / 0x40 == 2

/-- The units of a byte sequence. -/
def decodeUnits? : List UInt8 → Option (List Nat)
  | [] => some []
  | a :: rest =>
    if a.toNat < 0x80 then (decodeUnits? rest).map (a.toNat :: ·)
    else if a.toNat / 0x20 == 6 then
      match rest with
      | b :: rest =>
        if isTail b then (decodeUnits? rest).map ((a.toNat % 0x20 * 0x40 + b.toNat % 0x40) :: ·)
          else none
      | [] => none
    else if a.toNat / 0x10 == 14 then
      match rest with
      | b :: c :: rest =>
        if isTail b && isTail c then
          (decodeUnits? rest).map
            ((a.toNat % 0x10 * 0x1000 + b.toNat % 0x40 * 0x40 + c.toNat % 0x40) :: ·)
        else none
      | _ => none
    else none

/-- Reads each byte as one character, which is right when every byte is ASCII. -/
def ofAscii (bytes : List UInt8) : String := .ofList (bytes.map fun b => Char.ofNat b.toNat)

/-- Reads the bytes unit by unit. -/
def decodeGeneral? (bytes : List UInt8) : Option String :=
  ((decodeUnits? bytes).bind Text.ofUnits?).map String.ofList

/-- The text of a byte sequence. A sequence of ASCII bytes without zero needs no decoding. -/
def decode? (bytes : List UInt8) : Option String :=
  if bytes.all fun b => b != 0 && b < 0x80 then some (ofAscii bytes) else decodeGeneral? bytes

end JvmAudit.ModifiedUtf8
