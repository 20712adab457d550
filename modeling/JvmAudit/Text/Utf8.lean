/-!
# UTF-8

The bytes of a text, places in a text that are counted in bytes, and decoding that never fails:
bytes that are no UTF-8 are read as U+FFFD. The bytes that begin a character without finishing it
count as one such place, every other byte that cannot begin a character as one of its own.

A decoder stands between two characters or inside one. Inside, it knows how many bytes are owed and
between which bounds the next one lies; the first owed byte has narrower bounds after some leading
bytes, which keeps out surrogates, numbers above U+10FFFF, and sequences that are longer than
needed.
-/

namespace JvmAudit.Utf8

/-- The bytes of a text. -/
def bytes (text : String) : List UInt8 := text.toUTF8.data.toList

/-! ## Places in a text -/

/-- The parts of a text in front of a place and behind it. There are none if the place is inside a
character or behind the end. -/
def cutAt? : Nat → List Char → Option (List Char × List Char)
  | 0, cs => some ([], cs)
  | _ + 1, [] => none
  | n + 1, c :: cs =>
    if c.utf8Size ≤ n + 1 then
      (cutAt? (n + 1 - c.utf8Size) cs).map fun (front, back) => (c :: front, back)
    else none

/-- The first place of a character. -/
def offset? (sep : Char) : List Char → Option Nat
  | [] => none
  | c :: cs => if c = sep then some 0 else (offset? sep cs).map (c.utf8Size + ·)

/-! ## Decoding with repairs -/

/-- A character that has begun. -/
structure Pending where
  /-- How many bytes are owed. -/
  owed : Nat
  /-- The bounds of the next byte. -/
  low : Nat
  high : Nat
  /-- The number that the bytes make up so far. -/
  value : Nat
  deriving DecidableEq, Repr

/-- What stands for bytes that are no UTF-8. -/
def replacement : Char := '�'

/-- A character of several bytes that begins with this one. -/
def Pending.ofLead? (b : Nat) : Option Pending :=
  if 0xC2 ≤ b && b ≤ 0xDF then some ⟨1, 0x80, 0xBF, b - 0xC0⟩
  else if b = 0xE0 then some ⟨2, 0xA0, 0xBF, 0⟩
  else if b = 0xED then some ⟨2, 0x80, 0x9F, 0xD⟩
  else if 0xE1 ≤ b && b ≤ 0xEF then some ⟨2, 0x80, 0xBF, b - 0xE0⟩
  else if b = 0xF0 then some ⟨3, 0x90, 0xBF, 0⟩
  else if 0xF1 ≤ b && b ≤ 0xF3 then some ⟨3, 0x80, 0xBF, b - 0xF0⟩
  else if b = 0xF4 then some ⟨3, 0x80, 0x8F, 4⟩
  else none

/-- Takes a byte between two characters. -/
def start (b : Nat) : List Char × Option Pending :=
  if b < 0x80 then ([Char.ofNat b], none)
  else
    match Pending.ofLead? b with
    | some p => ([], some p)
    | none => ([replacement], none)

/-- Takes a byte inside a character; one that does not fit ends it and counts for itself. -/
def Pending.next (p : Pending) (b : Nat) : List Char × Option Pending :=
  if p.low ≤ b && b ≤ p.high then
    let value := p.value * 0x40 + (b - 0x80)
    if p.owed ≤ 1 then ([Char.ofNat value], none) else ([], some ⟨p.owed - 1, 0x80, 0xBF, value⟩)
  else
    let (chars, pending) := start b
    (replacement :: chars, pending)

/-- Decodes bytes, the first of which may belong to a character that has begun. -/
def decodeFrom (pending : Option Pending) : List UInt8 → List Char
  | [] => if pending.isSome then [replacement] else []
  | b :: bytes =>
    let (chars, pending) := match pending with
      | some p => p.next b.toNat
      | none => start b.toNat
    chars ++ decodeFrom pending bytes

/-- The text of bytes, with repairs. -/
def decode (bytes : List UInt8) : List Char := decodeFrom none bytes

example : decode [0xE2, 0x82, 0xAC, 0x41] = ['€', 'A'] := by decide

example : decode [0xE2, 0x82, 0x41] = [replacement, 'A'] := by decide

example : decode [0xC0, 0xAF] = [replacement, replacement] := by decide

example : decode [0xF0, 0x9F, 0x98] = [replacement] := by decide

end JvmAudit.Utf8
