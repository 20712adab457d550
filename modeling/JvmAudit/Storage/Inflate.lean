/-!
# Inflating

Decompression of the deflate format. The input is a list of bits, the lowest bit of each byte first.
A stream is a sequence of blocks: stored bytes, or symbols in a prefix code that is fixed or comes
in front of them. A symbol is a byte, the end of the block, or a length; after a length comes a
distance, and that many bytes are repeated from that far back. What lies before the start of the
output counts as zero bytes.

Decoding fails if the input is corrupt, or if it ends before the last block does. What follows the
last block does not count.

## Termination

Every symbol takes at least one bit (`Code.length_lt_of_next`), and so does every block.
-/

namespace JvmAudit.Inflate

/-- Why decoding stops before the end of the stream. -/
inductive Stop where
  | truncated
  | corrupt
  deriving DecidableEq, Repr

/-- The bits of bytes. -/
def bitsOf (data : List UInt8) : List Bool :=
  data.flatMap fun b => (List.range 8).map fun i => b.toNat.testBit i

/-- Takes a number of `n` bits, the lowest bit first. -/
def number : Nat → List Bool → Except Stop (Nat × List Bool)
  | 0, bits => .ok (0, bits)
  | _ + 1, [] => .error .truncated
  | n + 1, b :: bits => do
    let (high, rest) ← number n bits
    return (b.toNat + 2 * high, rest)

/-! ## Prefix codes -/

/-- A canonical prefix code: the number of codes of each length, from one bit on, and the symbols by
code. -/
structure Code where
  counts : List Nat
  symbols : Array Nat

namespace Code

/-- The longest code. -/
def maxLength : Nat := 15

/-- The symbols with codes of a length, given the code length of each symbol. -/
def symbolsOf (lengths : List Nat) (length : Nat) : List Nat :=
  lengths.zipIdx.filterMap fun (l, symbol) => if l = length then some symbol else none

/-- The counts without zeros at the end. -/
def trim (counts : List Nat) : List Nat := (counts.reverse.dropWhile (· == 0)).reverse

/-- The code with these code lengths; zero means that a symbol does not occur. -/
def ofGroups (lengths : List Nat) : Code :=
  let groups := (List.range maxLength).map fun i => symbolsOf lengths (i + 1)
  ⟨trim (groups.map List.length), groups.flatten.toArray⟩

/-- Whether every long enough bit sequence starts with a code, and only with one. -/
def isComplete (c : Code) : Bool :=
  c.counts.foldl (fun left count => 2 * left - Int.ofNat count) (1 : Int) == 0

/-- Whether there is no code at all, or only one, of one bit. -/
def isSparse (c : Code) : Bool := c.counts == [] || c.counts == [1]

/-- A code that has to be complete. -/
def complete (lengths : List Nat) : Except Stop Code :=
  let c := ofGroups lengths
  if c.isComplete then .ok c else .error .corrupt

/-- A code that is complete or sparse. -/
def ofLengths (lengths : List Nat) : Except Stop Code :=
  let c := ofGroups lengths
  if c.isComplete || c.isSparse then .ok c else .error .corrupt

/-- Decodes a symbol: `code` is what was read so far, `first` the first code of the current length,
`index` the place of its symbol. -/
def nextFrom (symbols : Array Nat) :
    List Nat → Nat → Nat → Nat → List Bool → Except Stop (Nat × List Bool)
  | _, _, _, _, [] => .error .truncated
  | [], _, _, _, _ :: _ => .error .corrupt
  | count :: counts, code, first, index, b :: bits =>
    let code := 2 * code + b.toNat
    if code < first + count then
      match symbols[index + (code - first)]? with
      | some symbol => .ok (symbol, bits)
      | none => .error .corrupt
    else if counts.isEmpty then .error .corrupt
    else nextFrom symbols counts code (2 * (first + count)) (index + count) bits

/-- Decodes a symbol. -/
def next (c : Code) (bits : List Bool) : Except Stop (Nat × List Bool) :=
  nextFrom c.symbols c.counts 0 0 0 bits

theorem length_lt_of_nextFrom {symbols : Array Nat} {counts : List Nat}
    {code first index symbol : Nat} {bits rest : List Bool}
    (h : nextFrom symbols counts code first index bits = .ok (symbol, rest)) :
    rest.length < bits.length := by
  fun_induction nextFrom symbols counts code first index bits with
  | case1 => cases h
  | case2 => cases h
  | case3 =>
    cases h
    simp
  | case4 => cases h
  | case5 => cases h
  | case6 _ _ _ _ _ _ _ _ _ _ ih =>
    have := ih h
    simp only [List.length_cons]
    omega

/-- A symbol takes at least one bit. -/
theorem length_lt_of_next {c : Code} {bits rest : List Bool} {symbol : Nat}
    (h : c.next bits = .ok (symbol, rest)) :
    rest.length < bits.length := length_lt_of_nextFrom h

end Code

/-- The codes of a block: for bytes and lengths, and for distances. -/
structure Codes where
  literals : Code
  distances : Code

/-- The code lengths of the fixed code for bytes and lengths. -/
def fixedLiteralLengths : List Nat :=
  List.replicate 144 8 ++ List.replicate 112 9 ++ List.replicate 24 7 ++ List.replicate 8 8

/-- The fixed codes. -/
def fixedCodes : Except Stop Codes := do
  return ⟨← Code.ofLengths fixedLiteralLengths, ← Code.ofLengths (List.replicate 32 5)⟩

/-- The order in which the lengths of the codes for code lengths come. -/
def lengthOrder : List Nat := [16, 17, 18, 0, 8, 7, 9, 6, 10, 5, 11, 4, 12, 3, 13, 2, 14, 1, 15]

/-- Takes `n` numbers of three bits. -/
def triples : Nat → List Bool → Except Stop (List Nat × List Bool)
  | 0, bits => .ok ([], bits)
  | n + 1, bits => do
    let (x, bits) ← number 3 bits
    let (xs, bits) ← triples n bits
    return (x :: xs, bits)

/-- Code lengths with a run behind them. -/
def addRun (lengths : Array Nat) (value count : Nat) : Array Nat :=
  lengths ++ Array.replicate count value

/-- What a symbol of the code for code lengths adds; the bits after it give the length of a run. -/
def addLengths (lengths : Array Nat) (symbol : Nat) (bits : List Bool) :
    Except Stop (Array Nat × List Bool) :=
  if symbol < 16 then .ok (lengths.push symbol, bits)
  else if symbol = 16 then
    match lengths.back? with
    | none => .error .corrupt
    | some previous => do
      let (n, bits) ← number 2 bits
      return (addRun lengths previous (3 + n), bits)
  else if symbol = 17 then do
    let (n, bits) ← number 3 bits
    return (addRun lengths 0 (3 + n), bits)
  else do
    let (n, bits) ← number 7 bits
    return (addRun lengths 0 (11 + n), bits)

/-- Reads code lengths until there are `count`; `fuel` bounds the number of symbols, each of which
adds one length or more. -/
def codeLengths (code : Code) (count : Nat) :
    Nat → Array Nat → List Bool → Except Stop (Array Nat × List Bool)
  | 0, lengths, bits => if lengths.size = count then .ok (lengths, bits) else .error .corrupt
  | fuel + 1, lengths, bits =>
    if lengths.size < count then do
      let (symbol, bits) ← code.next bits
      let (lengths, bits) ← addLengths lengths symbol bits
      codeLengths code count fuel lengths bits
    else if lengths.size = count then .ok (lengths, bits)
    else .error .corrupt

/-- The codes in front of a block. -/
def readCodes (bits : List Bool) : Except Stop (Codes × List Bool) := do
  let (hlit, bits) ← number 5 bits
  let (hdist, bits) ← number 5 bits
  let (hclen, bits) ← number 4 bits
  let literals := hlit + 257
  let distances := hdist + 1
  if 286 < literals || 30 < distances then throw .corrupt
  let (triples, bits) ← triples (hclen + 4) bits
  let order := lengthOrder.zip triples
  let meta_ ← Code.complete ((List.range 19).map fun symbol => (order.lookup symbol).getD 0)
  let (lengths, bits) ← codeLengths meta_ (literals + distances) (literals + distances) #[] bits
  let lengths := lengths.toList
  return (⟨← Code.ofLengths (lengths.take literals), ← Code.ofLengths (lengths.drop literals)⟩,
    bits)

/-! ## Symbols -/

/-- The shortest length and the number of further bits for each length symbol. -/
def lengthTable : Array (Nat × Nat) := #[
  (3, 0), (4, 0), (5, 0), (6, 0), (7, 0), (8, 0), (9, 0), (10, 0), (11, 1), (13, 1), (15, 1),
  (17, 1), (19, 2), (23, 2), (27, 2), (31, 2), (35, 3), (43, 3), (51, 3), (59, 3), (67, 4), (83, 4),
  (99, 4), (115, 4), (131, 5), (163, 5), (195, 5), (227, 5), (258, 0)]

/-- The shortest distance and the number of further bits for each distance symbol. -/
def distanceTable : Array (Nat × Nat) := #[
  (1, 0), (2, 0), (3, 0), (4, 0), (5, 1), (7, 1), (9, 2), (13, 2), (17, 3), (25, 3), (33, 4),
  (49, 4), (65, 5), (97, 5), (129, 6), (193, 6), (257, 7), (385, 7), (513, 8), (769, 8), (1025, 9),
  (1537, 9), (2049, 10), (3073, 10), (4097, 11), (6145, 11), (8193, 12), (12289, 12),
  (16385, 13), (24577, 13)]

/-- What a symbol of the code for bytes and lengths means. -/
inductive Meaning where
  | byte (b : UInt8)
  | endOfBlock
  /-- A repetition; its length is given by a symbol of the length table. -/
  | copy (lengthSymbol : Nat)

/-- The meaning of a symbol. -/
def Meaning.ofSymbol (symbol : Nat) : Meaning :=
  if symbol < 256 then .byte (.ofNat symbol) else if symbol = 256 then .endOfBlock
    else .copy (symbol - 257)

/-- A number from a table of shortest numbers and further bits. -/
def fromTable (table : Array (Nat × Nat)) (symbol : Nat) (bits : List Bool) :
    Except Stop (Nat × List Bool) :=
  match table[symbol]? with
  | none => .error .corrupt
  | some (base, extra) => do
    let (n, bits) ← number extra bits
    return (base + n, bits)

/-- Repeats `length` bytes from `distance` bytes back, which may overlap with what is written. -/
def copyBack (out : Array UInt8) (distance : Nat) : Nat → Array UInt8
  | 0 => out
  | length + 1 =>
    let byte := if distance ≤ out.size then out[out.size - distance]?.getD 0 else 0
    copyBack (out.push byte) distance length

/-- What was decoded so far, and the bits behind it. -/
abbrev Progress := Array UInt8 × List Bool

/-- Reads the rest of a length and the distance behind it. -/
def readCopy (codes : Codes) (lengthSymbol : Nat) (bits : List Bool) :
    Except Stop (Nat × Nat × List Bool) := do
  let (length, bits) ← fromTable lengthTable lengthSymbol bits
  let (distanceSymbol, bits) ← codes.distances.next bits
  let (distance, bits) ← fromTable distanceTable distanceSymbol bits
  return (length, distance, bits)

theorem length_le_of_number {n m : Nat} {bits rest : List Bool}
    (h : number n bits = .ok (m, rest)) :
    rest.length ≤ bits.length := by
  induction n generalizing m bits rest with
  | zero => cases h; exact Nat.le_refl _
  | succ n ih =>
    cases bits with
    | nil => cases h
    | cons b bits =>
      simp only [number, bind, Except.bind] at h
      split at h
      · cases h
      · next p hp =>
        cases h
        exact Nat.le_succ_of_le (ih hp)

theorem length_le_of_fromTable {table : Array (Nat × Nat)} {symbol m : Nat} {bits rest : List Bool}
    (h : fromTable table symbol bits = .ok (m, rest)) : rest.length ≤ bits.length := by
  unfold fromTable at h
  split at h
  · cases h
  · simp only [bind, Except.bind] at h
    split at h
    · cases h
    · next p hp =>
      cases h
      exact length_le_of_number hp

theorem length_le_of_readCopy {codes : Codes} {symbol length distance : Nat} {bits rest : List Bool}
    (h : readCopy codes symbol bits = .ok (length, distance, rest)) :
    rest.length ≤ bits.length := by
  simp only [readCopy, bind, Except.bind] at h
  split at h
  · cases h
  · next p hp =>
    have h1 := length_le_of_fromTable hp
    split at h
    · cases h
    · next q hq =>
      have h2 := Code.length_lt_of_next hq
      split at h
      · cases h
      · next r hr =>
        cases h
        have h3 := length_le_of_fromTable hr
        omega

/-- Decodes the symbols of a block. -/
def symbols (codes : Codes) (out : Array UInt8) (bits : List Bool) : Except Stop Progress :=
  match _h : codes.literals.next bits with
  | .error stop => .error stop
  | .ok (symbol, rest) =>
    match Meaning.ofSymbol symbol with
    | .byte b => symbols codes (out.push b) rest
    | .endOfBlock => .ok (out, rest)
    | .copy length =>
      match _h2 : readCopy codes length rest with
      | .error stop => .error stop
      | .ok (length, distance, rest) => symbols codes (copyBack out distance length) rest
termination_by bits.length
decreasing_by
  · exact Code.length_lt_of_next _h
  · have := Code.length_lt_of_next _h
    have := length_le_of_readCopy _h2
    omega

/-! ## Blocks -/

/-- Copies `n` bytes of eight bits each. -/
def storedBytes : Nat → Array UInt8 → List Bool → Except Stop Progress
  | 0, out, bits => .ok (out, bits)
  | n + 1, out, bits => do
    let (b, bits) ← number 8 bits
    storedBytes n (out.push (.ofNat b)) bits

/-- Decodes a block of stored bytes, which starts at a byte boundary. -/
def stored (out : Array UInt8) (bits : List Bool) : Except Stop Progress := do
  let (length, bits) ← number 16 (bits.drop (bits.length % 8))
  let (check, bits) ← number 16 bits
  if length + check = 0xFFFF then storedBytes length out bits else throw .corrupt

/-- Decodes a block of a kind. -/
def block (kind : Nat) (out : Array UInt8) (bits : List Bool) : Except Stop Progress := do
  match kind with
  | 0 => stored out bits
  | 1 => symbols (← fixedCodes) out bits
  | 2 =>
    let (codes, bits) ← readCodes bits
    symbols codes out bits
  | _ => throw .corrupt

/-- Decodes blocks up to the last one; `fuel` bounds their number. -/
def blocks : Nat → Array UInt8 → List Bool → Except Stop (Array UInt8)
  | 0, _, _ => .error .truncated
  | fuel + 1, out, bits => do
    let (last, bits) ← number 1 bits
    let (kind, bits) ← number 2 bits
    let (out, bits) ← block kind out bits
    if last = 1 then return out else blocks fuel out bits

/-- Decompresses data. A block takes three bits at least. -/
def inflate (data : List UInt8) : Except Stop (List UInt8) := do
  return (← blocks (8 * data.length + 1) #[] (bitsOf data)).toList

end JvmAudit.Inflate
