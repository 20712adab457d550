import JvmAudit.Storage.Archive.Basic
import JvmAudit.Text.Utf8

/-!
# The directory of an archive

Entries of the directory, one behind the other. An entry has fields of a fixed size, then its name,
extra fields and a comment.

An extra field has a kind and a length. One kind gives sizes and offsets of eight bytes: a value of
the entry that is the greatest of four bytes is replaced, in the order size, compressed size,
offset. Another kind gives the method that an AES-encrypted entry was compressed by. All other kinds
are skipped. Where the bytes for the extra fields run out, what was read so far counts.

## Termination

Every extra field takes four bytes at least; the entries are read one by one, as many as are
announced.
-/

namespace JvmAudit.Archive

/-! ## Names -/

/-- The upper half of the character set of names that are not marked as UTF-8 (code page 437). -/
def upperNameChars : Array Char :=
  ("ÇüéâäàåçêëèïîìÄÅÉæÆôöòûùÿÖÜ¢£¥₧ƒ" ++
    "áíóúñÑªº¿⌐¬½¼¡«»░▒▓│┤╡╢╖╕╣║╗╝╜╛┐" ++
    "└┴┬├─┼╞╟╚╔╩╦╠═╬╧╨╤╥╙╘╒╓╫╪┘┌█▄▌▐▀" ++
    "αßΓπΣσµτΦΘΩδ∞φε∩≡±≥≤⌠⌡÷≈°∙·√ⁿ²■\u00a0").toList.toArray

/-- A character of a name that is not marked as UTF-8. -/
def nameChar (b : UInt8) : Char :=
  if b < 0x80 then Char.ofNat b.toNat else upperNameChars[b.toNat - 0x80]?.getD ' '

/-- The name of an entry. -/
def decodeName (isUtf8 : Bool) (raw : List UInt8) : String :=
  .ofList (if isUtf8 then Utf8.decode raw else raw.map nameChar)

/-! ## Extra fields -/

/-- The values of an entry that extra fields may change. -/
structure EntryValues where
  size : Nat
  compressedSize : Nat
  offset : Nat
  method : Nat
  /-- Whether it was said how the entry is encrypted with AES. -/
  isAesDescribed : Bool
  deriving DecidableEq, Repr

/-- The little-endian number of `n` bytes in front of others. -/
def takeNumber : Nat → List UInt8 → Option (Nat × List UInt8)
  | 0, bytes => some (0, bytes)
  | _ + 1, [] => none
  | n + 1, b :: bytes => do
    let (high, rest) ← takeNumber n bytes
    return (b.toNat + 0x100 * high, rest)

/-- Replaces a value that is the greatest of four bytes. -/
def widen (value : Nat) (bytes : List UInt8) : Option (Nat × List UInt8) :=
  if value = max32 then takeNumber 8 bytes else some (value, bytes)

/-- Takes wider sizes and offsets, and tells how many bytes they took; `none` if the bytes run
out. -/
def takeWide (v : EntryValues) (bytes : List UInt8) : EntryValues × Option Nat :=
  match widen v.size bytes with
  | none => (v, none)
  | some (size, rest) =>
    match widen v.compressedSize rest with
    | none => ({ v with size }, none)
    | some (compressedSize, rest) =>
      match widen v.offset rest with
      | none => ({ v with size, compressedSize }, none)
      | some (offset, rest) =>
        ({ v with size, compressedSize, offset }, some (bytes.length - rest.length))

/-- The length of a description of AES encryption. -/
def aesLength : Nat := 7

/-- Takes the description of AES encryption, and tells how many bytes it took; `none` if the bytes
run out. -/
def takeAes (v : EntryValues) (bytes : List UInt8) :
    Except ArchiveError (EntryValues × Option Nat) := do
  match bytes with
  | version0 :: version1 :: vendor0 :: vendor1 :: strength :: method0 :: method1 :: _ =>
    let word (low high : UInt8) : Nat := low.toNat + 0x100 * high.toNat
    if word vendor0 vendor1 ≠ 0x4541 then throw .invalidEncryptionVendor
    if word version0 version1 ∉ [1, 2] then throw .invalidEncryptionVersion
    if strength.toNat ∉ [1, 2, 3] then throw .invalidEncryptionStrength
    return ({ v with method := word method0 method1, isAesDescribed := true }, some aesLength)
  | _ => return (v, none)

/-- Takes an extra field, and tells where the next one starts; `none` if the bytes run out. The next
field comes behind all the bytes that were announced, or behind those that were taken if these are
more; after a description of AES encryption as many bytes again are passed over. -/
def takeExtra (v : EntryValues) (kind length : Nat) (bytes : List UInt8) :
    Except ArchiveError (EntryValues × Option Nat) :=
  if kind = 0x0001 then
    let (v, taken) := takeWide v bytes
    .ok (v, taken.map fun taken => max taken length)
  else if kind = 0x9901 then do
    if length ≠ aesLength then throw .invalidEncryptionLength
    let (v, taken) ← takeAes v bytes
    return (v, taken.map (· + length))
  else .ok (v, some length)

/-- Takes extra fields. -/
def takeExtras (v : EntryValues) : List UInt8 → Except ArchiveError EntryValues
  | kind0 :: kind1 :: length0 :: length1 :: bytes => do
    let kind := kind0.toNat + 0x100 * kind1.toNat
    let length := length0.toNat + 0x100 * length1.toNat
    match ← takeExtra v kind length bytes with
    | (v, some next) => takeExtras v (bytes.drop next)
    | (v, none) => return v
  | _ => .ok v
termination_by bytes => bytes.length
decreasing_by simp only [List.length_drop, List.length_cons]; omega

/-! ## Entries -/

/-- The method number of AES encryption. -/
def aesMethod : Nat := 99

/-- The bytes from `start` up to `stop`. -/
def slice (data : ByteArray) (start stop : Nat) : List UInt8 :=
  (data.extract (min start data.size) (min stop data.size)).toList

/-- Reads the directory entry at a position, and tells where the next one is. Offsets are too small
by `shift`. -/
def readEntry (data : ByteArray) (shift pos : Nat) : Except ArchiveError (ArchiveEntry × Nat) := do
  if (← numberAt data pos 4) ≠ directorySignature then throw .invalidDirectoryHeader
  let flags ← numberAt data (pos + 8) 2
  let method ← numberAt data (pos + 10) 2
  let crc ← numberAt data (pos + 16) 4
  let compressedSize ← numberAt data (pos + 20) 4
  let size ← numberAt data (pos + 24) 4
  let nameLength ← numberAt data (pos + 28) 2
  let extraLength ← numberAt data (pos + 30) 2
  let commentLength ← numberAt data (pos + 32) 2
  let offset ← numberAt data (pos + 42) 4
  let nameStart := pos + 46
  let extraStart := nameStart + nameLength
  let commentStart := extraStart + extraLength
  let next := commentStart + commentLength
  if data.size < next then throw .unexpectedEnd
  let v ← takeExtras ⟨size, compressedSize, offset, method, false⟩
    (slice data extraStart commentStart)
  if v.method = aesMethod && !v.isAesDescribed then throw .incompleteEncryption
  if max64 < v.offset + shift then throw .headerOutOfReach
  let name := decodeName (flags.testBit 11) (slice data nameStart extraStart)
  return (⟨name, flags.testBit 0, v.method, crc, v.compressedSize, v.size, v.offset + shift⟩, next)

/-- Reads `n` directory entries from a position on. -/
def readEntries (data : ByteArray) (shift : Nat) :
    Nat → Nat → Except ArchiveError (List ArchiveEntry)
  | 0, _ => .ok []
  | n + 1, pos => do
    let (entry, next) ← readEntry data shift pos
    return entry :: (← readEntries data shift n next)

end JvmAudit.Archive
