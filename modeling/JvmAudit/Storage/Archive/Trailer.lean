import JvmAudit.Storage.Archive.Basic

/-!
# The end of an archive

Where the directory of an archive is. An archive ends with an end record and a comment. A large
archive has, in front of these, a large end record with wider fields and its locator, and then the
large one counts.

Data may stand in front of the archive: all offsets are then too small by the same amount, the
shift. With an end record it is found by comparing where the directory ends with where it should
end, with a large one by comparing where that record is with where the locator says.

## Termination

The end record is searched backwards from the last place where it fits, the large one forwards up to
the last place where it fits.
-/

namespace JvmAudit.Archive

/-- An end record. -/
structure EndRecord where
  /-- Where it starts. -/
  pos : Nat
  disk : Nat
  directoryDisk : Nat
  /-- The number of entries on this disk. -/
  count : Nat
  total : Nat
  /-- The size of the directory. -/
  size : Nat
  /-- Where the directory starts. -/
  offset : Nat
  commentLength : Nat
  deriving DecidableEq, Repr

/-- A large end record. -/
structure LargeEndRecord where
  pos : Nat
  disk : Nat
  directoryDisk : Nat
  /-- The number of entries. -/
  count : Nat
  /-- Where the directory starts. -/
  offset : Nat
  deriving DecidableEq, Repr

/-- What says where a large end record is. -/
structure Locator where
  /-- The disk of the large end record. -/
  disk : Nat
  offset : Nat
  deriving DecidableEq, Repr

/-- Where the directory of an archive is. -/
structure DirectoryPlace where
  start : Nat
  /-- The number of entries. -/
  count : Nat
  /-- By how much offsets are too small. -/
  shift : Nat
  deriving DecidableEq, Repr

/-- The size of an end record without comment. -/
def endSize : Nat := 22

/-- The size of a locator. -/
def locatorSize : Nat := 20

/-- The room that is kept for a large end record and its locator, in front of the end record. -/
def largeEndRoom : Nat := 60

/-- Whether there is a signature at a position. -/
def isAt (data : ByteArray) (signature pos : Nat) : Bool :=
  (numberAt data pos 4).toOption == some signature

/-! ## End records -/

/-- The last position at or before `pos`, and not before `lowest`, at which an end record starts. -/
def searchEnd (data : ByteArray) (lowest : Nat) (pos : Nat) : Option Nat :=
  if pos < lowest then none
  else if isAt data endSignature pos then some pos
  else
    match pos with
    | 0 => none
    | pos + 1 => searchEnd data lowest pos

/-- Reads the end record at a position. -/
def EndRecord.readAt (data : ByteArray) (pos : Nat) : Except ArchiveError EndRecord := do
  let disk ← numberAt data (pos + 4) 2
  let directoryDisk ← numberAt data (pos + 6) 2
  let count ← numberAt data (pos + 8) 2
  let total ← numberAt data (pos + 10) 2
  let size ← numberAt data (pos + 12) 4
  let offset ← numberAt data (pos + 16) 4
  let commentLength ← numberAt data (pos + 20) 2
  if data.size < pos + endSize + commentLength then throw .unexpectedEnd
  return ⟨pos, disk, directoryDisk, count, total, size, offset, commentLength⟩

/-- The end record of an archive. -/
def EndRecord.find (data : ByteArray) : Except ArchiveError EndRecord := do
  if data.size < endSize then throw .tooShort
  let last := data.size - endSize
  match searchEnd data (last - 0xFFFF) last with
  | none => throw .noEndRecord
  | some pos => readAt data pos

/-- Whether a field has the greatest number that fits, which stands for a greater one. -/
def EndRecord.isSaturated (r : EndRecord) : Bool :=
  [r.disk, r.directoryDisk, r.count, r.total].contains 0xFFFF || r.size = max32 || r.offset = max32

/-- The directory according to an end record. -/
def EndRecord.directory (r : EndRecord) : Except ArchiveError DirectoryPlace :=
  if r.pos < r.size + r.offset then .error .invalidDirectoryBounds
  else .ok ⟨r.pos - r.size, r.count, r.pos - r.size - r.offset⟩

/-! ## Large end records -/

/-- The locator, which ends where the end record starts if the comment ends with the file. -/
def Locator.find? (data : ByteArray) (r : EndRecord) : Except ArchiveError (Option Locator) := do
  let fromEnd := locatorSize + endSize + r.commentLength
  let pos := data.size - fromEnd
  if data.size < fromEnd || !isAt data locatorSignature pos then return none
  return some ⟨← numberAt data (pos + 4) 4, ← numberAt data (pos + 8) 8⟩

/-- The first of `n` positions from `pos` on at which a large end record starts. -/
def searchLargeEnd (data : ByteArray) : Nat → Nat → Option Nat
  | 0, _ => none
  | n + 1, pos => if isAt data largeEndSignature pos then some pos
    else searchLargeEnd data n (pos + 1)

/-- Reads the large end record at a position. -/
def LargeEndRecord.readAt (data : ByteArray) (pos : Nat) : Except ArchiveError LargeEndRecord := do
  return ⟨pos, ← numberAt data (pos + 16) 4, ← numberAt data
    (pos + 20) 4, ← numberAt data (pos + 32) 8, ← numberAt data (pos + 48) 8⟩

/-- The large end record that a locator is about. -/
def LargeEndRecord.find (data : ByteArray) (r : EndRecord) (l : Locator) :
    Except ArchiveError LargeEndRecord := do
  if r.pos < largeEndRoom then throw .noRoomForLargeEndRecord
  match searchLargeEnd data (r.pos - largeEndRoom + 1 - l.offset) l.offset with
  | none => throw .noLargeEndRecord
  | some pos => readAt data pos

/-- The directory according to a large end record, which should be where the locator says. -/
def LargeEndRecord.directory (r : LargeEndRecord) (l : Locator) :
    Except ArchiveError DirectoryPlace := do
  if r.disk ≠ r.directoryDisk then throw .multipleDisks
  let shift := r.pos - l.offset
  if max64 < r.offset + shift then throw .invalidDirectoryBounds
  return ⟨r.offset + shift, r.count, shift⟩

/-! ## The directory -/

/-- Where the directory is. -/
def DirectoryPlace.find (data : ByteArray) : Except ArchiveError DirectoryPlace := do
  let r ← EndRecord.find data
  if !r.isSaturated && r.disk ≠ r.directoryDisk then throw .multipleDisks
  match ← Locator.find? data r with
  | none => r.directory
  | some l =>
    if !r.isSaturated && r.disk ≠ l.disk then throw .multipleDisks
    (← LargeEndRecord.find data r l).directory l

end JvmAudit.Archive
