/-!
# Archives

A zip archive ends with records that say where its directory is; an entry of the directory says
where the data of a file is. Of entries with the same name the last one counts.

The errors of all stages are here: opening the archive, finding an entry, and taking out its data.
-/

namespace JvmAudit

/-- Why an archive, or an entry of it, cannot be opened. -/
inductive ArchiveError where
  /-- A structure goes beyond the end of the file. -/
  | unexpectedEnd
  /-- A position that no file can have. -/
  | invalidPosition
  /-- What should be an archive is a directory. -/
  | isDirectory
  /-- The file is shorter than an end record. -/
  | tooShort
  | noEndRecord
  /-- There is a locator and no room for the large end record that it is about. -/
  | noRoomForLargeEndRecord
  | noLargeEndRecord
  | invalidDirectoryBounds
  | directoryOutOfReach
  | invalidDirectoryHeader
  | headerOutOfReach
  | invalidLocalHeader
  /-- An entry is said to be AES-encrypted without saying how. -/
  | incompleteEncryption
  | invalidEncryptionLength
  | invalidEncryptionVendor
  | invalidEncryptionVersion
  | invalidEncryptionStrength
  | multipleDisks
  | encrypted
  | unsupportedCompression
  deriving DecidableEq, Repr

namespace ArchiveError

/-- The text of an error. -/
def message : ArchiveError → String
  | .unexpectedEnd => "failed to fill whole buffer"
  | .invalidPosition => "Invalid argument (os error 22)"
  | .isDirectory => "Is a directory (os error 21)"
  | .tooShort => "invalid Zip archive: Invalid zip header"
  | .noEndRecord => "invalid Zip archive: Could not find central directory end"
  | .noRoomForLargeEndRecord =>
    "invalid Zip archive: File cannot contain ZIP64 central directory end"
  | .noLargeEndRecord => "invalid Zip archive: Could not find ZIP64 central directory end"
  | .invalidDirectoryBounds => "invalid Zip archive: Invalid central directory size or offset"
  | .directoryOutOfReach => "invalid Zip archive: Could not seek to start of central directory"
  | .invalidDirectoryHeader => "invalid Zip archive: Invalid Central Directory header"
  | .headerOutOfReach => "invalid Zip archive: Archive header is too large"
  | .invalidLocalHeader => "invalid Zip archive: Invalid local file header"
  | .incompleteEncryption => "invalid Zip archive: AES encryption without AES extra data field"
  | .invalidEncryptionLength =>
    "unsupported Zip archive: AES extra data field has an unsupported length"
  | .invalidEncryptionVendor => "invalid Zip archive: Invalid AES vendor"
  | .invalidEncryptionVersion => "invalid Zip archive: Invalid AES vendor version"
  | .invalidEncryptionStrength => "invalid Zip archive: Invalid AES encryption strength"
  | .multipleDisks => "unsupported Zip archive: Support for multi-disk files is not implemented"
  | .encrypted => "unsupported Zip archive: Password required to decrypt file"
  | .unsupportedCompression => "unsupported Zip archive: Compression method not supported"

end ArchiveError

/-- Why the data of an entry cannot be had. -/
inductive EntryDataError where
  | checksum
  | corrupt
  /-- The compressed data ends too early. -/
  | incomplete
  deriving DecidableEq, Repr

namespace EntryDataError

/-- The text of an error. -/
def message : EntryDataError → String
  | .checksum => "Invalid checksum"
  | .corrupt => "corrupt deflate stream"
  | .incomplete => "incomplete deflate stream"

end EntryDataError

/-- An entry of the directory of an archive. -/
structure ArchiveEntry where
  name : String
  encrypted : Bool
  method : Nat
  crc : Nat
  compressedSize : Nat
  /-- The announced size of the data. -/
  size : Nat
  /-- Where the header in front of the data starts. -/
  headerStart : Nat
  deriving Repr

/-- An archive whose directory has been read. -/
structure Archive where
  data : ByteArray
  entries : List ArchiveEntry

namespace Archive

/-! ## Numbers and signatures -/

/-- The little-endian number of `n` bytes at a position. -/
def numberAt (data : ByteArray) (pos : Nat) : Nat → Except ArchiveError Nat
  | 0 => .ok 0
  | n + 1 =>
    match data[pos]? with
    | none => .error .unexpectedEnd
    | some b => do return b.toNat + 0x100 * (← numberAt data (pos + 1) n)

/-- The greatest position in a file. -/
def maxPosition : Nat := 0x7FFFFFFFFFFFFFFF

/-- The greatest number of four bytes; as a size or an offset it stands for a greater one, given
elsewhere. -/
def max32 : Nat := 0xFFFFFFFF

/-- Offsets have eight bytes at most. -/
def max64 : Nat := 0xFFFFFFFFFFFFFFFF

/-- The signature of the end record. -/
def endSignature : Nat := 0x06054b50

/-- The signature of a large end record. -/
def largeEndSignature : Nat := 0x06064b50

/-- The signature of the locator of a large end record. -/
def locatorSignature : Nat := 0x07064b50

/-- The signature of a directory entry. -/
def directorySignature : Nat := 0x02014b50

/-- The signature of the header in front of the data of an entry. -/
def localSignature : Nat := 0x04034b50

end Archive

end JvmAudit
