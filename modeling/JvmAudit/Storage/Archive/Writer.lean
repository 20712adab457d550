import JvmAudit.Storage.Archive.Basic
import JvmAudit.Storage.Crc32

/-!
# Writing archives

An archive of files, none of them compressed: the files with a header each, the directory, and the
end record.
-/

namespace JvmAudit.Archive

/-- A little-endian number of `n` bytes. -/
def putNumber : Nat → Nat → List UInt8
  | 0, _ => []
  | n + 1, value => .ofNat value :: putNumber n (value / 0x100)

/-- The fields that the two headers of a stored entry have in common. -/
def entryFields (name : ByteArray) (data : List UInt8) : List UInt8 :=
  putNumber 2 20 ++ putNumber 2 0x800 ++ putNumber 2 0 ++ putNumber 4 0 ++
    putNumber 4 (Crc32.checksum data) ++ putNumber 4 data.length ++ putNumber 4 data.length ++
    putNumber 2 name.size ++ putNumber 2 0

/-- The header and the data of an entry. -/
def putEntry (name : ByteArray) (data : List UInt8) : List UInt8 :=
  putNumber 4 localSignature ++ entryFields name data ++ name.toList ++ data

/-- The directory entry for a file whose header starts at `offset`. -/
def putDirectoryEntry (name : ByteArray) (data : List UInt8) (offset : Nat) : List UInt8 :=
  putNumber 4 directorySignature ++ putNumber 2 20 ++ entryFields name data ++ putNumber 2 0 ++
    putNumber 2 0 ++ putNumber 2 0 ++ putNumber 4 0 ++ putNumber 4 offset ++ name.toList

/-- The files of an archive, and their directory entries; the first file starts at `offset`. -/
def putFiles (offset : Nat) : List (String × List UInt8) → List UInt8 × List UInt8
  | [] => ([], [])
  | (name, data) :: rest =>
    let entry := putEntry name.toUTF8 data
    let (files, directory) := putFiles (offset + entry.length) rest
    (entry ++ files, putDirectoryEntry name.toUTF8 data offset ++ directory)

/-- An archive of files, none of them compressed. -/
def ofFiles (files : List (String × List UInt8)) : ByteArray :=
  let (content, directory) := putFiles 0 files
  let tail := putNumber 4 endSignature ++ putNumber 4 0 ++ putNumber 2 files.length ++
    putNumber 2 files.length ++ putNumber 4 directory.length ++
    putNumber 4 content.length ++ putNumber 2 0
  ⟨(content ++ directory ++ tail).toArray⟩

end JvmAudit.Archive
