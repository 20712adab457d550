import JvmAudit.Storage.Archive.Directory
import JvmAudit.Storage.Archive.Trailer
import JvmAudit.Storage.Crc32
import JvmAudit.Storage.Inflate

/-!
# The contents of an archive

Opening an archive reads its directory; the data of an entry is taken out when it is asked for.
Entries may be stored or deflated. The checksum is verified when an entry is read to its end.

Whoever reads from an archive needs only to look up files by name (`NamedFiles`), and how an archive
does that does not matter.
-/

namespace JvmAudit

/-- A file that was found by its name. -/
structure NamedFile where
  /-- The announced size. -/
  size : Nat
  /-- What reading to the end gives. -/
  data : Except EntryDataError (List UInt8)

/-- Files that are looked up by name. There are finitely many. -/
structure NamedFiles where
  find : String → Except ArchiveError (Option NamedFile)
  /-- What can be read. -/
  contents : List (List UInt8)
  mem_contents : ∀ {name file data}, find name = .ok (some file) → file.data = .ok data →
    data ∈ contents

namespace Archive

/-- Opens an archive. -/
def ofBytes (data : ByteArray) : Except ArchiveError Archive := do
  let place ← DirectoryPlace.find data
  if maxPosition < place.start then throw .directoryOutOfReach
  return ⟨data, ← readEntries data place.shift place.count place.start⟩

/-- The entry with a name. -/
def entry? (a : Archive) (name : String) : Option ArchiveEntry :=
  (a.entries.filter (·.name == name)).getLast?

/-- The stored bytes of an entry, as many as there are. -/
def storedData (a : Archive) (e : ArchiveEntry) : Except ArchiveError (List UInt8) := do
  if e.encrypted then throw .encrypted
  if maxPosition < e.headerStart then throw .invalidPosition
  if (← numberAt a.data e.headerStart 4) ≠ localSignature then throw .invalidLocalHeader
  let nameLength ← numberAt a.data (e.headerStart + 26) 2
  let extraLength ← numberAt a.data (e.headerStart + 28) 2
  let start := e.headerStart + 30 + nameLength + extraLength
  return slice a.data start (start + e.compressedSize)

/-- The data of an entry that was stored by a method. -/
def decompress (method : Nat) (stored : List UInt8) :
    Except ArchiveError (Except EntryDataError (List UInt8)) :=
  match method with
  | 0 => .ok (.ok stored)
  | 8 =>
    match Inflate.inflate stored with
    | .ok data => .ok (.ok data)
    | .error .corrupt => .ok (.error .corrupt)
    | .error .truncated => .ok (.error .incomplete)
  | _ => .error .unsupportedCompression

/-- Data with the checksum of an entry. -/
def verify (crc : Nat) (data : List UInt8) : Except EntryDataError (List UInt8) :=
  if Crc32.checksum data = crc then .ok data else .error .checksum

/-- The file of an entry. -/
def openEntry (a : Archive) (e : ArchiveEntry) : Except ArchiveError NamedFile := do
  let data ← decompress e.method (← a.storedData e)
  return ⟨e.size, data.bind (verify e.crc)⟩

/-- The file with a name, if there is one. -/
def find (a : Archive) (name : String) : Except ArchiveError (Option NamedFile) :=
  match a.entry? name with
  | none => .ok none
  | some e => (a.openEntry e).map some

/-- What can be read. -/
def contents (a : Archive) : List (List UInt8) :=
  a.entries.filterMap fun e => (a.openEntry e).toOption.bind (·.data.toOption)

theorem mem_contents_of_find {a : Archive} {name : String} {file : NamedFile} {data : List UInt8}
    (hfile : a.find name = .ok (some file)) (hdata : file.data = .ok data) : data ∈ a.contents := by
  unfold find at hfile
  split at hfile
  · cases hfile
  · next e he =>
    have hmem : e ∈ a.entries := (List.mem_filter.1 (List.mem_of_getLast? he)).1
    refine List.mem_filterMap.2 ⟨e, hmem, ?_⟩
    cases hopen : a.openEntry e with
    | error err =>
      rw [hopen] at hfile
      cases hfile
    | ok f =>
      rw [hopen] at hfile
      cases hfile
      show file.data.toOption = some data
      rw [hdata]
      rfl

/-- The files of an archive. -/
def files (a : Archive) : NamedFiles := ⟨a.find, a.contents, mem_contents_of_find⟩

end Archive

end JvmAudit
