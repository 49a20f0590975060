import Folio.Archive.Basic
import Folio.Checksum.Crc32
import Folio.Payload
import Folio.Record.LocalHeader

/-!
# Reading entries

The data of an entry is found through its local header, which says where the payload starts. The
payload has to end before the central directory, and the data has to have the size and the checksum
that the central directory says.

## Main definitions

* `Archive.payload` — the payload of an entry
* `Archive.readEntry` — the data of an entry
* `Archive.readAt`, `Archive.read` — the data of an entry by index and by name
-/

namespace Folio.Archive

/-- The payload of an entry, found through its local header. -/
def payload (a : Archive) (e : Entry) : Except Error ByteArray := do
  let (header, _) ← LocalHeader.decode.run ⟨a.bytes, e.headerOffset⟩
  if header.method ≠ e.methodId then
    throw (.invalidFormat (.methodMismatch e.name header.method e.methodId))
  let offset := e.headerOffset + header.encodedSize
  if a.directoryOffset < offset + e.compressedSize then
    throw (.invalidFormat (.pastDirectory e.name e.compressedSize offset a.directoryOffset))
  return a.bytes.extract offset (offset + e.compressedSize)

/-- The data of an entry. -/
def readEntry [Codec] (a : Archive) (e : Entry) : Except Error ByteArray := do
  if e.isEncrypted then throw (.invalidFormat (.encrypted e.name))
  let method ← e.method
  let payload ← a.payload e
  let data ← decompress method payload e.uncompressedSize
  if crc32 data = e.crc then return data
  else throw (.checksumMismatch e.name e.crc (crc32 data))

/-- The data of the entry with an index. -/
def readAt [Codec] (a : Archive) (index : Nat) : Except Error ByteArray :=
  match a.entries[index]? with
  | some entry => a.readEntry entry
  | none => .error (.noEntryAt index)

/-- The data of the first entry of a name. -/
def read [Codec] (a : Archive) (name : String) : Except Error ByteArray :=
  match a.find? name with
  | some entry => a.readEntry entry
  | none => .error (.noEntryNamed name)

end Folio.Archive
