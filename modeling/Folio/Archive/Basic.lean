import Folio.Record.CentralHeader
import Folio.Record.EndRecord
import Folio.Text.CodePage437
import Folio.Text.Utf8

/-!
# Archives

A reader trusts the central directory for names, sizes and offsets. Archives that are spread over
disks, or that need 64-bit fields, are refused.

## Main definitions

* `Entry` — what the central directory says about an entry
* `Archive` — the bytes of an archive and its entries
* `Archive.ofBytes` — reads the central directory
-/

namespace Folio

/-- What the central directory says about an entry. -/
structure Entry where
  name : String
  /-- The number of the compression method. -/
  methodId : UInt16
  /-- The checksum of the data. -/
  crc : UInt32
  /-- The size of the payload. -/
  compressedSize : Nat
  /-- The size of the data. -/
  uncompressedSize : Nat
  /-- The offset of the local header. -/
  headerOffset : Nat
  /-- The time of the last modification. -/
  modified : DosTime
  /-- The general purpose flags. -/
  flags : UInt16
  /-- The mode of a Unix file, if the entry was written on Unix. -/
  unixMode : Option UInt32
deriving DecidableEq, Repr

namespace Entry

/-- The value of a 32-bit field that sends a reader to a 64-bit field. -/
def zip64Marker : UInt32 := 0xFFFFFFFF

/-- The system of a central header that was written on Unix. -/
def unixHost : UInt16 := 3

/-- The name in a central header, in the encoding that its flags tell. -/
def nameOf (h : CentralHeader) : String :=
  if h.isUtf8 then Utf8.decodeLossy h.name else CodePage437.decode h.name

/-- What a central header says about its entry. -/
def ofHeader (h : CentralHeader) : Except Error Entry :=
  if h.compressedSize = zip64Marker ∨ h.uncompressedSize = zip64Marker
      ∨ h.localHeaderOffset = zip64Marker then
    .error (.invalidFormat (.entryZip64 (nameOf h)))
  else
    .ok {
      name := nameOf h
      methodId := h.method
      crc := h.crc
      compressedSize := h.compressedSize.toNat
      uncompressedSize := h.uncompressedSize.toNat
      headerOffset := h.localHeaderOffset.toNat
      modified := h.modified
      flags := h.flags
      unixMode :=
        if h.versionMadeBy >>> 8 = unixHost then some (h.externalAttributes >>> 16) else none }

/-- Whether the entry is encrypted. -/
def isEncrypted (e : Entry) : Bool := e.flags &&& EntryFields.encryptedFlag != 0

/-- The compression method, if it is one that can be read. -/
def method (e : Entry) : Except Error Method :=
  match Method.ofId? e.methodId with
  | some method => .ok method
  | none => .error (.unsupportedMethod e.methodId)

end Entry

/-- The bytes of an archive and its entries. -/
structure Archive where
  bytes : ByteArray
  /-- The entries, in the order of the central directory. -/
  entries : Array Entry
  /-- The offset of the central directory, before which all payloads end. -/
  directoryOffset : Nat
  /-- The comment on the archive. -/
  comment : List UInt8

namespace Archive

/-- Reads `count` central headers behind the entries in `read`. -/
def readEntries : (count : Nat) → (read : Array Entry) → Cursor → Except Error (Array Entry)
  | 0, read, _ => .ok read
  | count + 1, read, cursor =>
    match CentralHeader.decode.run cursor with
    | .error error => .error error
    | .ok (header, cursor) =>
      match Entry.ofHeader header with
      | .error error => .error error
      | .ok entry => readEntries count (read.push entry) cursor

/-- What is wrong with an end record at the given offset, if anything is. -/
def endRecordFault? (r : EndRecord) (offset : Nat) : Option FormatError :=
  if r.diskNumber ≠ 0 ∨ r.directoryDisk ≠ 0 then some .multiDisk
  else if r.totalEntries = 0xFFFF ∨ r.directoryOffset = Entry.zip64Marker then some .zip64
  else if r.diskEntries ≠ r.totalEntries then some (.entryCounts r.diskEntries r.totalEntries)
  else if offset < r.directoryOffset.toNat + r.directorySize.toNat then
    some (.directoryOverlap r.directorySize.toNat r.directoryOffset.toNat offset)
  else none

/-- The part of the bytes in which an end record says that the central directory lies. -/
def directoryBytes (bytes : ByteArray) (r : EndRecord) : ByteArray :=
  bytes.extract r.directoryOffset.toNat (r.directoryOffset.toNat + r.directorySize.toNat)

/-- Reads the central directory of an archive. -/
def ofBytes (bytes : ByteArray) : Except Error Archive := do
  let (record, offset) ← EndRecord.find bytes
  match endRecordFault? record offset with
  | some fault => throw (.invalidFormat fault)
  | none =>
    let entries ← readEntries record.totalEntries.toNat #[] (.start (directoryBytes bytes record))
    return { bytes, entries, directoryOffset := record.directoryOffset.toNat,
             comment := record.comment }

/-- The number of entries. -/
def size (a : Archive) : Nat := a.entries.size

/-- The names of the entries. -/
def names (a : Archive) : List String := a.entries.toList.map Entry.name

/-- The first entry of a name. -/
def find? (a : Archive) (name : String) : Option Entry := a.entries.find? fun e => e.name == name

end Archive

end Folio
