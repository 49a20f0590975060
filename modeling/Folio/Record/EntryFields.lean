import Folio.Bytes.Cursor
import Folio.Calendar.DosTime

/-!
# What both headers of an entry say

An archive describes every entry twice: in front of its payload and in the central directory. Both
headers hold the same run of fields.

## Main definitions

* `EntryFields` — the fields
* `EntryFields.encode` — their bytes
* `EntryFields.decode` — reads them
-/

namespace Folio

/-- The run of fields that both headers of an entry hold. -/
structure EntryFields where
  /-- The version of the format that a reader has to know. -/
  versionNeeded : UInt16
  /-- The general purpose flags. -/
  flags : UInt16
  /-- The number of the compression method. -/
  method : UInt16
  /-- The time of the last modification. -/
  modified : DosTime
  /-- The checksum of the data. -/
  crc : UInt32
  /-- The size of the payload. -/
  compressedSize : UInt32
  /-- The size of the data. -/
  uncompressedSize : UInt32
deriving DecidableEq, Repr

namespace EntryFields

/-- The flag of an encrypted entry. -/
def encryptedFlag : UInt16 := 1

/-- The flag of an entry whose name is UTF-8. -/
def utf8Flag : UInt16 := 0x0800

/-- Whether the name of the entry is UTF-8. -/
def isUtf8 (f : EntryFields) : Bool := f.flags &&& utf8Flag != 0

/-- The bytes of the fields. -/
def encode (f : EntryFields) : List UInt8 :=
  le16 f.versionNeeded ++ le16 f.flags ++ le16 f.method ++ le16 f.modified.time
    ++ le16 f.modified.date ++ le32 f.crc ++ le32 f.compressedSize ++ le32 f.uncompressedSize

@[simp] theorem length_encode (f : EntryFields) : f.encode.length = 22 := rfl

/-- Reads the fields. -/
def decode : Decoder EntryFields := do
  let versionNeeded ← Decoder.word16
  let flags ← Decoder.word16
  let method ← Decoder.word16
  let time ← Decoder.word16
  let date ← Decoder.word16
  let crc ← Decoder.word32
  let compressedSize ← Decoder.word32
  let uncompressedSize ← Decoder.word32
  return { versionNeeded, flags, method, modified := ⟨date, time⟩, crc, compressedSize,
           uncompressedSize }

end EntryFields

end Folio
