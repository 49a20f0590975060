import Folio.Record.EntryFields

/-!
# Central headers

The record that the central directory holds for every entry.

## Main definitions

* `CentralHeader` — the fields
* `CentralHeader.encode` — the bytes of the record
* `CentralHeader.encodedSize` — their number
* `CentralHeader.decode` — reads the record

## Main results

* `CentralHeader.length_encode` — the record has the size it is said to have
-/

namespace Folio

/-- The record that the central directory holds for an entry. -/
structure CentralHeader extends EntryFields where
  /-- The version of the format that the writer knew, with its system in the high byte. -/
  versionMadeBy : UInt16
  /-- The disk on which the entry starts. -/
  diskNumber : UInt16
  /-- The attributes that the format defines. -/
  internalAttributes : UInt16
  /-- The attributes that the writer's system defines. -/
  externalAttributes : UInt32
  localHeaderOffset : UInt32
  /-- The name of the entry, in the encoding that the flags tell. -/
  name : List UInt8
  /-- Further fields that this library does not look into. -/
  extra : List UInt8
  /-- A comment on the entry. -/
  comment : List UInt8
deriving DecidableEq, Repr

namespace CentralHeader

/-- The word with which the record starts. -/
def signature : UInt32 := 0x02014b50

/-- The number of bytes before the name. -/
def fixedSize : Nat := 46

/-- The number of bytes of the record. -/
def encodedSize (h : CentralHeader) : Nat :=
  fixedSize + h.name.length + h.extra.length + h.comment.length

/-- The bytes of the record. The length fields hold the lengths modulo `2 ^ 16`, and the name, the
extra field and the comment follow in full. -/
def encode (h : CentralHeader) : List UInt8 :=
  le32 signature ++ le16 h.versionMadeBy ++ h.toEntryFields.encode
    ++ le16 (UInt16.ofNat h.name.length) ++ le16 (UInt16.ofNat h.extra.length)
    ++ le16 (UInt16.ofNat h.comment.length) ++ le16 h.diskNumber
    ++ le16 h.internalAttributes ++ le32 h.externalAttributes ++ le32 h.localHeaderOffset
    ++ h.name ++ h.extra ++ h.comment

theorem length_encode (h : CentralHeader) : h.encode.length = h.encodedSize := by
  simp only [encode, encodedSize, fixedSize, List.length_append, length_le16, length_le32,
    EntryFields.length_encode]

/-- Reads the record. -/
def decode : Decoder CentralHeader := do
  Decoder.signature signature .centralSignature
  let versionMadeBy ← Decoder.word16
  let fields ← EntryFields.decode
  let nameLength ← Decoder.word16
  let extraLength ← Decoder.word16
  let commentLength ← Decoder.word16
  let diskNumber ← Decoder.word16
  let internalAttributes ← Decoder.word16
  let externalAttributes ← Decoder.word32
  let localHeaderOffset ← Decoder.word32
  let name ← Decoder.take nameLength.toNat
  let extra ← Decoder.take extraLength.toNat
  let comment ← Decoder.take commentLength.toNat
  return { fields with versionMadeBy, diskNumber, internalAttributes, externalAttributes,
                       localHeaderOffset, name, extra, comment }

end CentralHeader

end Folio
