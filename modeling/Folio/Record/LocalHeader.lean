import Folio.Record.EntryFields

/-!
# Local headers

The record in front of the payload of every entry.

## Main definitions

* `LocalHeader` — the fields
* `LocalHeader.encode` — the bytes of the record
* `LocalHeader.encodedSize` — their number
* `LocalHeader.decode` — reads the record

## Main results

* `LocalHeader.length_encode` — the record has the size it is said to have
-/

namespace Folio

/-- The record in front of the payload of an entry. -/
structure LocalHeader extends EntryFields where
  /-- The name of the entry, in the encoding that the flags tell. -/
  name : List UInt8
  /-- Further fields that this library does not look into. -/
  extra : List UInt8
deriving DecidableEq, Repr

namespace LocalHeader

/-- The word with which the record starts. -/
def signature : UInt32 := 0x04034b50

/-- The number of bytes before the name. -/
def fixedSize : Nat := 30

/-- The number of bytes of the record. -/
def encodedSize (h : LocalHeader) : Nat := fixedSize + h.name.length + h.extra.length

/-- The bytes of the record. The length fields hold the lengths modulo `2 ^ 16`, and the name and
the extra field follow in full. -/
def encode (h : LocalHeader) : List UInt8 :=
  le32 signature ++ h.toEntryFields.encode
    ++ le16 (UInt16.ofNat h.name.length) ++ le16 (UInt16.ofNat h.extra.length)
    ++ h.name ++ h.extra

theorem length_encode (h : LocalHeader) : h.encode.length = h.encodedSize := by
  simp only [encode, encodedSize, fixedSize, List.length_append, length_le16, length_le32,
    EntryFields.length_encode]

/-- Reads the record. -/
def decode : Decoder LocalHeader := do
  Decoder.signature signature .localSignature
  let fields ← EntryFields.decode
  let nameLength ← Decoder.word16
  let extraLength ← Decoder.word16
  let name ← Decoder.take nameLength.toNat
  let extra ← Decoder.take extraLength.toNat
  return { fields with name, extra }

end LocalHeader

end Folio
