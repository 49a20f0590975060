import Folio.Bytes.Cursor

/-!
# End records

The record that closes an archive and says where its central directory lies. A comment of up to
65535 bytes may follow its fields, so a reader has to search for it from the end backwards.

## Main definitions

* `EndRecord` — the fields
* `EndRecord.encode` — the bytes of the record
* `EndRecord.decode` — reads the record
* `EndRecord.isCandidate` — a place where a record could stand: its comment ends the bytes
* `EndRecord.find` — the last of these places, and the record there

## Main results

* `EndRecord.length_encode` — the record has the size it is said to have
-/

namespace Folio

/-- The record that closes an archive. -/
structure EndRecord where
  diskNumber : UInt16
  /-- The disk on which the central directory starts. -/
  directoryDisk : UInt16
  /-- The number of central headers on this disk. -/
  diskEntries : UInt16
  /-- The number of central headers. -/
  totalEntries : UInt16
  /-- The size of the central directory. -/
  directorySize : UInt32
  /-- The offset of the central directory. -/
  directoryOffset : UInt32
  /-- A comment on the archive. -/
  comment : List UInt8
deriving DecidableEq, Repr

namespace EndRecord

/-- The word with which the record starts. -/
def signature : UInt32 := 0x06054b50

/-- The number of bytes before the comment. -/
def fixedSize : Nat := 22

/-- The longest comment that the length field can tell. -/
def maxComment : Nat := 65535

/-- The number of bytes of the record. -/
def encodedSize (r : EndRecord) : Nat := fixedSize + r.comment.length

/-- The record of an archive on one disk, without a comment. -/
def singleDisk (entries : UInt16) (size offset : UInt32) : EndRecord where
  diskNumber := 0
  directoryDisk := 0
  diskEntries := entries
  totalEntries := entries
  directorySize := size
  directoryOffset := offset
  comment := []

/-- The bytes of the record. The length field holds the length modulo `2 ^ 16`, and the comment
follows in full. -/
def encode (r : EndRecord) : List UInt8 :=
  le32 signature ++ le16 r.diskNumber ++ le16 r.directoryDisk ++ le16 r.diskEntries
    ++ le16 r.totalEntries ++ le32 r.directorySize ++ le32 r.directoryOffset
    ++ le16 (UInt16.ofNat r.comment.length) ++ r.comment

theorem length_encode (r : EndRecord) : r.encode.length = r.encodedSize := by
  simp only [encode, encodedSize, fixedSize, List.length_append, length_le16, length_le32]

/-- Reads the record. -/
def decode : Decoder EndRecord := do
  Decoder.signature signature fun _ => .endSignature
  let diskNumber ← Decoder.word16
  let directoryDisk ← Decoder.word16
  let diskEntries ← Decoder.word16
  let totalEntries ← Decoder.word16
  let directorySize ← Decoder.word32
  let directoryOffset ← Decoder.word32
  let commentLength ← Decoder.word16
  let comment ← Decoder.take commentLength.toNat
  return { diskNumber, directoryDisk, diskEntries, totalEntries, directorySize, directoryOffset,
           comment }

/-- Whether the bytes hold the signature at a place, followed by a record whose comment length
reaches exactly to their end. -/
def isCandidate (bytes : ByteArray) (place : Nat) : Bool :=
  if h : place + fixedSize ≤ bytes.size then
    have : place + 22 ≤ bytes.size := h
    [bytes[place], bytes[place + 1], bytes[place + 2], bytes[place + 3]] == le32 signature
      && place + fixedSize + (ofLe16 bytes[place + 20] bytes[place + 21]).toNat == bytes.size
  else false

/-- The last candidate among the `count` places from `first` on. -/
def lastCandidate? (bytes : ByteArray) (first : Nat) : (count : Nat) → Option Nat
  | 0 => none
  | count + 1 =>
    if isCandidate bytes (first + count) then some (first + count)
    else lastCandidate? bytes first count

/-- The last record whose comment ends the bytes, and its offset. Only places within reach of the
longest comment are looked at. -/
def find (bytes : ByteArray) : Except Error (EndRecord × Nat) :=
  if bytes.size < fixedSize then .error (.invalidFormat (.tooSmall bytes.size))
  else
    let first := bytes.size - (fixedSize + maxComment)
    match lastCandidate? bytes first (bytes.size - fixedSize + 1 - first) with
    | none => .error (.invalidFormat .noEndRecord)
    | some place =>
      match decode.run ⟨bytes, place⟩ with
      | .ok (record, _) => .ok (record, place)
      | .error fault => .error fault

end EndRecord

end Folio
