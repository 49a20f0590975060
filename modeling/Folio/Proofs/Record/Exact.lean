import Folio.Proofs.Bytes.Exact
import Folio.Record.CentralHeader
import Folio.Record.EndRecord
import Folio.Record.LocalHeader

/-!
# Records are read as they are written

The length fields of a record hold 16 bits. A record fits if its variable parts are not longer than
such a field can tell. The decoder of each kind of record is exact for the bytes of the records that
fit: it reads them wherever they stand, and whatever it reads is written with the same bytes.

## Main definitions

* `LocalHeader.Fits`, `CentralHeader.Fits`, `EndRecord.Fits` — the variable parts fit their fields

## Main results

* `LocalHeader.run_decode_eq_ok_iff`, `CentralHeader.run_decode_eq_ok_iff`,
  `EndRecord.run_decode_eq_ok_iff` — the runs of a decoder that succeed
-/

namespace Folio

open Decoder

/-- The greatest value of a length field. -/
def maxLength : Nat := 65535

/-- A length that fits its field is read back from it. -/
theorem toNat_ofNat_length {n : Nat} (h : n ≤ maxLength) : (UInt16.ofNat n).toNat = n := by
  simp only [maxLength] at h
  rw [UInt16.toNat_ofNat']
  omega

theorem toNat_le_maxLength (w : UInt16) : w.toNat ≤ maxLength := by
  have := w.toNat_lt
  simp only [maxLength]
  omega

theorem EntryFields.decode_exact :
    EntryFields.decode.Exact fun f bs => bs = f.encode := by
  refine (word16_exact.andThen fun versionNeeded => word16_exact.andThen fun flags =>
    word16_exact.andThen fun method => word16_exact.andThen fun time =>
    word16_exact.andThen fun date => word32_exact.andThen fun crc =>
    word32_exact.andThen fun compressedSize => word32_exact.andThen fun uncompressedSize =>
    Exact.pure _).congr fun f bs => ?_
  constructor
  -- Each field adds its value and the bytes behind it, and they are nested in the order of the
  -- fields.
  · rintro ⟨_, _, ⟨_, _, ⟨_, _, ⟨_, _, ⟨_, _, ⟨_, _, ⟨_, _, ⟨_, _, ⟨rfl, rfl⟩, rfl⟩, rfl⟩, rfl⟩,
      rfl⟩, rfl⟩, rfl⟩, rfl⟩, rfl⟩
    simp [EntryFields.encode]
  · rintro rfl
    exact ⟨_, _, ⟨_, _, ⟨_, _, ⟨_, _, ⟨_, _, ⟨_, _, ⟨_, _, ⟨_, _, ⟨rfl, rfl⟩, rfl⟩, rfl⟩, rfl⟩,
      rfl⟩, rfl⟩, rfl⟩, rfl⟩, by simp [EntryFields.encode]⟩

namespace LocalHeader

/-- The name and the extra field fit their length fields. -/
structure Fits (h : LocalHeader) : Prop where
  name : h.name.length ≤ maxLength
  extra : h.extra.length ≤ maxLength

theorem decode_exact : decode.Exact fun h bs => h.Fits ∧ bs = h.encode := by
  refine ((signature_exact signature .localSignature).andThen fun _ =>
    EntryFields.decode_exact.andThen fun fields =>
    word16_exact.andThen fun nameLength => word16_exact.andThen fun extraLength =>
    (take_exact nameLength.toNat).bind fun name => (take_exact extraLength.toNat).bind fun extra =>
    Exact.pure _).congr fun h bs => ?_
  constructor
  · rintro ⟨_, _, ⟨_, _, ⟨nameLength, _, ⟨extraLength, _, ⟨_, _, _, ⟨rfl, hname⟩,
      ⟨_, _, _, ⟨rfl, hextra⟩, ⟨rfl, rfl⟩, rfl⟩, rfl⟩, rfl⟩, rfl⟩, rfl⟩, rfl⟩
    refine ⟨⟨hname ▸ toNat_le_maxLength _, hextra ▸ toNat_le_maxLength _⟩, ?_⟩
    simp [encode, hname, hextra]
  · rintro ⟨fits, rfl⟩
    exact ⟨(), _, ⟨_, _, ⟨_, _, ⟨_, _, ⟨h.name, _, _, ⟨rfl, (toNat_ofNat_length fits.name).symm⟩,
      ⟨h.extra, _, _, ⟨rfl, (toNat_ofNat_length fits.extra).symm⟩, ⟨rfl, rfl⟩, rfl⟩, rfl⟩, rfl⟩,
      rfl⟩, rfl⟩, by simp [encode]⟩

/-- A local header is read from the bytes that are written for it, and from no others. -/
theorem run_decode_eq_ok_iff {c c' : Cursor} {h : LocalHeader} :
    decode.run c = .ok (h, c') ↔ h.Fits ∧ h.encode <+: c.rest ∧ c' = c.advance h.encodedSize :=
  decode_exact.run_eq_ok_iff_encode h.length_encode

end LocalHeader

namespace CentralHeader

/-- The name, the extra field and the comment fit their length fields. -/
structure Fits (h : CentralHeader) : Prop where
  name : h.name.length ≤ maxLength
  extra : h.extra.length ≤ maxLength
  comment : h.comment.length ≤ maxLength

theorem decode_exact : decode.Exact fun h bs => h.Fits ∧ bs = h.encode := by
  refine ((signature_exact signature .centralSignature).andThen fun _ =>
    word16_exact.andThen fun versionMadeBy => EntryFields.decode_exact.andThen fun fields =>
    word16_exact.andThen fun nameLength => word16_exact.andThen fun extraLength =>
    word16_exact.andThen fun commentLength => word16_exact.andThen fun diskNumber =>
    word16_exact.andThen fun internalAttributes => word32_exact.andThen fun externalAttributes =>
    word32_exact.andThen fun localHeaderOffset =>
    (take_exact nameLength.toNat).bind fun name => (take_exact extraLength.toNat).bind fun extra =>
    (take_exact commentLength.toNat).bind fun comment => Exact.pure _).congr fun h bs => ?_
  constructor
  · rintro ⟨_, _, ⟨_, _, ⟨_, _, ⟨_, _, ⟨_, _, ⟨_, _, ⟨_, _, ⟨_, _, ⟨_, _, ⟨_, _,
      ⟨_, _, _, ⟨rfl, hname⟩, ⟨_, _, _, ⟨rfl, hextra⟩, ⟨_, _, _, ⟨rfl, hcomment⟩, ⟨rfl, rfl⟩,
      rfl⟩, rfl⟩, rfl⟩, rfl⟩, rfl⟩, rfl⟩, rfl⟩, rfl⟩, rfl⟩, rfl⟩, rfl⟩, rfl⟩, rfl⟩
    refine ⟨⟨hname ▸ toNat_le_maxLength _, hextra ▸ toNat_le_maxLength _,
      hcomment ▸ toNat_le_maxLength _⟩, ?_⟩
    simp [encode, hname, hextra, hcomment]
  · rintro ⟨fits, rfl⟩
    exact ⟨(), _, ⟨_, _, ⟨_, _, ⟨_, _, ⟨_, _, ⟨_, _, ⟨_, _, ⟨_, _, ⟨_, _, ⟨_, _,
      ⟨h.name, _, _, ⟨rfl, (toNat_ofNat_length fits.name).symm⟩,
      ⟨h.extra, _, _, ⟨rfl, (toNat_ofNat_length fits.extra).symm⟩,
      ⟨h.comment, _, _, ⟨rfl, (toNat_ofNat_length fits.comment).symm⟩, ⟨rfl, rfl⟩,
      rfl⟩, rfl⟩, rfl⟩, rfl⟩, rfl⟩, rfl⟩, rfl⟩, rfl⟩, rfl⟩, rfl⟩, rfl⟩, rfl⟩, by simp [encode]⟩

/-- A central header is read from the bytes that are written for it, and from no others. -/
theorem run_decode_eq_ok_iff {c c' : Cursor} {h : CentralHeader} :
    decode.run c = .ok (h, c') ↔ h.Fits ∧ h.encode <+: c.rest ∧ c' = c.advance h.encodedSize :=
  decode_exact.run_eq_ok_iff_encode h.length_encode

end CentralHeader

namespace EndRecord

/-- The comment fits its length field. -/
def Fits (r : EndRecord) : Prop := r.comment.length ≤ maxLength

theorem decode_exact : decode.Exact fun r bs => r.Fits ∧ bs = r.encode := by
  refine ((signature_exact signature fun _ => .endSignature).andThen fun _ =>
    word16_exact.andThen fun diskNumber => word16_exact.andThen fun directoryDisk =>
    word16_exact.andThen fun diskEntries => word16_exact.andThen fun totalEntries =>
    word32_exact.andThen fun directorySize => word32_exact.andThen fun directoryOffset =>
    word16_exact.andThen fun commentLength => (take_exact commentLength.toNat).bind fun comment =>
    Exact.pure _).congr fun r bs => ?_
  constructor
  · rintro ⟨_, _, ⟨_, _, ⟨_, _, ⟨_, _, ⟨_, _, ⟨_, _, ⟨_, _, ⟨_, _, ⟨_, _, _, ⟨rfl, hcomment⟩,
      ⟨rfl, rfl⟩, rfl⟩, rfl⟩, rfl⟩, rfl⟩, rfl⟩, rfl⟩, rfl⟩, rfl⟩, rfl⟩
    refine ⟨hcomment.trans_le (toNat_le_maxLength _), ?_⟩
    simp [encode, hcomment]
  · rintro ⟨fits, rfl⟩
    exact ⟨(), _, ⟨_, _, ⟨_, _, ⟨_, _, ⟨_, _, ⟨_, _, ⟨_, _, ⟨_, _,
      ⟨r.comment, _, _, ⟨rfl, (toNat_ofNat_length fits).symm⟩, ⟨rfl, rfl⟩, rfl⟩, rfl⟩, rfl⟩, rfl⟩,
      rfl⟩, rfl⟩, rfl⟩, rfl⟩, by simp [encode]⟩

/-- An end record is read from the bytes that are written for it, and from no others. -/
theorem run_decode_eq_ok_iff {c c' : Cursor} {r : EndRecord} :
    decode.run c = .ok (r, c') ↔ r.Fits ∧ r.encode <+: c.rest ∧ c' = c.advance r.encodedSize :=
  decode_exact.run_eq_ok_iff_encode r.length_encode

end EndRecord

end Folio
