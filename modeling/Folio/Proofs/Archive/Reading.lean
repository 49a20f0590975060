import Folio.Archive.Read
import Folio.Proofs.Archive.Grammar
import Folio.Proofs.Codecs

/-!
# Which data is read

A reader trusts the central directory for the size and the checksum of an entry, and the local
header for the place of its payload. It returns data only if all of these agree, and it returns the
data whenever they do. Since the payload has to end before the central directory, nothing behind
that place can change what is read.

## Main definitions

* `Entry.HeldBy` — what bytes hold for an entry

## Main results

* `Archive.payload_eq_ok_iff` — the payloads that are found
* `Archive.readEntry_eq_ok_iff` — the data that is read
* `Archive.readAt_iff_held` — the reads from an archive that succeed
-/

namespace Folio

/-- The flag of an encrypted entry is bit 0 of the flags. -/
theorem Entry.isEncrypted_eq_testBit (e : Entry) : e.isEncrypted = e.flags.toNat.testBit 0 := by
  have hbit : e.flags &&& EntryFields.encryptedFlag = 0 ↔ e.flags.toNat.testBit 0 = false := by
    rw [← UInt16.toNat_inj, UInt16.toNat_and]
    exact and_one_shiftLeft_eq_zero_iff e.flags.toNat 0
  rw [isEncrypted]
  cases h : e.flags.toNat.testBit 0 <;> simp [hbit, h, bne]

theorem Entry.method_eq_ok_iff {e : Entry} {method : Method} :
    e.method = .ok method ↔ e.methodId = method.id := by
  rw [Entry.method]
  constructor
  · intro h
    split at h
    · next found hfound =>
      obtain rfl := Except.ok.inj h
      exact (Method.id_of_ofId? hfound).symm
    · cases h
  · intro h
    rw [h, Method.ofId?_id]

/-! ### What bytes hold -/

/-- The bytes before a central directory that starts at `limit` hold the data for an entry, behind
the given local header. -/
structure Entry.HeldBy [Codec] (e : Entry) (bytes : ByteArray) (limit : Nat) (method : Method)
    (header : LocalHeader) (data : ByteArray) : Prop where
  /-- Bit 0 of the flags is clear. -/
  clear : e.flags.toNat.testBit 0 = false
  /-- The method is one that can be read. -/
  named : e.methodId = method.id
  /-- The parts of the local header fit their length fields. -/
  fits : header.Fits
  /-- The local header stands at the offset that the central directory says. -/
  stands : header.encode <+: bytes.data.toList.drop e.headerOffset
  /-- Its method is the same. -/
  sameMethod : header.method = e.methodId
  /-- The payload behind it ends before the central directory. -/
  inside : e.headerOffset + header.encode.length + e.compressedSize ≤ limit
  /-- The whole payload decodes to the data. -/
  decodes : method.Decodes
    (bytes.extract (e.headerOffset + header.encode.length)
      (e.headerOffset + header.encode.length + e.compressedSize)) data
  /-- The data has the size that the central directory says. -/
  size_eq : data.size = e.uncompressedSize
  /-- It has the checksum that the central directory says. -/
  crc_eq : crc32 data = e.crc

namespace Archive

theorem bytes_eq {bytes : ByteArray} {a : Archive} (accepted : ofBytes bytes = .ok a) :
    a.bytes = bytes := by
  obtain ⟨r, place, headers, -, rfl⟩ := ofBytes_eq_ok_iff.mp accepted
  rfl

/-- The central directory starts within the bytes. -/
theorem directoryOffset_le {bytes : ByteArray} {a : Archive} (accepted : ofBytes bytes = .ok a) :
    a.directoryOffset ≤ bytes.size := by
  obtain ⟨r, place, headers, g, rfl⟩ := ofBytes_eq_ok_iff.mp accepted
  have hsize := g.last.lt_size
  have hinside := g.inside
  change r.directoryOffset.toNat ≤ bytes.size
  omega

/-- The payload of an entry is found behind a local header of the same method, if it ends before the
central directory. -/
theorem payload_eq_ok_iff {a : Archive} {e : Entry} {payload : ByteArray} :
    a.payload e = .ok payload ↔ ∃ header : LocalHeader, header.Fits ∧
      header.encode <+: a.bytes.data.toList.drop e.headerOffset ∧ header.method = e.methodId ∧
      e.headerOffset + header.encode.length + e.compressedSize ≤ a.directoryOffset ∧
      payload = a.bytes.extract (e.headerOffset + header.encode.length)
        (e.headerOffset + header.encode.length + e.compressedSize) := by
  simp only [Archive.payload, bind_eq_ok_iff, unless_eq_ok_iff]
  constructor
  · rintro ⟨⟨header, rest⟩, hdecode, hmethod, hinside, hpayload⟩
    obtain ⟨fits, stands, -⟩ := LocalHeader.run_decode_eq_ok_iff.mp hdecode
    rw [← header.length_encode] at hinside hpayload
    exact ⟨header, fits, stands, not_not.mp hmethod, not_lt.mp hinside,
      (Except.ok.inj hpayload).symm⟩
  · rintro ⟨header, fits, stands, hmethod, hinside, rfl⟩
    rw [header.length_encode] at hinside ⊢
    exact ⟨(header, _), LocalHeader.run_decode_eq_ok_iff.mpr ⟨fits, stands, rfl⟩,
      not_not.mpr hmethod, not_lt.mpr hinside, rfl⟩

variable [Codec]

theorem readAt_of_entry {a : Archive} {i : Nat} {e : Entry} (entry : a.entries[i]? = some e) :
    a.readAt i = a.readEntry e := by
  rw [readAt, entry]

/-- The data of an entry is read exactly if the bytes before the central directory hold it. -/
theorem readEntry_eq_ok_iff (h : Codec.Sequential) {a : Archive} {e : Entry} {data : ByteArray} :
    a.readEntry e = .ok data ↔
      ∃ method header, e.HeldBy a.bytes a.directoryOffset method header data := by
  simp only [readEntry, unless_eq_ok_iff, bind_eq_ok_iff, checked_eq_ok_iff,
    e.isEncrypted_eq_testBit, Bool.not_eq_true, Entry.method_eq_ok_iff, payload_eq_ok_iff,
    decompress_eq_ok_iff h]
  constructor
  · rintro ⟨hclear, method, hnamed, _, ⟨header, fits, stands, hsame, hinside, rfl⟩, data,
      ⟨hdecodes, hsize⟩, hcrc, rfl⟩
    exact ⟨method, header, hclear, hnamed, fits, stands, hsame, hinside, hdecodes, hsize, hcrc⟩
  · rintro ⟨method, header, held⟩
    exact ⟨held.clear, method, held.named, _, ⟨header, held.fits, held.stands, held.sameMethod,
      held.inside, rfl⟩, data, ⟨held.decodes, held.size_eq⟩, held.crc_eq, rfl⟩

end Archive

/-! ### Bytes that are not looked at -/

/-- A part that ends before a limit is the same in bytes that are the same before the limit. -/
theorem slice_eq_of_take_eq {l l' : List UInt8} {limit place n : Nat}
    (same : l'.take limit = l.take limit) (inside : place + n ≤ limit) :
    (l'.drop place).take n = (l.drop place).take n := by
  have hcut (l : List UInt8) : (l.drop place).take n = ((l.take limit).drop place).take n := by
    rw [List.drop_take, List.take_take, Nat.min_eq_left (by omega)]
  rw [hcut l', same, ← hcut]

/-- A part is what stands at its place. -/
theorem extract_of_stands {bytes piece : ByteArray} {place : Nat}
    (stands : piece.data.toList <+: bytes.data.toList.drop place) :
    bytes.extract place (place + piece.size) = piece := by
  obtain ⟨rest, hrest⟩ := stands
  apply ByteArray.ext
  apply Array.toList_inj.mp
  rw [ByteArray.data_extract, Array.toList_extract, List.extract_eq_take_drop, ← hrest,
    Nat.add_sub_cancel_left]
  exact List.take_left

theorem extract_eq_of_take_eq {bytes bytes' : ByteArray} {limit place n : Nat}
    (same : bytes'.data.toList.take limit = bytes.data.toList.take limit)
    (inside : place + n ≤ limit) :
    bytes'.extract place (place + n) = bytes.extract place (place + n) := by
  apply ByteArray.ext
  apply Array.toList_inj.mp
  rw [ByteArray.data_extract, ByteArray.data_extract, Array.toList_extract, Array.toList_extract,
    List.extract_eq_take_drop, List.extract_eq_take_drop, Nat.add_sub_cancel_left]
  exact slice_eq_of_take_eq same inside

/-- What bytes hold for an entry stands before the central directory. -/
theorem Entry.HeldBy.of_take_eq [Codec] {e : Entry} {bytes bytes' data : ByteArray} {limit : Nat}
    {method : Method} {header : LocalHeader} (held : e.HeldBy bytes limit method header data)
    (same : bytes'.data.toList.take limit = bytes.data.toList.take limit) :
    e.HeldBy bytes' limit method header data where
  clear := held.clear
  named := held.named
  fits := held.fits
  stands := by
    have hinside := held.inside
    rw [List.prefix_iff_eq_take, slice_eq_of_take_eq same (by omega)]
    exact List.prefix_iff_eq_take.mp held.stands
  sameMethod := held.sameMethod
  inside := held.inside
  decodes := by
    rw [extract_eq_of_take_eq same held.inside]
    exact held.decodes
  size_eq := held.size_eq
  crc_eq := held.crc_eq

/-- The data of an entry of an archive is read exactly if the bytes hold it: the entry is not
encrypted, its method is one that can be read, a local header of the same method stands at its
offset, the payload behind that ends before the central directory and decodes as a whole to the
data, and the data has the size and the checksum that the central directory says. So no byte at or
behind the place of the central directory has a part in what is read. -/
theorem Archive.readAt_iff_held [Codec] (sequential : Codec.Sequential) {bytes : ByteArray}
    {a : Archive} (accepted : ofBytes bytes = .ok a) {i : Nat} {e : Entry}
    (entry : a.entries[i]? = some e) (data : ByteArray) :
    (a.readAt i = .ok data ↔
      ∃ method header, e.HeldBy bytes a.directoryOffset method header data) ∧
    ∀ bytes' : ByteArray,
      bytes'.data.toList.take a.directoryOffset = bytes.data.toList.take a.directoryOffset →
      ({ a with bytes := bytes' }.readAt i = .ok data ↔ a.readAt i = .ok data) := by
  have hread : ∀ b : ByteArray, { a with bytes := b }.readAt i = .ok data ↔
      ∃ method header, e.HeldBy b a.directoryOffset method header data := by
    intro b
    rw [readAt]
    simp only [entry]
    exact readEntry_eq_ok_iff sequential
  have hself : { a with bytes := bytes } = a := by rw [← bytes_eq accepted]
  refine ⟨?_, fun bytes' same => ?_⟩
  · rw [← hself]
    exact hread bytes
  · rw [hread bytes', ← hself, hread bytes]
    constructor
    · rintro ⟨method, header, held⟩
      exact ⟨method, header, held.of_take_eq same.symm⟩
    · rintro ⟨method, header, held⟩
      exact ⟨method, header, held.of_take_eq same⟩

/-- The data of a small entry. -/
def plainData : ByteArray := "hi".toUTF8

/-- A local header that says as little about its entry as it may: the name, the sizes and the
checksum are others. -/
def plainLocal : LocalHeader where
  versionNeeded := 20
  flags := 0
  method := 0
  modified := .epoch
  crc := 0
  compressedSize := 7
  uncompressedSize := 7
  name := [0x62]
  extra := [1, 2, 3]

/-- The central header for it. -/
def plainCentral : CentralHeader where
  versionNeeded := 20
  flags := 0
  method := 0
  modified := .epoch
  crc := crc32 plainData
  compressedSize := 2
  uncompressedSize := 2
  versionMadeBy := 20
  diskNumber := 0
  internalAttributes := 0
  externalAttributes := 0
  localHeaderOffset := 0
  name := [0x61]
  extra := []
  comment := []

/-- An archive with nothing but this entry. -/
def plainBytes : ByteArray :=
  (plainLocal.encode ++ plainData.data.toList ++ plainCentral.encode
    ++ (EndRecord.singleDisk 1 47 36).encode).toByteArray

theorem plainData_held :
    (Entry.described plainCentral).HeldBy plainBytes 36 .stored plainLocal plainData where
  clear := by decide
  named := rfl
  fits := ⟨by decide, by decide⟩
  stands := by decide +kernel
  sameMethod := rfl
  inside := by decide
  decodes := ByteArray.ext (Array.toList_inj.mp (by decide +kernel))
  size_eq := by decide
  crc_eq := rfl

/-- The data is read although the headers differ, and without the central directory too. -/
theorem Archive.readAt_iff_held_plain : ∃ a, ofBytes plainBytes = .ok a ∧
    a.readAt 0 = .ok plainData ∧
    { a with bytes := plainBytes.extract 0 36 }.readAt 0 = .ok plainData := by
  have hentries : (ofBytes plainBytes).toOption.map (fun a => (a.entries, a.directoryOffset)) =
      some (#[Entry.described plainCentral], 36) := by
    decide +kernel
  cases haccepted : ofBytes plainBytes with
  | error error => simp [haccepted, Except.toOption] at hentries
  | ok a =>
    simp only [haccepted, Except.toOption, Option.map_some, Option.some.injEq,
      Prod.mk.injEq] at hentries
    obtain ⟨hentries, hoffset⟩ := hentries
    have entry : a.entries[0]? = some (Entry.described plainCentral) := by rw [hentries]; rfl
    obtain ⟨hiff, hlocal⟩ := readAt_iff_held codec_sequential haccepted entry plainData
    have hread := hiff.mpr ⟨_, _, hoffset ▸ plainData_held⟩
    refine ⟨a, rfl, hread, (hlocal _ ?_).mpr hread⟩
    rw [hoffset]
    decide +kernel

end Folio
