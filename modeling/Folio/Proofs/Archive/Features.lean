import Folio.Proofs.Archive.Reading

/-!
# Features that no reader supports

A reader refuses archives on several disks, 64-bit fields and encryption where it looks for them: in
the end record, in the sizes and the offset of a central header, and in bit 0 of the flags. There are
two more marks of what this library does not write. A central header names the disk on which its
entry starts, and bit 3 of the flags announces a data descriptor behind the payload. Nobody looks at
these two, so entries that bear them are read like any others.

## Main definitions

* `Archive.Checked` — an entry bears none of the marks that a reader looks for
* `Archive.Supported` — it bears none of the other marks either

## Main results

* `Archive.readEntry_described` — disk numbers and flags make no difference for what is read
* `Archive.supported_iff_of_read` — an entry that is read is a supported one if it bears none of the
  marks that nobody looks at
-/

namespace Folio.Archive

/-- The end record and the central header of an entry bear none of the marks that a reader looks
for. -/
structure Checked (r : EndRecord) (h : CentralHeader) : Prop where
  /-- The archive lies on one disk. -/
  oneDisk : r.diskNumber = 0 ∧ r.directoryDisk = 0
  /-- All of its entries lie there. -/
  counts : r.diskEntries = r.totalEntries
  /-- There are no 64-bit fields. -/
  sizes : h.compressedSize ≠ 0xFFFFFFFF ∧ h.uncompressedSize ≠ 0xFFFFFFFF ∧
    h.localHeaderOffset ≠ 0xFFFFFFFF
  /-- The entry is not encrypted. -/
  plain : h.flags.toNat.testBit 0 = false

/-- The end record and the central header of an entry bear no mark of a feature that this library
does not write. -/
structure Supported (r : EndRecord) (h : CentralHeader) : Prop extends Checked r h where
  /-- The entry starts on the only disk. -/
  firstDisk : h.diskNumber = 0
  /-- There is no data descriptor behind its payload. -/
  undescribed : h.flags.toNat.testBit 3 = false

theorem Grammar.checked {bytes : ByteArray} {r : EndRecord} {place : Nat}
    {headers : List CentralHeader} {h : CentralHeader} (g : Grammar bytes r place headers)
    (hmem : h ∈ headers) (plain : h.flags.toNat.testBit 0 = false) : Checked r h where
  oneDisk := g.oneDisk
  counts := g.counts
  sizes := by
    have hunmarked := (g.readable h hmem).unmarked
    rwa [CentralHeader.Marked, not_or, not_or] at hunmarked
  plain := plain

section Reading

variable [Codec] {a : Archive} {data : ByteArray}

theorem clear_of_read {e : Entry} (read : a.readEntry e = .ok data) :
    e.flags.toNat.testBit 0 = false := by
  simp only [readEntry, unless_eq_ok_iff, e.isEncrypted_eq_testBit, Bool.not_eq_true] at read
  exact read.1

/-- What is read is a matter of the method, the sizes, the place and the checksum. -/
theorem readEntry_of_same {e e' : Entry} (read : a.readEntry e = .ok data)
    (clear : e'.flags.toNat.testBit 0 = false) (method : e'.methodId = e.methodId)
    (place : e'.headerOffset = e.headerOffset) (payload : e'.compressedSize = e.compressedSize)
    (size : e'.uncompressedSize = e.uncompressedSize) (crc : e'.crc = e.crc) :
    a.readEntry e' = .ok data := by
  simp only [readEntry, unless_eq_ok_iff, bind_eq_ok_iff, checked_eq_ok_iff, payload_eq_ok_iff,
    Entry.isEncrypted_eq_testBit, Bool.not_eq_true, Entry.method_eq_ok_iff] at read ⊢
  rw [method, place, payload, size, crc]
  exact ⟨clear, read.2⟩

/-- Whatever the central header of an entry says about its disk and in its flags, the same data is
read, unless it says that the entry is encrypted. -/
theorem readEntry_described {h : CentralHeader} (read : a.readEntry (.described h) = .ok data)
    (disk : UInt16) {flags : UInt16} (clear : flags.toNat.testBit 0 = false) :
    a.readEntry (.described { h with diskNumber := disk, flags := flags }) = .ok data :=
  readEntry_of_same read clear rfl rfl rfl rfl rfl

/-- If an entry of an archive is read, its central header and the end record bear none of the marks
that a reader looks for. So they bear no mark of an unsupported feature at all exactly if the header
says that the entry starts on the first disk and has no data descriptor. Neither of this makes any
difference for the read. -/
theorem supported_iff_of_read {bytes : ByteArray} {i : Nat} (accepted : ofBytes bytes = .ok a)
    (read : a.readAt i = .ok data) :
    ∃ r place headers h, Grammar bytes r place headers ∧ headers[i]? = some h ∧
      a.entries[i]? = some (.described h) ∧ Checked r h ∧
      (Supported r h ↔ h.diskNumber = 0 ∧ h.flags.toNat.testBit 3 = false) ∧
      ∀ disk flags : UInt16, flags.toNat.testBit 0 = false →
        a.readEntry (.described { h with diskNumber := disk, flags := flags }) = .ok data := by
  obtain ⟨r, place, headers, g, ha⟩ := ofBytes_eq_ok_iff.mp accepted
  cases hentry : a.entries[i]? with
  | none =>
    rw [readAt, hentry] at read
    cases read
  | some e =>
    rw [readAt_of_entry hentry] at read
    have hdescribed : (headers.map Entry.described)[i]? = some e := by
      rw [← hentry, ha, List.getElem?_toArray]
    rw [List.getElem?_map, Option.map_eq_some_iff] at hdescribed
    obtain ⟨h, hget, rfl⟩ := hdescribed
    have checked := g.checked (List.mem_of_getElem? hget) (clear_of_read read)
    refine ⟨r, place, headers, h, g, hget, rfl, checked, ⟨fun s => ⟨s.firstDisk, s.undescribed⟩,
      fun unmarked => ⟨checked, unmarked.1, unmarked.2⟩⟩, fun disk flags clear => ?_⟩
    exact readEntry_described read disk clear

/-- An entry of an archive is read if the bytes hold it. -/
theorem Grammar.readAt_eq_ok (sequential : Codec.Sequential) {bytes : ByteArray} {r : EndRecord}
    {place : Nat} {headers : List CentralHeader} (g : Grammar bytes r place headers) {i : Nat}
    {h : CentralHeader} (get : headers[i]? = some h) {method : Method} {header : LocalHeader}
    (held : (Entry.described h).HeldBy bytes r.directoryOffset.toNat method header data) :
    ∃ a, ofBytes bytes = .ok a ∧ a.readAt i = .ok data := by
  refine ⟨_, ofBytes_eq_ok_iff.mpr ⟨r, place, headers, g, rfl⟩, ?_⟩
  have entry : (headers.map Entry.described).toArray[i]? = some (.described h) := by
    rw [List.getElem?_toArray, List.getElem?_map, get]
    rfl
  rw [readAt_of_entry entry]
  exact (readEntry_eq_ok_iff sequential).mpr ⟨method, header, held⟩

end Reading

/-! ### A small archive that bears marks -/

/-- The local header of an entry whose sizes and checksum are told behind its payload. -/
def streamedLocal : LocalHeader where
  versionNeeded := 20
  flags := 8
  method := 0
  modified := .epoch
  crc := 0
  compressedSize := 0
  uncompressedSize := 0
  name := [0x61]
  extra := []

/-- The data descriptor that tells them. -/
def streamedDescriptor : List UInt8 :=
  le32 0x08074b50 ++ le32 (crc32 plainData) ++ le32 2 ++ le32 2

/-- A central header for the entry. -/
def streamedCentral (flags disk : UInt16) : CentralHeader :=
  { plainCentral with flags := flags, diskNumber := disk }

/-- An archive with nothing but this entry. -/
def streamedBytes (flags disk : UInt16) : ByteArray :=
  (streamedLocal.encode ++ plainData.data.toList ++ streamedDescriptor
    ++ (streamedCentral flags disk).encode ++ (EndRecord.singleDisk 1 47 49).encode).toByteArray

theorem readable_plainCentral : Readable plainCentral where
  fits := ⟨by decide, by decide, by decide⟩
  unmarked := by
    rw [CentralHeader.Marked]
    decide

theorem grammar_streamedBytes {flags disk : UInt16}
    (last : EndRecord.find (streamedBytes flags disk) = .ok (.singleDisk 1 47 49, 96))
    (spells : (streamedCentral flags disk).encode <+:
      ((streamedBytes flags disk).data.toList.drop 49).take 47) :
    Grammar (streamedBytes flags disk) (.singleDisk 1 47 49) 96 [streamedCentral flags disk] where
  last := EndRecord.find_eq_ok_iff.mp last
  oneDisk := ⟨rfl, rfl⟩
  counts := rfl
  count_ne := by decide
  offset_ne := by decide
  inside := by decide
  length := rfl
  readable := by
    intro h hmem
    rw [List.mem_singleton.mp hmem]
    exact ⟨⟨readable_plainCentral.fits.name, readable_plainCentral.fits.extra,
      readable_plainCentral.fits.comment⟩, readable_plainCentral.unmarked⟩
  spells := by
    rw [List.flatMap_singleton]
    exact spells

theorem held_streamedBytes {flags disk : UInt16} (clear : flags.toNat.testBit 0 = false)
    (stands : streamedLocal.encode <+: (streamedBytes flags disk).data.toList.drop 0)
    (payload : ((streamedBytes flags disk).extract 31 33).data.toList = plainData.data.toList) :
    (Entry.described (streamedCentral flags disk)).HeldBy (streamedBytes flags disk) 49 .stored
      streamedLocal plainData where
  clear := clear
  named := rfl
  fits := ⟨by decide, by decide⟩
  stands := stands
  sameMethod := rfl
  inside := (by decide : 0 + streamedLocal.encode.length + 2 ≤ 49)
  decodes := ByteArray.ext (Array.toList_inj.mp payload)
  size_eq := (by decide : plainData.size = 2)
  crc_eq := rfl

theorem readAt_streamedBytes {flags disk : UInt16}
    (g : Grammar (streamedBytes flags disk) (.singleDisk 1 47 49) 96 [streamedCentral flags disk])
    (held : (Entry.described (streamedCentral flags disk)).HeldBy (streamedBytes flags disk) 49
      .stored streamedLocal plainData) :
    ∃ a, ofBytes (streamedBytes flags disk) = .ok a ∧ a.readAt 0 = .ok plainData :=
  g.readAt_eq_ok codec_sequential (i := 0) rfl held

/-- An entry with a data descriptor is read, and so is one that starts on a second disk. -/
theorem read_unsupported :
    (∃ a, ofBytes (streamedBytes 8 0) = .ok a ∧ a.readAt 0 = .ok plainData ∧
      ∃ r place h, Grammar (streamedBytes 8 0) r place [h] ∧
        h.flags.toNat.testBit 3 = true ∧ ¬ Supported r h) ∧
    ∃ a, ofBytes (streamedBytes 0 1) = .ok a ∧ a.readAt 0 = .ok plainData ∧
      ∃ r place h, Grammar (streamedBytes 0 1) r place [h] ∧
        h.diskNumber = 1 ∧ ¬ Supported r h := by
  constructor
  · have g : Grammar (streamedBytes 8 0) _ _ [streamedCentral 8 0] :=
      grammar_streamedBytes (by decide +kernel) (by decide +kernel)
    obtain ⟨a, accepted, read⟩ :=
      readAt_streamedBytes g (held_streamedBytes (by decide) (by decide +kernel) (by decide +kernel))
    refine ⟨a, accepted, read, _, _, _, g, by decide, fun s => ?_⟩
    exact absurd s.undescribed (by decide)
  · have g : Grammar (streamedBytes 0 1) _ _ [streamedCentral 0 1] :=
      grammar_streamedBytes (by decide +kernel) (by decide +kernel)
    obtain ⟨a, accepted, read⟩ :=
      readAt_streamedBytes g (held_streamedBytes (by decide) (by decide +kernel) (by decide +kernel))
    refine ⟨a, accepted, read, _, _, _, g, rfl, fun s => ?_⟩
    exact absurd s.firstDisk (by decide)

/-- An entry that bears no mark is a supported one, and is read with any marks as well. -/
theorem supported_iff_of_read_plain : ∃ a, ofBytes (streamedBytes 0 0) = .ok a ∧
    a.readAt 0 = .ok plainData ∧ Supported (.singleDisk 1 47 49) (streamedCentral 0 0) ∧
    a.readEntry (.described (streamedCentral 8 1)) = .ok plainData := by
  have g : Grammar (streamedBytes 0 0) _ _ [streamedCentral 0 0] :=
    grammar_streamedBytes (by decide +kernel) (by decide +kernel)
  obtain ⟨a, accepted, read⟩ :=
    readAt_streamedBytes g (held_streamedBytes (by decide) (by decide +kernel) (by decide +kernel))
  obtain ⟨r, place, headers, h, g', hget, -, -, hsupported, hread⟩ :=
    supported_iff_of_read accepted read
  obtain ⟨rfl, -, rfl⟩ := g.unique g'
  obtain rfl := Option.some.inj hget
  exact ⟨a, accepted, read, hsupported.mpr ⟨rfl, by decide⟩, hread 1 8 (by decide)⟩

end Folio.Archive
