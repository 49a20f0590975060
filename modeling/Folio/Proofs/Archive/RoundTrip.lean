import Folio.Proofs.Archive.Reading
import Folio.Proofs.Stream.Payload
import Folio.Proofs.Writer.Layout

/-!
# What is written is read back

A reader of a finished archive finds the end record that the writer put there, since no record can
stand behind one without a comment, and from there on it never looks for records by their
signatures. So it does not matter what the data of the entries looks like.

## Main definitions

* `Addition.ReadBack` — what an entry of an archive says is what was asked for

## Main results

* `Finished.grammar` — a finished archive is in the grammar that readers accept
* `Finished.readEntry_eq` — the data of an entry is read back
* `Archive.read_back` — the entries of an archive are the additions that succeeded
-/

namespace Folio

namespace Finished

variable {bytes : ByteArray} {written : List PreparedEntry}

/-! ### The end record -/

theorem endRecord_standsAt (f : Finished bytes written) :
    (endRecordOf written).StandsAt bytes
      ((body written).length + (directoryOf written).length) where
  fits := Nat.zero_le _
  spells := by
    rw [f.spells, ← List.append_assoc, ← List.length_append, List.drop_left]

/-- No record can stand behind a record without a comment that ends the bytes. -/
theorem endRecord_lastAt (f : Finished bytes written) :
    (endRecordOf written).LastAt bytes
      ((body written).length + (directoryOf written).length) where
  toStandsAt := f.endRecord_standsAt
  last r later hlater hstands := by
    have hsize := f.endRecord_standsAt.size_eq
    -- A later record would need 22 bytes, and fewer are left behind the start of this one.
    have hlater' := hstands.lt_size
    have hempty : (endRecordOf written).encodedSize = EndRecord.fixedSize := rfl
    omega

/-! ### The central directory -/

/-- What the end record says. -/
theorem directoryOffset_eq (f : Finished bytes written) :
    (endRecordOf written).directoryOffset.toNat = (body written).length :=
  toNat_ofNat_size f.offset_lt

theorem directorySize_eq (f : Finished bytes written) :
    (endRecordOf written).directorySize.toNat = (directoryOf written).length :=
  toNat_ofNat_size f.size_lt

theorem totalEntries_eq (few : written.length ≤ Writer.maxEntries) :
    (endRecordOf written).totalEntries.toNat = written.length := by
  have hcount : (endRecordOf written).totalEntries = UInt16.ofNat written.length := rfl
  simp only [Writer.maxEntries] at few
  rw [hcount, UInt16.toNat_ofNat']
  omega

/-- The part of the bytes that the end record gives as the central directory. -/
theorem directory_eq (f : Finished bytes written) :
    (bytes.data.toList.drop (endRecordOf written).directoryOffset.toNat).take
      (endRecordOf written).directorySize.toNat = directoryOf written := by
  rw [f.directoryOffset_eq, f.directorySize_eq, f.spells, List.drop_left, List.take_left]

/-- An entry stands in its place. -/
theorem stands (f : Finished bytes written) {i : Nat} (h : i < written.length) :
    written[i].bytes <+: bytes.data.toList.drop (body (written.take i)).length := by
  obtain ⟨tail, htail⟩ := f.drop_place i h
  refine ⟨tail ++ (directoryOf written ++ (endRecordOf written).encode), ?_⟩
  rw [htail, PreparedEntry.bytes, List.append_assoc]

/-- An entry ends before the central directory. -/
theorem length_place_le {i : Nat} (h : i < written.length) :
    (body (written.take i)).length + written[i].header.encodedSize + written[i].payload.size ≤
      (body written).length := by
  have hle := length_body_take_mono written (i := i + 1) h
  rw [List.take_length, length_body_take_succ h, PreparedEntry.length_bytes] at hle
  omega

variable [Codec]

/-- A header that says where its entry stands is none that sends a reader to 64-bit fields. -/
theorem readable {i : Nat} (h : i < written.length) {a : Addition} (y : a.Yields written[i])
    (far : (body written).length < 0xFFFFFFFF) (small : a.data.size < 0xFFFFFFFF) :
    Archive.Readable (written[i].centralHeader (body (written.take i)).length) where
  fits := y.centralHeader_fits _
  unmarked := by
    -- Neither the place of an entry nor its size is a marker, since both lie below the offset of
    -- the directory.
    have hle := length_place_le h
    have hplace : (UInt32.ofNat (body (written.take i)).length).toNat =
        (body (written.take i)).length := toNat_ofNat_size (by
      simp only [Writer.fieldLimit]
      omega)
    -- A marker in any of the three fields would be a number that is too large.
    rintro (hmark | hmark | hmark)
    · have hsize := y.compressedSize.symm.trans (congrArg UInt32.toNat hmark)
      simp only [UInt32.reduceToNat] at hsize
      omega
    · have hsize := y.uncompressedSize.symm.trans (congrArg UInt32.toNat hmark)
      simp only [UInt32.reduceToNat] at hsize
      omega
    · have hoffset := hplace.symm.trans (congrArg UInt32.toNat hmark)
      simp only [UInt32.reduceToNat] at hoffset
      omega

/-- A finished archive is in the grammar that readers accept. -/
theorem grammar (f : Finished bytes written) (few : written.length ≤ Writer.maxEntries)
    (far : (body written).length < 0xFFFFFFFF)
    (yielded : ∀ e ∈ written, ∃ a : Addition, a.Yields e ∧ a.data.size < 0xFFFFFFFF) :
    Archive.Grammar bytes (endRecordOf written)
      ((body written).length + (directoryOf written).length) (centralHeaders 0 written) where
  last := f.endRecord_lastAt
  oneDisk := ⟨rfl, rfl⟩
  counts := rfl
  count_ne hmark := by
    have hcount := (totalEntries_eq few).symm.trans (congrArg UInt16.toNat hmark)
    simp only [UInt16.reduceToNat] at hcount
    simp only [Writer.maxEntries] at few
    omega
  offset_ne hmark := by
    have hoffset := f.directoryOffset_eq.symm.trans (congrArg UInt32.toNat hmark)
    simp only [UInt32.reduceToNat] at hoffset
    omega
  inside := by rw [f.directoryOffset_eq, f.directorySize_eq]
  length := by rw [length_centralHeaders, totalEntries_eq few]
  readable h hmem := by
    obtain ⟨i, hi, rfl⟩ := List.getElem_of_mem hmem
    rw [length_centralHeaders] at hi
    obtain ⟨a, y, small⟩ := yielded _ (List.getElem_mem hi)
    rw [getElem_centralHeaders, Nat.zero_add]
    exact readable hi y far small
  spells := by
    rw [f.directory_eq]
    exact List.prefix_rfl

end Finished

/-! ### Entries -/

/-- What an entry of an archive says is what was asked for. -/
structure Addition.ReadBack [Codec] (a : Addition) (entry : Entry) : Prop where
  /-- The name is the normalized one. -/
  name : EntryName.normalize a.name = .ok entry.name
  /-- It is marked as UTF-8 if it is not ASCII, and there are no other flags. -/
  flags : entry.flags = if EntryName.isAscii entry.name then 0 else 0x0800
  /-- The method is the one that was asked for. -/
  method : entry.method = .ok a.options.method
  /-- The checksum is that of the data. -/
  crc : entry.crc = crc32 a.data
  /-- The size of the data. -/
  uncompressedSize : entry.uncompressedSize = a.data.size
  /-- The size of the payload. -/
  compressedSize : ∃ payload, compress a.options.method a.options.level a.data = .ok payload ∧
    entry.compressedSize = payload.size
  /-- The time is the one that was asked for, or the start of the packed times. -/
  modified : entry.modified = a.options.modified.getD .epoch
  /-- The mode is that of a regular file with the given permissions, as far as it fits. -/
  unixMode : entry.unixMode =
    some (UInt32.ofNat ((0o100000 ||| a.options.permissions.toNat) % 0x10000))

/-- No entry is encrypted. -/
theorem Addition.ReadBack.clear [Codec] {a : Addition} {entry : Entry} (back : a.ReadBack entry) :
    entry.isEncrypted = false := by
  rw [Entry.isEncrypted, back.flags]
  split <;> decide

/-- The payload of a stored entry is its data. -/
theorem Addition.Yields.payload_of_stored [Codec] {a : Addition} {e : PreparedEntry}
    (y : a.Yields e) (stored : a.options.method = .stored) : e.payload = a.data := by
  rcases compress_cases y.payload with ⟨-, hpayload⟩ | ⟨n, -, hmethod, -⟩ | ⟨n, -, -, hmethod, -⟩
  · exact hpayload
  · simp [stored] at hmethod
  · simp [stored] at hmethod

/-- A header from this writer names Unix as its system. -/
theorem PreparedEntry.versionMadeBy_eq [Codec] {a : Addition} {e : PreparedEntry} (y : a.Yields e)
    (place : Nat) : (e.centralHeader place).versionMadeBy.toNat / 0x100 = 3 := by
  have hversion : (e.centralHeader place).versionMadeBy =
      Writer.unixHost <<< 8 ||| a.options.method.versionNeeded := by
    rw [PreparedEntry.centralHeader, y.header_eq]
    rfl
  rw [hversion]
  cases a.options.method <;> decide

theorem PreparedEntry.mode_eq [Codec] {a : Addition} {e : PreparedEntry} (y : a.Yields e)
    (place : Nat) : (e.centralHeader place).externalAttributes.toNat / 0x10000 =
      (0o100000 ||| a.options.permissions.toNat) % 0x10000 := by
  have hattributes := congrArg PreparedEntry.attributes y.described
  simp only [Writer.describe] at hattributes
  rw [PreparedEntry.centralHeader, hattributes, UInt32.toNat_shiftLeft, UInt32.toNat_or]
  have hshift : (16 : UInt32).toNat % 32 = 16 := rfl
  have hfile : Writer.regularFile.toNat = 0o100000 := rfl
  rw [hshift, hfile, Nat.shiftLeft_eq]
  omega

/-- The name of an entry is read back in the encoding in which it was written. -/
theorem Entry.described_name [Codec] {a : Addition} {e : PreparedEntry} (y : a.Yields e)
    (place : Nat) : (Entry.described (e.centralHeader place)).name = e.name := by
  have hflags : (e.centralHeader place).flags = EntryName.flags e.name := y.header_flags
  have hname : (e.centralHeader place).name = e.name.toUTF8.data.toList := y.header_name
  simp only [described, hflags, hname, EntryName.testBit_flags]
  cases hascii : EntryName.isAscii e.name with
  | true => exact CodePage437.decode_toUTF8 hascii
  | false => exact Utf8.decodeLossy_toUTF8 e.name

/-- The entry that a reader gets says what was asked for. -/
theorem Entry.described_readBack [Codec] {a : Addition} {e : PreparedEntry} (y : a.Yields e)
    (place : Nat) : a.ReadBack (Entry.described (e.centralHeader place)) where
  name := by
    rw [Entry.described_name y]
    exact y.name
  flags := by
    rw [Entry.described_name y]
    exact y.header_flags
  method := by
    have hmethod : (Entry.described (e.centralHeader place)).methodId = a.options.method.id :=
      congrArg (·.method) y.header_eq
    rw [Entry.method, hmethod, Method.ofId?_id]
  crc := congrArg (·.crc) y.header_eq
  uncompressedSize := y.uncompressedSize
  compressedSize := ⟨e.payload, y.payload, y.compressedSize⟩
  modified := congrArg (·.modified) y.header_eq
  unixMode := by
    rw [Entry.described]
    simp only [PreparedEntry.versionMadeBy_eq y, if_true, PreparedEntry.mode_eq y]

/-! ### Data -/

/-- The archive that a reader gets from finished bytes. -/
def archiveOf (bytes : ByteArray) (written : List PreparedEntry) : Archive where
  bytes := bytes
  entries := ((centralHeaders 0 written).map Entry.described).toArray
  directoryOffset := (body written).length
  comment := []

/-- The entry that a reader gets for the one with an index. -/
def entryOf (written : List PreparedEntry) (i : Nat) (h : i < written.length) : Entry :=
  Entry.described (written[i].centralHeader (body (written.take i)).length)

theorem getElem_described {written : List PreparedEntry} {i : Nat}
    (h : i < ((centralHeaders 0 written).map Entry.described).length) :
    ((centralHeaders 0 written).map Entry.described)[i] =
      entryOf written i (by simpa using h) := by
  rw [List.getElem_map, getElem_centralHeaders, Nat.zero_add, entryOf]

theorem getElem?_entries {bytes : ByteArray} {written : List PreparedEntry} {i : Nat}
    (h : i < written.length) :
    (archiveOf bytes written).entries[i]? = some (entryOf written i h) := by
  have hi : i < ((centralHeaders 0 written).map Entry.described).length := by simpa using h
  rw [archiveOf, List.getElem?_toArray, List.getElem?_eq_getElem hi, getElem_described]

theorem exists_entryOf {bytes : ByteArray} {written : List PreparedEntry} {i : Nat} {e : Entry}
    (entry : (archiveOf bytes written).entries[i]? = some e) :
    ∃ h : i < written.length, e = entryOf written i h := by
  have h : i < written.length := by
    simpa [archiveOf] using (Array.getElem?_eq_some_iff.mp entry).1
  rw [getElem?_entries h] at entry
  exact ⟨h, (Option.some.inj entry).symm⟩

/-- A reader gets the place of an entry, since it lies before the central directory. -/
theorem headerOffset_entryOf {written : List PreparedEntry} {i : Nat} (h : i < written.length)
    (far : (body written).length < 0xFFFFFFFF) :
    (entryOf written i h).headerOffset = (body (written.take i)).length := by
  have hle := Finished.length_place_le h
  refine toNat_ofNat_size ?_
  simp only [Writer.fieldLimit]
  omega

namespace Finished

variable [Codec] {bytes : ByteArray} {written : List PreparedEntry} {i : Nat} {a : Addition}

theorem ofBytes_eq (f : Finished bytes written) (few : written.length ≤ Writer.maxEntries)
    (far : (body written).length < 0xFFFFFFFF)
    (yielded : ∀ e ∈ written, ∃ a : Addition, a.Yields e ∧ a.data.size < 0xFFFFFFFF) :
    Archive.ofBytes bytes = .ok (archiveOf bytes written) := by
  refine Archive.ofBytes_eq_ok_iff.mpr ⟨_, _, _, f.grammar few far yielded, ?_⟩
  rw [f.directoryOffset_eq]
  rfl

/-- The payload of an entry is found in any bytes in which the entry stands in its place. -/
theorem payload_of_stands (h : i < written.length) (y : a.Yields written[i])
    (far : (body written).length < 0xFFFFFFFF)
    (stands : written[i].bytes <+: bytes.data.toList.drop (body (written.take i)).length) :
    (archiveOf bytes written).payload (entryOf written i h) = .ok written[i].payload := by
  have hsize : (entryOf written i h).compressedSize = written[i].payload.size := y.compressedSize
  have hheader := (List.prefix_append _ _).trans stands
  -- The reader trusts the local header for the start of the payload, and the central one for its
  -- size.
  refine Archive.payload_eq_ok_iff.mpr ⟨written[i].header, y.header_fits, ?_, rfl, ?_, ?_⟩
  · rw [headerOffset_entryOf h far]
    exact hheader
  · rw [headerOffset_entryOf h far, hsize, LocalHeader.length_encode]
    exact length_place_le h
  · rw [headerOffset_entryOf h far, hsize]
    obtain ⟨tail, htail⟩ := stands
    rw [PreparedEntry.bytes, List.append_assoc] at htail
    refine (extract_of_stands ⟨tail, ?_⟩).symm
    change _ = bytes.data.toList.drop _
    rw [← List.drop_drop, ← htail, List.drop_left]

/-- The payload of an entry is found through its local header. -/
theorem payload_eq (f : Finished bytes written) (h : i < written.length)
    (y : a.Yields written[i]) (far : (body written).length < 0xFFFFFFFF) :
    (archiveOf bytes written).payload (entryOf written i h) = .ok written[i].payload :=
  payload_of_stands h y far (f.stands h)

/-- The data of an entry is read back, whatever it looks like. -/
theorem readEntry_eq (f : Finished bytes written) (lawful : Codec.Lawful) (h : i < written.length)
    (y : a.Yields written[i]) (far : (body written).length < 0xFFFFFFFF) :
    (archiveOf bytes written).readEntry (entryOf written i h) = .ok a.data := by
  have back : a.ReadBack (entryOf written i h) := Entry.described_readBack y _
  have hencrypted : ¬ (entryOf written i h).isEncrypted = true := by simp [back.clear]
  have hdata : decompress a.options.method written[i].payload
      (entryOf written i h).uncompressedSize = .ok a.data := by
    rw [back.uncompressedSize]
    exact decompress_compress lawful y.payload
  rw [Archive.readEntry, if_neg hencrypted, back.method, f.payload_eq h y far]
  simp only [bind, Except.bind, hdata, back.crc]
  rfl

/-- The first entry of a name is the only one. -/
theorem find?_eq (yielded : ∀ e ∈ written, ∃ a : Addition, a.Yields e)
    (nodup : (written.map PreparedEntry.name).Nodup) (h : i < written.length) :
    (archiveOf bytes written).find? (entryOf written i h).name = some (entryOf written i h) := by
  have hname : ∀ (j : Nat) (hj : j < written.length),
      (entryOf written j hj).name = written[j].name := by
    intro j hj
    obtain ⟨a, y⟩ := yielded _ (List.getElem_mem hj)
    exact Entry.described_name y _
  have hi : i < ((centralHeaders 0 written).map Entry.described).length := by simpa using h
  rw [Archive.find?, archiveOf, List.find?_toArray, List.find?_eq_some_iff_getElem]
  refine ⟨by simp, i, hi, getElem_described hi, fun j hj => ?_⟩
  rw [getElem_described, hname, hname]
  simp only [Bool.not_eq_true', beq_eq_false_iff_ne, ne_eq]
  -- An entry before this one has another name.
  have hne := List.pairwise_iff_getElem.mp nodup j i (by simp; omega) (by simpa using h) hj
  simpa using hne

end Finished

/-- The entry of an addition has the same index. -/
theorem yields_at [Codec] {calls : List Addition} {written : List PreparedEntry}
    (h : List.Forall₂ Addition.Yields calls written) {i : Nat} {a : Addition}
    (call : calls[i]? = some a) : ∃ hi : i < written.length, a.Yields written[i] := by
  obtain ⟨hi, rfl⟩ := List.getElem?_eq_some_iff.mp call
  obtain ⟨hlength, hget⟩ := List.forall₂_iff_get.mp h
  exact ⟨hlength ▸ hi, hget i hi (hlength ▸ hi)⟩

/-- Readers get the entries of an archive that has been finished without a 64-bit marker. -/
theorem Writer.Holds.accepted [Codec] {w : Writer MemorySink} {written : List PreparedEntry}
    {calls : List Addition} {s : MemorySink} (h : w.Holds written)
    (hyields : List.Forall₂ Addition.Yields calls written) (finished : w.finish = (.ok (), s))
    (far : w.offset < 0xFFFFFFFF) (small : ∀ a ∈ calls, a.data.size < 0xFFFFFFFF) :
    Finished s.bytes written ∧ (body written).length < 0xFFFFFFFF ∧
      Archive.ofBytes s.bytes = .ok (archiveOf s.bytes written) := by
  rw [h.offset] at far
  have f := h.finished finished
  refine ⟨f, far, f.ofBytes_eq h.few far fun e he => ?_⟩
  obtain ⟨a, ha, y⟩ := exists_yields hyields he
  exact ⟨a, y, small a ha⟩

/-- What has been finished without a 64-bit marker are the entries of the additions that succeeded,
and a reader gets them. -/
theorem Writer.exists_finished [Codec] {calls : List Addition} {s : MemorySink}
    (finished : ((start MemorySink.unbounded).addAll calls).2.finish = (.ok (), s))
    (far : ((start MemorySink.unbounded).addAll calls).2.offset < 0xFFFFFFFF)
    (small : ∀ a ∈ succeeded calls ((start MemorySink.unbounded).addAll calls).1,
      a.data.size < 0xFFFFFFFF) :
    ∃ written,
      List.Forall₂ Addition.Yields
        (succeeded calls ((start MemorySink.unbounded).addAll calls).1) written ∧
      Finished s.bytes written ∧ (body written).length < 0xFFFFFFFF ∧
      Archive.ofBytes s.bytes = .ok (archiveOf s.bytes written) := by
  obtain ⟨written, h, hyields⟩ := start_holds.addAll calls
  rw [List.nil_append] at h
  exact ⟨written, hyields, h.accepted hyields finished far small⟩

/-- If an archive without a 64-bit marker has been finished over a sink without a limit, readers
accept it. Its entries are the additions that succeeded, in their order, and the data of each of
them is read back by its index and by its name. The sizes of the payloads need no condition of their
own, since all payloads stand in front of the central directory. -/
theorem Archive.read_back [Codec] (lawful : Codec.Lawful) (calls : List Addition) (s : MemorySink)
    (finished : ((Writer.start MemorySink.unbounded).addAll calls).2.finish = (.ok (), s))
    (far : ((Writer.start MemorySink.unbounded).addAll calls).2.offset < 0xFFFFFFFF)
    (small : ∀ a ∈ succeeded calls ((Writer.start MemorySink.unbounded).addAll calls).1,
      a.data.size < 0xFFFFFFFF) :
    ∃ archive, ofBytes s.bytes = .ok archive ∧ archive.comment = [] ∧
      List.Forall₂ Addition.ReadBack
        (succeeded calls ((Writer.start MemorySink.unbounded).addAll calls).1)
        archive.entries.toList ∧
      ∀ (i : Nat) (a : Addition) (entry : Entry),
        (succeeded calls ((Writer.start MemorySink.unbounded).addAll calls).1)[i]? = some a →
        archive.entries[i]? = some entry →
        archive.readAt i = .ok a.data ∧ archive.read entry.name = .ok a.data := by
  obtain ⟨written, h, hyields⟩ := Writer.start_holds.addAll calls
  rw [List.nil_append] at h
  rw [h.offset] at far
  have f := h.finished finished
  have yielded : ∀ e ∈ written, ∃ a : Addition, a.Yields e ∧ a.data.size < 0xFFFFFFFF := by
    intro e he
    obtain ⟨a, ha, y⟩ := exists_yields hyields he
    exact ⟨a, y, small a ha⟩
  -- From here on the additions and the entries are compared index by index.
  obtain ⟨hlength, hget⟩ := List.forall₂_iff_get.mp hyields
  refine ⟨archiveOf s.bytes written, f.ofBytes_eq h.few far yielded, rfl, ?_, ?_⟩
  · refine List.forall₂_iff_get.mpr ⟨by simpa [archiveOf] using hlength, fun i hi hi' => ?_⟩
    have hentry : (archiveOf s.bytes written).entries.toList[i] =
        entryOf written i (hlength ▸ hi) := getElem_described (by simpa [archiveOf] using hi')
    rw [List.get_eq_getElem, List.get_eq_getElem, hentry]
    exact Entry.described_readBack (hget i hi (hlength ▸ hi)) _
  · intro i a entry hcall hentry
    obtain ⟨hi, rfl⟩ := List.getElem?_eq_some_iff.mp hcall
    have hi' : i < written.length := hlength ▸ hi
    have y := hget i hi hi'
    rw [getElem?_entries hi'] at hentry
    obtain rfl := Option.some.inj hentry
    have hread := f.readEntry_eq lawful hi' y far
    refine ⟨?_, ?_⟩
    -- The entry is found by its index, and by its name since no entry before it has that.
    · rw [readAt, getElem?_entries hi']
      exact hread
    · have named : ∀ e ∈ written, ∃ a : Addition, a.Yields e :=
        fun e he => (yielded e he).imp fun _ y => y.1
      rw [Archive.read, Finished.find?_eq named h.nodup hi']
      exact hread

/-- Three additions, of which the second one fails. The data of the first one looks like an end
record, and the name of the last one is not ASCII. -/
def sampleAdditions : List Addition :=
  [⟨"a.zip", (EndRecord.singleDisk 0 0 0).encode.toByteArray, .ofMethod .stored⟩,
    ⟨"a.zip", .empty, .ofMethod .stored⟩,
    ⟨"ä.txt", "hello".toUTF8, .ofMethod .deflated⟩]

/-- The entry of the first addition. -/
def sampleStored : PreparedEntry :=
  Writer.describe "a.zip" (EndRecord.singleDisk 0 0 0).encode.toByteArray
    (EndRecord.singleDisk 0 0 0).encode.toByteArray (.ofMethod .stored)

/-- The entry of the last addition. -/
def sampleDeflated : PreparedEntry :=
  Writer.describe "ä.txt" "hello".toUTF8 (Deflate.encode 6 "hello".toUTF8) (.ofMethod .deflated)

/-- The writer after the additions. -/
def sampleWriter : Writer MemorySink :=
  ((Writer.start MemorySink.unbounded).extended sampleStored).extended sampleDeflated

theorem addAll_sampleAdditions : (Writer.start MemorySink.unbounded).addAll sampleAdditions =
    ([.ok (), .error (.duplicateEntry "a.zip"), .ok ()], sampleWriter) := by
  have hnames : ((Writer.start MemorySink.unbounded).extended sampleStored).names =
      (∅ : Std.HashSet String).insert "a.zip" := rfl
  have htaken : ((Writer.start MemorySink.unbounded).extended sampleStored).names.contains
      "a.zip" = true := by
    simp [hnames]
  have hname : EntryName.normalize "a.zip" = .ok "a.zip" := by decide +kernel
  have hfirst := Writer.start_unlimited.add_eq_ok
    (a := ⟨"a.zip", (EndRecord.singleDisk 0 0 0).encode.toByteArray, .ofMethod .stored⟩)
    (e := sampleStored) ⟨by decide +kernel, rfl, rfl, by decide, by decide⟩
    ⟨rfl, by simp [Writer.start], by decide, by decide⟩
  have hsecond := Writer.add_of_duplicate
    (w := (Writer.start MemorySink.unbounded).extended sampleStored)
    (a := ⟨"a.zip", .empty, .ofMethod .stored⟩) rfl hname htaken
  have hthird := (Writer.start_unlimited.extended sampleStored).add_eq_ok
    (a := ⟨"ä.txt", "hello".toUTF8, .ofMethod .deflated⟩) (e := sampleDeflated)
    ⟨by decide +kernel, rfl, rfl, by decide,
      (Deflate.size_encode_le 6 "hello".toUTF8).trans_lt (by decide)⟩
    ⟨rfl, by
      rw [hnames, Std.HashSet.contains_insert]
      simp [sampleDeflated, Writer.describe], by decide, by decide⟩
  simp only [sampleAdditions, Writer.addAll_cons, Writer.addAll_nil] at hfirst hsecond hthird ⊢
  simp only [hfirst, hsecond, hthird, sampleWriter]

theorem size_sampleDeflated_le : sampleDeflated.payload.size ≤ 10 := by
  have hpayload : sampleDeflated.payload = Deflate.encode 6 "hello".toUTF8 := by
    simp only [sampleDeflated, Writer.describe]
  have hbound :
      "hello".toUTF8.size + 5 * (("hello".toUTF8.size - 1) / Deflate.maxPlain + 1) = 10 := by
    decide
  rw [hpayload, ← hbound]
  exact Deflate.size_encode_le 6 "hello".toUTF8

theorem offset_sampleWriter : sampleWriter.offset < 0xFFFFFFFF := by
  have hstored : sampleStored.header.encodedSize ≤ 35 := by decide +kernel
  have hdata : sampleStored.payload.size ≤ 22 := by decide +kernel
  have hdeflated : sampleDeflated.header.encodedSize ≤ 36 := by decide +kernel
  have hle : sampleWriter.offset ≤ 0 + 35 + 22 + 36 + 10 :=
    Writer.offset_extended_le (Writer.offset_extended_le (Nat.le_refl 0) hstored hdata) hdeflated
      size_sampleDeflated_le
  exact hle.trans_lt (by decide)

theorem size_directory_sampleWriter :
    (Writer.directoryBytes sampleWriter.directory).size = 103 := by
  have hdirectory : sampleWriter.directory.toList = [sampleStored.centralHeader 0,
      sampleDeflated.centralHeader
        (0 + sampleStored.header.encodedSize + sampleStored.payload.size)] := rfl
  have hstored : (sampleStored.centralHeader 0).encodedSize = 51 := by decide +kernel
  have hdeflated : ∀ place, (sampleDeflated.centralHeader place).encodedSize = 52 := fun _ => by
    have hname : sampleDeflated.header.name.length = 6 := by decide +kernel
    rw [sampleDeflated.encodedSize_centralHeader, hname, CentralHeader.fixedSize]
  rw [Writer.size_directoryBytes, hdirectory]
  simp only [List.flatMap_cons, List.flatMap_nil, List.length_append, List.length_nil,
    CentralHeader.length_encode, hstored, hdeflated]

theorem finish_sampleWriter : ∃ s, sampleWriter.finish = (.ok (), s) := by
  have h : sampleWriter.Unlimited :=
    (Writer.start_unlimited.extended sampleStored).extended sampleDeflated
  have hfault : sampleWriter.closingFault? = none := by
    rw [Writer.closingFault?_eq_none_iff, size_directory_sampleWriter]
    exact ⟨rfl, offset_sampleWriter.trans (by decide), by decide⟩
  rcases h.finish_cases with ⟨error, herror, -⟩ | ⟨-, hfinish⟩
  · simp [hfault] at herror
  · exact ⟨_, hfinish⟩

/-- The two entries of the sample are read back. -/
theorem Archive.read_back_sample :
    ∃ s archive,
      ((Writer.start MemorySink.unbounded).addAll sampleAdditions).2.finish = (.ok (), s) ∧
      ofBytes s.bytes = .ok archive ∧ archive.names = ["a.zip", "ä.txt"] ∧
      archive.readAt 0 = .ok (EndRecord.singleDisk 0 0 0).encode.toByteArray ∧
      archive.read "ä.txt" = .ok "hello".toUTF8 := by
  obtain ⟨s, hfinish⟩ := finish_sampleWriter
  have hrun :
      ((Writer.start MemorySink.unbounded).addAll sampleAdditions).2.finish = (.ok (), s) := by
    rw [addAll_sampleAdditions]
    exact hfinish
  obtain ⟨archive, hread, -, hback, hdata⟩ := Archive.read_back codec_lawful sampleAdditions s hrun
    (by
      rw [addAll_sampleAdditions]
      exact offset_sampleWriter)
    (by
      rw [addAll_sampleAdditions]
      decide)
  rw [addAll_sampleAdditions] at hback hdata
  -- Two additions have succeeded, so there are two entries.
  obtain ⟨x, y, hentries, hx, hy⟩ : ∃ x y, archive.entries.toList = [x, y] ∧
      EntryName.normalize "a.zip" = .ok x.name ∧ EntryName.normalize "ä.txt" = .ok y.name := by
    generalize archive.entries.toList = entries at hback
    rcases hback with _ | ⟨hx, _ | ⟨hy, ⟨⟩⟩⟩
    exact ⟨_, _, rfl, hx.name, hy.name⟩
  have hstored : EntryName.normalize "a.zip" = .ok "a.zip" := by decide +kernel
  have hdeflated : EntryName.normalize "ä.txt" = .ok "ä.txt" := by decide +kernel
  have hx' : x.name = "a.zip" := Except.ok.inj (hx.symm.trans hstored)
  have hy' : y.name = "ä.txt" := Except.ok.inj (hy.symm.trans hdeflated)
  have hget : archive.entries = #[x, y] := Array.toList_inj.mp hentries
  refine ⟨s, archive, hrun, hread, by simp [Archive.names, hentries, hx', hy'],
    (hdata 0 _ x rfl (by rw [hget]; rfl)).1, ?_⟩
  rw [← hy']
  exact (hdata 1 _ y rfl (by rw [hget]; rfl)).2

end Folio
