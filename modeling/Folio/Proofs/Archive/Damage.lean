import Folio.Proofs.Archive.Reading
import Folio.Proofs.Archive.RoundTrip
import Folio.Proofs.Checksum.Burst

/-!
# Damaged payloads

Whatever happens to the bytes in front of a central directory, a reader gets the same entries: the
end record and the directory stand behind them, and no record is looked for in front of the
directory. When the payload of a stored entry is damaged, the data has still the right size, so it is
the checksum that has to show it.

## Main definitions

* `overwrite` — bytes with others in the place of as many of them

## Main results

* `Archive.ofBytes_of_drop_eq` — the entries do not depend on the bytes in front of the directory
* `Archive.payload_overwrite` — the payload of an entry, when it has been overwritten
* `Archive.burst_detected` — a burst of errors in a stored entry is detected
-/

namespace Folio

/-! ### Bytes in the place of others -/

/-- The bytes with `data` in the place of as many of them. -/
def overwrite (bytes : ByteArray) (place : Nat) (data : ByteArray) : ByteArray :=
  bytes.extract 0 place ++ data ++ bytes.extract (place + data.size) bytes.size

section Overwrite

variable {bytes data : ByteArray} {place : Nat}

theorem length_take (h : place ≤ bytes.size) :
    (bytes.data.toList.take place).length = place :=
  List.length_take_of_le h

theorem toList_overwrite (bytes : ByteArray) (place : Nat) (data : ByteArray) :
    (overwrite bytes place data).data.toList = bytes.data.toList.take place ++
      (data.data.toList ++ bytes.data.toList.drop (place + data.size)) := by
  have hrest : (bytes.data.toList.drop (place + data.size)).length =
      bytes.size - (place + data.size) := List.length_drop
  simp only [overwrite, ByteArray.data_append, ByteArray.data_extract, Array.toList_append,
    Array.toList_extract, List.extract_eq_take_drop, List.append_assoc, List.drop_zero,
    Nat.sub_zero, List.take_of_length_le hrest.le]

/-- What stands in front of the place stays. -/
theorem take_overwrite (fits : place + data.size ≤ bytes.size) :
    (overwrite bytes place data).data.toList.take place = bytes.data.toList.take place := by
  rw [toList_overwrite]
  exact List.take_left' (length_take (by omega))

/-- What stands behind the overwritten bytes stays. -/
theorem drop_overwrite (fits : place + data.size ≤ bytes.size) {later : Nat}
    (hlater : place + data.size ≤ later) :
    (overwrite bytes place data).data.toList.drop later = bytes.data.toList.drop later := by
  obtain ⟨more, rfl⟩ := Nat.exists_eq_add_of_le hlater
  have hlength : (bytes.data.toList.take place ++ data.data.toList).length = place + data.size := by
    rw [List.length_append, length_take (by omega)]
    rfl
  rw [toList_overwrite, ← List.append_assoc, ← List.drop_drop, List.drop_left' hlength,
    List.drop_drop]

/-- The overwritten bytes are those that have been put there. -/
theorem extract_overwrite (fits : place + data.size ≤ bytes.size) :
    (overwrite bytes place data).extract place (place + data.size) = data := by
  refine extract_of_stands ⟨bytes.data.toList.drop (place + data.size), ?_⟩
  rw [toList_overwrite, List.drop_left' (length_take (by omega))]

end Overwrite

/-! ### Damage in front of the central directory -/

theorem EndRecord.LastAt.of_drop_eq {r : EndRecord} {bytes bytes' : ByteArray} {place : Nat}
    (h : r.LastAt bytes place)
    (same : bytes'.data.toList.drop place = bytes.data.toList.drop place) :
    r.LastAt bytes' place where
  fits := h.fits
  spells := same.trans h.spells
  last r' later hlater hstands := by
    -- A record behind the place would stand there in both.
    refine h.last r' later hlater ⟨hstands.fits, ?_⟩
    obtain ⟨more, rfl⟩ := Nat.exists_eq_add_of_le hlater.le
    rw [← hstands.spells, ← List.drop_drop, ← List.drop_drop, same]

namespace Archive

variable {bytes bytes' : ByteArray} {a : Archive}

theorem Grammar.of_drop_eq {r : EndRecord} {place : Nat} {headers : List CentralHeader}
    (g : Grammar bytes r place headers)
    (same : bytes'.data.toList.drop r.directoryOffset.toNat =
      bytes.data.toList.drop r.directoryOffset.toNat) : Grammar bytes' r place headers where
  last := by
    obtain ⟨more, hmore⟩ := Nat.exists_eq_add_of_le ((Nat.le_add_right _ _).trans g.inside)
    refine g.last.of_drop_eq ?_
    rw [hmore, ← List.drop_drop, ← List.drop_drop, same]
  oneDisk := g.oneDisk
  counts := g.counts
  count_ne := g.count_ne
  offset_ne := g.offset_ne
  inside := g.inside
  length := g.length
  readable := g.readable
  spells := same.symm ▸ g.spells

/-- The entries of an archive do not depend on the bytes in front of its central directory. -/
theorem ofBytes_of_drop_eq (accepted : ofBytes bytes = .ok a)
    (same : bytes'.data.toList.drop a.directoryOffset = bytes.data.toList.drop a.directoryOffset) :
    ofBytes bytes' = .ok { a with bytes := bytes' } := by
  obtain ⟨r, place, headers, g, rfl⟩ := ofBytes_eq_ok_iff.mp accepted
  exact ofBytes_eq_ok_iff.mpr ⟨r, place, headers, g.of_drop_eq same, rfl⟩

/-! ### Overwritten payloads -/

/-- The payload of an entry stands behind its local header. When it is overwritten, a reader still
gets the entries, and what has been put there in its place. -/
theorem payload_overwrite (accepted : ofBytes bytes = .ok a) {e : Entry}
    {payload damaged : ByteArray} (found : a.payload e = .ok payload)
    (size_eq : damaged.size = payload.size) :
    ∃ header place, LocalHeader.decode.run ⟨bytes, e.headerOffset⟩ = .ok (header, ⟨bytes, place⟩) ∧
      bytes.extract place (place + payload.size) = payload ∧
      ofBytes (overwrite bytes place damaged) =
        .ok { a with bytes := overwrite bytes place damaged } ∧
      { a with bytes := overwrite bytes place damaged }.payload e = .ok damaged := by
  obtain rfl := bytes_eq accepted
  obtain ⟨header, fits, stands, hmethod, inside, rfl⟩ := payload_eq_ok_iff.mp found
  have hbound := directoryOffset_le accepted
  have hsize : (a.bytes.extract (e.headerOffset + header.encode.length)
      (e.headerOffset + header.encode.length + e.compressedSize)).size = e.compressedSize := by
    rw [ByteArray.size_extract]
    omega
  rw [hsize] at size_eq ⊢
  generalize hplace : e.headerOffset + header.encode.length = place at inside
  have hfits : place + damaged.size ≤ a.bytes.size := by omega
  refine ⟨header, place, LocalHeader.run_decode_eq_ok_iff.mpr ⟨fits, stands, ?_⟩, rfl, ?_, ?_⟩
  · rw [← hplace, header.length_encode]
    rfl
  · exact ofBytes_of_drop_eq accepted (drop_overwrite hfits (by omega))
  -- The local header stands in front of what has been overwritten.
  · refine payload_eq_ok_iff.mpr ⟨header, fits, ?_, hmethod, hplace ▸ inside, ?_⟩
    · rw [List.prefix_iff_eq_take, slice_eq_of_take_eq (take_overwrite hfits) hplace.le]
      exact List.prefix_iff_eq_take.mp stands
    · rw [hplace, ← size_eq, extract_overwrite hfits]

/-- The payload of a stored entry is the data, if it has the right size and the right checksum. -/
theorem readEntry_of_stored [Codec] {e : Entry} {payload : ByteArray}
    (clear : e.isEncrypted = false) (stored : e.method = .ok .stored)
    (found : a.payload e = .ok payload) (size_eq : payload.size = e.uncompressedSize) :
    a.readEntry e = if crc32 payload = e.crc then .ok payload
      else .error (.checksumMismatch e.name e.crc (crc32 payload)) := by
  have hdata : decompress .stored payload e.uncompressedSize = .ok payload := if_pos size_eq
  rw [readEntry, if_neg (by simp [clear]), stored, found]
  simp only [bind, Except.bind, hdata]
  rfl

end Archive

/-- If the data of a stored entry of a finished archive is damaged in up to four bytes that follow
one another, a reader still gets all entries, and the checksum of the entry shows the damage. The
data stands behind the local header of the entry. -/
theorem Archive.burst_detected [Codec] (calls : List Addition) (s : MemorySink)
    (finished : ((Writer.start MemorySink.unbounded).addAll calls).2.finish = (.ok (), s))
    (far : ((Writer.start MemorySink.unbounded).addAll calls).2.offset < 0xFFFFFFFF)
    (small : ∀ a ∈ succeeded calls ((Writer.start MemorySink.unbounded).addAll calls).1,
      a.data.size < 0xFFFFFFFF)
    {i : Nat} {a : Addition}
    (call : (succeeded calls ((Writer.start MemorySink.unbounded).addAll calls).1)[i]? = some a)
    (stored : a.options.method = .stored) {damaged : ByteArray} (burst : Burst a.data damaged) :
    ∃ archive entry header place,
      ofBytes s.bytes = .ok archive ∧ archive.entries[i]? = some entry ∧
      EntryName.normalize a.name = .ok entry.name ∧
      LocalHeader.decode.run ⟨s.bytes, entry.headerOffset⟩ = .ok (header, ⟨s.bytes, place⟩) ∧
      s.bytes.extract place (place + a.data.size) = a.data ∧
      ofBytes (overwrite s.bytes place damaged) =
        .ok { archive with bytes := overwrite s.bytes place damaged } ∧
      ∃ error,
        { archive with bytes := overwrite s.bytes place damaged }.readAt i = .error error ∧
        error = .checksumMismatch entry.name (crc32 a.data) (crc32 damaged) ∧
        crc32 damaged ≠ crc32 a.data ∧ error.isCorruption = true := by
  obtain ⟨written, hyields, f, far, accepted⟩ := Writer.exists_finished finished far small
  obtain ⟨hi, y⟩ := yields_at hyields call
  have back : a.ReadBack (entryOf written i hi) := Entry.described_readBack y _
  have found := f.payload_eq hi y far
  rw [y.payload_of_stored stored] at found
  obtain ⟨header, place, hheader, hdata, haccepted, hdamaged⟩ :=
    payload_overwrite accepted found burst.size_eq
  refine ⟨_, entryOf written i hi, header, place, accepted, getElem?_entries hi, back.name,
    hheader, hdata, haccepted, _, ?_, rfl, burst.crc32_ne, rfl⟩
  -- The damaged data has the size that the directory says, but not the checksum.
  have hread := readEntry_of_stored back.clear (stored ▸ back.method) hdamaged
    (burst.size_eq.trans back.uncompressedSize.symm)
  rw [if_neg (back.crc ▸ burst.crc32_ne), back.crc] at hread
  rw [readAt, getElem?_entries hi]
  exact hread

/-- The data of the first sample entry with another word in the place of the signature. -/
def sampleDamaged : ByteArray :=
  ([0, 0, 0, 0] ++ (EndRecord.singleDisk 0 0 0).encode.drop 4).toByteArray

theorem sampleDamaged_burst :
    Burst (EndRecord.singleDisk 0 0 0).encode.toByteArray sampleDamaged where
  size_eq := by decide
  ne h := absurd (congrArg (·.data.toList) h) (by decide)
  window := by
    refine ⟨0, ?_⟩
    rintro i (hi | hi)
    · exact absurd hi (Nat.not_lt_zero i)
    -- Behind the first four bytes both are the same.
    · obtain ⟨more, rfl⟩ := Nat.exists_eq_add_of_le hi
      rw [Nat.zero_add, ← List.getElem?_drop, ← List.getElem?_drop]
      exact congrArg (·[more]?) (by decide : sampleDamaged.data.toList.drop 4 = _)

/-- The damage to the first sample entry is detected. -/
theorem Archive.burst_detected_sample : ∃ s archive place,
    ((Writer.start MemorySink.unbounded).addAll sampleAdditions).2.finish = (.ok (), s) ∧
    ofBytes (overwrite s.bytes place sampleDamaged) = .ok archive ∧
    archive.readAt 0 = .error (.checksumMismatch "a.zip"
      (crc32 (EndRecord.singleDisk 0 0 0).encode.toByteArray) (crc32 sampleDamaged)) := by
  obtain ⟨s, hfinish⟩ := finish_sampleWriter
  have hrun :
      ((Writer.start MemorySink.unbounded).addAll sampleAdditions).2.finish = (.ok (), s) := by
    rw [addAll_sampleAdditions]
    exact hfinish
  have hname : EntryName.normalize "a.zip" = .ok "a.zip" := by decide +kernel
  obtain ⟨archive, entry, header, place, -, -, hentry, -, -, haccepted, _, hread, rfl, -, -⟩ :=
    burst_detected sampleAdditions s hrun
      (by
        rw [addAll_sampleAdditions]
        exact offset_sampleWriter)
      (by
        rw [addAll_sampleAdditions]
        decide)
      (i := 0) (a := ⟨"a.zip", (EndRecord.singleDisk 0 0 0).encode.toByteArray, .ofMethod .stored⟩)
      (by rw [addAll_sampleAdditions]; rfl) rfl sampleDamaged_burst
  refine ⟨s, _, place, hrun, haccepted, ?_⟩
  rw [hread, Except.ok.inj (hentry.symm.trans hname)]

end Folio
