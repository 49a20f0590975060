import Folio.Proofs.Archive.Damage

/-!
# Damage that does not spread

The records of the entries are laid end to end, and a reader of an entry looks at its own record and
at the central directory only. So whatever is written over the record of one entry, be it the
likeness of an end record or of another header, every other entry is read as before. And since the
directory tells the size and the checksum of the data, the damaged entry is not read as anything
that does not have them.

## Main definitions

* `Archive.recordEnd` — where the record of an entry ends

## Main results

* `slice_overwrite` — what stands apart from the overwritten bytes stays
* `records_apart` — the records of two entries stand apart
* `Finished.readEntry_overwrite` — an entry is read as before when another one is overwritten
* `Archive.damage_contained` — damage to one entry of a finished archive
-/

namespace Folio

/-- What stands in front of the overwritten bytes or behind them stays. -/
theorem slice_overwrite {bytes data : ByteArray} {place start n : Nat}
    (fits : place + data.size ≤ bytes.size)
    (apart : start + n ≤ place ∨ place + data.size ≤ start) :
    ((overwrite bytes place data).data.toList.drop start).take n =
      (bytes.data.toList.drop start).take n := by
  rcases apart with before | behind
  · exact slice_eq_of_take_eq (take_overwrite fits) before
  · rw [drop_overwrite fits behind]

/-! ### Records -/

section Records

variable {written : List PreparedEntry} {i j : Nat}

/-- The records of two entries stand apart. -/
theorem records_apart (hi : i < written.length) (hj : j < written.length) (hne : j ≠ i) :
    (body (written.take j)).length + written[j].bytes.length ≤ (body (written.take i)).length ∨
    (body (written.take i)).length + written[i].bytes.length ≤ (body (written.take j)).length := by
  rw [← length_body_take_succ hi, ← length_body_take_succ hj]
  rcases Nat.lt_or_gt_of_ne hne with hlt | hgt
  · exact .inl (length_body_take_mono written hlt)
  · exact .inr (length_body_take_mono written hgt)

theorem PreparedEntry.length_bytes_pos (e : PreparedEntry) : 0 < e.bytes.length := by
  rw [length_bytes, LocalHeader.encodedSize]
  simp only [LocalHeader.fixedSize]
  omega

end Records

/-- Where the record of the entry with an index ends: where the next one starts, or the central
directory. -/
def Archive.recordEnd (a : Archive) (i : Nat) : Nat :=
  match a.entries[i + 1]? with
  | some next => next.headerOffset
  | none => a.directoryOffset

theorem recordEnd_archiveOf {bytes : ByteArray} {written : List PreparedEntry} {i : Nat}
    (h : i < written.length) (far : (body written).length < 0xFFFFFFFF) :
    (archiveOf bytes written).recordEnd i =
      (body (written.take i)).length + written[i].bytes.length := by
  rw [Archive.recordEnd, ← length_body_take_succ h]
  by_cases hnext : i + 1 < written.length
  · rw [getElem?_entries hnext]
    exact headerOffset_entryOf hnext far
  -- Behind the last entry stands the central directory.
  · have hnone : (archiveOf bytes written).entries[i + 1]? = none := by
      simpa [archiveOf] using hnext
    rw [hnone, List.take_of_length_le (not_lt.mp hnext)]
    rfl

/-! ### Entries that are read as before -/

namespace Archive

variable [Codec] {a b : Archive} {e : Entry}

/-- Of the bytes of an archive a reader of an entry looks at its payload only. -/
theorem readEntry_congr (h : a.payload e = b.payload e) : a.readEntry e = b.readEntry e := by
  simp only [readEntry, h]

/-- Data that is read has the size and the checksum that the central directory says. -/
theorem readEntry_recorded {data : ByteArray} (h : a.readEntry e = .ok data) :
    data.size = e.uncompressedSize ∧ crc32 data = e.crc := by
  simp only [readEntry, decompress, unless_eq_ok_iff, bind_eq_ok_iff, checked_eq_ok_iff] at h
  obtain ⟨-, method, -, payload, -, _, ⟨_, -, size_eq, rfl⟩, crc_eq, rfl⟩ := h
  exact ⟨size_eq, crc_eq⟩

end Archive

namespace Finished

variable {bytes damage : ByteArray} {written : List PreparedEntry} {i j place : Nat}

/-- The overwritten bytes of a record stand in front of the central directory. -/
theorem overwritten_le (h : i < written.length)
    (hend : place + damage.size ≤ (body (written.take i)).length + written[i].bytes.length) :
    place + damage.size ≤ (body written).length := by
  rw [PreparedEntry.length_bytes, ← Nat.add_assoc] at hend
  exact hend.trans (length_place_le h)

theorem overwritten_le_size (f : Finished bytes written) (h : i < written.length)
    (hend : place + damage.size ≤ (body (written.take i)).length + written[i].bytes.length) :
    place + damage.size ≤ bytes.size := by
  have hsize : bytes.size = bytes.data.toList.length := rfl
  rw [hsize, f.spells, List.length_append]
  exact (overwritten_le h hend).trans (Nat.le_add_right _ _)

/-- An entry still stands in its place when bytes of the record of another one are overwritten. -/
theorem stands_overwrite (f : Finished bytes written) (hi : i < written.length)
    (hj : j < written.length) (hne : j ≠ i) (hstart : (body (written.take i)).length ≤ place)
    (hend : place + damage.size ≤ (body (written.take i)).length + written[i].bytes.length) :
    written[j].bytes <+:
      (overwrite bytes place damage).data.toList.drop (body (written.take j)).length := by
  -- The whole record lies in front of the overwritten bytes or behind them.
  have apart := records_apart hi hj hne
  rw [List.prefix_iff_eq_take, slice_overwrite (f.overwritten_le_size hi hend) (by omega)]
  exact List.prefix_iff_eq_take.mp (f.stands hj)

variable [Codec]

/-- So it is read as before. -/
theorem readEntry_overwrite {a : Addition} (f : Finished bytes written) (hi : i < written.length)
    (hj : j < written.length) (hne : j ≠ i) (y : a.Yields written[j])
    (far : (body written).length < 0xFFFFFFFF) (hstart : (body (written.take i)).length ≤ place)
    (hend : place + damage.size ≤ (body (written.take i)).length + written[i].bytes.length) :
    (archiveOf (overwrite bytes place damage) written).readEntry (entryOf written j hj) =
      (archiveOf bytes written).readEntry (entryOf written j hj) := by
  apply Archive.readEntry_congr
  rw [f.payload_eq hj y far]
  exact payload_of_stands hj y far (f.stands_overwrite hi hj hne hstart hend)

end Finished

/-- Damage to one entry does not spread. If an archive without a 64-bit marker has been finished
over a sink without a limit, readers accept it, and the records of its entries follow one another up
to the central directory. Whatever is written over a part of one record or over all of it, readers
get the same entries and the same comment, all other entries are read as before, by their indices
and by their names, and the damaged one fails to be read or is read as data with the size and the
checksum that the directory says. -/
theorem Archive.damage_contained [Codec] (calls : List Addition) (s : MemorySink)
    (finished : ((Writer.start MemorySink.unbounded).addAll calls).2.finish = (.ok (), s))
    (far : ((Writer.start MemorySink.unbounded).addAll calls).2.offset < 0xFFFFFFFF)
    (small : ∀ a ∈ succeeded calls ((Writer.start MemorySink.unbounded).addAll calls).1,
      a.data.size < 0xFFFFFFFF) :
    ∃ archive, ofBytes s.bytes = .ok archive ∧
      archive.size = ((Writer.start MemorySink.unbounded).addAll calls).2.size ∧
      ∀ (i : Nat) (e : Entry), archive.entries[i]? = some e →
        e.headerOffset < archive.recordEnd i ∧
        ∀ (place : Nat) (damage : ByteArray),
          e.headerOffset ≤ place → place + damage.size ≤ archive.recordEnd i →
          ∃ damaged, ofBytes (overwrite s.bytes place damage) = .ok damaged ∧
            damaged.entries = archive.entries ∧ damaged.comment = archive.comment ∧
            (∀ j, j ≠ i → damaged.readAt j = archive.readAt j) ∧
            (∀ j e', j ≠ i → archive.entries[j]? = some e' →
              damaged.read e'.name = archive.read e'.name) ∧
            ∀ data, damaged.readAt i = .ok data →
              data.size = e.uncompressedSize ∧ crc32 data = e.crc := by
  obtain ⟨written, h, hyields⟩ := Writer.start_holds.addAll calls
  rw [List.nil_append] at h
  obtain ⟨f, far, accepted⟩ := h.accepted hyields finished far small
  have yielded : ∀ e ∈ written, ∃ a : Addition, a.Yields e :=
    fun e he => (exists_yields hyields he).imp fun _ y => y.2
  have hsize : (archiveOf s.bytes written).size = written.length := by
    simp [Archive.size, archiveOf]
  refine ⟨_, accepted, hsize.trans h.size_eq.symm, fun i e entry => ?_⟩
  obtain ⟨hi, rfl⟩ := exists_entryOf entry
  rw [headerOffset_entryOf hi far, recordEnd_archiveOf hi far]
  refine ⟨Nat.lt_add_of_pos_right (PreparedEntry.length_bytes_pos _), fun place damage hstart hend => ?_⟩
  have hread : ∀ (j : Nat) (hj : j < written.length), j ≠ i →
      (archiveOf (overwrite s.bytes place damage) written).readEntry (entryOf written j hj) =
        (archiveOf s.bytes written).readEntry (entryOf written j hj) := by
    intro j hj hne
    obtain ⟨a, y⟩ := yielded _ (List.getElem_mem hj)
    exact f.readEntry_overwrite hi hj hne y far hstart hend
  -- The end record and the directory stand behind the overwritten bytes.
  have haccepted := ofBytes_of_drop_eq accepted
    (drop_overwrite (f.overwritten_le_size hi hend) (Finished.overwritten_le hi hend))
  have hsame : (archiveOf (overwrite s.bytes place damage) written).entries =
      (archiveOf s.bytes written).entries := rfl
  refine ⟨archiveOf (overwrite s.bytes place damage) written, haccepted, rfl, rfl, ?_, ?_, ?_⟩
  · intro j hne
    rw [readAt, readAt, hsame]
    cases entry : (archiveOf s.bytes written).entries[j]? with
    -- Without an entry there is nothing to read in either.
    | none => rfl
    | some e =>
      obtain ⟨hj, rfl⟩ := exists_entryOf entry
      exact hread j hj hne
  · intro j e hne entry
    obtain ⟨hj, rfl⟩ := exists_entryOf entry
    -- The name leads to the same entry, since no other one has it.
    rw [read, read, Finished.find?_eq yielded h.nodup hj, Finished.find?_eq yielded h.nodup hj]
    exact hread j hj hne
  · intro data hdata
    rw [readAt_of_entry (getElem?_entries hi)] at hdata
    exact readEntry_recorded hdata

/-- When the first byte of the first sample entry is overwritten, its signature is lost. The other
entry is read as before. -/
theorem Archive.damage_contained_sample : ∃ s archive first second damaged,
    ((Writer.start MemorySink.unbounded).addAll sampleAdditions).2.finish = (.ok (), s) ∧
    ofBytes s.bytes = .ok archive ∧ archive.entries.toList = [first, second] ∧
    ofBytes (overwrite s.bytes first.headerOffset ⟨#[0]⟩) = .ok damaged ∧
    damaged.readAt 1 = archive.readAt 1 ∧ damaged.read second.name = archive.read second.name := by
  obtain ⟨s, hfinish⟩ := finish_sampleWriter
  have hrun :
      ((Writer.start MemorySink.unbounded).addAll sampleAdditions).2.finish = (.ok (), s) := by
    rw [addAll_sampleAdditions]
    exact hfinish
  obtain ⟨archive, haccepted, hsize, hdamage⟩ := damage_contained sampleAdditions s hrun
    (by
      rw [addAll_sampleAdditions]
      exact offset_sampleWriter)
    (by
      rw [addAll_sampleAdditions]
      decide)
  rw [addAll_sampleAdditions] at hsize
  have hlength : archive.entries.toList.length = 2 := hsize
  obtain ⟨first, second, hentries⟩ := List.length_eq_two.mp hlength
  have hget : archive.entries = #[first, second] := Array.toList_inj.mp hentries
  obtain ⟨hend, hdamage⟩ := hdamage 0 first (by rw [hget]; rfl)
  obtain ⟨damaged, hdamaged, -, -, hreadAt, hread, -⟩ :=
    hdamage first.headerOffset ⟨#[0]⟩ le_rfl hend
  exact ⟨s, archive, first, second, damaged, hrun, haccepted, hentries, hdamaged,
    hreadAt 1 Nat.one_ne_zero, hread 1 second Nat.one_ne_zero (by rw [hget]; rfl)⟩

end Folio
