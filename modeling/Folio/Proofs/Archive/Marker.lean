import Folio.Proofs.Archive.Corruption
import Folio.Proofs.Archive.RoundTrip
import Folio.Proofs.Writer.Verdict

/-!
# Values that readers take for markers

The greatest value of a field sends a reader to a 64-bit field. A writer keeps the number of entries
below that value. Sizes and offsets it lets grow as far as their fields go, and so the marker itself
can be one of them. A payload of that size, or an entry that starts there, leaves no room for the
central directory. What remains are the offset of the central directory and the size of data whose
payload is smaller.

## Main results

* `Archive.readEntries_of_marked` — a central directory with a marker is refused
* `Finished.ofBytes_of_marker` — a finished archive with a marker is refused
* `Writer.add_capacity` — what no field can hold is refused by the writer
* `Writer.finished_accepted_iff` — which markers a writer writes, and what a reader makes of them
* `Writer.finished_refused` — an archive that has been finished and that no reader accepts
-/

namespace Folio

/-! ### Readers -/

theorem Entry.ofHeader_of_marked {h : CentralHeader} (marked : h.Marked) :
    ofHeader h = .error (.invalidFormat (.entryZip64 (nameOf h))) := by
  rw [ofHeader]
  exact if_pos marked

/-- A central directory with a marker is refused at the first header that has one. -/
theorem Archive.readEntries_of_marked {headers : List CentralHeader} {c : Cursor}
    (read : Array Entry) (fits : ∀ h ∈ headers, h.Fits)
    (spells : headers.flatMap CentralHeader.encode <+: c.rest)
    (marked : ∃ h ∈ headers, h.Marked) :
    ∃ name, readEntries headers.length read c = .error (.invalidFormat (.entryZip64 name)) := by
  induction headers generalizing read c with
  | nil => simp at marked
  | cons header headers ih =>
    obtain ⟨hfits, fits⟩ := List.forall_mem_cons.mp fits
    rw [List.flatMap_cons] at spells
    rw [List.length_cons, readEntries, CentralHeader.run_decode_eq_ok_iff.mpr
      ⟨hfits, (List.prefix_append _ _).trans spells, rfl⟩]
    dsimp only
    by_cases hmarked : header.Marked
    · exact ⟨_, by rw [Entry.ofHeader_of_marked hmarked]⟩
    -- This header is read, so the marker is in one of the others.
    · rw [Entry.ofHeader_eq_ok_iff.mpr ⟨hmarked, rfl⟩]
      refine ih _ fits ?_ ?_
      · rw [Cursor.rest_advance, ← header.length_encode]
        simpa using spells.drop header.encode.length
      · simpa [hmarked] using marked

/-! ### Finished archives -/

namespace Finished

variable {bytes : ByteArray} {written : List PreparedEntry}

theorem directoryOffset_eq_marker_iff (f : Finished bytes written) :
    (endRecordOf written).directoryOffset = 0xFFFFFFFF ↔ (body written).length = 0xFFFFFFFF := by
  rw [← f.directoryOffset_eq, ← UInt32.toNat_inj]
  rfl

theorem totalEntries_ne (few : written.length ≤ Writer.maxEntries) :
    (endRecordOf written).totalEntries ≠ 0xFFFF := by
  intro hmark
  have hcount := (totalEntries_eq few).symm.trans (congrArg UInt16.toNat hmark)
  simp only [UInt16.reduceToNat] at hcount
  simp only [Writer.maxEntries] at few
  omega

/-- There is nothing wrong with the end record unless the central directory starts at a marker. -/
theorem endRecordFault?_eq (f : Finished bytes written) (few : written.length ≤ Writer.maxEntries) :
    Archive.endRecordFault? (endRecordOf written)
        ((body written).length + (directoryOf written).length) =
      if (body written).length = 0xFFFFFFFF then some .zip64 else none := by
  split
  · next hmark =>
    rw [Archive.endRecordFault?, if_neg (by simp [endRecordOf, EndRecord.singleDisk])]
    exact if_pos (.inr (f.directoryOffset_eq_marker_iff.mpr hmark))
  · next hmark =>
    refine Archive.endRecordFault?_eq_none_iff.mpr ⟨⟨rfl, rfl⟩, rfl, totalEntries_ne few, ?_, ?_⟩
    · exact mt f.directoryOffset_eq_marker_iff.mp hmark
    · rw [f.directoryOffset_eq, f.directorySize_eq]

theorem ofBytes_of_directoryOffset (f : Finished bytes written)
    (few : written.length ≤ Writer.maxEntries) (far : (body written).length = 0xFFFFFFFF) :
    Archive.ofBytes bytes = .error (.invalidFormat .zip64) := by
  refine Archive.ofBytes_eq_error_iff.mpr (.inr ⟨_, _, f.endRecord_lastAt, .inl ⟨.zip64, ?_, rfl⟩⟩)
  rw [f.endRecordFault?_eq few, if_pos far]

variable [Codec] {a : Addition} {i : Nat}

/-- An entry whose payload has the size of a marker, or that starts there, would not end before the
central directory. -/
theorem size_place_ne_marker (f : Finished bytes written) (h : i < written.length)
    (y : a.Yields written[i]) :
    (written[i].centralHeader (body (written.take i)).length).compressedSize ≠ 0xFFFFFFFF ∧
      (written[i].centralHeader (body (written.take i)).length).localHeaderOffset ≠
        0xFFFFFFFF := by
  have hle := length_place_le h
  have hlt := f.offset_lt
  have hheader : 0 < written[i].header.encodedSize := by
    rw [LocalHeader.encodedSize, LocalHeader.fixedSize]
    omega
  simp only [Writer.fieldLimit] at hlt
  constructor
  · intro hmark
    have hsize := y.compressedSize.symm.trans (congrArg UInt32.toNat hmark)
    simp only [UInt32.reduceToNat] at hsize
    omega
  · intro hmark
    have hplace : (UInt32.ofNat (body (written.take i)).length).toNat =
        (body (written.take i)).length := toNat_ofNat_size (by
      simp only [Writer.fieldLimit]
      omega)
    have hoffset := hplace.symm.trans (congrArg UInt32.toNat hmark)
    simp only [UInt32.reduceToNat] at hoffset
    omega

theorem ofBytes_of_marked (f : Finished bytes written)
    (few : written.length ≤ Writer.maxEntries) (near : (body written).length ≠ 0xFFFFFFFF)
    (yielded : ∀ e ∈ written, ∃ a : Addition, a.Yields e)
    (marked : ∃ h ∈ centralHeaders 0 written, h.Marked) :
    ∃ name, Archive.ofBytes bytes = .error (.invalidFormat (.entryZip64 name)) := by
  have hfits : ∀ h ∈ centralHeaders 0 written, h.Fits := by
    intro h hmem
    obtain ⟨e, he, place, rfl⟩ := mem_centralHeaders hmem
    obtain ⟨a, y⟩ := yielded e he
    exact y.centralHeader_fits place
  have hspells : (centralHeaders 0 written).flatMap CentralHeader.encode <+:
      (Cursor.start (Archive.directoryBytes bytes (endRecordOf written))).rest := by
    rw [Archive.rest_directoryBytes, f.directory_eq, directoryOf]
  obtain ⟨name, hentries⟩ := Archive.readEntries_of_marked #[] hfits hspells marked
  refine ⟨name, Archive.ofBytes_eq_error_iff.mpr
    (.inr ⟨_, _, f.endRecord_lastAt, .inr ⟨?_, ?_⟩⟩)⟩
  · rw [f.endRecordFault?_eq few, if_neg near]
  · rw [totalEntries_eq few, ← length_centralHeaders 0 written]
    exact hentries

end Finished

/-- The additions that have been made are those that succeeded. -/
theorem History.done_zip (calls : List Addition) (results : List (Except Error Unit)) :
    History.done (calls.zip results) = succeeded calls results := by
  refine List.filterMap_congr fun ⟨a, result⟩ _ => ?_
  cases result <;> rfl

namespace Writer

/-- Without a limit an archive is finished unless its central directory starts too far or is too
large. -/
theorem Unlimited.finish_error {w : Writer MemorySink} (unlimited : w.Unlimited)
    (intact : w.broken = false) {error : Error} (h : w.finish.1 = .error error) :
    error = .capacity .directoryOffset ∨ error = .capacity .directorySize := by
  rcases unlimited.finish_cases with ⟨error', hfault, hfinish⟩ | ⟨-, hfinish⟩
  · obtain rfl : error' = error := by
      rw [hfinish] at h
      exact Except.error.inj h
    rw [closingFault?, if_neg (by simp [intact])] at hfault
    split_ifs at hfault with hoffset hsize
    · exact .inl (Option.some.inj hfault).symm
    · exact .inr (Option.some.inj hfault).symm
  · rw [hfinish] at h
    cases h

theorem finish_of_far {σ : Type} [Sink σ] {w : Writer σ} (intact : w.broken = false)
    (far : 0xFFFFFFFF < w.offset) : w.finish.1 = .error (.capacity .directoryOffset) := by
  rw [finish, if_neg (by simp [intact]), if_pos (show fieldLimit ≤ w.offset from far)]

end Writer

/-! ### Writers -/

section Written

variable [Codec]

/-- A header tells a marker as the size of the data if that is the size of some data. -/
theorem exists_uncompressedSize_iff {calls : List Addition} {written : List PreparedEntry}
    (hyields : List.Forall₂ Addition.Yields calls written) (offset : Nat) :
    (∃ h ∈ centralHeaders offset written, h.uncompressedSize = 0xFFFFFFFF) ↔
      ∃ a ∈ calls, a.data.size = 0xFFFFFFFF := by
  induction hyields generalizing offset with
  | nil => simp [centralHeaders]
  | @cons a e calls written y _ ih =>
    have hfirst (place : Nat) :
        (e.centralHeader place).uncompressedSize = 0xFFFFFFFF ↔ a.data.size = 0xFFFFFFFF := by
      rw [← y.uncompressedSize, ← UInt32.toNat_inj]
      rfl
    simp only [centralHeaders, List.mem_cons, exists_eq_or_imp, hfirst, ih]

namespace Writer

variable {w : Writer MemorySink} {h : History}

/-- After additions the writer knows the answers to them. -/
theorem Reflects.addAll (k : w.Reflects h) (calls : List Addition) :
    (w.addAll calls).2.Reflects (h ++ calls.zip (w.addAll calls).1) := by
  induction calls generalizing w h with
  | nil => simpa using k
  | cons a rest ih =>
    simp only [addAll_cons, List.zip_cons_cons, History.append_cons]
    exact ih (k.add a)

/-- An addition that needs more than a field holds is refused for that, if nothing else is wrong
with it. -/
theorem Reflects.add_capacity (k : w.Reflects h) (unlimited : w.Unlimited)
    (intact : w.broken = false) {a : Addition} (named : a.nameFault? = none)
    (fresh : a.entryName ∉ h.done.map Addition.entryName) (level : a.levelFault? = none)
    (needs : 65534 ≤ h.done.length ∨ 0xFFFFFFFF < w.offset ∨ 0xFFFFFFFF < a.data.size ∨
      0xFFFFFFFF < a.payload.size) :
    ∃ fault, (w.add a.name a.data a.options).1 = .error (.capacity fault) := by
  have hfailed : h.failed = false := k.broken.symm.trans intact
  rw [k.offset] at needs
  rw [k.add_eq_verdict? unlimited]
  -- The objections are looked at in their order, and one of those that remain applies.
  simp only [History.verdict?, History.objections, hfailed, named, if_neg fresh, level,
    Bool.false_eq_true, if_false, List.findSome?_cons, id_eq]
  by_cases hfew : 65534 ≤ h.done.length
  · exact ⟨.entries, by rw [if_pos hfew]⟩
  rw [if_neg hfew]
  by_cases hoffset : 0x100000000 ≤ h.offset
  · exact ⟨.entryOffset a.entryName, by rw [if_pos hoffset]⟩
  rw [if_neg hoffset]
  by_cases hdata : 0x100000000 ≤ a.data.size
  · exact ⟨.dataSize a.entryName, by rw [if_pos hdata]⟩
  rw [if_neg hdata]
  refine ⟨.payloadSize a.entryName, ?_⟩
  rw [if_pos (by omega)]

/-- An entry that starts at a marker, or whose payload has that size, ends behind it. -/
theorem Reflects.offset_of_marker (k : w.Reflects h) {before after : List Addition} {a : Addition}
    (made : h.done = before ++ a :: after)
    (marker : a.payload.size = 0xFFFFFFFF ∨
      (body (before.map Addition.entry)).length = 0xFFFFFFFF) : 0xFFFFFFFF < w.offset := by
  have hheader : 0 < a.entry.header.encodedSize := by
    rw [LocalHeader.encodedSize, LocalHeader.fixedSize]
    omega
  have hpayload : a.entry.payload.size = a.payload.size := rfl
  rw [k.offset, History.offset, made, List.map_append, body_append, List.map_cons, body_cons,
    List.length_append, List.length_append, a.entry.length_bytes]
  omega

/-- Which markers an archive has that has been finished, and whether a reader accepts it. -/
theorem Holds.accepted_iff {w : Writer MemorySink} {written : List PreparedEntry}
    {calls : List Addition} {s : MemorySink} (h : w.Holds written)
    (hyields : List.Forall₂ Addition.Yields calls written) (finished : w.finish = (.ok (), s)) :
    (∀ header ∈ centralHeaders 0 written,
        header.compressedSize ≠ 0xFFFFFFFF ∧ header.localHeaderOffset ≠ 0xFFFFFFFF) ∧
      ((endRecordOf written).directoryOffset = 0xFFFFFFFF ↔ w.offset = 0xFFFFFFFF) ∧
      ((∃ archive, Archive.ofBytes s.bytes = .ok archive) ↔
        w.offset ≠ 0xFFFFFFFF ∧ ∀ a ∈ calls, a.data.size ≠ 0xFFFFFFFF) := by
  have f := h.finished finished
  have yielded : ∀ e ∈ written, ∃ a ∈ calls, a.Yields e := fun e he => exists_yields hyields he
  rw [h.offset]
  refine ⟨fun header hmem => ?_, f.directoryOffset_eq_marker_iff, ?_, ?_⟩
  · obtain ⟨i, hi, rfl⟩ := List.getElem_of_mem hmem
    rw [length_centralHeaders] at hi
    obtain ⟨a, -, y⟩ := yielded _ (List.getElem_mem hi)
    rw [getElem_centralHeaders, Nat.zero_add]
    exact f.size_place_ne_marker hi y
  -- Either marker keeps a reader from accepting the archive.
  · rintro ⟨archive, haccepted⟩
    have hnear : (body written).length ≠ 0xFFFFFFFF := by
      intro hmark
      rw [f.ofBytes_of_directoryOffset h.few hmark] at haccepted
      cases haccepted
    refine ⟨hnear, fun a ha hmark => ?_⟩
    obtain ⟨header, hmem, hsize⟩ := (exists_uncompressedSize_iff hyields 0).mpr ⟨a, ha, hmark⟩
    obtain ⟨name, hrefused⟩ := f.ofBytes_of_marked h.few hnear
      (fun e he => (yielded e he).imp fun _ y => y.2) ⟨header, hmem, .inr (.inl hsize)⟩
    rw [hrefused] at haccepted
    cases haccepted
  · rintro ⟨hnear, hsmall⟩
    have hoffset := f.offset_lt
    simp only [fieldLimit] at hoffset
    refine ⟨_, f.ofBytes_eq h.few (by omega) fun e he => ?_⟩
    obtain ⟨a, ha, y⟩ := yielded e he
    have hdata := y.dataSize
    have hne := hsmall a ha
    simp only [fieldLimit] at hdata
    exact ⟨a, y, by omega⟩

/-- Whatever additions are made to an empty writer, no number of entries, no size of a payload and
no place of an entry in a finished archive is a marker. The central directory starts at a marker if
the writer has written so many bytes, and a header tells one as the size of the data if so many
bytes have been added for an entry. A reader accepts the archive exactly if neither is the case. An
archive that is not finished has a central directory that starts too far or is too large. That is so
if a payload has the size of a marker or an entry starts there, and an addition that needs more than
the fields hold is refused for that. -/
theorem finished_accepted_iff (calls : List Addition) :
    let run := (start MemorySink.unbounded).addAll calls
    let made := succeeded calls run.1
    (∀ s, run.2.finish = (.ok (), s) →
      ∃ pairs headers r, Layout s.bytes pairs headers r ∧
        r.diskEntries ≠ 0xFFFF ∧ r.totalEntries ≠ 0xFFFF ∧
        (∀ h ∈ headers, h.compressedSize ≠ 0xFFFFFFFF ∧ h.localHeaderOffset ≠ 0xFFFFFFFF) ∧
        (r.directoryOffset = 0xFFFFFFFF ↔ run.2.offset = 0xFFFFFFFF) ∧
        ((∃ h ∈ headers, h.uncompressedSize = 0xFFFFFFFF) ↔
          ∃ a ∈ made, a.data.size = 0xFFFFFFFF) ∧
        ((∃ archive, Archive.ofBytes s.bytes = .ok archive) ↔
          run.2.offset ≠ 0xFFFFFFFF ∧ ∀ a ∈ made, a.data.size ≠ 0xFFFFFFFF)) ∧
    (∀ error, run.2.finish.1 = .error error →
      error = .capacity .directoryOffset ∨ error = .capacity .directorySize) ∧
    (0xFFFFFFFF < run.2.offset → run.2.finish.1 = .error (.capacity .directoryOffset)) ∧
    (∀ before a after, made = before ++ a :: after →
      a.payload.size = 0xFFFFFFFF ∨ (body (before.map Addition.entry)).length = 0xFFFFFFFF →
      0xFFFFFFFF < run.2.offset) ∧
    ∀ a : Addition, a.nameFault? = none → a.entryName ∉ made.map Addition.entryName →
      a.levelFault? = none →
      65534 ≤ made.length ∨ 0xFFFFFFFF < run.2.offset ∨ 0xFFFFFFFF < a.data.size ∨
        0xFFFFFFFF < a.payload.size →
      ∃ fault, (run.2.add a.name a.data a.options).1 = .error (.capacity fault) := by
  obtain ⟨written, h, hyields⟩ := start_holds.addAll calls
  have k := (start_reflects MemorySink.unbounded).addAll calls
  rw [List.nil_append] at h k
  have hmade : History.done (calls.zip ((start MemorySink.unbounded).addAll calls).1) =
      succeeded calls ((start MemorySink.unbounded).addAll calls).1 := History.done_zip _ _
  refine ⟨fun s hfinish => ?_, fun error => h.unlimited.finish_error h.intact,
    finish_of_far h.intact, fun before a after made => ?_, fun a named fresh level => ?_⟩
  · obtain ⟨hsizes, hoffset, haccepted⟩ := h.accepted_iff hyields hfinish
    exact ⟨_, _, _, h.layout (fun e he => (exists_yields hyields he).imp fun _ y => y.2) hfinish,
      Finished.totalEntries_ne h.few, Finished.totalEntries_ne h.few, hsizes, hoffset,
      exists_uncompressedSize_iff hyields 0, haccepted⟩
  · exact k.offset_of_marker (hmade.trans made)
  · rw [← hmade] at fresh ⊢
    exact k.add_capacity h.unlimited h.intact named fresh level

end Writer

end Written

/-! ### An archive that no reader accepts -/

/-- An addition of so many zeros, which are stored. -/
def storedAddition (n : Nat) : Addition := ⟨"a", ⟨Array.replicate n 0⟩, .ofMethod .stored⟩

theorem size_storedAddition (n : Nat) : (storedAddition n).data.size = n := Array.size_replicate

/-- The entry of the addition. -/
def storedEntry (n : Nat) : PreparedEntry :=
  Writer.describe "a" (storedAddition n).data (storedAddition n).data (.ofMethod .stored)

theorem length_name_storedEntry (n : Nat) : (storedEntry n).header.name.length = 1 := by
  have hname : "a".toUTF8.data.toList.length = 1 := by decide
  exact hname

theorem length_storedEntry (n : Nat) : (storedEntry n).bytes.length = 31 + n := by
  have hheader : (storedEntry n).header.encodedSize = 31 :=
    congrArg (LocalHeader.fixedSize + · + 0) (length_name_storedEntry n)
  rw [PreparedEntry.length_bytes, hheader]
  exact congrArg (31 + ·) (size_storedAddition n)

theorem addAll_storedAddition {n : Nat} (small : n < Writer.fieldLimit) :
    (Writer.start MemorySink.unbounded).addAll [storedAddition n] =
      ([.ok ()], (Writer.start MemorySink.unbounded).extended (storedEntry n)) := by
  have hsize : (storedAddition n).data.size < Writer.fieldLimit := by
    rwa [size_storedAddition]
  have hname : EntryName.normalize "a" = .ok "a" := by decide +kernel
  have hadd := Writer.start_unlimited.add_eq_ok (a := storedAddition n) (e := storedEntry n)
    ⟨hname, rfl, rfl, hsize, hsize⟩ ⟨rfl, by simp [Writer.start], by decide, by decide⟩
  simp only [Writer.addAll_cons, Writer.addAll_nil, hadd]

/-- An archive with one entry is finished as long as its central directory starts within reach. -/
theorem finished_storedAddition {n : Nat} (near : 31 + n < Writer.fieldLimit) :
    ∃ s, ((Writer.start MemorySink.unbounded).addAll [storedAddition n]).2.finish = (.ok (), s) ∧
      Finished s.bytes [storedEntry n] := by
  have hrun := addAll_storedAddition (n := n) (by omega)
  have h : ((Writer.start MemorySink.unbounded).extended (storedEntry n)).Holds [storedEntry n] :=
    Writer.start_holds.extended ⟨rfl, by simp [Writer.start], by decide, by decide⟩
  have hoffset :
      ((Writer.start MemorySink.unbounded).extended (storedEntry n)).offset = 31 + n := by
    rw [h.offset, body_cons, body_nil, List.append_nil, length_storedEntry]
  have hdirectory : (Writer.directoryBytes
      ((Writer.start MemorySink.unbounded).extended (storedEntry n)).directory).size = 47 := by
    rw [Writer.size_directoryBytes, h.directory]
    simp only [centralHeaders, List.flatMap_cons, List.flatMap_nil, List.append_nil,
      CentralHeader.length_encode, PreparedEntry.encodedSize_centralHeader,
      length_name_storedEntry, CentralHeader.fixedSize]
  have hfault :
      ((Writer.start MemorySink.unbounded).extended (storedEntry n)).closingFault? = none := by
    rw [Writer.closingFault?_eq_none_iff, hoffset, hdirectory]
    exact ⟨rfl, near, by decide⟩
  rw [hrun]
  rcases h.unlimited.finish_cases with ⟨error, herror, -⟩ | ⟨-, hfinish⟩
  · simp [hfault] at herror
  · exact ⟨_, hfinish, h.finished hfinish⟩

/-- An entry of 4294967264 zeros is added and the archive is finished. Its central directory starts
at a marker, and so a reader refuses it. -/
theorem Writer.finished_refused :
    let run := (start MemorySink.unbounded).addAll [storedAddition (0xFFFFFFFF - 31)]
    run.1 = [.ok ()] ∧ ∃ s, run.2.finish = (.ok (), s) ∧
      (∃ (r : EndRecord) (place : Nat), r.LastAt s.bytes place ∧ r.directoryOffset = 0xFFFFFFFF) ∧
      Archive.ofBytes s.bytes = .error (.invalidFormat .zip64) := by
  obtain ⟨s, hfinish, f⟩ := finished_storedAddition (n := 0xFFFFFFFF - 31) (by decide)
  have hlength : (body [storedEntry (0xFFFFFFFF - 31)]).length = 0xFFFFFFFF := by
    rw [body_cons, body_nil, List.append_nil, length_storedEntry]
  refine ⟨?_, s, hfinish, ⟨_, _, f.endRecord_lastAt, ?_⟩, ?_⟩
  · rw [addAll_storedAddition (by decide)]
  · exact f.directoryOffset_eq_marker_iff.mpr hlength
  · exact f.ofBytes_of_directoryOffset (by decide) hlength

end Folio
