import Folio.Archive.Basic
import Folio.Proofs.Record.EndSearch

/-!
# The grammar of archives

Which strings of bytes are archives, and what a reader gets from them. The grammar is stated by the
encoders of the records: an archive ends with an end record, which names a part of the bytes before
it, and that part begins with central headers.

## Main definitions

* `Entry.described` — what a central header says about its entry, field by field
* `CentralHeader.Marked` — a field of the header sends a reader to a 64-bit field
* `Archive.Grammar` — bytes are an archive with the given end record and central headers

## Main results

* `Archive.readEntries_eq_ok_iff` — the central headers that are read
* `Archive.ofBytes_eq_ok_iff` — the reader accepts the grammar, and nothing else
-/

namespace Folio

/-! ### Entries -/

theorem and_one_shiftLeft_eq_zero_iff (n i : Nat) : n &&& 1 <<< i = 0 ↔ n.testBit i = false := by
  rw [Nat.one_shiftLeft]
  constructor
  · intro h
    have hbit := congrArg (Nat.testBit · i) h
    simpa [Nat.testBit_and, Nat.testBit_two_pow_self] using hbit
  · intro h
    apply Nat.eq_of_testBit_eq
    intro j
    rw [Nat.testBit_and, Nat.testBit_two_pow, Nat.zero_testBit]
    by_cases hj : i = j
    · simp [← hj, h]
    · simp [hj]

/-- The mark of UTF-8 is bit 11 of the flags. -/
theorem EntryFields.isUtf8_eq_testBit (f : EntryFields) : f.isUtf8 = f.flags.toNat.testBit 11 := by
  have hbit : f.flags &&& utf8Flag = 0 ↔ f.flags.toNat.testBit 11 = false := by
    rw [← UInt16.toNat_inj, UInt16.toNat_and]
    exact and_one_shiftLeft_eq_zero_iff f.flags.toNat 11
  rw [isUtf8]
  cases h : f.flags.toNat.testBit 11 <;> simp [hbit, h, bne]

/-- A field of the header sends a reader to a 64-bit field. -/
def CentralHeader.Marked (h : CentralHeader) : Prop :=
  h.compressedSize = 0xFFFFFFFF ∨ h.uncompressedSize = 0xFFFFFFFF ∨ h.localHeaderOffset = 0xFFFFFFFF

/-- What a central header says about its entry. Bit 11 of its flags tells the encoding of the name,
and the high byte of the version the system, which is 3 for Unix. -/
def Entry.described (h : CentralHeader) : Entry where
  name :=
    if h.flags.toNat.testBit 11 then Utf8.decodeLossy h.name else CodePage437.decode h.name
  methodId := h.method
  crc := h.crc
  compressedSize := h.compressedSize.toNat
  uncompressedSize := h.uncompressedSize.toNat
  headerOffset := h.localHeaderOffset.toNat
  modified := h.modified
  flags := h.flags
  unixMode :=
    if h.versionMadeBy.toNat / 0x100 = 3 then
      some (UInt32.ofNat (h.externalAttributes.toNat / 0x10000))
    else none

theorem Entry.ofHeader_eq_ok_iff {h : CentralHeader} {e : Entry} :
    ofHeader h = .ok e ↔ ¬ h.Marked ∧ e = described h := by
  have hhost : h.versionMadeBy >>> 8 = unixHost ↔ h.versionMadeBy.toNat / 0x100 = 3 := by
    rw [← UInt16.toNat_inj, UInt16.toNat_shiftRight]
    simp [unixHost, Nat.shiftRight_eq_div_pow]
  have hmode :
      h.externalAttributes >>> 16 = UInt32.ofNat (h.externalAttributes.toNat / 0x10000) := by
    have := h.externalAttributes.toNat_lt
    rw [← UInt32.toNat_inj, UInt32.toNat_shiftRight, UInt32.toNat_ofNat']
    simp [Nat.shiftRight_eq_div_pow]
    omega
  rw [ofHeader]
  by_cases hmarked : h.Marked
  · rw [if_pos (by exact hmarked)]
    simp [hmarked]
  · rw [if_neg (by exact hmarked)]
    simp only [nameOf, EntryFields.isUtf8_eq_testBit, hhost, hmode, Except.ok.injEq, hmarked,
      not_false_eq_true, true_and, described]
    exact eq_comm

/-! ### Central directories -/

namespace Archive

/-- A central header that a reader takes: its parts fit and no field is a marker. -/
structure Readable (h : CentralHeader) : Prop where
  fits : h.Fits
  unmarked : ¬ h.Marked

/-- Reading central headers gives the entries of headers with which the rest begins. -/
theorem readEntries_eq_ok_iff {count : Nat} {read entries : Array Entry} {c : Cursor} :
    readEntries count read c = .ok entries ↔
      ∃ headers : List CentralHeader, headers.length = count ∧ (∀ h ∈ headers, Readable h) ∧
        headers.flatMap CentralHeader.encode <+: c.rest ∧
        entries = read ++ (headers.map Entry.described).toArray := by
  induction count generalizing read c with
  | zero =>
    simp only [readEntries, Except.ok.injEq, List.length_eq_zero_iff]
    constructor
    · rintro rfl
      exact ⟨[], rfl, by simp, by simp, by simp⟩
    · rintro ⟨_, rfl, -, -, rfl⟩
      simp
  -- One header is read, and the induction hypothesis is about the bytes behind it.
  | succ count ih =>
    rw [readEntries]
    constructor
    · intro hrun
      split at hrun
      · simp at hrun
      · next h c' hdecode =>
        split at hrun
        · simp at hrun
        · next e hentry =>
          obtain ⟨fits, hpre, rfl⟩ := CentralHeader.run_decode_eq_ok_iff.mp hdecode
          obtain ⟨unmarked, rfl⟩ := Entry.ofHeader_eq_ok_iff.mp hentry
          obtain ⟨headers, hlen, hreadable, hpre', rfl⟩ := ih.mp hrun
          refine ⟨h :: headers, by simp [hlen], ?_, ?_, by simp⟩
          · simpa using ⟨⟨fits, unmarked⟩, hreadable⟩
          -- What is left behind the first header begins with the others.
          · obtain ⟨left, hleft⟩ := hpre
            rw [Cursor.rest_advance, ← h.length_encode, ← hleft, List.drop_left] at hpre'
            rw [← hleft, List.flatMap_cons]
            exact (List.prefix_append_right_inj _).mpr hpre'
    · rintro ⟨headers, hlen, hreadable, hpre, rfl⟩
      match headers, hlen with
      | h :: headers, hlen =>
        obtain ⟨⟨fits, unmarked⟩, hreadable⟩ := List.forall_mem_cons.mp hreadable
        rw [List.flatMap_cons] at hpre
        have hdecode := CentralHeader.run_decode_eq_ok_iff.mpr
          ⟨fits, (List.prefix_append _ _).trans hpre, rfl⟩
        rw [hdecode]
        dsimp only
        rw [Entry.ofHeader_eq_ok_iff.mpr ⟨unmarked, rfl⟩]
        refine ih.mpr ⟨headers, by simpa using hlen, hreadable, ?_, by simp⟩
        rw [Cursor.rest_advance, ← h.length_encode]
        simpa using hpre.drop h.encode.length

/-- The headers with which bytes begin are determined by their number. -/
theorem headers_unique {l : List UInt8} {headers headers' : List CentralHeader}
    (hlen : headers.length = headers'.length) (hfits : ∀ h ∈ headers, h.Fits)
    (hfits' : ∀ h ∈ headers', h.Fits) (hpre : headers.flatMap CentralHeader.encode <+: l)
    (hpre' : headers'.flatMap CentralHeader.encode <+: l) : headers = headers' := by
  induction headers generalizing headers' l with
  | nil => exact (List.length_eq_zero_iff.mp hlen.symm).symm
  | cons h headers ih =>
    match headers', hlen with
    | h' :: headers', hlen =>
      rw [List.flatMap_cons] at hpre hpre'
      rw [List.forall_mem_cons] at hfits hfits'
      -- Both lists begin with a header that the same bytes spell.
      have first := CentralHeader.decode_exact.unique ⟨hfits.1, rfl⟩ ⟨hfits'.1, rfl⟩
        ((List.prefix_append _ _).trans hpre) ((List.prefix_append _ _).trans hpre')
      obtain rfl := first.1
      rw [ih (by simpa using hlen) hfits.2 hfits'.2 (by simpa using hpre.drop h.encode.length)
        (by simpa using hpre'.drop h.encode.length)]

/-! ### Archives -/

/-- The bytes are an archive that ends with the end record `r` at `place`, whose central directory
begins with the given headers. -/
structure Grammar (bytes : ByteArray) (r : EndRecord) (place : Nat)
    (headers : List CentralHeader) : Prop where
  /-- The record is the last one whose comment reaches exactly to the end of the bytes. -/
  last : r.LastAt bytes place
  /-- Both its disk numbers are zero. -/
  oneDisk : r.diskNumber = 0 ∧ r.directoryDisk = 0
  /-- Its two numbers of entries agree. -/
  counts : r.diskEntries = r.totalEntries
  /-- The number of entries is no marker. -/
  count_ne : r.totalEntries ≠ 0xFFFF
  /-- The offset of the central directory is no marker. -/
  offset_ne : r.directoryOffset ≠ 0xFFFFFFFF
  /-- The central directory ends before the record. -/
  inside : r.directoryOffset.toNat + r.directorySize.toNat ≤ place
  /-- There are as many headers as the record says. -/
  length : headers.length = r.totalEntries.toNat
  /-- The headers can be read. -/
  readable : ∀ h ∈ headers, Readable h
  /-- The central directory begins with the headers, one after another. -/
  spells : headers.flatMap CentralHeader.encode <+:
    (bytes.data.toList.drop r.directoryOffset.toNat).take r.directorySize.toNat

theorem endRecordFault?_eq_none_iff {r : EndRecord} {offset : Nat} :
    endRecordFault? r offset = none ↔
      (r.diskNumber = 0 ∧ r.directoryDisk = 0) ∧ r.diskEntries = r.totalEntries ∧
        r.totalEntries ≠ 0xFFFF ∧ r.directoryOffset ≠ 0xFFFFFFFF ∧
        r.directoryOffset.toNat + r.directorySize.toNat ≤ offset := by
  rw [endRecordFault?]
  -- The checks come one after another, and each of them rules out one part of the right side.
  by_cases hdisk : r.diskNumber ≠ 0 ∨ r.directoryDisk ≠ 0
  · rw [if_pos hdisk]
    simp only [reduceCtorEq, false_iff]
    tauto
  rw [if_neg hdisk]
  by_cases hmarker : r.totalEntries = 0xFFFF ∨ r.directoryOffset = Entry.zip64Marker
  · rw [if_pos hmarker]
    simp only [reduceCtorEq, false_iff]
    rintro ⟨-, -, hcount, hoffset, -⟩
    exact hmarker.elim hcount hoffset
  rw [if_neg hmarker]
  by_cases hcounts : r.diskEntries ≠ r.totalEntries
  · rw [if_pos hcounts]
    simp only [reduceCtorEq, false_iff]
    tauto
  rw [if_neg hcounts]
  push Not at hdisk hmarker hcounts
  by_cases hinside : offset < r.directoryOffset.toNat + r.directorySize.toNat
  · rw [if_pos hinside]
    simp only [reduceCtorEq, false_iff]
    rintro ⟨-, -, -, -, hle⟩
    omega
  · rw [if_neg hinside]
    simp only [true_iff]
    exact ⟨hdisk, hcounts, hmarker.1, hmarker.2, not_lt.mp hinside⟩

theorem rest_directoryBytes (bytes : ByteArray) (r : EndRecord) :
    (Cursor.start (directoryBytes bytes r)).rest =
      (bytes.data.toList.drop r.directoryOffset.toNat).take r.directorySize.toNat := by
  simp [Cursor.start, Cursor.rest, directoryBytes, ByteArray.data_extract,
    List.extract_eq_take_drop]

/-- A reader gets an archive from bytes if they are one, with the entries that the central headers
describe. -/
theorem ofBytes_eq_ok_iff {bytes : ByteArray} {a : Archive} :
    ofBytes bytes = .ok a ↔ ∃ r place headers, Grammar bytes r place headers ∧
      a = ⟨bytes, (headers.map Entry.described).toArray, r.directoryOffset.toNat, r.comment⟩ := by
  rw [ofBytes, bind_eq_ok_iff]
  constructor
  · rintro ⟨⟨r, place⟩, hfind, hrun⟩
    cases hfault : endRecordFault? r place with
    | some fault =>
      simp only [hfault] at hrun
      cases hrun
    | none =>
      simp only [hfault] at hrun
      obtain ⟨entries, hentries, heq⟩ := bind_eq_ok_iff.mp hrun
      obtain ⟨headers, hlen, hreadable, hpre, rfl⟩ := readEntries_eq_ok_iff.mp hentries
      obtain ⟨honeDisk, hcounts, hcount, hoffset, hinside⟩ := endRecordFault?_eq_none_iff.mp hfault
      rw [rest_directoryBytes] at hpre
      refine ⟨r, place, headers, ⟨EndRecord.find_eq_ok_iff.mp hfind, honeDisk, hcounts, hcount,
        hoffset, hinside, hlen, hreadable, hpre⟩, ?_⟩
      simpa [pure, Except.pure] using heq.symm
  · rintro ⟨r, place, headers, g, rfl⟩
    refine ⟨(r, place), EndRecord.find_eq_ok_iff.mpr g.last, ?_⟩
    have hfault := endRecordFault?_eq_none_iff.mpr
      ⟨g.oneDisk, g.counts, g.count_ne, g.offset_ne, g.inside⟩
    have hentries : readEntries r.totalEntries.toNat #[] (.start (directoryBytes bytes r)) =
        .ok (#[] ++ (headers.map Entry.described).toArray) :=
      readEntries_eq_ok_iff.mpr
        ⟨headers, g.length, g.readable, (rest_directoryBytes bytes r).symm ▸ g.spells, rfl⟩
    simp only [hfault, hentries]
    simp [bind, Except.bind, pure, Except.pure]

/-- Bytes are an archive in one way only. -/
theorem Grammar.unique {bytes : ByteArray} {r r' : EndRecord} {place place' : Nat}
    {headers headers' : List CentralHeader} (g : Grammar bytes r place headers)
    (g' : Grammar bytes r' place' headers') : r' = r ∧ place' = place ∧ headers' = headers := by
  have hfind := (EndRecord.find_eq_ok_iff.mpr g.last).symm.trans
    (EndRecord.find_eq_ok_iff.mpr g'.last)
  simp only [Except.ok.injEq, Prod.mk.injEq] at hfind
  obtain ⟨rfl, rfl⟩ := hfind
  exact ⟨rfl, rfl, headers_unique (g'.length.trans g.length.symm)
    (fun h hh => (g'.readable h hh).fits) (fun h hh => (g.readable h hh).fits)
    g'.spells g.spells⟩

/-- The reader accepts exactly the bytes of the grammar. The end record and the central headers are
then determined by the bytes, and the reader gets an entry for each of the headers, in their order,
the comment of the record, and the offset of the central directory as the limit of all payloads. -/
theorem accepts_iff_grammar (bytes : ByteArray) :
    ((∃ a, ofBytes bytes = .ok a) ↔ ∃ r place headers, Grammar bytes r place headers) ∧
      ∀ r place headers, Grammar bytes r place headers →
        (∀ r' place' headers', Grammar bytes r' place' headers' →
          r' = r ∧ place' = place ∧ headers' = headers) ∧
        ofBytes bytes = .ok
          ⟨bytes, (headers.map Entry.described).toArray, r.directoryOffset.toNat, r.comment⟩ := by
  refine ⟨⟨?_, ?_⟩, fun r place headers g => ⟨fun r' place' headers' g' => g.unique g', ?_⟩⟩
  · rintro ⟨a, ha⟩
    obtain ⟨r, place, headers, g, -⟩ := ofBytes_eq_ok_iff.mp ha
    exact ⟨r, place, headers, g⟩
  · rintro ⟨r, place, headers, g⟩
    exact ⟨_, ofBytes_eq_ok_iff.mpr ⟨r, place, headers, g, rfl⟩⟩
  · exact ofBytes_eq_ok_iff.mpr ⟨r, place, headers, g, rfl⟩

end Archive

end Folio
