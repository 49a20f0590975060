import Folio.Proofs.Archive.Features
import Folio.Proofs.Record.CutOff

/-!
# Which refusals are called corruption

A reader whose bytes are held in memory fails for what the bytes are. Nearly all that can be wrong
with them is told as a fault of their format, a wrong size or a wrong checksum, and these are called
corruption. There are three failures that are not. Where a central header is cut off by the end of
the directory, or a local header by the end of all bytes, the lack of bytes is passed on as a
failure to read. And where a payload is no stream of its method, the failure is that of its codec.

## Main definitions

* `Archive.CutDirectory` — the central directory ends within one of its headers
* `Archive.HeaderCutOff` — the bytes end within the local header of an entry
* `Archive.Undecodable` — the payload of an entry is found, and its decoder shows damage

## Main results

* `Archive.readEntries_eq_error_iff` — how a central directory is refused
* `Archive.ofBytes_eq_error_iff`, `Archive.ofBytes_unexpectedEnd_iff` — how bytes are refused, and
  which of them for lack of bytes
* `Archive.payload_eq_error_iff`, `Archive.readEntry_eq_error_iff` — how an entry is refused
* `Archive.refusal_isCorruption_iff` — the refusals that are called corruption
-/

namespace Folio

theorem Entry.ofHeader_error {h : CentralHeader} {error : Error}
    (refused : ofHeader h = .error error) : error = .invalidFormat (.entryZip64 (nameOf h)) := by
  rw [ofHeader] at refused
  split at refused
  · exact (Except.error.inj refused).symm
  · cases refused

theorem Expansion.toExcept_error {e : Expansion} {f : StreamFault → Error} {error : Error}
    (h : e.toExcept f = .error error) : ∃ fault, error = f fault := by
  obtain ⟨output, fault⟩ := e
  cases fault with
  | none => cases h
  | some fault => exact ⟨fault, (Except.error.inj h).symm⟩

/-- Where all failures but a lack of bytes are called corruption, this one is not. -/
theorem Error.isCorruption_iff_ne {error : Error}
    (h : error.isCorruption = true ∨ error = .io .unexpectedEnd) :
    error.isCorruption = true ↔ ¬ error = .io .unexpectedEnd := by
  obtain h | rfl := h
  · simp only [h, true_iff]
    rintro rfl
    cases h
  · simp [isCorruption]

namespace Archive

/-! ### Opening archives -/

section Opening

variable {bytes : ByteArray} {error : Error}

/-- The central directory that the end record `r` at `place` announces ends within a header, behind
fewer headers than there should be. -/
structure CutDirectory (bytes : ByteArray) (r : EndRecord) (place : Nat)
    (headers : List CentralHeader) : Prop where
  /-- The record is the last one whose comment reaches exactly to the end of the bytes. -/
  last : r.LastAt bytes place
  /-- There is nothing wrong with the record itself. -/
  sound : endRecordFault? r place = none
  /-- There are fewer headers than it says. -/
  fewer : headers.length < r.totalEntries.toNat
  /-- They can be read. -/
  readable : ∀ h ∈ headers, Readable h
  /-- The central directory begins with them. -/
  spells : headers.flatMap CentralHeader.encode <+:
    (bytes.data.toList.drop r.directoryOffset.toNat).take r.directorySize.toNat
  /-- Behind them it ends within the next one. -/
  cutOff : CutOff CentralHeader.Fits CentralHeader.encode
    (((bytes.data.toList.drop r.directoryOffset.toNat).take r.directorySize.toNat).drop
      (headers.flatMap CentralHeader.encode).length)

/-- No entry can be read at the place: there is no header, or one with a marker. -/
inductive Refuses (c : Cursor) (error : Error) : Prop
  /-- There is no header. -/
  | header (refused : CentralHeader.decode.run c = .error error)
  /-- The header has a marker. -/
  | entry (h : CentralHeader) (c' : Cursor) (decoded : CentralHeader.decode.run c = .ok (h, c'))
    (refused : Entry.ofHeader h = .error error)

theorem Refuses.isCorruption_or {c : Cursor} (h : Refuses c error) :
    error.isCorruption = true ∨ error = .io .unexpectedEnd := by
  cases h with
  | header refused =>
    obtain ⟨found, rfl⟩ | rfl := CentralHeader.decode_signed.error refused
    · exact .inl rfl
    · exact .inr rfl
  | entry header c' decoded refused =>
    obtain rfl := Entry.ofHeader_error refused
    exact .inl rfl

/-- An entry is refused for lack of bytes exactly if these end within its header. -/
theorem refuses_unexpectedEnd_iff {c : Cursor} : Refuses c (.io .unexpectedEnd) ↔
    CutOff CentralHeader.Fits CentralHeader.encode c.rest := by
  rw [← CentralHeader.run_decode_unexpectedEnd_iff]
  constructor
  · intro h
    cases h with
    | header refused => exact refused
    | entry header c' decoded refused => cases Entry.ofHeader_error refused
  · exact .header

/-- A central directory is refused for the first header that is, behind others that are read. -/
theorem readEntries_eq_error_iff {count : Nat} {read : Array Entry} {c : Cursor} :
    readEntries count read c = .error error ↔
      ∃ headers : List CentralHeader, headers.length < count ∧ (∀ h ∈ headers, Readable h) ∧
        headers.flatMap CentralHeader.encode <+: c.rest ∧
        Refuses (c.advance (headers.flatMap CentralHeader.encode).length) error := by
  induction count generalizing read c with
  | zero => simp [readEntries]
  -- The first header is refused, or it is read and the induction hypothesis is about the others.
  | succ count ih =>
    rw [readEntries]
    constructor
    · intro h
      split at h
      · next error' hdecode =>
        obtain rfl := Except.error.inj h
        exact ⟨[], Nat.succ_pos _, by simp, List.nil_prefix, .header hdecode⟩
      · next header c' hdecode =>
        split at h
        · next error' hentry =>
          obtain rfl := Except.error.inj h
          exact ⟨[], Nat.succ_pos _, by simp, List.nil_prefix, .entry header c' hdecode hentry⟩
        · next entry hentry =>
          obtain ⟨fits, hpre, rfl⟩ := CentralHeader.run_decode_eq_ok_iff.mp hdecode
          obtain ⟨unmarked, -⟩ := Entry.ofHeader_eq_ok_iff.mp hentry
          obtain ⟨headers, hlength, hreadable, hpre', hrefuses⟩ := ih.mp h
          rw [← header.length_encode] at hpre' hrefuses
          refine ⟨header :: headers, Nat.succ_lt_succ hlength,
            List.forall_mem_cons.mpr ⟨⟨fits, unmarked⟩, hreadable⟩, ?_, ?_⟩
          · obtain ⟨left, hleft⟩ := hpre
            rw [Cursor.rest_advance, ← hleft, List.drop_left] at hpre'
            rw [← hleft, List.flatMap_cons]
            exact (List.prefix_append_right_inj _).mpr hpre'
          · rwa [List.flatMap_cons, List.length_append, ← Cursor.advance_advance]
    · rintro ⟨headers, hlength, hreadable, hpre, hrefuses⟩
      cases headers with
      | nil =>
        replace hrefuses : Refuses c error := hrefuses
        cases hrefuses with
        | header refused => rw [refused]
        | entry header c' decoded refused =>
          rw [decoded]
          dsimp only
          rw [refused]
      | cons header headers =>
        obtain ⟨⟨fits, unmarked⟩, hreadable⟩ := List.forall_mem_cons.mp hreadable
        rw [List.flatMap_cons] at hpre hrefuses
        rw [List.length_append, ← Cursor.advance_advance] at hrefuses
        rw [CentralHeader.run_decode_eq_ok_iff.mpr
          ⟨fits, (List.prefix_append _ _).trans hpre, rfl⟩]
        dsimp only
        rw [Entry.ofHeader_eq_ok_iff.mpr ⟨unmarked, rfl⟩, ← header.length_encode]
        refine ih.mpr ⟨headers, Nat.lt_of_succ_lt_succ hlength, hreadable, ?_, hrefuses⟩
        rw [Cursor.rest_advance]
        simpa using hpre.drop header.encode.length

/-- How bytes are refused: for lack of an end record, for a fault of it, or in the directory. -/
theorem ofBytes_eq_error_iff : ofBytes bytes = .error error ↔
    EndRecord.find bytes = .error error ∨ ∃ r place, r.LastAt bytes place ∧
      ((∃ fault, endRecordFault? r place = some fault ∧ error = .invalidFormat fault) ∨
        endRecordFault? r place = none ∧ readEntries r.totalEntries.toNat #[]
          (.start (directoryBytes bytes r)) = .error error) := by
  rw [ofBytes, bind_eq_error_iff]
  refine or_congr_right ?_
  constructor
  · rintro ⟨⟨r, place⟩, hfind, h⟩
    refine ⟨r, place, EndRecord.find_eq_ok_iff.mp hfind, ?_⟩
    cases hfault : endRecordFault? r place with
    | some fault =>
      simp only [hfault] at h
      exact .inl ⟨fault, rfl, (Except.error.inj h).symm⟩
    | none =>
      simp only [hfault, bind_eq_error_iff] at h
      obtain h | ⟨entries, -, h⟩ := h
      · exact .inr ⟨rfl, h⟩
      · cases h
  · rintro ⟨r, place, hlast, h⟩
    refine ⟨(r, place), EndRecord.find_eq_ok_iff.mpr hlast, ?_⟩
    obtain ⟨fault, hfault, rfl⟩ | ⟨hfault, h⟩ := h
    · simp only [hfault]
      rfl
    · simp only [hfault, bind_eq_error_iff]
      exact .inl h

theorem ofBytes_isCorruption_or (h : ofBytes bytes = .error error) :
    error.isCorruption = true ∨ error = .io .unexpectedEnd := by
  obtain h | ⟨r, place, -, ⟨fault, -, rfl⟩ | ⟨-, h⟩⟩ := ofBytes_eq_error_iff.mp h
  · obtain rfl | rfl := EndRecord.find_error h
    · exact .inl rfl
    · exact .inl rfl
  · exact .inl rfl
  · obtain ⟨headers, -, -, -, hrefuses⟩ := readEntries_eq_error_iff.mp h
    exact hrefuses.isCorruption_or

/-- Bytes are refused for lack of bytes exactly if their central directory ends within a header. -/
theorem ofBytes_unexpectedEnd_iff : ofBytes bytes = .error (.io .unexpectedEnd) ↔
    ∃ r place headers, CutDirectory bytes r place headers := by
  rw [ofBytes_eq_error_iff]
  constructor
  · rintro (h | ⟨r, place, hlast, ⟨fault, -, h⟩ | ⟨hfault, h⟩⟩)
    · obtain h | h := EndRecord.find_error h <;> cases h
    · cases h
    · obtain ⟨headers, hlength, hreadable, hpre, hrefuses⟩ := readEntries_eq_error_iff.mp h
      rw [refuses_unexpectedEnd_iff, Cursor.rest_advance, rest_directoryBytes] at hrefuses
      rw [rest_directoryBytes] at hpre
      exact ⟨r, place, headers, hlast, hfault, hlength, hreadable, hpre, hrefuses⟩
  · rintro ⟨r, place, headers, d⟩
    refine .inr ⟨r, place, d.last, .inr ⟨d.sound, readEntries_eq_error_iff.mpr
      ⟨headers, d.fewer, d.readable, ?_, ?_⟩⟩⟩
    · rw [rest_directoryBytes]
      exact d.spells
    · rw [refuses_unexpectedEnd_iff, Cursor.rest_advance, rest_directoryBytes]
      exact d.cutOff

end Opening

/-! ### Reading entries -/

section Reading

variable {a : Archive} {e : Entry} {error : Error}

/-- The bytes end within the local header of an entry. -/
def HeaderCutOff (a : Archive) (e : Entry) : Prop :=
  CutOff LocalHeader.Fits LocalHeader.encode (a.bytes.data.toList.drop e.headerOffset)

/-- How the payload of an entry is refused: there is no local header, it is of another method, or
the payload runs into the central directory. -/
theorem payload_eq_error_iff : a.payload e = .error error ↔
    LocalHeader.decode.run ⟨a.bytes, e.headerOffset⟩ = .error error ∨
    ∃ header c, LocalHeader.decode.run ⟨a.bytes, e.headerOffset⟩ = .ok (header, c) ∧
      (header.method ≠ e.methodId ∧
          .invalidFormat (.methodMismatch e.name header.method e.methodId) = error ∨
        header.method = e.methodId ∧
          a.directoryOffset < e.headerOffset + header.encodedSize + e.compressedSize ∧
          .invalidFormat (.pastDirectory e.name e.compressedSize
            (e.headerOffset + header.encodedSize) a.directoryOffset) = error) := by
  simp only [payload, bind_eq_error_iff, unless_eq_error_iff, Prod.exists, pure, Except.pure,
    reduceCtorEq, and_false, or_false, not_not]

theorem payload_isCorruption_or (h : a.payload e = .error error) :
    error.isCorruption = true ∨ error = .io .unexpectedEnd := by
  obtain h | ⟨header, c, -, ⟨-, rfl⟩ | ⟨-, -, rfl⟩⟩ := payload_eq_error_iff.mp h
  · obtain ⟨found, rfl⟩ | rfl := LocalHeader.decode_signed.error h
    · exact .inl rfl
    · exact .inr rfl
  · exact .inl rfl
  · exact .inl rfl

/-- A payload is refused for lack of bytes exactly if these end within its local header. -/
theorem payload_unexpectedEnd_iff :
    a.payload e = .error (.io .unexpectedEnd) ↔ a.HeaderCutOff e := by
  have hdecode : LocalHeader.decode.run ⟨a.bytes, e.headerOffset⟩ = .error (.io .unexpectedEnd) ↔
      a.HeaderCutOff e := LocalHeader.run_decode_unexpectedEnd_iff
  rw [payload_eq_error_iff, hdecode]
  constructor
  · rintro (h | ⟨header, c, -, ⟨-, h⟩ | ⟨-, -, h⟩⟩)
    · exact h
    · cases h
    · cases h
  · exact .inl

variable [Codec]

/-- The payload of an entry is found, and its decoder shows damage when it is asked for one byte
more than the data should have. -/
def Undecodable (a : Archive) (e : Entry) : Prop :=
  ∃ (method : Method) (payload : ByteArray) (error : Error), e.methodId = method.id ∧
    a.payload e = .ok payload ∧ method.expand (e.uncompressedSize + 1) payload = .error error

/-- Damage that a decoder meets is told as a failure of its codec. -/
theorem not_isCorruption_of_expand {method : Method} {limit : Nat} {payload : ByteArray}
    (h : method.expand limit payload = .error error) : error.isCorruption = false := by
  cases method with
  | stored => cases h
  | deflated =>
    obtain ⟨fault, rfl⟩ := Expansion.toExcept_error h
    rfl
  | bzip2 =>
    obtain ⟨fault, rfl⟩ := Expansion.toExcept_error h
    rfl

/-- How a payload is refused: its decoder meets damage, or puts out too little or too much. -/
theorem decompress_eq_error_iff {method : Method} {payload : ByteArray} {size : Nat} :
    decompress method payload size = .error error ↔
      method.expand (size + 1) payload = .error error ∨
      ∃ data, method.expand (size + 1) payload = .ok data ∧
        data.size ≠ size ∧ .wrongSize size data.size = error := by
  simp only [decompress, bind_eq_error_iff, checked_eq_error_iff, ne_eq]

/-- How an entry is refused that is not encrypted and has a known method: no payload is found, it
cannot be decompressed, or the data has a wrong checksum. -/
theorem readEntry_eq_error_iff {method : Method} (clear : e.flags.toNat.testBit 0 = false)
    (named : e.methodId = method.id) : a.readEntry e = .error error ↔
      a.payload e = .error error ∨ ∃ payload, a.payload e = .ok payload ∧
        (decompress method payload e.uncompressedSize = .error error ∨
          ∃ data, decompress method payload e.uncompressedSize = .ok data ∧
            crc32 data ≠ e.crc ∧ .checksumMismatch e.name e.crc (crc32 data) = error) := by
  have hmethod : e.method = .ok method := Entry.method_eq_ok_iff.mpr named
  simp only [readEntry, unless_eq_error_iff, bind_eq_error_iff, checked_eq_error_iff,
    e.isEncrypted_eq_testBit, clear, hmethod, Bool.false_eq_true, false_and, false_or,
    not_false_eq_true, true_and, reduceCtorEq, Except.ok.injEq, exists_eq_left', ne_eq]

/-- Once a payload is found, its method decides whether it can be decoded. -/
theorem undecodable_iff {method : Method} {payload : ByteArray} (named : e.methodId = method.id)
    (found : a.payload e = .ok payload) : a.Undecodable e ↔
      ∃ error, method.expand (e.uncompressedSize + 1) payload = .error error := by
  constructor
  · rintro ⟨method', payload', error, named', found', damage⟩
    obtain rfl := Except.ok.inj
      ((Entry.method_eq_ok_iff.mpr named).symm.trans (Entry.method_eq_ok_iff.mpr named'))
    obtain rfl := Except.ok.inj (found.symm.trans found')
    exact ⟨error, damage⟩
  · rintro ⟨error, damage⟩
    exact ⟨method, payload, error, named, found, damage⟩

/-- An entry that is not encrypted and has a known method is refused for corruption, unless its
local header is cut off or its payload cannot be decoded. -/
theorem isCorruption_iff_of_readEntry {method : Method} (clear : e.flags.toNat.testBit 0 = false)
    (named : e.methodId = method.id) (refused : a.readEntry e = .error error) :
    error.isCorruption = true ↔ ¬ (a.HeaderCutOff e ∨ a.Undecodable e) := by
  obtain hpayload | ⟨payload, hpayload, refused⟩ := (readEntry_eq_error_iff clear named).mp refused
  · -- Without a payload there is nothing to decode.
    have hnot : ¬ a.Undecodable e := by
      rintro ⟨method', payload, error', -, hfound, -⟩
      rw [hpayload] at hfound
      cases hfound
    rw [or_iff_left hnot, ← payload_unexpectedEnd_iff, hpayload, Except.error.injEq]
    exact Error.isCorruption_iff_ne (payload_isCorruption_or hpayload)
  · have hnot : ¬ a.HeaderCutOff e := fun h => by
      rw [payload_unexpectedEnd_iff.mpr h] at hpayload
      cases hpayload
    rw [or_iff_right hnot, undecodable_iff named hpayload]
    obtain hdecompress | ⟨data, hdecompress, -, rfl⟩ := refused
    · obtain hexpand | ⟨data, hexpand, -, rfl⟩ := decompress_eq_error_iff.mp hdecompress
      · simp [hexpand, not_isCorruption_of_expand hexpand]
      · simp [hexpand, Error.isCorruption]
    · obtain ⟨output, hexpand, -⟩ := bind_eq_ok_iff.mp hdecompress
      simp [hexpand, Error.isCorruption]

end Reading

/-! ### The classification -/

/-- Bytes that cannot be opened are refused for corruption, unless their central directory ends
within a header. If they can be opened, an entry that is not encrypted and has a known method is
refused for corruption, unless the bytes end within its local header or its decoder shows damage. -/
theorem refusal_isCorruption_iff [Codec] (bytes : ByteArray) :
    (∀ error, ofBytes bytes = .error error →
      (error.isCorruption = true ↔ ¬ ∃ r place headers, CutDirectory bytes r place headers)) ∧
    ∀ a i e error, ofBytes bytes = .ok a → a.entries[i]? = some e →
      e.flags.toNat.testBit 0 = false → e.methodId ∈ ([0, 8, 12] : List UInt16) →
      a.readAt i = .error error →
      (error.isCorruption = true ↔ ¬ (a.HeaderCutOff e ∨ a.Undecodable e)) := by
  constructor
  · intro error refused
    rw [← ofBytes_unexpectedEnd_iff, refused, Except.error.injEq]
    exact Error.isCorruption_iff_ne (ofBytes_isCorruption_or refused)
  · intro a i e error accepted entry clear known refused
    rw [readAt_of_entry entry] at refused
    have hmethod : ∃ method : Method, e.methodId = method.id := by
      simp only [List.mem_cons, List.not_mem_nil, or_false] at known
      obtain h | h | h := known
      · exact ⟨.stored, h⟩
      · exact ⟨.deflated, h⟩
      · exact ⟨.bzip2, h⟩
    obtain ⟨method, named⟩ := hmethod
    exact isCorruption_iff_of_readEntry clear named refused

/-! ### Small archives that are refused -/

/-- An end record that announces a central header, behind nothing. -/
def cutBytes : ByteArray := (EndRecord.singleDisk 1 0 0).encode.toByteArray

/-- A central header of an entry far behind the end of all bytes. -/
def farCentral : CentralHeader := { plainCentral with localHeaderOffset := 200 }

/-- An archive with nothing but this entry. -/
def farBytes : ByteArray := (farCentral.encode ++ (EndRecord.singleDisk 1 47 0).encode).toByteArray

/-- A local header of an entry with a given method. -/
def garbledLocal (method : UInt16) : LocalHeader := { streamedLocal with flags := 0, method }

/-- A central header for it that announces a payload of one byte and data of two. -/
def garbledCentral (method : UInt16) : CentralHeader :=
  { plainCentral with method, compressedSize := 1 }

/-- An archive with nothing but this entry. Its payload is no compressed stream. -/
def garbledBytes (method : UInt16) : ByteArray :=
  ((garbledLocal method).encode ++ [0xFF] ++ (garbledCentral method).encode
    ++ (EndRecord.singleDisk 1 47 32).encode).toByteArray

/-- The first entry of bytes, and why it is refused. -/
def firstRefusal? (bytes : ByteArray) : Option (Entry × Error) :=
  match ofBytes bytes with
  | .error _ => none
  | .ok a =>
    match a.entries[0]?, a.readAt 0 with
    | some e, .error error => some (e, error)
    | _, _ => none

theorem exists_of_firstRefusal? {bytes : ByteArray} {e : Entry} {error : Error}
    (h : firstRefusal? bytes = some (e, error)) :
    ∃ a, ofBytes bytes = .ok a ∧ a.entries[0]? = some e ∧ a.readAt 0 = .error error := by
  rw [firstRefusal?] at h
  split at h
  · cases h
  · next a accepted =>
    split at h
    · next e' error' entry refused =>
      obtain ⟨rfl, rfl⟩ := Prod.mk.inj (Option.some.inj h)
      exact ⟨a, accepted, entry, refused⟩
    · cases h

theorem cutDirectory_cutBytes : CutDirectory cutBytes (.singleDisk 1 0 0) 0 [] where
  last := EndRecord.find_eq_ok_iff.mp (by decide +kernel)
  sound := by decide
  fewer := by decide
  readable := by simp
  spells := List.nil_prefix
  cutOff := .inl (by decide)

/-- The lack of a central header is not called corruption. Nor is a local header behind the end of
all bytes, or a payload that is no deflate stream or no bzip2 stream. -/
theorem refused_without_corruption :
    (∃ error, ofBytes cutBytes = .error error ∧ error.isCorruption = false) ∧
    ∀ bytes ∈ [farBytes, garbledBytes 8, garbledBytes 12], ∃ a e error,
      ofBytes bytes = .ok a ∧ a.entries[0]? = some e ∧ e.flags.toNat.testBit 0 = false ∧
      e.methodId ∈ ([0, 8, 12] : List UInt16) ∧ a.readAt 0 = .error error ∧
      error.isCorruption = false := by
  constructor
  · exact ⟨_, ofBytes_unexpectedEnd_iff.mpr ⟨_, _, _, cutDirectory_cutBytes⟩, rfl⟩
  · have hfar : firstRefusal? farBytes = some (.described farCentral, .io .unexpectedEnd) := by
      decide +kernel
    have hdeflate : firstRefusal? (garbledBytes 8) =
        some (.described (garbledCentral 8), .deflate .corrupt) := by
      decide +kernel
    have hbzip2 : firstRefusal? (garbledBytes 12) =
        some (.described (garbledCentral 12), .bzip2 .badMagic) := by
      decide +kernel
    intro bytes hbytes
    simp only [List.mem_cons, List.not_mem_nil, or_false] at hbytes
    obtain rfl | rfl | rfl := hbytes
    · obtain ⟨a, accepted, entry, refused⟩ := exists_of_firstRefusal? hfar
      exact ⟨a, _, _, accepted, entry, by decide, by decide, refused, rfl⟩
    · obtain ⟨a, accepted, entry, refused⟩ := exists_of_firstRefusal? hdeflate
      exact ⟨a, _, _, accepted, entry, by decide, by decide, refused, rfl⟩
    · obtain ⟨a, accepted, entry, refused⟩ := exists_of_firstRefusal? hbzip2
      exact ⟨a, _, _, accepted, entry, by decide, by decide, refused, rfl⟩

/-- Bytes that are too few are called corruption, so there is no central directory that is cut off.
Neither is there a header that is cut off if the payload of a stored entry is too short. -/
theorem refusal_isCorruption_iff_short :
    (∃ error, ofBytes .empty = .error error ∧
      ¬ ∃ r place headers, CutDirectory .empty r place headers) ∧
    ∃ a e, ofBytes (garbledBytes 0) = .ok a ∧ a.entries[0]? = some e ∧
      a.readAt 0 = .error (.wrongSize 2 1) ∧ ¬ (a.HeaderCutOff e ∨ a.Undecodable e) := by
  have hempty : ofBytes .empty = .error (.invalidFormat (.tooSmall 0)) := rfl
  have hshort : firstRefusal? (garbledBytes 0) =
      some (.described (garbledCentral 0), .wrongSize 2 1) := by
    decide +kernel
  obtain ⟨a, accepted, entry, refused⟩ := exists_of_firstRefusal? hshort
  refine ⟨⟨_, hempty, ?_⟩, a, _, accepted, entry, refused, ?_⟩
  · exact ((refusal_isCorruption_iff .empty).1 _ hempty).mp rfl
  · exact ((refusal_isCorruption_iff (garbledBytes 0)).2 a 0 _ _ accepted entry (by decide)
      (by decide) refused).mp rfl

end Archive

end Folio
