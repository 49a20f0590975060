import Folio.Proofs.Archive.Corruption
import Folio.Proofs.Record.Window

/-!
# Bounds

All places and lengths that a reader computes with come from the bytes, and whoever wrote these may
have chosen them. A guarded reader takes the same steps on the numbers of a machine: sums that do
not fit 64 bits, differences below zero, places outside of a buffer and reads behind the end of the
input are outcomes of their own. It never comes to one of them. What the checks of one step rule out
is what the next step relies on: the record found by the search has room in front of it, the central
directory ends before the record, and payloads end before the central directory.

## Main definitions

* `Breach` — what must not happen to a reader
* `Guarded.find`, `Guarded.ofBytes`, `Guarded.readAt` — the reader, step by step

## Main results

* `Guarded.find_eq`, `Guarded.ofBytes_eq`, `Guarded.readAt_eq` — a guarded reader meets no breach
* `Archive.reads_within_bounds` — all of this, and where the end of the input can be met at all
-/

namespace Folio

/-- What must not happen to a reader, whatever the bytes are. -/
inductive Breach where
  /-- A sum does not fit 64 bits. -/
  | overflow
  /-- A difference is below zero. -/
  | underflow
  /-- A place or a slice lies outside of a buffer. -/
  | outOfRange
  /-- The input ends within a read of which it has been checked that it does not. -/
  | endOfInput
deriving DecidableEq, Repr

/-- The outcome of steps that meet a breach or none. -/
abbrev Guarded (α : Type) := Except Breach α

namespace Guarded

/-! ### Steps -/

/-- One more than the greatest number of 64 bits. -/
def wordLimit : Nat := 0x10000000000000000

/-- The sum of two numbers. -/
def sum (m n : Nat) : Guarded Nat :=
  if m + n < wordLimit then .ok (m + n) else .error .overflow

/-- The difference of two numbers. -/
def difference (m n : Nat) : Guarded Nat :=
  if n ≤ m then .ok (m - n) else .error .underflow

/-- The byte at a place. -/
def byteAt (buffer : ByteArray) (place : Nat) : Guarded UInt8 :=
  if h : place < buffer.size then .ok buffer[place] else .error .outOfRange

/-- The bytes from a place up to another one. -/
def slice (buffer : ByteArray) (start stop : Nat) : Guarded ByteArray :=
  if start ≤ stop ∧ stop ≤ buffer.size then .ok (buffer.extract start stop)
  else .error .outOfRange

/-- A whole read of the input from a place on. -/
def readExact (input : ByteArray) (place count : Nat) : Guarded ByteArray :=
  if place + count ≤ input.size then .ok (input.extract place (place + count))
  else .error .endOfInput

section Steps

variable {m n place start stop count : Nat} {bytes : ByteArray}

theorem sum_eq (h : m + n < wordLimit) : sum m n = .ok (m + n) := if_pos h

theorem difference_eq (h : n ≤ m) : difference m n = .ok (m - n) := if_pos h

theorem byteAt_eq (h : place < bytes.size) : byteAt bytes place = .ok bytes[place] := dif_pos h

theorem slice_eq (h : start ≤ stop) (h' : stop ≤ bytes.size) :
    slice bytes start stop = .ok (bytes.extract start stop) := if_pos ⟨h, h'⟩

theorem readExact_eq (h : place + count ≤ bytes.size) :
    readExact bytes place count = .ok (bytes.extract place (place + count)) := if_pos h

theorem ok_bind {α β : Type} (x : α) (f : α → Guarded β) : (Except.ok x >>= f) = f x := rfl

end Steps

/-! ### The search for the end record -/

/-- The last candidate among the first places of a buffer. -/
def scan (buffer : ByteArray) : (count : Nat) → Guarded (Option Nat)
  | 0 => return none
  | place + 1 => do
    let word ← slice buffer place (← sum place 4)
    if word.data.toList ≠ le32 EndRecord.signature then scan buffer place
    else
      let low ← byteAt buffer (← sum place 20)
      let high ← byteAt buffer (← sum place 21)
      let stop ← sum (← sum place EndRecord.fixedSize) (ofLe16 low high).toNat
      if stop = buffer.size then return some place else scan buffer place

/-- The record at the last candidate of a window, which starts at a place in the bytes. -/
def findIn (window : ByteArray) (start : Nat) : Guarded (Except Error (EndRecord × Nat)) := do
  let last ← difference window.size EndRecord.fixedSize
  match ← scan window (last + 1) with
  | none => return .error (.invalidFormat .noEndRecord)
  | some place =>
    let rest ← slice window place window.size
    match EndRecord.decode.run (.start rest) with
    | .error error => return .error error
    | .ok (record, _) => return .ok (record, ← sum start place)

/-- The last record whose comment ends the bytes, and its offset. -/
def find (bytes : ByteArray) : Guarded (Except Error (EndRecord × Nat)) :=
  if bytes.size < EndRecord.fixedSize then return .error (.invalidFormat (.tooSmall bytes.size))
  else do
    let longest ← sum EndRecord.fixedSize EndRecord.maxComment
    let start ← difference bytes.size (min bytes.size longest)
    let window ← readExact bytes start (min bytes.size longest)
    findIn window start

section Find

variable {bytes : ByteArray} {place count : Nat}

/-- The bytes behind a place. -/
theorem toList_extract_size (bytes : ByteArray) (start : Nat) :
    (bytes.extract start bytes.size).data.toList = bytes.data.toList.drop start := by
  rw [ByteArray.data_extract, Array.toList_extract, List.extract_eq_take_drop]
  exact List.take_of_length_le (by rw [List.length_drop]; exact Nat.le_refl _)

theorem toList_extract (bytes : ByteArray) (start count : Nat) :
    (bytes.extract start (start + count)).data.toList =
      (bytes.data.toList.drop start).take count := by
  rw [ByteArray.data_extract, Array.toList_extract, List.extract_eq_take_drop,
    Nat.add_sub_cancel_left]

/-- A place with room for the fixed fields is a candidate if the signature stands there and the
comment ends the bytes. -/
theorem isCandidate_iff_of_room (h : place + 22 ≤ bytes.size) (low : place + 20 < bytes.size)
    (high : place + 21 < bytes.size) :
    EndRecord.isCandidate bytes place = true ↔
      (bytes.extract place (place + 4)).data.toList = le32 EndRecord.signature ∧
        place + 22 + (ofLe16 bytes[place + 20] bytes[place + 21]).toNat = bytes.size := by
  have hword : [bytes[place], bytes[place + 1], bytes[place + 2], bytes[place + 3]] =
      (bytes.extract place (place + 4)).data.toList := by
    rw [toList_extract]
    apply List.ext_getElem?
    rintro (_ | _ | _ | _ | k)
    · simp [ByteArray.getElem_eq_getElem_data]
    · simp [ByteArray.getElem_eq_getElem_data]
    · simp [ByteArray.getElem_eq_getElem_data]
    · simp [ByteArray.getElem_eq_getElem_data]
    -- Behind the four bytes there is nothing on either side.
    · have hlength : ((bytes.data.toList.drop place).take 4).length ≤ k + 4 :=
        (List.length_take_le 4 _).trans (Nat.le_add_left 4 k)
      exact (List.getElem?_eq_none hlength).symm
  rw [EndRecord.isCandidate,
    dif_pos (show place + EndRecord.fixedSize ≤ bytes.size from h), ← hword]
  simp only [EndRecord.fixedSize, Bool.and_eq_true, beq_iff_eq]
  exact Iff.rfl

/-- The scan meets no breach in a buffer that is no longer than the window. -/
theorem scan_eq (room : count + 21 ≤ bytes.size) (short : bytes.size < 0x20000) :
    scan bytes count = .ok (EndRecord.lastCandidate? bytes 0 count) := by
  induction count with
  | zero => rfl
  | succ place ih =>
    have hroom : place + 22 ≤ bytes.size := by omega
    have hlength := (ofLe16 bytes[place + 20] bytes[place + 21]).toNat_lt
    have hcandidate := isCandidate_iff_of_room hroom (by omega) (by omega)
    -- All sums are small, and the scan reads only bytes for which there is room.
    have hsum (m n : Nat) (hm : m < 0x20000) (hn : n < 0x10000) : sum m n = .ok (m + n) :=
      sum_eq (by rw [wordLimit]; omega)
    rw [scan, EndRecord.lastCandidate?, Nat.zero_add, hsum place 4 (by omega) (by decide), ok_bind,
      slice_eq (Nat.le_add_right place 4) (by omega), ok_bind]
    by_cases hword : (bytes.extract place (place + 4)).data.toList = le32 EndRecord.signature
    · rw [if_neg (not_not.mpr hword), hsum place 20 (by omega) (by decide), ok_bind,
        byteAt_eq (by omega), ok_bind, hsum place 21 (by omega) (by decide), ok_bind,
        byteAt_eq (by omega), ok_bind, EndRecord.fixedSize, hsum place 22 (by omega) (by decide),
        ok_bind, hsum (place + 22) _ (by omega) hlength, ok_bind]
      simp only [hcandidate, hword, true_and, ih (by omega)]
      split <;> rfl
    · rw [if_pos hword, if_neg (fun h => hword (hcandidate.mp h).1)]
      exact ih (by omega)

/-- The candidates of the window are those of the bytes, counted from the start of the window. -/
theorem lastCandidate?_extract {start : Nat} (h : start ≤ bytes.size) (count : Nat) :
    EndRecord.lastCandidate? bytes start count =
      (EndRecord.lastCandidate? (bytes.extract start bytes.size) 0 count).map (start + ·) := by
  have hcandidate (place : Nat) : EndRecord.isCandidate bytes (start + place) =
      EndRecord.isCandidate (bytes.extract start bytes.size) place := by
    have hlength : (bytes.data.toList.take start).length = start := by
      rw [List.length_take]
      exact Nat.min_eq_left h
    have hsplit : bytes.data.toList =
        bytes.data.toList.take start ++ (bytes.extract start bytes.size).data.toList := by
      rw [toList_extract_size, List.take_append_drop]
    rw [Bool.eq_iff_iff, EndRecord.isCandidate_iff, EndRecord.isCandidate_iff,
      ← EndRecord.candidate_iff, ← EndRecord.candidate_iff, hsplit]
    have happend : EndRecord.Candidate (bytes.data.toList.take start ++
          (bytes.extract start bytes.size).data.toList)
          ((bytes.data.toList.take start).length + place) ↔
        EndRecord.Candidate (bytes.extract start bytes.size).data.toList place :=
      EndRecord.candidate_append
    rwa [hlength] at happend
  induction count with
  | zero => rfl
  | succ place ih =>
    rw [EndRecord.lastCandidate?, EndRecord.lastCandidate?, Nat.zero_add, hcandidate]
    split
    · rfl
    · exact ih

/-- From the end of the bytes a record is read as it stands in them. -/
theorem run_decode_extract {r : EndRecord} (h : r.StandsAt bytes place) :
    ∃ c, EndRecord.decode.run (.start (bytes.extract place bytes.size)) = .ok (r, c) := by
  have hstands : r.StandsAt (bytes.extract place bytes.size) 0 :=
    ⟨h.fits, by rw [toList_extract_size, List.drop_zero, h.spells]⟩
  exact ⟨_, hstands.run_decode⟩

/-- What is read at the last candidate, if there is one. -/
def outcome (bytes : ByteArray) : Option Nat → Except Error (EndRecord × Nat)
  | none => .error (.invalidFormat .noEndRecord)
  | some place =>
    match EndRecord.decode.run ⟨bytes, place⟩ with
    | .ok (record, _) => .ok (record, place)
    | .error fault => .error fault

/-- The search takes the last candidate of the window. -/
theorem find_eq_outcome (large : ¬ bytes.size < EndRecord.fixedSize) {reach : Nat}
    (hreach : reach = EndRecord.fixedSize + EndRecord.maxComment) :
    EndRecord.find bytes = outcome bytes (EndRecord.lastCandidate? bytes (bytes.size - reach)
      (bytes.size - EndRecord.fixedSize + 1 - (bytes.size - reach))) := by
  subst hreach
  rw [EndRecord.find, if_neg large]
  dsimp only
  generalize EndRecord.lastCandidate? bytes _ _ = last
  cases last with
  | none => rfl
  | some place => rfl

/-- The search of a window meets no breach. It finds what stands in the window. -/
theorem findIn_eq {start : Nat} (held : bytes.size < wordLimit) (room : start + 22 ≤ bytes.size)
    (short : bytes.size - start < 0x20000) :
    findIn (bytes.extract start bytes.size) start = .ok (outcome bytes
      (EndRecord.lastCandidate? bytes start (bytes.size - start - 22 + 1))) := by
  have hsize : (bytes.extract start bytes.size).size = bytes.size - start := by
    rw [ByteArray.size_extract, Nat.min_self]
  have hspells := toList_extract_size bytes start
  rw [lastCandidate?_extract (by omega)]
  generalize bytes.extract start bytes.size = window at hsize hspells
  rw [findIn, difference_eq (by rw [hsize]; exact (by omega : 22 ≤ bytes.size - start)), ok_bind,
    EndRecord.fixedSize, scan_eq (by omega) (by omega), ok_bind, hsize]
  cases hscan : EndRecord.lastCandidate? window 0 (bytes.size - start - 22 + 1) with
  | none => rfl
  | some place =>
    -- A record stands at every candidate, so it can be read, in the window and in the bytes.
    obtain ⟨-, hcandidate, -⟩ := EndRecord.lastCandidate?_eq_some_iff.mp hscan
    obtain ⟨r, hstands⟩ := EndRecord.isCandidate_iff.mp hcandidate
    have hstands' : r.StandsAt bytes (start + place) :=
      ⟨hstands.fits, by rw [← List.drop_drop, ← hspells, hstands.spells]⟩
    have hplace := hstands.lt_size
    have hsum : sum start place = .ok (start + place) := sum_eq (by
      simp only [EndRecord.fixedSize] at hplace
      omega)
    obtain ⟨c, hdecode⟩ := run_decode_extract hstands
    simp only [Option.map_some, outcome, hstands'.run_decode, ← hsize]
    rw [slice_eq (by omega) (Nat.le_refl _), ok_bind, hdecode]
    dsimp only
    rw [hsum]
    rfl

/-- The search meets no breach, in any bytes that a machine can hold. -/
theorem find_eq (held : bytes.size < wordLimit) : find bytes = .ok (EndRecord.find bytes) := by
  by_cases hsmall : bytes.size < EndRecord.fixedSize
  · rw [find, if_pos hsmall, EndRecord.find, if_pos hsmall]
    rfl
  have hsize : 22 ≤ bytes.size := not_lt.mp hsmall
  have hlongest : sum EndRecord.fixedSize EndRecord.maxComment =
      .ok (EndRecord.fixedSize + EndRecord.maxComment) := sum_eq (by decide)
  generalize hreach : EndRecord.fixedSize + EndRecord.maxComment = reach at hlongest
  have hwindow : reach = 65557 := hreach.symm
  -- The window ends where the bytes do.
  have hstart : bytes.size - min bytes.size reach = bytes.size - reach := by omega
  have hend : bytes.size - reach + min bytes.size reach = bytes.size := by omega
  have hcount : bytes.size - (bytes.size - reach) - 22 + 1 =
      bytes.size - EndRecord.fixedSize + 1 - (bytes.size - reach) := by
    rw [EndRecord.fixedSize]
    omega
  rw [find, if_neg hsmall, hlongest, ok_bind, difference_eq (Nat.min_le_left _ _), ok_bind, hstart,
    readExact_eq hend.le, ok_bind, hend, findIn_eq held (by omega) (by omega), hcount,
    find_eq_outcome hsmall hreach.symm]

end Find

/-! ### Archives -/

/-- Reads the central directory of an archive. -/
def ofBytes (bytes : ByteArray) : Guarded (Except Error Archive) := do
  match ← find bytes with
  | .error error => return .error error
  | .ok (r, place) =>
    if r.diskNumber ≠ 0 ∨ r.directoryDisk ≠ 0 then return .error (.invalidFormat .multiDisk)
    else if r.totalEntries = 0xFFFF ∨ r.directoryOffset = Entry.zip64Marker then
      return .error (.invalidFormat .zip64)
    else if r.diskEntries ≠ r.totalEntries then
      return .error (.invalidFormat (.entryCounts r.diskEntries r.totalEntries))
    else
      let stop ← sum r.directoryOffset.toNat r.directorySize.toNat
      if place < stop then
        return .error (.invalidFormat
          (.directoryOverlap r.directorySize.toNat r.directoryOffset.toNat place))
      else
        let directory ← readExact bytes r.directoryOffset.toNat r.directorySize.toNat
        match Archive.readEntries r.totalEntries.toNat #[] (.start directory) with
        | .error error => return .error error
        | .ok entries =>
          return .ok { bytes, entries, directoryOffset := r.directoryOffset.toNat,
                       comment := r.comment }

/-- Opening an archive meets no breach: the central directory ends before the end record. -/
theorem ofBytes_eq {bytes : ByteArray} (held : bytes.size < wordLimit) :
    ofBytes bytes = .ok (Archive.ofBytes bytes) := by
  rw [ofBytes, find_eq held, ok_bind, Archive.ofBytes]
  cases hfind : EndRecord.find bytes with
  | error error => rfl
  | ok found =>
    obtain ⟨r, place⟩ := found
    have hplace := (EndRecord.find_eq_ok_iff.mp hfind).lt_size
    have hoffset := r.directoryOffset.toNat_lt
    have hsize := r.directorySize.toNat_lt
    have hsum : sum r.directoryOffset.toNat r.directorySize.toNat =
        .ok (r.directoryOffset.toNat + r.directorySize.toNat) := sum_eq (by
      rw [wordLimit]
      omega)
    simp only [bind, Except.bind, Archive.endRecordFault?]
    by_cases hdisk : r.diskNumber ≠ 0 ∨ r.directoryDisk ≠ 0
    · rw [if_pos hdisk, if_pos hdisk]
      rfl
    rw [if_neg hdisk, if_neg hdisk]
    by_cases hmarker : r.totalEntries = 0xFFFF ∨ r.directoryOffset = Entry.zip64Marker
    · rw [if_pos hmarker, if_pos hmarker]
      rfl
    rw [if_neg hmarker, if_neg hmarker]
    by_cases hcounts : r.diskEntries ≠ r.totalEntries
    · rw [if_pos hcounts, if_pos hcounts]
      rfl
    rw [if_neg hcounts, if_neg hcounts, hsum]
    dsimp only
    by_cases hoverlap : place < r.directoryOffset.toNat + r.directorySize.toNat
    · rw [if_pos hoverlap, if_pos hoverlap]
      rfl
    rw [if_neg hoverlap, if_neg hoverlap, readExact_eq (by omega)]
    simp only [Archive.directoryBytes]
    cases Archive.readEntries r.totalEntries.toNat #[] _ with
    | error error => rfl
    | ok entries => rfl

/-- The number of bytes of a local header. -/
def encodedSize (header : LocalHeader) : Guarded Nat := do
  sum (← sum LocalHeader.fixedSize header.name.length) header.extra.length

/-- The data of an entry. -/
def readEntry [Codec] (a : Archive) (e : Entry) : Guarded (Except Error ByteArray) :=
  if e.isEncrypted then return .error (.invalidFormat (.encrypted e.name))
  else
    match e.method with
    | .error error => return .error error
    | .ok method =>
      match LocalHeader.decode.run ⟨a.bytes, e.headerOffset⟩ with
      | .error error => return .error error
      | .ok (header, _) =>
        if header.method ≠ e.methodId then
          return .error (.invalidFormat (.methodMismatch e.name header.method e.methodId))
        else do
          let offset ← sum e.headerOffset (← encodedSize header)
          let stop ← sum offset e.compressedSize
          if a.directoryOffset < stop then
            return .error (.invalidFormat
              (.pastDirectory e.name e.compressedSize offset a.directoryOffset))
          else
            let payload ← readExact a.bytes offset e.compressedSize
            let limit ← sum e.uncompressedSize 1
            match method.expand limit payload with
            | .error error => return .error error
            | .ok data =>
              if data.size ≠ e.uncompressedSize then
                return .error (.wrongSize e.uncompressedSize data.size)
              else if crc32 data ≠ e.crc then
                return .error (.checksumMismatch e.name e.crc (crc32 data))
              else return .ok data

/-- The data of the entry with an index. -/
def readAt [Codec] (a : Archive) (index : Nat) : Guarded (Except Error ByteArray) :=
  match a.entries[index]? with
  | some entry => readEntry a entry
  | none => return .error (.noEntryAt index)

/-- The numbers of an entry are those of 32-bit fields. -/
structure Narrow (e : Entry) : Prop where
  compressedSize : e.compressedSize < 0x100000000
  uncompressedSize : e.uncompressedSize < 0x100000000
  headerOffset : e.headerOffset < 0x100000000

theorem narrow_described (h : CentralHeader) : Narrow (.described h) where
  compressedSize := h.compressedSize.toNat_lt
  uncompressedSize := h.uncompressedSize.toNat_lt
  headerOffset := h.localHeaderOffset.toNat_lt

theorem encodedSize_lt {header : LocalHeader} (fits : header.Fits) :
    header.encodedSize < 0x21000 := by
  have hname := fits.name
  have hextra := fits.extra
  simp only [maxLength] at hname hextra
  rw [LocalHeader.encodedSize, LocalHeader.fixedSize]
  omega

theorem encodedSize_eq {header : LocalHeader} (fits : header.Fits) :
    encodedSize header = .ok header.encodedSize := by
  have hlt := encodedSize_lt fits
  have hnamed : sum LocalHeader.fixedSize header.name.length =
      .ok (LocalHeader.fixedSize + header.name.length) := sum_eq (by
    rw [LocalHeader.encodedSize] at hlt
    rw [wordLimit]
    omega)
  rw [encodedSize, hnamed, ok_bind]
  exact sum_eq (hlt.trans (by decide))

section Read

variable [Codec] {a : Archive} {bytes : ByteArray}

/-- Reading an entry meets no breach: its payload ends before the central directory. -/
theorem readEntry_eq {e : Entry} (accepted : Archive.ofBytes bytes = .ok a) (narrow : Narrow e) :
    readEntry a e = .ok (a.readEntry e) := by
  rw [readEntry, Archive.readEntry]
  by_cases hencrypted : e.isEncrypted = true
  · rw [if_pos hencrypted, if_pos hencrypted]
    rfl
  rw [if_neg hencrypted, if_neg hencrypted]
  cases hmethod : e.method with
  | error error => rfl
  | ok method =>
    simp only [Archive.payload, bind, Except.bind]
    cases hdecode : LocalHeader.decode.run ⟨a.bytes, e.headerOffset⟩ with
    | error error => rfl
    | ok decoded =>
      obtain ⟨header, c⟩ := decoded
      obtain ⟨fits, -, -⟩ := LocalHeader.run_decode_eq_ok_iff.mp hdecode
      have hheader := encodedSize_lt fits
      have hsize := narrow.compressedSize
      have hplace := narrow.headerOffset
      have hdata := narrow.uncompressedSize
      have hdirectory := Archive.directoryOffset_le accepted
      obtain rfl := Archive.bytes_eq accepted
      -- The sums of an entry are far from 64 bits, since its fields have 16 or 32 of them.
      have hoffset : sum e.headerOffset header.encodedSize =
          .ok (e.headerOffset + header.encodedSize) := sum_eq (by
        rw [wordLimit]
        omega)
      have hstop : sum (e.headerOffset + header.encodedSize) e.compressedSize =
          .ok (e.headerOffset + header.encodedSize + e.compressedSize) := sum_eq (by
        rw [wordLimit]
        omega)
      have hlimit : sum e.uncompressedSize 1 = .ok (e.uncompressedSize + 1) := sum_eq (by
        rw [wordLimit]
        omega)
      dsimp only
      by_cases hother : header.method ≠ e.methodId
      · rw [if_pos hother, if_pos hother]
        rfl
      rw [if_neg hother, if_neg hother, encodedSize_eq fits]
      dsimp only
      rw [hoffset]
      dsimp only
      rw [hstop]
      dsimp only
      by_cases hpast :
          a.directoryOffset < e.headerOffset + header.encodedSize + e.compressedSize
      · rw [if_pos hpast, if_pos hpast]
        rfl
      -- The payload ends before the central directory, and so before the end of the bytes.
      rw [if_neg hpast, if_neg hpast, readExact_eq (by omega), hlimit]
      simp only [pure, Except.pure, decompress, bind, Except.bind]
      cases method.expand (e.uncompressedSize + 1) _ with
      | error error => rfl
      | ok data =>
        dsimp only
        by_cases hlength : data.size = e.uncompressedSize
        · rw [if_neg (not_not.mpr hlength), if_pos hlength]
          dsimp only
          by_cases hcrc : crc32 data = e.crc
          · rw [if_neg (not_not.mpr hcrc), if_pos hcrc]
          · rw [if_pos hcrc, if_neg hcrc]
            rfl
        · rw [if_pos hlength, if_neg hlength]
          rfl

theorem readAt_eq (accepted : Archive.ofBytes bytes = .ok a) (index : Nat) :
    readAt a index = .ok (a.readAt index) := by
  rw [readAt, Archive.readAt]
  cases hentry : a.entries[index]? with
  | none => rfl
  | some e =>
    -- Every entry is what a central header describes.
    obtain ⟨r, place, headers, -, rfl⟩ := Archive.ofBytes_eq_ok_iff.mp accepted
    obtain ⟨h, -, rfl⟩ : ∃ h ∈ headers, Entry.described h = e := by
      simpa using List.mem_of_getElem? (List.getElem?_toArray.symm.trans hentry)
    exact readEntry_eq accepted (narrow_described h)

end Read

end Guarded

/-! ### The end of the input -/

namespace Archive

section End

variable [Codec]

/-- A decoder does not fail as a file does. -/
theorem expand_ne_io {method : Method} {limit : Nat} {payload : ByteArray} {cause : IoError} :
    method.expand limit payload ≠ .error (.io cause) := by
  intro h
  cases method with
  | stored => cases h
  | deflated =>
    obtain ⟨fault, hfault⟩ := Expansion.toExcept_error h
    cases hfault
  | bzip2 =>
    obtain ⟨fault, hfault⟩ := Expansion.toExcept_error h
    cases hfault

/-- For lack of bytes an entry is refused only where these end within its local header. -/
theorem headerCutOff_of_readEntry {a : Archive} {e : Entry}
    (refused : a.readEntry e = .error (.io .unexpectedEnd)) : a.HeaderCutOff e := by
  have hchecks := refused
  rw [readEntry, unless_eq_error_iff, bind_eq_error_iff] at hchecks
  obtain ⟨-, hencrypted⟩ | ⟨hclear, hunknown | ⟨method, hmethod, -⟩⟩ := hchecks
  · cases hencrypted
  · rw [Entry.method] at hunknown
    split at hunknown <;> cases hunknown
  · rw [e.isEncrypted_eq_testBit, Bool.not_eq_true] at hclear
    obtain hpayload | ⟨payload, -, hdecompress | ⟨data, -, -, hcrc⟩⟩ :=
      (readEntry_eq_error_iff hclear (Entry.method_eq_ok_iff.mp hmethod)).mp refused
    · exact payload_unexpectedEnd_iff.mp hpayload
    · obtain hexpand | ⟨data, -, -, hsize⟩ := decompress_eq_error_iff.mp hdecompress
      · exact absurd hexpand expand_ne_io
      · cases hsize
    · cases hcrc

/-- Whatever the bytes are, as long as a machine can hold them, the search for the end record, the
reading of the central directory and that of an entry leave neither their buffers nor the numbers of
64 bits, and their bulk reads do not meet the end of the input. So the end of the input is met only
in a central header that does not fit the central directory, and in a local header that runs behind
the end of the bytes. -/
theorem reads_within_bounds {bytes : ByteArray} (held : bytes.size < 0x10000000000000000) :
    Guarded.find bytes = .ok (EndRecord.find bytes) ∧
    Guarded.ofBytes bytes = .ok (ofBytes bytes) ∧
    (ofBytes bytes = .error (.io .unexpectedEnd) →
      ∃ r place headers, CutDirectory bytes r place headers) ∧
    ∀ a, ofBytes bytes = .ok a → ∀ index,
      Guarded.readAt a index = .ok (a.readAt index) ∧
      (a.readAt index = .error (.io .unexpectedEnd) →
        ∃ e, a.entries[index]? = some e ∧ a.HeaderCutOff e) := by
  refine ⟨Guarded.find_eq held, Guarded.ofBytes_eq held, ofBytes_unexpectedEnd_iff.mp,
    fun a accepted index => ⟨Guarded.readAt_eq accepted index, fun refused => ?_⟩⟩
  rw [readAt] at refused
  cases hentry : a.entries[index]? with
  | none =>
    rw [hentry] at refused
    cases refused
  | some e =>
    rw [hentry] at refused
    exact ⟨e, rfl, headerCutOff_of_readEntry refused⟩

end End

/-- The local header of an entry far behind the end of the bytes is met by no breach either. -/
theorem reads_within_bounds_far :
    farBytes.size < 0x10000000000000000 ∧
    ∃ a, ofBytes farBytes = .ok a ∧ Guarded.ofBytes farBytes = .ok (.ok a) ∧
      Guarded.readAt a 0 = .ok (.error (.io .unexpectedEnd)) ∧
      ∃ e, a.entries[0]? = some e ∧ a.HeaderCutOff e := by
  have held : farBytes.size < 0x10000000000000000 := by decide +kernel
  have hfar : firstRefusal? farBytes = some (.described farCentral, .io .unexpectedEnd) := by
    decide +kernel
  obtain ⟨a, accepted, -, refused⟩ := exists_of_firstRefusal? hfar
  obtain ⟨-, hopened, -, hread⟩ := reads_within_bounds held
  obtain ⟨hguarded, hcut⟩ := hread a accepted 0
  rw [accepted] at hopened
  rw [refused] at hguarded
  exact ⟨held, a, accepted, hopened, hguarded, hcut refused⟩

end Archive

end Folio
