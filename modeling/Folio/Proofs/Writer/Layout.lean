import Mathlib.Data.List.Forall2
import Folio.Proofs.Record.Exact
import Folio.Proofs.Text.Encodings
import Folio.Proofs.Writer.Run

/-!
# Where a writer puts what it writes

The offset that a writer keeps is summed up from sizes, apart from what it writes, and the facts
about an entry are written twice. The invariant of a run ties all this to the list of entries that
have been written: the sink holds their bytes, the directory their central headers, and the offset
is the number of bytes.

## Main definitions

* `PreparedEntry.bytes` — the local header of an entry and its payload
* `centralHeaders` — the central headers of entries that are written one after another
* `Writer.Holds` — a writer has written a list of entries, and nothing else
* `Layout` — how an archive is laid out

## Main results

* `Writer.Holds.addAll` — what a run writes are the entries of the additions that succeed
* `Writer.Holds.layout` — the layout of an archive that has been finished
* `Writer.laid_out` — the layout of whatever a writer makes
-/

namespace Folio

/-! ### Entries -/

/-- A size that fits its field is read back from it. -/
theorem toNat_ofNat_size {n : Nat} (h : n < Writer.fieldLimit) : (UInt32.ofNat n).toNat = n := by
  simp only [Writer.fieldLimit] at h
  rw [UInt32.toNat_ofNat']
  omega

namespace PreparedEntry

variable {e : PreparedEntry}

/-- The local header of an entry and its payload. -/
def bytes (e : PreparedEntry) : List UInt8 := e.header.encode ++ e.payload.data.toList

theorem bytes_pieces (e : PreparedEntry) : (joined e.pieces).data.toList = e.bytes := by
  simp [pieces, bytes]

theorem length_bytes (e : PreparedEntry) :
    e.bytes.length = e.header.encodedSize + e.payload.size := by
  rw [bytes, List.length_append, LocalHeader.length_encode]
  rfl

theorem encodedSize_centralHeader (e : PreparedEntry) (place : Nat) :
    (e.centralHeader place).encodedSize = CentralHeader.fixedSize + e.header.name.length := rfl

end PreparedEntry

namespace Addition.Yields

variable [Codec] {a : Addition} {e : PreparedEntry}

theorem header_eq (y : a.Yields e) :
    e.header = (Writer.describe e.name a.data e.payload a.options).header :=
  congrArg PreparedEntry.header y.described

theorem header_name (y : a.Yields e) : e.header.name = e.name.toUTF8.data.toList := by
  rw [y.header_eq]
  rfl

theorem header_extra (y : a.Yields e) : e.header.extra = [] := by
  rw [y.header_eq]
  rfl

theorem header_flags (y : a.Yields e) : e.header.flags = EntryName.flags e.name := by
  rw [y.header_eq]
  rfl

theorem compressedSize (y : a.Yields e) : e.header.compressedSize.toNat = e.payload.size := by
  have h : e.header.compressedSize = UInt32.ofNat e.payload.size := by
    rw [y.header_eq]
    rfl
  rw [h, toNat_ofNat_size y.payloadSize]

theorem uncompressedSize (y : a.Yields e) : e.header.uncompressedSize.toNat = a.data.size := by
  have h : e.header.uncompressedSize = UInt32.ofNat a.data.size := by
    rw [y.header_eq]
    rfl
  rw [h, toNat_ofNat_size y.dataSize]

theorem length_name_le (y : a.Yields e) : e.header.name.length ≤ maxLength := by
  rw [y.header_name]
  exact EntryName.size_le_of_normalize y.name

theorem header_fits (y : a.Yields e) : e.header.Fits where
  name := y.length_name_le
  extra := by
    rw [y.header_extra]
    exact Nat.zero_le _

theorem centralHeader_fits (y : a.Yields e) (offset : Nat) :
    (e.centralHeader offset).Fits where
  name := y.length_name_le
  extra := Nat.zero_le _
  comment := Nat.zero_le _

/-- Bit 11 of the flags is set exactly if the name is not ASCII. -/
theorem testBit_flags (y : a.Yields e) :
    e.header.flags.toNat.testBit 11 = true ↔ ∃ b ∈ e.header.name, 128 ≤ b.toNat := by
  rw [y.header_flags, EntryName.testBit_flags, Bool.not_eq_true', ← Bool.not_eq_true,
    EntryName.isAscii_iff_bytes, y.header_name]
  push Not
  rfl

end Addition.Yields

theorem exists_yields [Codec] {calls : List Addition} {written : List PreparedEntry}
    {e : PreparedEntry} (h : List.Forall₂ Addition.Yields calls written) (he : e ∈ written) :
    ∃ a ∈ calls, a.Yields e := by
  induction h with
  | nil => cases he
  | cons y _ ih =>
    rcases List.mem_cons.mp he with rfl | hrest
    · exact ⟨_, List.mem_cons_self, y⟩
    · obtain ⟨a, ha, y⟩ := ih hrest
      exact ⟨a, List.mem_cons_of_mem _ ha, y⟩

/-! ### Entries, one after another -/

/-- The bytes of entries that are written one after another. -/
def body (written : List PreparedEntry) : List UInt8 := written.flatMap PreparedEntry.bytes

@[simp] theorem body_nil : body [] = [] := rfl

@[simp] theorem body_cons (e : PreparedEntry) (written : List PreparedEntry) :
    body (e :: written) = e.bytes ++ body written := rfl

@[simp] theorem body_append (written more : List PreparedEntry) :
    body (written ++ more) = body written ++ body more := List.flatMap_append

/-- The entry with an index stands between those before it and those after it. -/
theorem body_eq_getElem {written : List PreparedEntry} {i : Nat} (h : i < written.length) :
    body written = body (written.take i) ++ (written[i].bytes ++ body (written.drop (i + 1))) := by
  rw [← body_cons, ← body_append, List.cons_getElem_drop_succ, List.take_append_drop]

theorem length_body_take_succ {written : List PreparedEntry} {i : Nat} (h : i < written.length) :
    (body (written.take (i + 1))).length =
      (body (written.take i)).length + written[i].bytes.length := by
  rw [List.take_succ_eq_append_getElem h, body_append, List.length_append, body_cons, body_nil,
    List.append_nil]

theorem length_body_take_mono (written : List PreparedEntry) {i j : Nat} (h : i ≤ j) :
    (body (written.take i)).length ≤ (body (written.take j)).length := by
  obtain ⟨more, hmore⟩ := List.take_prefix_take_left (l := written) h
  rw [← hmore, body_append, List.length_append]
  exact Nat.le_add_right _ _

/-- The central headers of entries that are written one after another from an offset on. -/
def centralHeaders : (offset : Nat) → List PreparedEntry → List CentralHeader
  | _, [] => []
  | offset, e :: rest => e.centralHeader offset :: centralHeaders (offset + e.bytes.length) rest

@[simp] theorem length_centralHeaders (offset : Nat) (written : List PreparedEntry) :
    (centralHeaders offset written).length = written.length := by
  induction written generalizing offset with
  | nil => rfl
  | cons e rest ih => simp [centralHeaders, ih]

theorem centralHeaders_append (offset : Nat) (written more : List PreparedEntry) :
    centralHeaders offset (written ++ more) =
      centralHeaders offset written ++ centralHeaders (offset + (body written).length) more := by
  induction written generalizing offset with
  | nil => simp [centralHeaders]
  | cons e rest ih => simp [centralHeaders, ih, Nat.add_assoc]

/-- A central header says where the entry of the same index stands. -/
theorem getElem_centralHeaders (offset : Nat) (written : List PreparedEntry) (i : Nat)
    (h : i < (centralHeaders offset written).length) :
    (centralHeaders offset written)[i] =
      (getElem written i (by simpa using h)).centralHeader
        (offset + (body (written.take i)).length) := by
  induction written generalizing offset i with
  | nil => simp [centralHeaders] at h
  | cons e rest ih =>
    cases i with
    | zero => simp [centralHeaders]
    | succ i =>
      simp only [centralHeaders, List.getElem_cons_succ, List.take_succ_cons, body_cons,
        List.length_append, ← Nat.add_assoc]
      exact ih _ i _

theorem mem_centralHeaders {offset : Nat} {written : List PreparedEntry} {h : CentralHeader}
    (hmem : h ∈ centralHeaders offset written) :
    ∃ e ∈ written, ∃ place, h = e.centralHeader place := by
  obtain ⟨i, hi, rfl⟩ := List.getElem_of_mem hmem
  exact ⟨_, List.getElem_mem _, _, getElem_centralHeaders offset written i hi⟩

namespace Writer

/-! ### The invariant -/

/-- The writer has written the entries, and nothing else. -/
structure Holds (w : Writer MemorySink) (written : List PreparedEntry) : Prop where
  /-- The sink has no limit. -/
  unlimited : w.Unlimited
  /-- It has not failed. -/
  intact : w.broken = false
  /-- It holds the bytes of the entries. -/
  bytes : w.sink.bytes.data.toList = body written
  /-- The offset is their number. -/
  offset : w.offset = (body written).length
  /-- The directory has the headers of the entries. -/
  directory : w.directory.toList = centralHeaders 0 written
  /-- The names are those of the entries. -/
  names : ∀ name, w.names.contains name = true ↔ name ∈ written.map PreparedEntry.name
  /-- They are different. -/
  nodup : (written.map PreparedEntry.name).Nodup
  /-- There are not too many entries. -/
  few : written.length ≤ maxEntries
  /-- The last entry, and so every other, starts at an offset that fits its field. -/
  near : (body written.dropLast).length < fieldLimit

theorem start_holds : (start MemorySink.unbounded).Holds [] where
  unlimited := start_unlimited
  intact := rfl
  bytes := rfl
  offset := rfl
  directory := rfl
  names name := by simp [start]
  nodup := List.nodup_nil
  few := Nat.zero_le _
  near := by decide

variable {w : Writer MemorySink} {written : List PreparedEntry} {e : PreparedEntry}

theorem Holds.size_eq (h : w.Holds written) : w.size = written.length := by
  rw [size, ← Array.length_toList, h.directory, length_centralHeaders]

/-- The names after an entry has been written are those before and its own. -/
theorem contains_names_record {σ : Type} (w : Writer σ) (e : PreparedEntry) (sink : σ)
    (name : String) : (w.record e sink).names.contains name = true ↔
      w.names.contains name = true ∨ name = e.name := by
  have hnames : (w.record e sink).names = w.names.insert e.name := rfl
  rw [hnames, Std.HashSet.contains_insert, Bool.or_eq_true, beq_iff_eq, or_comm,
    eq_comm (a := name)]

/-- The invariant is preserved when an entry is written that the writer can take. -/
theorem Holds.extended (h : w.Holds written) (admits : w.Admits e) :
    (w.extended e).Holds (written ++ [e]) where
  unlimited := h.unlimited.extended e
  intact := h.intact
  bytes := by
    have hbytes : (w.extended e).sink.bytes = w.sink.bytes ++ joined e.pieces := rfl
    simp [hbytes, h.bytes, e.bytes_pieces]
  offset := by
    simp [offset_extended, h.offset, e.length_bytes, Nat.add_assoc]
  directory := by
    have hdirectory : (w.extended e).directory = w.directory.push (e.centralHeader w.offset) := rfl
    simp [hdirectory, h.directory, centralHeaders_append, centralHeaders, h.offset]
  names name := by
    rw [Writer.extended, contains_names_record, h.names name, List.map_append, List.mem_append,
      List.map_singleton, List.mem_singleton]
  nodup := by
    have hfresh : e.name ∉ written.map PreparedEntry.name := by
      rw [← h.names, admits.fresh]
      exact Bool.false_ne_true
    rw [List.map_append, List.map_singleton]
    refine List.nodup_append.mpr ⟨h.nodup, List.pairwise_singleton _ _, ?_⟩
    rintro name hname _ hnew rfl
    exact hfresh (List.mem_singleton.mp hnew ▸ hname)
  few := by
    have := admits.few
    rw [h.size_eq] at this
    simp only [List.length_append, List.length_singleton]
    omega
  near := by
    rw [List.dropLast_concat, ← h.offset]
    exact admits.near

/-- The entries of the additions that succeed have been written, and nothing else. -/
theorem Holds.addAll [Codec] (h : w.Holds written) (calls : List Addition) :
    ∃ new, (w.addAll calls).2.Holds (written ++ new) ∧
      List.Forall₂ Addition.Yields (succeeded calls (w.addAll calls).1) new := by
  induction calls generalizing w written with
  | nil => exact ⟨[], by simpa using h, .nil⟩
  | cons a rest ih =>
    rw [addAll_cons]
    rcases h.unlimited.add_cases a with ⟨error, -, hadd⟩ | ⟨e, hprepare, hadd⟩
    -- An addition that is refused leaves the writer as it is.
    · simp only [hadd, succeeded_cons_error]
      exact ih h
    · obtain ⟨y, admits⟩ := prepare_eq_ok_iff.mp hprepare
      obtain ⟨new, hnew, hyields⟩ := ih (h.extended admits)
      simp only [hadd, succeeded_cons_ok]
      exact ⟨e :: new, by simpa using hnew, .cons y hyields⟩

theorem length_succeeded [Codec] {σ : Type} [Sink σ] (w : Writer σ) (calls : List Addition) :
    (succeeded calls (w.addAll calls).1).length = (w.addAll calls).1.countP Except.isOk := by
  induction calls generalizing w with
  | nil => rfl
  | cons a rest ih =>
    simp only [addAll_cons]
    cases (w.add a.name a.data a.options).1 with
    | error error =>
      rw [succeeded_cons_error, ih, List.countP_cons_of_neg]
      simp [Except.isOk, Except.toBool]
    | ok u => rw [succeeded_cons_ok, List.length_cons, ih, List.countP_cons_of_pos rfl]

/-! ### Finished archives -/

/-- The directory is the bytes of its headers, one after another. -/
theorem data_directoryBytes (directory : Array CentralHeader) :
    (directoryBytes directory).data.toList =
      directory.toList.flatMap CentralHeader.encode := by
  have hfold : ∀ (headers : List CentralHeader) (bytes : ByteArray),
      (headers.foldl (fun bytes header => bytes ++ header.encode.toByteArray) bytes).data.toList =
        bytes.data.toList ++ headers.flatMap CentralHeader.encode := by
    intro headers
    induction headers with
    | nil => simp
    | cons header rest ih => simp [ih]
  rw [directoryBytes, ← Array.foldl_toList, hfold]
  rfl

theorem size_directoryBytes (directory : Array CentralHeader) :
    (directoryBytes directory).size =
      (directory.toList.flatMap CentralHeader.encode).length := by
  rw [← data_directoryBytes]
  rfl

theorem closingFault?_eq_none_iff {σ : Type} {w : Writer σ} :
    w.closingFault? = none ↔ w.broken = false ∧ w.offset < fieldLimit ∧
      (directoryBytes w.directory).size < fieldLimit := by
  rw [closingFault?]
  split_ifs with hbroken hoffset hsize
  · simp [hbroken]
  · simp [not_lt.mpr hoffset]
  · simp [not_lt.mpr hsize]
  · simp [hbroken, not_le.mp hoffset, not_le.mp hsize]

end Writer

/-- The bytes of the central directory for entries that are written one after another. -/
def directoryOf (written : List PreparedEntry) : List UInt8 :=
  (centralHeaders 0 written).flatMap CentralHeader.encode

/-- The end record for entries that are written one after another. -/
def endRecordOf (written : List PreparedEntry) : EndRecord :=
  .singleDisk (UInt16.ofNat written.length) (UInt32.ofNat (directoryOf written).length)
    (UInt32.ofNat (body written).length)

/-- The bytes are those of an archive with the entries. -/
structure Finished (bytes : ByteArray) (written : List PreparedEntry) : Prop where
  /-- The entries, the central directory and the end record follow one another. -/
  spells : bytes.data.toList = body written ++ (directoryOf written ++ (endRecordOf written).encode)
  /-- The offset of the central directory fits its field. -/
  offset_lt : (body written).length < Writer.fieldLimit
  /-- The size of the central directory fits its field. -/
  size_lt : (directoryOf written).length < Writer.fieldLimit

theorem Writer.Holds.finished {w : Writer MemorySink} {written : List PreparedEntry}
    {s : MemorySink} (h : w.Holds written) (hfinish : w.finish = (.ok (), s)) :
    Finished s.bytes written := by
  rcases h.unlimited.finish_cases with ⟨error, -, heq⟩ | ⟨hfault, heq⟩
  · rw [heq] at hfinish
    cases hfinish
  · rw [heq] at hfinish
    obtain ⟨-, hoffset, hsize⟩ := closingFault?_eq_none_iff.mp hfault
    -- The end is written behind the entries.
    obtain rfl := (Prod.mk.inj hfinish).2
    have hdirectory : (directoryBytes w.directory).data.toList = directoryOf written := by
      rw [data_directoryBytes, h.directory, directoryOf]
    have hlength : (directoryBytes w.directory).size = (directoryOf written).length :=
      congrArg List.length hdirectory
    -- By the invariant the writer sums up the end record from the same numbers.
    have hrecord : w.endRecord = endRecordOf written := by
      rw [endRecord, endRecordOf, h.size_eq, hlength, h.offset]
    refine ⟨?_, h.offset ▸ hoffset, hlength ▸ hsize⟩
    simp [closing, h.bytes, hdirectory, hrecord]

namespace Finished

variable {bytes : ByteArray} {written : List PreparedEntry}

/-- What follows the place of an entry: its header, its payload, and the rest. -/
theorem drop_place (f : Finished bytes written) (i : Nat) (hi : i < written.length) :
    ∃ tail, bytes.data.toList.drop (body (written.take i)).length =
      written[i].header.encode ++ (written[i].payload.data.toList ++ (tail ++
        (directoryOf written ++ (endRecordOf written).encode))) := by
  refine ⟨body (written.drop (i + 1)), ?_⟩
  rw [f.spells, body_eq_getElem hi, List.append_assoc, List.drop_left]
  simp [PreparedEntry.bytes]

end Finished

/-! ### The layout of archives -/

/-- A local header and a payload, as they stand in an archive. -/
abbrev Pair := LocalHeader × List UInt8

/-- The bytes of a local header and a payload. -/
def Pair.bytes (p : Pair) : List UInt8 := p.1.encode ++ p.2

/-- The place of the pair with an index, if they are laid end to end. -/
def placeOf (pairs : List Pair) (i : Nat) : Nat := ((pairs.take i).flatMap Pair.bytes).length

/-- How an archive is laid out: local headers with their payloads, central headers, and an end
record. -/
structure Layout (bytes : ByteArray) (pairs : List Pair) (headers : List CentralHeader)
    (r : EndRecord) : Prop where
  /-- All of them are laid end to end, and are the whole archive. -/
  spells : bytes.data.toList =
    pairs.flatMap Pair.bytes ++ (headers.flatMap CentralHeader.encode ++ r.encode)
  /-- A reader gets the local headers from their places. -/
  readable : ∀ (i : Nat) (h : i < pairs.length),
    LocalHeader.decode.run ⟨bytes, placeOf pairs i⟩ =
      .ok (pairs[i].1, ⟨bytes, placeOf pairs i + pairs[i].1.encodedSize⟩)
  /-- The local headers tell the sizes of the payloads. -/
  payload_size : ∀ p ∈ pairs, p.2.length = p.1.compressedSize.toNat
  /-- There are as many central headers as local headers. -/
  length_eq : headers.length = pairs.length
  /-- A central header tells where the local header of the same index stands, and all that the local
  header tells. -/
  agree : ∀ (i : Nat) (h : i < pairs.length) (h' : i < headers.length),
    headers[i].localHeaderOffset.toNat = placeOf pairs i ∧
      headers[i].toEntryFields = pairs[i].1.toEntryFields ∧ headers[i].name = pairs[i].1.name
  /-- The central headers fit their length fields. -/
  headers_fit : ∀ h ∈ headers, h.Fits
  /-- The length fields tell the lengths of the names. -/
  name_length : ∀ p ∈ pairs, (UInt16.ofNat p.1.name.length).toNat = p.1.name.length
  /-- Bit 11 of the flags tells whether a name is not ASCII. -/
  marked : ∀ p ∈ pairs, p.1.flags.toNat.testBit 11 = true ↔ ∃ b ∈ p.1.name, 128 ≤ b.toNat
  /-- The end record tells where the central directory starts. -/
  directoryOffset : r.directoryOffset.toNat = (pairs.flatMap Pair.bytes).length
  /-- It tells the size of the central directory. -/
  directorySize : r.directorySize.toNat = (headers.flatMap CentralHeader.encode).length
  /-- It tells the number of central headers, twice. -/
  counts : r.diskEntries.toNat = headers.length ∧ r.totalEntries.toNat = headers.length
  /-- It has no comment. -/
  comment : r.comment = []

/-- The pairs of entries. -/
def pairsOf (written : List PreparedEntry) : List Pair :=
  written.map fun e => (e.header, e.payload.data.toList)

theorem flatMap_pairsOf (written : List PreparedEntry) :
    (pairsOf written).flatMap Pair.bytes = body written := by
  rw [pairsOf, List.flatMap_map]
  rfl

theorem placeOf_pairsOf (written : List PreparedEntry) (i : Nat) :
    placeOf (pairsOf written) i = (body (written.take i)).length := by
  rw [placeOf, pairsOf, ← List.map_take]
  exact congrArg List.length (flatMap_pairsOf _)

/-- Every entry starts where the last one starts, or before it. -/
theorem length_body_take_le {written : List PreparedEntry} {i : Nat} (h : i < written.length) :
    (body (written.take i)).length ≤ (body written.dropLast).length := by
  rw [List.dropLast_eq_take]
  exact length_body_take_mono written (by omega)

/-- An archive that has been finished is laid out as it should be. -/
theorem Writer.Holds.layout [Codec] {w : Writer MemorySink} {written : List PreparedEntry}
    {s : MemorySink} (h : w.Holds written) (yielded : ∀ e ∈ written, ∃ a : Addition, a.Yields e)
    (hfinish : w.finish = (.ok (), s)) :
    Layout s.bytes (pairsOf written) (centralHeaders 0 written) (endRecordOf written) := by
  have f := h.finished hfinish
  have hcount : (UInt16.ofNat written.length).toNat = (centralHeaders 0 written).length := by
    have := h.few
    simp only [maxEntries] at this
    rw [UInt16.toNat_ofNat', length_centralHeaders]
    omega
  -- Every pair comes from an addition, so what holds of entries holds of pairs.
  have hpairs : ∀ p ∈ pairsOf written, ∃ (a : Addition) (e : PreparedEntry), a.Yields e ∧
      p = (e.header, e.payload.data.toList) := by
    intro p hp
    obtain ⟨e, he, rfl⟩ := List.mem_map.mp hp
    obtain ⟨a, y⟩ := yielded e he
    exact ⟨a, e, y, rfl⟩
  constructor
  case spells => rw [flatMap_pairsOf, f.spells, directoryOf]
  case readable =>
    intro i hi
    simp only [pairsOf, List.length_map] at hi
    obtain ⟨a, y⟩ := yielded _ (List.getElem_mem hi)
    obtain ⟨tail, htail⟩ := f.drop_place i hi
    have hget : (pairsOf written)[i].1 = written[i].header := by simp [pairsOf]
    rw [hget, placeOf_pairsOf]
    -- The header is what the bytes from its place on begin with.
    exact LocalHeader.run_decode_eq_ok_iff.mpr ⟨y.header_fits, ⟨_, htail.symm⟩, rfl⟩
  case payload_size =>
    intro p hp
    obtain ⟨a, e, y, rfl⟩ := hpairs p hp
    exact y.compressedSize.symm
  case length_eq => simp [pairsOf]
  case agree =>
    intro i hi hi'
    simp only [pairsOf, List.length_map] at hi
    have hget : (pairsOf written)[i].1 = written[i].header := by simp [pairsOf]
    -- The last place fits its field, and no other one is greater.
    have hplace := (length_body_take_le hi).trans_lt h.near
    rw [getElem_centralHeaders, hget, placeOf_pairsOf, Nat.zero_add]
    exact ⟨toNat_ofNat_size hplace, rfl, rfl⟩
  case headers_fit =>
    intro header hmem
    obtain ⟨e, he, place, rfl⟩ := mem_centralHeaders hmem
    obtain ⟨a, y⟩ := yielded e he
    exact y.centralHeader_fits place
  case name_length =>
    intro p hp
    obtain ⟨a, e, y, rfl⟩ := hpairs p hp
    exact toNat_ofNat_length y.length_name_le
  case marked =>
    intro p hp
    obtain ⟨a, e, y, rfl⟩ := hpairs p hp
    exact y.testBit_flags
  case directoryOffset =>
    rw [flatMap_pairsOf]
    exact toNat_ofNat_size f.offset_lt
  case directorySize => exact toNat_ofNat_size f.size_lt
  case counts => exact ⟨hcount, hcount⟩
  case comment => rfl

/-- Whatever additions are made to an empty writer, its offset is the number of bytes in the sink,
and it has an entry for every addition that succeeds, of which there are at most 65534. If the
archive can be finished, it has a pair and a central header for every entry and is laid out as it
should be. -/
theorem Writer.laid_out [Codec] (calls : List Addition) :
    let run := (start MemorySink.unbounded).addAll calls
    run.2.offset = run.2.sink.bytes.size ∧
      run.2.size = run.1.countP Except.isOk ∧
      run.2.size ≤ 65534 ∧
      ∀ s, run.2.finish = (.ok (), s) →
        ∃ pairs headers r, pairs.length = run.2.size ∧ Layout s.bytes pairs headers r := by
  obtain ⟨written, h, hyields⟩ := start_holds.addAll calls
  rw [List.nil_append] at h
  refine ⟨?_, ?_, h.size_eq ▸ h.few, fun s hfinish => ?_⟩
  · rw [h.offset, ← h.bytes]
    rfl
  · rw [h.size_eq, ← hyields.length_eq, length_succeeded]
  · exact ⟨_, _, _, by rw [h.size_eq, pairsOf, List.length_map],
      h.layout (fun e he => (exists_yields hyields he).imp fun _ y => y.2) hfinish⟩

end Folio
