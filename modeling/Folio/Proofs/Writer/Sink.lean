import Mathlib.Data.List.Infix
import Folio.Writer.Basic

/-!
# Pieces and wholes

A writer hands a record to its sink, and then a payload, and at the end two more records. What it
writes is one list of pieces each time, and a sink without a limit takes them as the bytes that they
make up together.

## Main definitions

* `Sink.writeAll` — writes pieces until one of them is refused
* `PreparedEntry.pieces` — what is written for an entry
* `Writer.closing` — what is written at the end
* `Writer.Unlimited` — a writer over a sink without a limit

## Main results

* `Writer.append_eq`, `Writer.finish_eq` — what a writer writes
* `Writer.Unlimited.append_eq`, `Writer.Unlimited.finish_cases` — the same without a limit
-/

namespace Folio

/-! ### Pieces -/

/-- The bytes that pieces make up. -/
def joined (pieces : List ByteArray) : ByteArray := pieces.foldr (· ++ ·) .empty

@[simp] theorem joined_nil : joined [] = .empty := rfl

@[simp] theorem joined_cons (piece : ByteArray) (pieces : List ByteArray) :
    joined (piece :: pieces) = piece ++ joined pieces := rfl

/-- Writes pieces until one of them is refused. -/
def Sink.writeAll {σ : Type} [Sink σ] (sink : σ) : List ByteArray → Except IoError Unit × σ
  | [] => (.ok (), sink)
  | piece :: pieces =>
    match Sink.write sink piece with
    | (.error fault, sink) => (.error fault, sink)
    | (.ok (), sink) => Sink.writeAll sink pieces

/-- A sink without a limit takes all pieces. -/
theorem MemorySink.writeAll_of_unbounded {s : MemorySink} (h : s.room = none)
    (pieces : List ByteArray) :
    Sink.writeAll s pieces = (.ok (), { s with bytes := s.bytes ++ joined pieces }) := by
  induction pieces generalizing s with
  | nil => simp [Sink.writeAll]
  | cons piece pieces ih =>
    have hwrite : Sink.write s piece = (.ok (), { s with bytes := s.bytes ++ piece }) := by
      change s.write piece = _
      rw [write, h]
    have hlater : { s with bytes := s.bytes ++ piece }.room = none := h
    rw [Sink.writeAll, hwrite]
    simp only [ih hlater, joined_cons, ByteArray.append_assoc]

/-! ### What a writer writes -/

/-- What is written for an entry. -/
def PreparedEntry.pieces (e : PreparedEntry) : List ByteArray :=
  [e.header.encode.toByteArray, e.payload]

namespace Writer

variable {σ : Type}

/-- The end record of an archive with the entries so far. -/
def endRecord (w : Writer σ) : EndRecord :=
  .singleDisk (UInt16.ofNat w.size) (UInt32.ofNat (directoryBytes w.directory).size)
    (UInt32.ofNat w.offset)

/-- What keeps a writer from closing its archive, before anything is written for it. -/
def closingFault? (w : Writer σ) : Option Error :=
  if w.broken then some .brokenWriter
  else if fieldLimit ≤ w.offset then some (.capacity .directoryOffset)
  else if fieldLimit ≤ (directoryBytes w.directory).size then some (.capacity .directorySize)
  else none

/-- What is written at the end. -/
def closing (w : Writer σ) : List ByteArray :=
  [directoryBytes w.directory, w.endRecord.encode.toByteArray]

variable [Sink σ]

theorem append_eq (w : Writer σ) (e : PreparedEntry) :
    w.append e =
      match Sink.writeAll w.sink e.pieces with
      | (.error fault, sink) => (.error (.io fault), { w with sink, broken := true })
      | (.ok (), sink) => (.ok (), w.record e sink) := by
  simp only [append, PreparedEntry.pieces, Sink.writeAll]
  rcases Sink.write w.sink e.header.encode.toByteArray with ⟨_ | _, sink⟩
  · rfl
  · simp only
    rcases Sink.write sink e.payload with ⟨_ | _, sink'⟩
    · rfl
    · rfl

theorem close_eq (sink : σ) (records : List ByteArray) :
    close sink records =
      match Sink.writeAll sink records with
      | (.error fault, sink) => (.error (.io fault), sink)
      | (.ok (), sink) =>
        match Sink.flush sink with
        | (.error fault, sink) => (.error (.io fault), sink)
        | (.ok (), sink) => (.ok (), sink) := by
  induction records generalizing sink with
  | nil => rfl
  | cons bytes rest ih =>
    simp only [close, Sink.writeAll]
    rcases Sink.write sink bytes with ⟨_ | _, sink'⟩
    · rfl
    · exact ih sink'

theorem finish_eq (w : Writer σ) :
    w.finish =
      match w.closingFault? with
      | some error => (.error error, w.sink)
      | none => close w.sink w.closing := by
  simp only [finish, closingFault?]
  -- The checks are the same on both sides.
  by_cases hbroken : w.broken
  · simp only [if_pos hbroken]
  rw [if_neg hbroken, if_neg hbroken]
  by_cases hoffset : fieldLimit ≤ w.offset
  · simp only [if_pos hoffset]
  rw [if_neg hoffset, if_neg hoffset]
  by_cases hsize : fieldLimit ≤ (directoryBytes w.directory).size
  · simp only [if_pos hsize]
  · simp only [if_neg hsize]
    rfl

/-! ### Writers without a limit -/

/-- The sink has no limit and hands on what it holds. -/
structure Unlimited (w : Writer MemorySink) : Prop where
  /-- It has no limit. -/
  room : w.sink.room = none
  /-- It hands on what it holds. -/
  flushes : w.sink.flushFault = none

theorem start_unlimited : (start MemorySink.unbounded).Unlimited := ⟨rfl, rfl⟩

/-- The writer after an entry has been written to a sink without a limit. -/
def extended (w : Writer MemorySink) (e : PreparedEntry) : Writer MemorySink :=
  w.record e { w.sink with bytes := w.sink.bytes ++ joined e.pieces }

theorem offset_extended (w : Writer MemorySink) (e : PreparedEntry) :
    (w.extended e).offset = w.offset + e.header.encodedSize + e.payload.size := rfl

theorem offset_extended_le {w : Writer MemorySink} {e : PreparedEntry} {offset header payload : Nat}
    (hw : w.offset ≤ offset) (hheader : e.header.encodedSize ≤ header)
    (hpayload : e.payload.size ≤ payload) : (w.extended e).offset ≤ offset + header + payload :=
  Nat.add_le_add (Nat.add_le_add hw hheader) hpayload

theorem Unlimited.extended {w : Writer MemorySink} (h : w.Unlimited) (e : PreparedEntry) :
    (w.extended e).Unlimited := ⟨h.room, h.flushes⟩

theorem Unlimited.append_eq {w : Writer MemorySink} (h : w.Unlimited) (e : PreparedEntry) :
    w.append e = (.ok (), w.extended e) := by
  rw [Writer.append_eq, MemorySink.writeAll_of_unbounded h.room]
  rfl

/-- A writer without a limit finds out what keeps it from closing its archive, or closes it. -/
theorem Unlimited.finish_cases {w : Writer MemorySink} (h : w.Unlimited) :
    (∃ error, w.closingFault? = some error ∧ w.finish = (.error error, w.sink)) ∨
      w.closingFault? = none ∧
        w.finish = (.ok (), { w.sink with bytes := w.sink.bytes ++ joined w.closing }) := by
  cases hfault : w.closingFault? with
  | some error => exact .inl ⟨error, rfl, by rw [finish_eq, hfault]⟩
  | none =>
    refine .inr ⟨rfl, ?_⟩
    rw [finish_eq, hfault]
    simp only
    rw [close_eq, MemorySink.writeAll_of_unbounded h.room]
    simp only [Sink.flush, h.flushes]

end Writer

end Folio
