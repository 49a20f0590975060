import Mathlib.Data.List.Infix
import Folio.Proofs.Writer.Sink

/-!
# Sinks that fill up

A sink with a limit takes bytes until it is full and refuses all that comes later. Of what it is
offered at once it may take a part, so whoever writes to it has to offer the rest again. How large
the parts are does not matter in the end: what stands in a full sink are the first bytes of all that
was to be written.

## Main definitions

* `Sink.Takes`, `Sink.FillsUp` — a sink that takes so many bytes at least, or in all
* `PartialSink` — a sink that may take a part of what it is offered
* `PartialSink.writeAll` — offers bytes until all of them are taken
* `PartialSink.FillsUp` — a limit for such a sink

## Main results

* `Sink.Takes.writeAll_of_fits`, `Sink.FillsUp.writeAll_of_refused` — pieces that fit, and pieces
  that do not
* `PartialSink.FillsUp.whole` — parts make no difference
* `MemorySink.bounded_fillsUp` — the sink in memory is such a sink
-/

namespace Folio

variable {σ : Type} {holds : σ → List UInt8 → Prop} {limit : Nat} {s : σ} {taken : List UInt8}

/-! ### Whole writes -/

/-- A sink that takes `limit` bytes at least. Which bytes are in a sink is for `holds` to say. -/
structure Sink.Takes [Sink σ] (holds : σ → List UInt8 → Prop) (limit : Nat) : Prop where
  /-- What fits is written. -/
  write_of_fits : ∀ {s taken} (bytes : ByteArray), holds s taken →
    taken.length + bytes.size ≤ limit →
    ∃ s', Sink.write s bytes = (.ok (), s') ∧ holds s' (taken ++ bytes.data.toList)
  /-- Nothing is held back. -/
  flush : ∀ {s taken}, holds s taken → ∃ s', Sink.flush s = (.ok (), s') ∧ holds s' taken

/-- A sink that takes `limit` bytes in all. -/
structure Sink.FillsUp [Sink σ] (holds : σ → List UInt8 → Prop) (limit : Nat) : Prop
    extends Sink.Takes holds limit where
  /-- Of what does not fit, as much is written as there is room for. -/
  write_of_refused : ∀ {s taken} (bytes : ByteArray), holds s taken → taken.length ≤ limit →
    limit < taken.length + bytes.size →
    ∃ fault s', Sink.write s bytes = (.error fault, s') ∧
      holds s' ((taken ++ bytes.data.toList).take limit)

/-- Pieces that fit are written. -/
theorem Sink.Takes.writeAll_of_fits [Sink σ] (law : Sink.Takes holds limit) (pieces : List ByteArray)
    (h : holds s taken) (fits : taken.length + (joined pieces).size ≤ limit) :
    ∃ s', Sink.writeAll s pieces = (.ok (), s') ∧
      holds s' (taken ++ (joined pieces).data.toList) := by
  induction pieces generalizing s taken with
  | nil => exact ⟨s, rfl, by simpa using h⟩
  | cons piece pieces ih =>
    rw [joined_cons, ByteArray.size_append] at fits
    have hlength : (taken ++ piece.data.toList).length = taken.length + piece.size :=
      List.length_append
    obtain ⟨s₁, hwrite, h₁⟩ := law.write_of_fits piece h (by omega)
    obtain ⟨s₂, hrest, h₂⟩ := ih h₁ (by omega)
    refine ⟨s₂, ?_, ?_⟩
    · rw [Sink.writeAll, hwrite]
      exact hrest
    · rwa [joined_cons, ByteArray.toList_data_append, ← List.append_assoc]

/-- Of pieces that do not fit, as many bytes are written as there is room for. -/
theorem Sink.FillsUp.writeAll_of_refused [Sink σ] (law : Sink.FillsUp holds limit) (pieces : List ByteArray)
    (h : holds s taken) (room : taken.length ≤ limit)
    (refused : limit < taken.length + (joined pieces).size) :
    ∃ fault s', Sink.writeAll s pieces = (.error fault, s') ∧
      holds s' ((taken ++ (joined pieces).data.toList).take limit) := by
  induction pieces generalizing s taken with
  | nil => exact absurd refused (not_lt.mpr room)
  | cons piece pieces ih =>
    rw [joined_cons, ByteArray.size_append] at refused
    rw [joined_cons, ByteArray.toList_data_append, ← List.append_assoc]
    have hlength : (taken ++ piece.data.toList).length = taken.length + piece.size :=
      List.length_append
    rcases Nat.lt_or_ge limit (taken.length + piece.size) with hpiece | hpiece
    · -- The room ends in this piece, and the later ones are not even offered.
      obtain ⟨fault, s₁, hwrite, h₁⟩ := law.write_of_refused piece h room hpiece
      refine ⟨fault, s₁, by rw [Sink.writeAll, hwrite], ?_⟩
      rwa [List.take_append_of_le_length (by omega)]
    -- The room ends in a later piece.
    · obtain ⟨s₁, hwrite, h₁⟩ := law.write_of_fits piece h hpiece
      obtain ⟨fault, s₂, hrest, h₂⟩ := ih h₁ (by omega) (by omega)
      refine ⟨fault, s₂, ?_, h₂⟩
      rw [Sink.writeAll, hwrite]
      exact hrest

/-! ### Parts -/

/-- A sink that may take a part of what it is offered. -/
class PartialSink (σ : Type) where
  /-- Takes the first of the bytes and says how many, or fails. -/
  offer : σ → ByteArray → Except IoError Nat × σ
  /-- Hands on what is held back. -/
  flush : σ → Except IoError Unit × σ

namespace PartialSink

/-- Offers bytes until all of them are taken. A sink that takes none of them is full. -/
def writeAll [PartialSink σ] (s : σ) (bytes : ByteArray) : Except IoError Unit × σ :=
  if bytes.size = 0 then (.ok (), s)
  else
    match offer s bytes with
    | (.error fault, s) => (.error fault, s)
    | (.ok count, s) =>
      if count = 0 then (.error .nothingWritten, s)
      else writeAll s (bytes.extract count bytes.size)
termination_by bytes.size
decreasing_by
  rw [ByteArray.size_extract]
  omega

instance (priority := low) [PartialSink σ] : Sink σ where
  write := writeAll
  flush := flush

/-- A sink that takes `limit` bytes in all, in parts of any size. -/
structure FillsUp [PartialSink σ] (contents : σ → List UInt8) (limit : Nat) : Prop where
  /-- As long as there is room, the sink takes some of the bytes. -/
  takes : ∀ s (bytes : ByteArray), 0 < bytes.size → (contents s).length < limit →
    ∃ count s', offer s bytes = (.ok count, s') ∧ 0 < count ∧ count ≤ bytes.size ∧
      (contents s).length + count ≤ limit ∧
      contents s' = contents s ++ bytes.data.toList.take count
  /-- When there is none, it fails, or it takes nothing. -/
  refuses : ∀ s (bytes : ByteArray), 0 < bytes.size → limit ≤ (contents s).length →
    ∃ result s', offer s bytes = (result, s') ∧ contents s' = contents s ∧
      (result = .ok 0 ∨ ∃ fault, result = .error fault)
  /-- Nothing is held back. -/
  flush : ∀ s, ∃ s', flush s = (.ok (), s') ∧ contents s' = contents s

namespace FillsUp

variable [PartialSink σ] {contents : σ → List UInt8}

theorem writeAll_of_full (law : FillsUp contents limit) {s : σ} {bytes : ByteArray}
    (nonempty : 0 < bytes.size) (full : limit ≤ (contents s).length) :
    ∃ fault s', writeAll s bytes = (.error fault, s') ∧ contents s' = contents s := by
  obtain ⟨_, s', hoffer, hcontents, rfl | ⟨fault, rfl⟩⟩ := law.refuses s bytes nonempty full
  · refine ⟨.nothingWritten, s', ?_, hcontents⟩
    rw [writeAll, if_neg nonempty.ne', hoffer]
    exact if_pos rfl
  · refine ⟨fault, s', ?_, hcontents⟩
    rw [writeAll, if_neg nonempty.ne', hoffer]

/-- Bytes are taken part by part, as far as there is room. -/
theorem writeAll_cases (law : FillsUp contents limit) (s : σ) (bytes : ByteArray)
    (room : (contents s).length ≤ limit) :
    ∃ result s', writeAll s bytes = (result, s') ∧
      contents s' = (contents s ++ bytes.data.toList).take limit ∧
      if (contents s).length + bytes.size ≤ limit then result = .ok ()
      else ∃ fault, result = .error fault := by
  -- What is left after a part is shorter, since a sink with room takes something.
  induction hsize : bytes.size using Nat.strong_induction_on generalizing s bytes with
  | h size ih =>
    subst hsize
    by_cases hempty : bytes.size = 0
    · have hbytes : bytes.data.toList = [] := List.eq_nil_of_length_eq_zero hempty
      refine ⟨.ok (), s, by rw [writeAll, if_pos hempty], ?_, ?_⟩
      · rw [hbytes, List.append_nil, List.take_of_length_le room]
      · rw [if_pos (by omega)]
    have nonempty : 0 < bytes.size := Nat.pos_of_ne_zero hempty
    rcases Nat.lt_or_ge (contents s).length limit with hroom | hfull
    · obtain ⟨count, s₁, hoffer, hpos, hle, hfits, hcontents⟩ := law.takes s bytes nonempty hroom
      have hlength : (contents s₁).length = (contents s).length + count := by
        rw [hcontents, List.length_append, List.length_take]
        exact congrArg _ (Nat.min_eq_left hle)
      have hleft : (bytes.extract count bytes.size).size = bytes.size - count := by
        rw [ByteArray.size_extract, Nat.min_self]
      obtain ⟨result, s₂, hrest, h₂, hresult⟩ :=
        ih _ (by omega) s₁ (bytes.extract count bytes.size) (by omega) rfl
      refine ⟨result, s₂, ?_, ?_, ?_⟩
      · rw [writeAll, if_neg hempty, hoffer]
        simp only [if_neg hpos.ne', hrest]
      -- What has been taken and what is offered again make up the bytes.
      · have hsplit : (bytes.extract count bytes.size).data.toList =
            bytes.data.toList.drop count := by
          rw [ByteArray.data_extract, Array.toList_extract, List.extract_eq_take_drop]
          exact List.take_of_length_le (by rw [List.length_drop]; exact Nat.le_refl _)
        rw [h₂, hcontents, hsplit, List.append_assoc, List.take_append_drop]
      · rw [hlength, hleft] at hresult
        have hiff : (contents s).length + count + (bytes.size - count) =
            (contents s).length + bytes.size := by omega
        rwa [hiff] at hresult
    · obtain ⟨fault, s', hwrite, hcontents⟩ := law.writeAll_of_full nonempty hfull
      refine ⟨.error fault, s', hwrite, ?_, ?_⟩
      · rw [hcontents, List.take_append_of_le_length hfull, List.take_of_length_le room]
      · rw [if_neg (by omega)]
        exact ⟨fault, rfl⟩

/-- It makes no difference in which parts the bytes are taken. -/
theorem whole (law : FillsUp contents limit) : Sink.FillsUp (contents · = ·) limit where
  write_of_fits {s taken} bytes := by
    rintro rfl fits
    obtain ⟨result, s', hwrite, hcontents, hresult⟩ := law.writeAll_cases s bytes (by omega)
    rw [if_pos fits] at hresult
    subst hresult
    refine ⟨s', hwrite, ?_⟩
    rw [hcontents]
    exact List.take_of_length_le (by rw [List.length_append]; exact fits)
  write_of_refused {s taken} bytes := by
    rintro rfl room refused
    obtain ⟨result, s', hwrite, hcontents, hresult⟩ := law.writeAll_cases s bytes room
    rw [if_neg (by omega)] at hresult
    obtain ⟨fault, rfl⟩ := hresult
    exact ⟨fault, s', hwrite, hcontents⟩
  flush {s taken} := by
    rintro rfl
    exact law.flush s

end FillsUp

end PartialSink

/-! ### The sink in memory -/

/-- What a sink in memory holds that takes `limit` bytes in all. -/
structure MemorySink.HoldsOf (limit : Nat) (s : MemorySink) (taken : List UInt8) : Prop where
  /-- The bytes that it has taken. -/
  bytes : s.bytes.data.toList = taken
  /-- The room that is left. -/
  room : s.room = some (limit - taken.length)
  /-- Nothing is held back. -/
  flushes : s.flushFault = none

theorem MemorySink.bounded_holds (limit : Nat) (refusal : IoError) :
    HoldsOf limit (.bounded limit refusal) [] := ⟨rfl, rfl, rfl⟩

/-- The sink in memory is one that fills up. -/
theorem MemorySink.bounded_fillsUp (limit : Nat) : Sink.FillsUp (HoldsOf limit) limit where
  write_of_fits {s taken} bytes h fits := by
    have hwrite : Sink.write s bytes = (.ok (), { s with
        bytes := s.bytes ++ bytes, room := some (limit - taken.length - bytes.size) }) := by
      change s.write bytes = _
      rw [write, h.room]
      exact if_pos (by omega)
    refine ⟨_, hwrite, ?_, ?_, h.flushes⟩
    · rw [ByteArray.toList_data_append, h.bytes]
    · rw [List.length_append, ← Nat.sub_sub]
      rfl
  write_of_refused {s taken} bytes h room refused := by
    -- The room becomes zero, as the limit less the number of bytes that are then in the sink.
    have hwrite : Sink.write s bytes = (.error s.refusal, { s with
        bytes := s.bytes ++ bytes.extract 0 (limit - taken.length), room := some 0 }) := by
      change s.write bytes = _
      rw [write, h.room]
      exact if_neg (by omega)
    have hsize : bytes.data.toList.length = bytes.size := rfl
    refine ⟨_, _, hwrite, ?_, ?_, h.flushes⟩
    · rw [ByteArray.toList_data_append, h.bytes, List.take_append, List.take_of_length_le room,
        ByteArray.data_extract, Array.toList_extract, List.extract_eq_take_drop, List.drop_zero,
        Nat.sub_zero]
    · rw [List.length_take, List.length_append, Nat.min_eq_left (by omega), Nat.sub_self]
  flush {s taken} h := by
    refine ⟨s, ?_, h⟩
    simp only [Sink.flush, h.flushes]

end Folio
