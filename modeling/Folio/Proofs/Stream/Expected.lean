import Folio.Proofs.Bytes.Exact
import Folio.Proofs.Stream.Payload

/-!
# What a reader takes who knows the size

A reader asks a decoder for one byte more than it expects. If it gets fewer bytes than it asks for
and sees no damage, then the stream has ended, and what it has got is all that is in the stream. So
a limit makes no difference to a reader who accepts only data of the expected size.

## Main definitions

* `StreamDecoder.Sequential` — a decoder puts out one sequence of bytes, whatever the limit
* `Codec.Sequential` — the same for the decoders of both kinds of streams
* `Method.Decodes` — the whole of a payload decodes to data

## Main results

* `StreamDecoder.run_of_looser` — a limit has no effect on a run that ends by itself
* `StreamDecoder.upTo_eq_iff` — the streams from which a reader gets less than it asks for
* `decompress_eq_ok_iff` — the payloads from which a reader gets data
-/

namespace Folio

/-- What a decoder puts out is one sequence of bytes. A limit cuts it off, but not before the bytes
that are asked for. -/
structure StreamDecoder.Sequential (d : StreamDecoder) : Prop where
  /-- A step adds to the output and takes nothing back. -/
  step_extends : ∀ state output, output.data.toList <+: (d.step state output).1.data.toList
  /-- There is room for what is asked for. -/
  le_room : ∀ limit, limit ≤ d.room limit

/-- The decoders of both kinds of streams put out one sequence of bytes. -/
structure Codec.Sequential [Codec] : Prop where
  deflate : Codec.deflate.decoder.Sequential
  bzip2 : Codec.bzip2.decoder.Sequential

namespace StreamDecoder

variable {d : StreamDecoder} {limit steps : Nat} {state : d.State} {output data : ByteArray}

/-- A run stops between two steps only if it has put out enough. -/
theorem le_size_of_run_again {last : d.State}
    (h : d.run (some limit) steps state output = (data, .again last)) : limit ≤ data.size := by
  induction steps generalizing state output with
  | zero => simp [run] at h
  | succ steps ih =>
    rw [run] at h
    split at h
    · next henough =>
      obtain ⟨rfl, -⟩ := Prod.mk.inj h
      simpa using henough
    · split at h
      · exact ih h
      · next hne =>
        exact absurd h (hne data last)

/-- A limit that stops no run sooner than another one. -/
def Looser (enough enough' : Option Nat) : Prop :=
  ∀ size, enough'.any (· ≤ size) = true → enough.any (· ≤ size) = true

theorem looser_none (enough : Option Nat) : Looser enough none := by
  simp [Looser]

theorem looser_some {limit' : Nat} (h : limit ≤ limit') : Looser (some limit) (some limit') := by
  simp only [Looser, Option.any_some, decide_eq_true_eq]
  omega

/-- A run that ends by itself has not been stopped, and is not stopped by a looser limit. -/
theorem run_of_looser {enough enough' : Option Nat} (hloose : Looser enough enough')
    {last : Continuation d.State} (h : d.run enough steps state output = (data, last))
    (hlast : ∀ state', last ≠ .again state') :
    d.run enough' steps state output = (data, last) := by
  induction steps generalizing state output with
  | zero => exact h
  | succ steps ih =>
    rw [run] at h
    split at h
    · obtain ⟨-, rfl⟩ := Prod.mk.inj h
      exact absurd rfl (hlast state)
    · next hnot =>
      rw [run, if_neg (mt (hloose output.size) hnot)]
      split at h
      · exact ih h
      · exact h

/-- A reader who gets less than it asks for, and sees no damage, gets the whole stream. -/
theorem full_of_upTo (room : limit ≤ d.room limit) {input : ByteArray}
    (h : d.upTo limit input = ⟨data, none⟩) (below : data.size < limit) :
    d.full input = ⟨data, none⟩ := by
  generalize hrun : d.run (some limit) (d.steps input) (d.start input) .empty = result
  obtain ⟨output, next⟩ := result
  rw [upTo, hrun] at h
  obtain ⟨hdata, hshown⟩ := Expansion.mk.inj h
  have hsize : min limit output.size < limit := by
    rw [← hdata, ByteArray.size_extract, Nat.sub_zero] at below
    exact below
  have houtput : output = data := by
    rw [← hdata, extract_of_size_le (by omega)]
  cases next with
  | again last =>
    have := le_size_of_run_again hrun
    omega
  | finished =>
    have hended := run_of_looser (looser_none _) (houtput ▸ hrun) (by simp)
    exact full_of_run hended (Nat.le_refl _)
  -- Damage behind fewer bytes than are asked for is always shown.
  | failed fault =>
    simp only [shown] at hshown
    rw [if_pos (by omega)] at hshown
    cases hshown
  | stuck fault =>
    simp only [shown] at hshown
    rw [if_pos (by omega)] at hshown
    cases hshown

/-- A reader gets less than it asks for, and sees no damage, exactly if this is the whole stream. -/
theorem upTo_eq_iff (h : d.Sequential) {input : ByteArray} (below : data.size < limit) :
    d.upTo limit input = ⟨data, none⟩ ↔ d.full input = ⟨data, none⟩ :=
  ⟨fun hupTo => full_of_upTo (h.le_room limit) hupTo below,
    fun hfull => upTo_of_full h.step_extends hfull below⟩

end StreamDecoder

/-! ### Payloads -/

/-- The whole of a payload decodes to the data, and then the stream ends. -/
def Method.Decodes [Codec] (method : Method) (payload data : ByteArray) : Prop :=
  match method with
  | .stored => payload = data
  | .deflated => Codec.deflate.decoder.full payload = ⟨data, none⟩
  | .bzip2 => Codec.bzip2.decoder.full payload = ⟨data, none⟩

theorem Expansion.toExcept_eq_ok_iff {e : Expansion} {error : StreamFault → Error}
    {data : ByteArray} : e.toExcept error = .ok data ↔ e = ⟨data, none⟩ := by
  obtain ⟨output, fault⟩ := e
  cases fault with
  | none => simp [toExcept]
  | some fault => simp [toExcept]

/-- A reader who asks for more than the data gets the data if the whole payload decodes to it. -/
theorem Method.expand_eq_ok_iff [Codec] (h : Codec.Sequential) {method : Method} {limit : Nat}
    {payload data : ByteArray} (below : data.size < limit) :
    method.expand limit payload = .ok data ↔ method.Decodes payload data := by
  cases method with
  | stored => simp [expand, Decodes]
  | deflated =>
    rw [expand, Expansion.toExcept_eq_ok_iff]
    exact StreamDecoder.upTo_eq_iff h.deflate below
  | bzip2 =>
    rw [expand, Expansion.toExcept_eq_ok_iff]
    exact StreamDecoder.upTo_eq_iff h.bzip2 below

/-- A reader gets data from a payload if the whole payload decodes to it and it has the expected
size. -/
theorem decompress_eq_ok_iff [Codec] (h : Codec.Sequential) {method : Method} {size : Nat}
    {payload data : ByteArray} :
    decompress method payload size = .ok data ↔ method.Decodes payload data ∧ data.size = size := by
  simp only [decompress, bind_eq_ok_iff, checked_eq_ok_iff]
  constructor
  · rintro ⟨expanded, hexpand, hsize, rfl⟩
    exact ⟨(Method.expand_eq_ok_iff h (by omega)).mp hexpand, hsize⟩
  · rintro ⟨hdecodes, rfl⟩
    exact ⟨data, (Method.expand_eq_ok_iff h (Nat.lt_succ_self _)).mpr hdecodes, rfl, rfl⟩

end Folio
