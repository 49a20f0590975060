import Mathlib.Data.List.Infix
import Folio.Payload

/-!
# Payloads are expanded to the data they were made from

A reader stops a decoder one byte behind the size that it expects. A decoder that takes nothing back
never gets there if the whole stream has no more than that size, so the reader sees the stream as it
ends by itself.

## Main results

* `StreamDecoder.run_of_lt` — a limit that the output stays below has no effect
* `StreamDecoder.upTo_of_full` — what a reader gets who expects the right size
* `decompress_compress` — data is read back from its payload
-/

namespace Folio

/-! ### Output -/

theorem push_extends (output : ByteArray) (b : UInt8) :
    output.data.toList <+: (output.push b).data.toList := by
  rw [ByteArray.data_push, Array.toList_push]
  exact List.prefix_append _ _

theorem append_toByteArray_cons (output : ByteArray) (b : UInt8) (block : List UInt8) :
    output ++ (b :: block).toByteArray = output.push b ++ block.toByteArray := by
  apply ByteArray.ext
  simp

theorem empty_append_toByteArray (data : ByteArray) :
    .empty ++ data.data.toList.toByteArray = data := by
  apply ByteArray.ext
  simp

/-- Who takes as many bytes as there are takes all of them. -/
theorem extract_of_size_le {output : ByteArray} {limit : Nat} (h : output.size ≤ limit) :
    output.extract 0 limit = output := by
  apply ByteArray.ext
  rw [ByteArray.data_extract]
  exact Array.extract_eq_self_of_le h

namespace StreamDecoder

variable {d : StreamDecoder} {limit steps : Nat} {state : d.State} {output data : ByteArray}

/-- A run goes on from the output before it. -/
theorem run_extends
    (grows : ∀ state output, output.data.toList <+: (d.step state output).1.data.toList)
    (enough : Option Nat) (steps : Nat) (state : d.State) (output : ByteArray) :
    output.data.toList <+: (d.run enough steps state output).1.data.toList := by
  induction steps generalizing state output with
  | zero => exact List.prefix_rfl
  | succ steps ih =>
    rw [run]
    split
    · exact List.prefix_rfl
    · have hstep := grows state output
      split
      · next output' state' heq =>
        rw [heq] at hstep
        exact hstep.trans (ih state' output')
      · exact hstep

/-- A limit that the output stays below has no effect on a run. -/
theorem run_of_lt
    (grows : ∀ state output, output.data.toList <+: (d.step state output).1.data.toList)
    {last : Continuation d.State} (h : d.run none steps state output = (data, last))
    (below : data.size < limit) : d.run (some limit) steps state output = (data, last) := by
  induction steps generalizing state output with
  | zero => exact h
  | succ steps ih =>
    -- The output only grows, so it is below the limit before every step if it is so in the end.
    have hsize : output.size ≤ data.size := by
      have hprefix := run_extends grows none (steps + 1) state output
      rw [h] at hprefix
      exact hprefix.length_le
    have hlimit : ¬ (some limit).any (· ≤ output.size) = true := by
      simp only [Option.any_some, decide_eq_true_eq]
      omega
    rw [run, if_neg hlimit]
    rw [run, if_neg (by simp)] at h
    split at h
    · exact ih h
    · exact h

/-- A run without a limit does not stop between two steps. -/
theorem run_none_ne_again (steps : Nat) (state state' : d.State) (output : ByteArray) :
    (d.run none steps state output).2 ≠ .again state' := by
  induction steps generalizing state output with
  | zero => simp [run]
  | succ steps ih =>
    rw [run, if_neg (by simp)]
    split
    · exact ih _ _
    · next hne =>
      intro heq
      exact hne _ _ (Prod.ext rfl heq)

theorem run_of_full {input : ByteArray} (h : d.full input = ⟨data, none⟩) :
    d.run none (d.steps input) (d.start input) .empty = (data, .finished) := by
  -- Neither a fault nor a stop between two steps looks like the end of the stream.
  have hagain := fun state' => run_none_ne_again (d.steps input) (d.start input) state' .empty
  rw [full] at h
  generalize d.run none (d.steps input) (d.start input) .empty = run at h hagain
  obtain ⟨output, last⟩ := run
  cases last with
  | again state' => exact absurd rfl (hagain state')
  | finished =>
    simp only [Expansion.mk.injEq, and_true] at h
    rw [h]
  | failed fault => simp at h
  | stuck fault => simp at h

/-! ### Runs, step by step -/

/-- How a run goes on after a step. -/
def resume (d : StreamDecoder) (steps : Nat) :
    ByteArray × Continuation d.State → ByteArray × Continuation d.State
  | (output, .again state) => d.run none steps state output
  | ended => ended

/-- A run goes on from what its first step comes to. -/
theorem run_of_step {result : ByteArray × Continuation d.State}
    (h : d.step state output = result) :
    d.run none (steps + 1) state output = d.resume steps result := by
  rw [run, if_neg (by simp), h]
  rfl

/-- A run that ends by itself takes no more steps than it needs. -/
theorem run_of_le {enough : Option Nat} {more : Nat} {last : Continuation d.State}
    (h : d.run enough steps state output = (data, last)) (hlast : last ≠ .stuck .truncated)
    (hle : steps ≤ more) : d.run enough more state output = (data, last) := by
  induction steps generalizing more state output with
  | zero => exact absurd (Prod.mk.inj h).2.symm hlast
  | succ steps ih =>
    obtain ⟨more, rfl⟩ : ∃ m, more = m + 1 := ⟨more - 1, by omega⟩
    rw [run] at h ⊢
    split at h
    · next hstop =>
      rw [if_pos hstop]
      exact h
    · next hgo =>
      rw [if_neg hgo]
      split at h
      · exact ih h (by omega)
      · exact h

theorem full_of_run {input : ByteArray}
    (h : d.run none steps (d.start input) .empty = (data, .finished))
    (hle : steps ≤ d.steps input) : d.full input = ⟨data, none⟩ := by
  rw [full, run_of_le h (by simp) hle]

/-- A stream that has been checked to hold the data. -/
theorem full_of_checked {input : ByteArray}
    (h : ((d.full input).fault.isNone && (d.full input).output == data) = true) :
    d.full input = ⟨data, none⟩ := by
  rw [Bool.and_eq_true, Option.isNone_iff_eq_none] at h
  have hdata : (d.full input).output.data == data.data := h.2
  have houtput : (d.full input).output = data := ByteArray.ext (eq_of_beq hdata)
  rw [← h.1, ← houtput]

/-- A reader who asks for more than there is gets what there is. -/
theorem upTo_of_full {input : ByteArray}
    (grows : ∀ state output, output.data.toList <+: (d.step state output).1.data.toList)
    (h : d.full input = ⟨data, none⟩) (below : data.size < limit) :
    d.upTo limit input = ⟨data, none⟩ := by
  rw [upTo, run_of_lt grows (run_of_full h) below]
  simp only [extract_of_size_le below.le, shown]

end StreamDecoder

/-! ### Payloads -/

/-- A method that compresses runs at a level that it has. -/
theorem Method.exists_of_resolve? {m : Method} {requested level : Option UInt32}
    (hm : m ≠ .stored) (h : m.resolve? requested = some level) :
    ∃ n, level = some n ∧ m.Accepts n := by
  cases requested with
  | none =>
    cases m with
    | stored => exact absurd rfl hm
    | deflated => exact ⟨6, (Option.some.inj h).symm, by decide⟩
    | bzip2 => exact ⟨9, (Option.some.inj h).symm, by decide⟩
  | some requested =>
    have hif : (if m.Accepts requested then some (some requested) else none) = some level := by
      cases m with
      | stored => exact absurd rfl hm
      | deflated => exact h
      | bzip2 => exact h
    split_ifs at hif with haccepts
    exact ⟨requested, (Option.some.inj hif).symm, haccepts⟩

/-- A payload is the data itself, or a stream for it at a level that the method has. -/
theorem compress_cases [Codec] {method : Method} {level : Option UInt32} {data payload : ByteArray}
    (h : compress method level data = .ok payload) :
    (method = .stored ∧ payload = data) ∨
      (∃ n ≤ 9, method = .deflated ∧ payload = Codec.deflate.encode n data) ∨
      ∃ n, 1 ≤ n ∧ n ≤ 9 ∧ method = .bzip2 ∧ payload = Codec.bzip2.encode n data := by
  unfold compress at h
  cases method with
  | stored =>
    have hlevel : Method.stored.resolve? level = some none := by cases level <;> rfl
    rw [hlevel] at h
    exact .inl ⟨rfl, (Except.ok.inj h).symm⟩
  | deflated =>
    cases hlevel : Method.deflated.resolve? level with
    | none => simp [hlevel] at h
    | some runs =>
      obtain ⟨n, rfl, hn⟩ := Method.exists_of_resolve? (by decide) hlevel
      rw [hlevel] at h
      exact .inr (.inl ⟨n.toNat, hn, rfl, (Except.ok.inj h).symm⟩)
  | bzip2 =>
    cases hlevel : Method.bzip2.resolve? level with
    | none => simp [hlevel] at h
    | some runs =>
      obtain ⟨n, rfl, hpos, hn⟩ := Method.exists_of_resolve? (by decide) hlevel
      rw [hlevel] at h
      exact .inr (.inr ⟨n.toNat, hpos, hn, rfl, (Except.ok.inj h).symm⟩)

/-- Data is read back from its payload. -/
theorem decompress_compress [Codec] (lawful : Codec.Lawful) {method : Method}
    {level : Option UInt32} {data payload : ByteArray}
    (h : compress method level data = .ok payload) :
    decompress method payload data.size = .ok data := by
  have hexpand : method.expand (data.size + 1) payload = .ok data := by
    rcases compress_cases h with ⟨rfl, rfl⟩ | ⟨n, hn, rfl, rfl⟩ | ⟨n, hpos, hn, rfl, rfl⟩
    · rfl
    · rw [Method.expand, StreamDecoder.upTo_of_full lawful.deflate.step_extends
        (lawful.deflate.full_encode n data (Nat.zero_le n) hn) (Nat.lt_succ_self _)]
      rfl
    · rw [Method.expand, StreamDecoder.upTo_of_full lawful.bzip2.step_extends
        (lawful.bzip2.full_encode n data hpos hn) (Nat.lt_succ_self _)]
      rfl
  rw [decompress, hexpand]
  exact if_pos rfl

end Folio
