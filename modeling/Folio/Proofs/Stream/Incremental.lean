import Mathlib.Data.Nat.Find
import Folio.Proofs.Stream.Expected

/-!
# Decoders that are stopped anywhere

A decoder reads its input from the front and sees no further than it reads, so one that has only the
beginning of the input does the same steps until it lacks a byte. A reader may stop such a decoder
after any number of bytes, and the decoder may still work ahead on the input that it has fetched:
what the reader sees is always cut from the same sequence of bytes.

Damage is found while a decoder works ahead, and is shown before the bytes in front of it have been
handed out. The sequence is therefore the output of the whole stream up to the first byte that a
reader can no longer ask for without being shown the damage.

## Main definitions

* `Continuation.map` — a step's end with another state
* `StreamDecoder.Incremental` — a decoder sees no further than it reads, and reads at every step
* `Expansion.take` — what a reader gets who takes so many bytes of a sequence
* `StreamDecoder.Delivers` — a sequence from which all readers get what they get
* `StreamDecoder.Begins` — a sequence that is the whole stream, or the beginning of a damaged one

## Main results

* `StreamDecoder.Incremental.full_of_fault` — damage that is shown is that of the whole stream
* `StreamDecoder.Incremental.fault_mono` — who asks for more is shown the same damage
* `StreamDecoder.Delivers.unique` — there is no more than one such sequence for an input
* `StreamDecoder.Incremental.exists_delivers` — there is one for every input
* `StreamDecoder.Incremental.begins` — it is the whole stream, or the beginning of a damaged one
-/

namespace Folio

/-- The end of a step where the state is replaced. -/
def Continuation.map {S T : Type} (f : S → T) : Continuation S → Continuation T
  | again state => again (f state)
  | finished => finished
  | failed fault => failed fault
  | stuck fault => stuck fault

namespace Continuation

variable {S T : Type}

theorem map_ofFault (f : S → T) (fault : StreamFault) :
    (ofFault fault).map f = ofFault fault := by
  cases fault <;> rfl

theorem ofFault_ne_again (fault : StreamFault) (state : S) : ofFault fault ≠ again state := by
  cases fault <;> simp [ofFault]

end Continuation

/-- A decoder that sees no further than it reads: with more input it takes the same steps, until it
lacks input. -/
structure StreamDecoder.Incremental (d : StreamDecoder) extends d.Sequential where
  /-- What holds in all states. -/
  Sound : d.State → Prop
  /-- The state with more bytes behind the input. -/
  more : d.State → List UInt8 → d.State
  /-- How much input is left. -/
  left : d.State → Nat
  start_sound : ∀ input, Sound (d.start input)
  start_left : ∀ input, left (d.start input) < d.steps input
  sound_of_more : ∀ {state extra}, Sound (more state extra) → Sound state
  /-- Every step reads. -/
  step_again : ∀ {state output output' state'}, Sound state →
    d.step state output = (output', .again state') → Sound state' ∧ left state' < left state
  /-- A step sees no further than it reads. -/
  step_more : ∀ {state} (extra) {output}, Sound state →
    (d.step state output).2 ≠ .stuck .truncated →
    d.step (more state extra) output =
      ((d.step state output).1, (d.step state output).2.map (more · extra))
  /-- What has been fetched is the beginning of the input. -/
  exists_fetched : ∀ state, ∃ rest, more (d.fetched state) rest = state
  /-- What has been fetched has still been fetched when more has been read. -/
  fetched_again : ∀ {state rest extra output output' state'}, Sound (more state rest) →
    d.fetched (more state rest) = more state extra →
    d.step state output = (output', .again state') →
    ∃ extra', d.fetched (more state' rest) = more state' extra'
  more_nil : ∀ state, more state [] = state
  room_mono : ∀ {limit limit'}, limit ≤ limit' → d.room limit ≤ d.room limit'

namespace StreamDecoder

variable {d : StreamDecoder} {input data output : ByteArray} {limit limit' steps : Nat}
  {fault : StreamFault}

/-! ### What a reader is shown -/

/-- The damage that a reader is shown. -/
theorem shown_eq_some_iff {size : Nat} {last : Continuation d.State} :
    d.shown limit size last = some fault ↔
      last = .failed fault ∧ size ≤ d.room limit ∨ last = .stuck fault ∧ size < limit := by
  cases last with
  | again state => simp [shown]
  | finished => simp [shown]
  | failed fault' => simp [shown, and_comm]
  | stuck fault' => simp [shown, and_comm]

theorem size_le_of_run (hd : d.Sequential) {enough : Option Nat} {state : d.State}
    {last : Continuation d.State} (h : d.run enough steps state output = (data, last)) :
    output.size ≤ data.size := by
  have hprefix := run_extends hd.step_extends enough steps state output
  rw [h] at hprefix
  exact hprefix.length_le

theorem extract_eq_of_isPrefix {a b : ByteArray} (h : a.data.toList <+: b.data.toList)
    (hle : limit ≤ a.size) : b.extract 0 limit = a.extract 0 limit := by
  obtain ⟨rest, hrest⟩ := h
  apply ByteArray.ext
  apply Array.toList_inj.mp
  rw [ByteArray.data_extract, ByteArray.data_extract, Array.toList_extract, Array.toList_extract,
    ← hrest, List.extract_eq_take_drop, List.extract_eq_take_drop]
  simp only [List.drop_zero, Nat.sub_zero]
  exact List.take_append_of_le_length (by simpa using hle)

theorem extract_prefix (a : ByteArray) (k : Nat) :
    (a.extract 0 k).data.toList <+: a.data.toList := by
  rw [ByteArray.data_extract, Array.toList_extract, List.extract_eq_take_drop]
  simpa using List.take_prefix k a.data.toList

/-- What a reader gets if the stream ends before the decoder is stopped. -/
theorem upTo_of_ended {last : Continuation d.State}
    (h : d.run (some limit) (d.steps input) (d.start input) .empty = (output, last))
    (hlast : ∀ state, last ≠ .again state) :
    d.upTo limit input = ⟨output.extract 0 limit, d.shown limit output.size last⟩ := by
  cases last with
  | again state => exact absurd rfl (hlast state)
  | finished => rw [upTo, h]
  | failed fault => rw [upTo, h]
  | stuck fault => rw [upTo, h]

/-- What a reader gets if the decoder is stopped and works ahead. -/
theorem upTo_of_again {last : d.State} {reached : ByteArray} {ended : Continuation d.State}
    (h : d.run (some limit) (d.steps input) (d.start input) .empty = (output, .again last))
    (hahead : d.run (some (d.room limit + 1)) (d.steps input) (d.fetched last) output =
      (reached, ended)) :
    d.upTo limit input = ⟨output.extract 0 limit, d.shown limit reached.size ended⟩ := by
  simp only [upTo, h, hahead]

namespace Incremental

variable {enough enough' : Option Nat} {state last : d.State}

/-- The number of steps has no effect if it is large enough for the input. -/
theorem run_eq_of_left (hd : d.Incremental) (hs : hd.Sound state) {steps' : Nat}
    (h : hd.left state < steps) (h' : hd.left state < steps') :
    d.run enough steps state output = d.run enough steps' state output := by
  induction steps generalizing steps' state output with
  | zero => omega
  | succ steps ih =>
    obtain ⟨steps', rfl⟩ : ∃ n, steps' = n + 1 := ⟨steps' - 1, by omega⟩
    rw [run, run]
    split
    · rfl
    · cases hstep : d.step state output with
      | mk output' next =>
        cases next with
        | again state' =>
          obtain ⟨hs', hleft⟩ := hd.step_again hs hstep
          exact ih hs' (by omega) (by omega)
        | finished => rfl
        | failed fault => rfl
        | stuck fault => rfl

/-- A run that has been stopped goes on as a run with a looser limit. -/
theorem run_again (hd : d.Incremental) (hs : hd.Sound state) (hleft : hd.left state < steps)
    (h : d.run enough steps state output = (data, .again last)) :
    hd.Sound last ∧ ∃ more ≤ steps, hd.left last < more ∧ ∀ enough', Looser enough enough' →
      d.run enough' steps state output = d.run enough' more last data := by
  induction steps generalizing state output with
  | zero => omega
  | succ steps ih =>
    rw [run] at h
    split at h
    · obtain ⟨rfl, hlast⟩ := Prod.mk.inj h
      obtain rfl := Continuation.again.inj hlast
      exact ⟨hs, steps + 1, Nat.le_refl _, hleft, fun _ _ => rfl⟩
    · next hgo =>
      cases hstep : d.step state output with
      | mk output' next =>
        rw [hstep] at h
        cases next with
        | again state' =>
          obtain ⟨hs', hless⟩ := hd.step_again hs hstep
          obtain ⟨hlast, more, hmore, hleft', hrun⟩ := ih hs' (by omega) h
          refine ⟨hlast, more, by omega, hleft', fun enough' hloose => ?_⟩
          rw [run, if_neg (mt (hloose output.size) hgo), hstep]
          exact hrun enough' hloose
        | finished => cases h
        | failed fault => cases h
        | stuck fault => cases h

/-- A run that fails does the same when there is more input. -/
theorem run_more (hd : d.Incremental) {extra : List UInt8} (hs : hd.Sound (hd.more state extra))
    (h : d.run enough steps state output = (data, .failed fault)) :
    d.run enough steps (hd.more state extra) output = (data, .failed fault) := by
  induction steps generalizing state output with
  | zero => cases h
  | succ steps ih =>
    rw [run] at h
    split at h
    · cases h
    · next hgo =>
      rw [run, if_neg hgo]
      cases hstep : d.step state output with
      | mk output' next =>
        rw [hstep] at h
        have hne : (d.step state output).2 ≠ .stuck .truncated := by
          rw [hstep]
          rintro rfl
          cases h
        have hmore := hd.step_more extra (hd.sound_of_more hs) hne
        rw [hstep] at hmore
        rw [hmore]
        cases next with
        | again state' => exact ih (hd.step_again hs hmore).1 h
        | finished => cases h
        | failed fault => exact h
        | stuck fault => cases h

/-- If a decoder that works on what has been fetched fails, then it also fails when it is stopped
later and works on what has been fetched by then. -/
theorem run_fetched (hd : d.Incremental) {rest extra : List UInt8} {stopped : ByteArray}
    {steps' : Nat} (hs : hd.Sound (hd.more state rest))
    (hfetched : d.fetched (hd.more state rest) = hd.more state extra)
    (hfail : d.run none steps state output = (data, .failed fault))
    (hrun : d.run enough steps' (hd.more state rest) output = (stopped, .again last)) :
    ∃ n ≤ steps, d.run none n (d.fetched last) stopped = (data, .failed fault) := by
  induction steps' generalizing state output steps extra with
  | zero => cases hrun
  | succ steps' ih =>
    rw [run] at hrun
    split at hrun
    · obtain ⟨rfl, hlast⟩ := Prod.mk.inj hrun
      obtain rfl := Continuation.again.inj hlast
      refine ⟨steps, Nat.le_refl _, ?_⟩
      -- What has been fetched is the input on which the decoder fails, and perhaps some more.
      obtain ⟨unread, hunread⟩ := hd.exists_fetched (hd.more state rest)
      rw [hfetched] at hunread ⊢
      exact hd.run_more (hd.sound_of_more (hunread ▸ hs)) hfail
    · cases steps with
      | zero => cases hfail
      | succ steps =>
        rw [run, if_neg (by simp)] at hfail
        cases hstep : d.step state output with
        | mk output' next =>
          rw [hstep] at hfail
          have hne : (d.step state output).2 ≠ .stuck .truncated := by
            rw [hstep]
            rintro rfl
            cases hfail
          have hmore := hd.step_more rest (hd.sound_of_more hs) hne
          rw [hstep] at hmore
          rw [hmore] at hrun
          cases next with
          | again state' =>
            obtain ⟨extra', hfetched'⟩ := hd.fetched_again hs hfetched hstep
            obtain ⟨n, hn, hfinal⟩ := ih (hd.step_again hs hmore).1 hfetched' hfail hrun
            exact ⟨n, by omega, hfinal⟩
          | finished => cases hrun
          | failed fault => cases hrun
          | stuck fault => cases hrun

/-- A decoder that has been stopped and shows damage has run into it while working ahead. -/
theorem ahead_of_fault (hd : d.Incremental)
    (hrun : d.run (some limit) (d.steps input) (d.start input) .empty = (output, .again last))
    (h : (d.upTo limit input).fault = some fault) :
    ∃ data, data.size ≤ d.room limit ∧
      d.run none (d.steps input) (d.fetched last) output = (data, .failed fault) := by
  generalize hahead : d.run (some (d.room limit + 1)) (d.steps input) (d.fetched last) output =
    ahead
  obtain ⟨reached, ended⟩ := ahead
  rw [upTo_of_again hrun hahead] at h
  rcases shown_eq_some_iff.mp h with ⟨rfl, hroom⟩ | ⟨rfl, hlt⟩
  · exact ⟨reached, hroom, run_of_looser (looser_none _) hahead (by simp)⟩
  · -- All bytes that are asked for have been put out before, so no lack of a byte shows.
    have hsize := size_le_of_run hd.toSequential hahead
    have henough := le_size_of_run_again hrun
    omega

/-- The run of a whole stream whose damage is shown to a reader who asks for `limit` bytes. -/
theorem run_of_fault (hd : d.Incremental) (h : (d.upTo limit input).fault = some fault) :
    ∃ data ended, d.run none (d.steps input) (d.start input) .empty = (data, ended) ∧
      d.shown limit data.size ended = some fault := by
  generalize hrun : d.run (some limit) (d.steps input) (d.start input) .empty = result
  obtain ⟨output, next⟩ := result
  by_cases hnext : ∀ state, next ≠ .again state
  · rw [upTo_of_ended hrun hnext] at h
    exact ⟨output, next, run_of_looser (looser_none _) hrun hnext, h⟩
  · obtain ⟨last, rfl⟩ : ∃ last, next = .again last := by
      simpa using hnext
    obtain ⟨data, hroom, hahead⟩ := hd.ahead_of_fault hrun h
    obtain ⟨hlast, more, hmore, hleft, hresume⟩ :=
      hd.run_again (hd.start_sound input) (hd.start_left input) hrun
    -- The whole stream fails as its beginning does that has been fetched.
    obtain ⟨rest, hrest⟩ := hd.exists_fetched last
    have hfail := hd.run_more (hrest ▸ hlast) hahead
    rw [hrest] at hfail
    refine ⟨data, .failed fault, ?_, shown_eq_some_iff.mpr (.inl ⟨rfl, hroom⟩)⟩
    rw [hresume none (looser_none _), hd.run_eq_of_left hlast hleft (hleft.trans_le hmore)]
    exact hfail

/-- Damage that a reader is shown is that of the whole stream, and the decoder has room for all that
comes before it. -/
theorem full_of_fault (hd : d.Incremental) (h : (d.upTo limit input).fault = some fault) :
    (d.full input).fault = some fault ∧ (d.full input).output.size ≤ d.room limit := by
  obtain ⟨data, ended, hrun, hshown⟩ := hd.run_of_fault h
  rcases shown_eq_some_iff.mp hshown with ⟨rfl, hroom⟩ | ⟨rfl, hlt⟩
  · simpa only [full, hrun, true_and] using hroom
  · simpa only [full, hrun, true_and] using hlt.le.trans (hd.le_room limit)

/-- Damage that is shown to a reader is shown to one who asks for more. -/
theorem shown_mono (hd : d.Incremental) (hle : limit ≤ limit') {size : Nat}
    {last : Continuation d.State} (h : d.shown limit size last = some fault) :
    d.shown limit' size last = some fault := by
  rw [shown_eq_some_iff] at h ⊢
  exact h.imp (And.imp_right (·.trans (hd.room_mono hle))) (And.imp_right (·.trans_le hle))

/-- A reader who asks for more is shown the same damage. -/
theorem fault_mono (hd : d.Incremental) (hle : limit ≤ limit')
    (h : (d.upTo limit input).fault = some fault) : (d.upTo limit' input).fault = some fault := by
  generalize hrun' : d.run (some limit') (d.steps input) (d.start input) .empty = result'
  obtain ⟨output', next'⟩ := result'
  -- Either the decoder runs into the damage by itself, or it is stopped before.
  by_cases hnext' : ∀ state, next' ≠ .again state
  · obtain ⟨data, ended, hwhole, hshown⟩ := hd.run_of_fault h
    have hended := run_of_looser (looser_none _) hrun' hnext'
    obtain ⟨rfl, rfl⟩ := Prod.mk.inj (hended.symm.trans hwhole)
    rw [upTo_of_ended hrun' hnext']
    exact hd.shown_mono hle hshown
  · obtain ⟨last', rfl⟩ : ∃ last, next' = .again last := by
      simpa using hnext'
    generalize hrun : d.run (some limit) (d.steps input) (d.start input) .empty = result
    obtain ⟨output, next⟩ := result
    by_cases hnext : ∀ state, next ≠ .again state
    -- A decoder that is stopped is also stopped by a reader who asks for less.
    · have hboth := run_of_looser (looser_some hle) hrun hnext
      exact absurd (Prod.mk.inj (hboth.symm.trans hrun')).2 (hnext last')
    · obtain ⟨last, rfl⟩ : ∃ last, next = .again last := by
        simpa using hnext
      obtain ⟨data, hroom, hahead⟩ := hd.ahead_of_fault hrun h
      obtain ⟨hlast, more, -, -, hresume⟩ :=
        hd.run_again (hd.start_sound input) (hd.start_left input) hrun
      -- Stopped later, it has still fetched the damage, and runs into it working ahead.
      obtain ⟨rest, hrest⟩ := hd.exists_fetched last
      have hfetched : d.fetched (hd.more (d.fetched last) rest) = hd.more (d.fetched last) [] := by
        rw [hrest, hd.more_nil]
      have hlater := (hresume (some limit') (looser_some hle)).symm.trans hrun'
      rw [← hrest] at hlast hlater
      obtain ⟨n, hn, hfail⟩ := hd.run_fetched hlast hfetched hahead hlater
      have hroom' := hroom.trans (hd.room_mono hle)
      have hahead' := run_of_lt hd.step_extends (run_of_le hfail (by simp) hn)
        (Nat.lt_succ_of_le hroom')
      rw [upTo_of_again hrun' hahead']
      exact shown_eq_some_iff.mpr (.inl ⟨rfl, hroom'⟩)

/-- Damage in a stream is shown to a reader who asks for more than there is. -/
theorem fault_of_full (hd : d.Incremental) (h : (d.full input).fault = some fault)
    (hlt : (d.full input).output.size < limit) : (d.upTo limit input).fault = some fault := by
  have hagain := fun state => run_none_ne_again (d.steps input) (d.start input) state .empty
  rw [full] at h hlt
  generalize hrun : d.run none (d.steps input) (d.start input) .empty = result at h hlt hagain
  obtain ⟨data, ended⟩ := result
  cases ended with
  | again state => exact absurd rfl (hagain state)
  | finished => cases h
  | failed fault' =>
    rw [upTo_of_ended (run_of_lt hd.step_extends hrun hlt) (by simp), ← h]
    exact if_pos (hlt.le.trans (hd.le_room limit))
  | stuck fault' =>
    rw [upTo_of_ended (run_of_lt hd.step_extends hrun hlt) (by simp), ← h]
    exact if_pos hlt

/-- The bytes that a reader gets are the first ones of the whole stream. -/
theorem output_upTo (hd : d.Incremental) (limit : Nat) (input : ByteArray) :
    (d.upTo limit input).output = (d.full input).output.extract 0 limit := by
  have hfull : (d.full input).output =
      (d.run none (d.steps input) (d.start input) .empty).1 := by
    rw [full]
    split <;> simp_all
  generalize hrun : d.run (some limit) (d.steps input) (d.start input) .empty = result
  obtain ⟨output, next⟩ := result
  by_cases hnext : ∀ state, next ≠ .again state
  · rw [upTo_of_ended hrun hnext, hfull, run_of_looser (looser_none _) hrun hnext]
  · obtain ⟨last, rfl⟩ : ∃ last, next = .again last := by
      simpa using hnext
    obtain ⟨-, more, -, -, hresume⟩ :=
      hd.run_again (hd.start_sound input) (hd.start_left input) hrun
    have hextends := run_extends hd.step_extends none more last output
    rw [← hresume none (looser_none _), ← hfull] at hextends
    rw [upTo_of_again hrun rfl]
    exact (extract_eq_of_isPrefix hextends (le_size_of_run_again hrun)).symm

end Incremental

end StreamDecoder

/-! ### Sequences of bytes -/

/-- What a reader gets who takes at most `limit` bytes of a sequence. It sees how the sequence ends
if it takes fewer than it asks for. -/
def Expansion.take (e : Expansion) (limit : Nat) : Expansion :=
  ⟨e.output.extract 0 limit, if e.output.size < limit then e.fault else none⟩

/-- A reader who takes more than there is takes the whole sequence. -/
theorem Expansion.take_of_lt {e : Expansion} {limit : Nat} (h : e.output.size < limit) :
    e.take limit = e := by
  rw [take, if_pos h, extract_of_size_le h.le]

/-- A reader who takes no more than there is does not see how the sequence ends. -/
theorem Expansion.take_of_le {e : Expansion} {limit : Nat} (h : limit ≤ e.output.size) :
    e.take limit = ⟨e.output.extract 0 limit, none⟩ := by
  rw [take, if_neg h.not_gt]

namespace StreamDecoder

variable {d : StreamDecoder} {input : ByteArray} {e e' : Expansion}

/-- A stream is the sequence `e` to all readers who ask for a byte at least: they are handed out its
first bytes, and see how it ends if it has fewer bytes than they ask for. -/
structure Delivers (d : StreamDecoder) (input : ByteArray) (e : Expansion) : Prop where
  fault_upTo : ∀ n, (d.upTo (n + 1) input).fault = (e.take (n + 1)).fault
  output_upTo : ∀ n, (e.take (n + 1)).fault = none →
    (d.upTo (n + 1) input).output = (e.take (n + 1)).output

/-- A reader who asks for more than there is sees how the sequence ends. -/
theorem Delivers.fault_of_le (h : d.Delivers input e) {n : Nat} (hle : e.output.size ≤ n) :
    (d.upTo (n + 1) input).fault = e.fault := by
  rw [h.fault_upTo, Expansion.take_of_lt (Nat.lt_succ_of_le hle)]

/-- Damage is seen no sooner and no later. -/
theorem Delivers.size_le (h : d.Delivers input e) (h' : d.Delivers input e')
    (damaged : e.fault ≠ none) : e'.output.size ≤ e.output.size := by
  by_contra hlt
  have hseen := h.fault_of_le le_rfl
  rw [h'.fault_upTo, Expansion.take_of_le (not_le.mp hlt)] at hseen
  exact damaged hseen.symm

/-- A stream is one sequence only. -/
theorem Delivers.unique (h : d.Delivers input e) (h' : d.Delivers input e') : e' = e := by
  have hfault : e'.fault = e.fault := by
    rw [← h.fault_of_le (le_max_left e.output.size e'.output.size),
      h'.fault_of_le (le_max_right e.output.size e'.output.size)]
  have houtput : ∀ n, (e'.take (n + 1)).fault = none →
      (e'.take (n + 1)).output = (e.take (n + 1)).output := by
    intro n hnone
    have hnone' : (e.take (n + 1)).fault = none := by
      rw [← h.fault_upTo, h'.fault_upTo, hnone]
    rw [← h'.output_upTo n hnone, h.output_upTo n hnone']
  obtain ⟨output, fault⟩ := e
  obtain ⟨output', fault'⟩ := e'
  obtain rfl : fault' = fault := hfault
  suffices output' = output by rw [this]
  cases fault' with
  | none =>
    -- Some reader asks for more than there is, and takes the whole of both.
    have hboth := houtput (max output.size output'.size) (by simp [Expansion.take])
    rwa [Expansion.take_of_lt (Nat.lt_succ_of_le (le_max_right ..)),
      Expansion.take_of_lt (Nat.lt_succ_of_le (le_max_left ..))] at hboth
  | some fault =>
    have hsize : output'.size = output.size :=
      le_antisymm (h.size_le h' (by simp)) (h'.size_le h (by simp))
    cases hlast : output.size with
    | zero =>
      rw [hlast] at hsize
      rw [ByteArray.size_eq_zero_iff.mp hsize, ByteArray.size_eq_zero_iff.mp hlast]
    -- A reader who asks for all bytes sees no end and takes both.
    | succ n =>
      rw [hlast] at hsize
      have hboth := houtput n (by rw [Expansion.take_of_le hsize.ge])
      rwa [Expansion.take_of_le hsize.ge, Expansion.take_of_le hlast.ge,
        extract_of_size_le hsize.le, extract_of_size_le hlast.le] at hboth

/-- What is handed out of a stream is the whole of it, or of a damaged stream a beginning. The damage
is shown in time, when the decoder has room for all that comes before it. -/
structure Begins (d : StreamDecoder) (input : ByteArray) (e : Expansion) : Prop where
  fault_eq : e.fault = (d.full input).fault
  output_prefix : e.output.data.toList <+: (d.full input).output.data.toList
  whole : e.fault = none → e = d.full input
  size_le : (d.full input).output.size ≤ d.room (e.output.size + 1)

/-- A stream that ends without damage is the sequence itself. -/
theorem Incremental.delivers_full (hd : d.Incremental) (h : (d.full input).fault = none) :
    d.Delivers input (d.full input) where
  fault_upTo n := by
    rw [Expansion.take, h, ite_self]
    cases hfault : (d.upTo (n + 1) input).fault with
    | none => rfl
    | some fault =>
      rw [(hd.full_of_fault hfault).1] at h
      cases h
  output_upTo n _ := hd.output_upTo (n + 1) input

theorem Incremental.delivers_of_full (hd : d.Incremental) {data : ByteArray}
    (h : d.full input = ⟨data, none⟩) : d.Delivers input ⟨data, none⟩ := by
  rw [← h]
  exact hd.delivers_full (by rw [h])

/-- Of a damaged stream, the bytes are handed out for which a reader can ask without being shown the
damage. -/
theorem Incremental.delivers_prefix (hd : d.Incremental) {k : Nat} {fault : StreamFault}
    (hshown : (d.upTo (k + 1) input).fault = some fault)
    (hleast : ∀ n < k, (d.upTo (n + 1) input).fault ≠ some fault) :
    let e : Expansion := ⟨(d.full input).output.extract 0 k, some fault⟩
    d.Delivers input e ∧ d.Begins input e := by
  obtain ⟨hfull, hroom⟩ := hd.full_of_fault hshown
  have hle : k ≤ (d.full input).output.size := by
    by_contra hlt
    exact hleast _ (by omega) (hd.fault_of_full hfull (Nat.lt_succ_self _))
  have hsize : ((d.full input).output.extract 0 k).size = k := by
    rw [ByteArray.size_extract]
    omega
  have hprefix := extract_prefix (d.full input).output k
  refine ⟨⟨fun n => ?_, fun n hnone => ?_⟩, hfull.symm, hprefix, nofun, by rwa [hsize]⟩
  · simp only [Expansion.take, hsize]
    by_cases hn : k < n + 1
    · rw [if_pos hn]
      exact hd.fault_mono (by omega) hshown
    · rw [if_neg hn]
      -- Other damage than that of the whole stream is never shown.
      cases hother : (d.upTo (n + 1) input).fault with
      | none => rfl
      | some fault' =>
        have hsame := (hd.full_of_fault hother).1.symm.trans hfull
        exact absurd (hother.trans hsame) (hleast n (by omega))
  · have hn : n + 1 ≤ k := by
      simpa [Expansion.take, hsize] using hnone
    rw [hd.output_upTo]
    exact extract_eq_of_isPrefix hprefix (hn.trans_eq hsize.symm)

/-- What a decoder hands out is one sequence of bytes, whatever a reader asks for. -/
theorem Incremental.exists_delivers (hd : d.Incremental) (input : ByteArray) :
    ∃ e, d.Delivers input e ∧ d.Begins input e := by
  cases hfull : (d.full input).fault with
  | none =>
    exact ⟨d.full input, hd.delivers_full hfull, rfl, List.prefix_rfl, fun _ => rfl,
      (Nat.le_succ _).trans (hd.le_room _)⟩
  | some fault =>
    -- The damage is shown to a reader who asks for all bytes and one more.
    have hshown : ∃ k, (d.upTo (k + 1) input).fault = some fault :=
      ⟨(d.full input).output.size, hd.fault_of_full hfull (Nat.lt_succ_self _)⟩
    classical
    exact ⟨_, hd.delivers_prefix (Nat.find_spec hshown) fun n hn => Nat.find_min hshown hn⟩

/-- The sequence is the whole stream, or the beginning of a damaged one. -/
theorem Incremental.begins (hd : d.Incremental) (h : d.Delivers input e) : d.Begins input e := by
  obtain ⟨e', hdelivers, hbegins⟩ := hd.exists_delivers input
  rwa [hdelivers.unique h]

end StreamDecoder

end Folio
