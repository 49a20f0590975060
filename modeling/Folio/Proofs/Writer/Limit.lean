import Folio.Codecs
import Folio.Proofs.Writer.Filling
import Folio.Proofs.Writer.Run

/-!
# Writing to a sink that fills up

A writer over a sink with a limit does what it would do without one, until something does not fit.
Of this the sink takes the first bytes, wherever in a record they end, and after that nothing. So a
part of a record is never followed by another record.

## Main definitions

* `Writer.Mirrors` — the same writer over another sink
* `Writer.Agree` — two runs cannot be told apart by what a user sees
* `Writer.Stopped` — a run has been stopped by its sink

## Main results

* `Writer.addAll_of_fits`, `Writer.add_of_refused` — additions that fit, and the first that does not
* `Writer.sink_of_fillsUp` — what stands in a sink with a limit
* `Writer.bounded_refines_unbounded` — a run over a sink with a limit
-/

namespace Folio.Writer

/-! ### The same writer over another sink -/

/-- The bytes that a writer in memory has written. -/
def output (w : Writer MemorySink) : List UInt8 := w.sink.bytes.data.toList

theorem output_extended (w : Writer MemorySink) (e : PreparedEntry) :
    (w.extended e).output = w.output ++ (joined e.pieces).data.toList :=
  ByteArray.toList_data_append

theorem length_output_extended (w : Writer MemorySink) (e : PreparedEntry) :
    (w.extended e).output.length = w.output.length + (joined e.pieces).size := by
  rw [output_extended]
  exact List.length_append

variable {σ : Type} {holds : σ → List UInt8 → Prop} {limit : Nat} {s : σ}
  {u u' : Writer MemorySink} {f : Writer σ}

/-- The writer `f` is the writer `u` over another sink, which holds the same bytes. -/
structure Mirrors (holds : σ → List UInt8 → Prop) (u : Writer MemorySink) (f : Writer σ) :
    Prop where
  offset : f.offset = u.offset
  directory : f.directory = u.directory
  names : f.names = u.names
  broken : f.broken = u.broken
  sink : holds f.sink u.output

theorem start_mirrors (empty : holds s []) :
    Mirrors holds (start MemorySink.unbounded) (start s) := ⟨rfl, rfl, rfl, rfl, empty⟩

namespace Mirrors

/-- What is wrong with an entry does not depend on the sink. -/
theorem prepare_eq [Codec] (m : Mirrors holds u f) (name : String) (data : ByteArray)
    (options : EntryOptions) : f.prepare name data options = u.prepare name data options := by
  simp only [prepare, size, m.offset, m.directory, m.names, m.broken]

theorem closingFault?_eq (m : Mirrors holds u f) : f.closingFault? = u.closingFault? := by
  simp only [closingFault?, m.offset, m.directory, m.broken]

theorem closing_eq (m : Mirrors holds u f) : f.closing = u.closing := by
  simp only [closing, endRecord, size, m.offset, m.directory]

/-- Both writers keep an entry that both sinks have taken. -/
theorem record (m : Mirrors holds u f) (e : PreparedEntry)
    (taken : holds s (u.output ++ (joined e.pieces).data.toList)) :
    Mirrors holds (u.extended e) (f.record e s) where
  offset := by simp only [extended, Writer.record, m.offset]
  directory := by simp only [extended, Writer.record, m.offset, m.directory]
  names := by simp only [extended, Writer.record, m.names]
  broken := m.broken
  sink := by rwa [output_extended]

end Mirrors

/-- The writer `f` has been stopped by its sink on the way from `u` to `u'`: it still says what it
said before, and the sink holds as many bytes as it takes of what it should hold. -/
structure Stopped (holds : σ → List UInt8 → Prop) (limit : Nat) (u u' : Writer MemorySink)
    (f : Writer σ) : Prop where
  size : f.size = u.size
  offset : f.offset = u.offset
  sink : holds f.sink (u'.output.take limit)
  broken : f.broken = true

/-- Two runs cannot be told apart by their results, by what the writer says, or by the sink. -/
structure Agree (holds : σ → List UInt8 → Prop)
    (u : List (Except Error Unit) × Writer MemorySink) (f : List (Except Error Unit) × Writer σ) :
    Prop where
  results : f.1 = u.1
  size : f.2.size = u.2.size
  offset : f.2.offset = u.2.offset
  sink : holds f.2.sink u.2.output

variable [Sink σ]

/-! ### Entries -/

/-- An entry that fits is written. -/
theorem append_of_fits (law : Sink.Takes holds limit) (m : Mirrors holds u f) (e : PreparedEntry)
    (fits : (u.extended e).output.length ≤ limit) :
    ∃ f', f.append e = (.ok (), f') ∧ Mirrors holds (u.extended e) f' := by
  rw [length_output_extended] at fits
  obtain ⟨s, hwrite, hsink⟩ := law.writeAll_of_fits e.pieces m.sink fits
  exact ⟨f.record e s, by rw [append_eq, hwrite], m.record e hsink⟩

/-- An entry that does not fit stops the writer. -/
theorem append_of_refused (law : Sink.FillsUp holds limit) (m : Mirrors holds u f)
    (e : PreparedEntry) (room : u.output.length ≤ limit)
    (refused : limit < (u.extended e).output.length) :
    ∃ fault f', f.append e = (.error (.io fault), f') ∧
      Stopped holds limit u (u.extended e) f' := by
  rw [length_output_extended] at refused
  obtain ⟨fault, s, hwrite, hsink⟩ := law.writeAll_of_refused e.pieces m.sink room refused
  rw [← output_extended] at hsink
  refine ⟨fault, { f with sink := s, broken := true }, by rw [append_eq, hwrite], ?_⟩
  exact ⟨congrArg Array.size m.directory, m.offset, hsink, rfl⟩

/-! ### The end of an archive -/

/-- The end of an archive, if it fits. -/
theorem finish_of_fits (law : Sink.Takes holds limit) (m : Mirrors holds u f) (h : u.Unlimited)
    (fits : u.finish.2.bytes.size ≤ limit) :
    ∃ s, f.finish = (u.finish.1, s) ∧ holds s u.finish.2.bytes.data.toList := by
  rcases h.finish_cases with ⟨error, hfault, hfinish⟩ | ⟨hfault, hfinish⟩
  · refine ⟨f.sink, ?_, ?_⟩
    · rw [finish_eq, m.closingFault?_eq, hfault, hfinish]
    · rw [hfinish]
      exact m.sink
  · rw [hfinish] at fits ⊢
    rw [ByteArray.size_append] at fits
    obtain ⟨s₁, hwrite, h₁⟩ := law.writeAll_of_fits u.closing m.sink fits
    obtain ⟨s₂, hflush, h₂⟩ := law.flush h₁
    refine ⟨s₂, ?_, ?_⟩
    · rw [finish_eq, m.closingFault?_eq, hfault, m.closing_eq]
      simp only [close_eq, hwrite, hflush]
    · rw [ByteArray.toList_data_append]
      exact h₂

/-- The end of an archive, if it does not fit. -/
theorem finish_of_refused (law : Sink.FillsUp holds limit) (m : Mirrors holds u f)
    (h : u.Unlimited) (room : u.output.length ≤ limit)
    (refused : limit < u.finish.2.bytes.size) :
    ∃ fault s, f.finish = (.error (.io fault), s) ∧
      holds s (u.finish.2.bytes.data.toList.take limit) := by
  rcases h.finish_cases with ⟨error, -, hfinish⟩ | ⟨hfault, hfinish⟩
  · -- A writer that is refused without its sink has written nothing new.
    rw [hfinish] at refused
    exact absurd refused (not_lt.mpr room)
  · rw [hfinish] at refused ⊢
    rw [ByteArray.size_append] at refused
    obtain ⟨fault, s, hwrite, hsink⟩ := law.writeAll_of_refused u.closing m.sink room refused
    refine ⟨fault, s, ?_, ?_⟩
    · rw [finish_eq, m.closingFault?_eq, hfault, m.closing_eq]
      simp only [close_eq, hwrite]
    · rw [ByteArray.toList_data_append]
      exact hsink

/-! ### Additions -/

section Additions

variable [Codec]

/-- An addition that fits. -/
theorem add_of_fits (law : Sink.Takes holds limit) (m : Mirrors holds u f) (h : u.Unlimited)
    (a : Addition) (fits : (u.add a.name a.data a.options).2.output.length ≤ limit) :
    ∃ f', f.add a.name a.data a.options = ((u.add a.name a.data a.options).1, f') ∧
      Mirrors holds (u.add a.name a.data a.options).2 f' := by
  rcases h.add_cases a with ⟨error, herror, hadd⟩ | ⟨e, he, hadd⟩
  · rw [hadd, add, m.prepare_eq, herror]
    exact ⟨f, rfl, m⟩
  · rw [hadd] at fits ⊢
    rw [add, m.prepare_eq, he]
    exact append_of_fits law m e fits

/-- An addition that does not fit is refused by the sink, and stops the writer. -/
theorem add_of_refused (law : Sink.FillsUp holds limit) (m : Mirrors holds u f) (h : u.Unlimited)
    (a : Addition) (room : u.output.length ≤ limit)
    (refused : limit < (u.add a.name a.data a.options).2.output.length) :
    ∃ fault f', f.add a.name a.data a.options = (.error (.io fault), f') ∧
      Stopped holds limit u (u.add a.name a.data a.options).2 f' := by
  rcases h.add_cases a with ⟨error, -, hadd⟩ | ⟨e, he, hadd⟩
  · rw [hadd] at refused
    exact absurd refused (not_lt.mpr room)
  · rw [hadd] at refused ⊢
    rw [add, m.prepare_eq, he]
    exact append_of_refused law m e room refused

/-- Nothing is taken out of a sink. -/
theorem output_prefix_add (h : u.Unlimited) (a : Addition) :
    u.output <+: (u.add a.name a.data a.options).2.output := by
  rcases h.add_cases a with ⟨error, -, hadd⟩ | ⟨e, -, hadd⟩
  · rw [hadd]
  · rw [hadd, output_extended]
    exact List.prefix_append _ _

theorem output_prefix_addAll (h : u.Unlimited) (additions : List Addition) :
    u.output <+: (u.addAll additions).2.output := by
  induction additions generalizing u with
  | nil => exact List.prefix_rfl
  | cons a rest ih => exact (output_prefix_add h a).trans (ih (h.add a))

/-- Additions that fit. -/
theorem addAll_of_fits (law : Sink.Takes holds limit) (m : Mirrors holds u f) (h : u.Unlimited)
    (additions : List Addition) (fits : (u.addAll additions).2.output.length ≤ limit) :
    ∃ f', f.addAll additions = ((u.addAll additions).1, f') ∧
      Mirrors holds (u.addAll additions).2 f' := by
  induction additions generalizing u f with
  | nil => exact ⟨f, rfl, m⟩
  | cons a rest ih =>
    rw [addAll_cons] at fits ⊢
    -- What fits in the end fits after the first addition, since the output only grows.
    have hfirst := (output_prefix_addAll (h.add a) rest).length_le.trans fits
    obtain ⟨f₁, hadd, m₁⟩ := add_of_fits law m h a hfirst
    obtain ⟨f₂, hrest, m₂⟩ := ih m₁ (h.add a) fits
    refine ⟨f₂, ?_, m₂⟩
    rw [addAll_cons, hadd]
    simp only [hrest]

/-! ### Runs -/

/-- A run over a sink without a limit. -/
def unboundedRun (additions : List Addition) : List (Except Error Unit) × Writer MemorySink :=
  (start MemorySink.unbounded).addAll additions

/-- The sink only grows in the course of a run. -/
theorem output_prefix_unboundedRun {done additions : List Addition} (h : done <+: additions) :
    (unboundedRun done).2.output <+: (unboundedRun additions).2.output := by
  obtain ⟨rest, rfl⟩ := h
  rw [unboundedRun, unboundedRun, addAll_append]
  exact output_prefix_addAll (start_unlimited.addAll done) rest

/-- The additions that fit are the first ones, so there is a first one that does not fit. -/
theorem exists_first_refused {additions : List Addition}
    (refused : limit < (unboundedRun additions).2.output.length) :
    ∃ before a after, additions = before ++ a :: after ∧
      (unboundedRun before).2.output.length ≤ limit ∧
      limit < (unboundedRun (before ++ [a])).2.output.length := by
  -- By induction from the end: if all but the last addition fit, it is the last one.
  induction additions using List.reverseRecOn with
  | nil => exact absurd refused (Nat.not_lt_zero limit)
  | append_singleton additions a ih =>
    by_cases fits : (unboundedRun additions).2.output.length ≤ limit
    · exact ⟨additions, a, [], rfl, fits, refused⟩
    · obtain ⟨before, b, after, rfl, hfits, hrefused⟩ := ih (not_le.mp fits)
      exact ⟨before, b, after ++ [a], by simp, hfits, hrefused⟩

/-- A run goes on as it would without a limit as long as all additions fit. -/
theorem run_of_fits (law : Sink.Takes holds limit) (empty : holds s [])
    {additions : List Addition} (fits : (unboundedRun additions).2.output.length ≤ limit) :
    ∃ f, (start s).addAll additions = ((unboundedRun additions).1, f) ∧
      Mirrors holds (unboundedRun additions).2 f :=
  addAll_of_fits law (start_mirrors empty) start_unlimited additions fits

theorem agree_of_fits (law : Sink.Takes holds limit) (empty : holds s [])
    {additions : List Addition} (fits : (unboundedRun additions).2.output.length ≤ limit) :
    Agree holds (unboundedRun additions) ((start s).addAll additions) := by
  obtain ⟨f, hrun, m⟩ := run_of_fits law empty fits
  rw [hrun]
  exact ⟨rfl, congrArg Array.size m.directory, m.offset, m.sink⟩

/-- After the first addition that does not fit, a run goes on with nothing but refusals. -/
theorem run_of_refused (law : Sink.FillsUp holds limit) (empty : holds s [])
    {before : List Addition} {a : Addition}
    (fits : (unboundedRun before).2.output.length ≤ limit)
    (refused : limit < (unboundedRun (before ++ [a])).2.output.length) :
    ∃ fault f, Stopped holds limit (unboundedRun before).2 (unboundedRun (before ++ [a])).2 f ∧
      ∀ after, (start s).addAll (before ++ a :: after) =
        ((unboundedRun before).1 ++ .error (.io fault) :: after.map fun _ => .error .brokenWriter,
          f) := by
  -- Up to the addition the writer mirrors the one without a limit.
  have hnext : (unboundedRun (before ++ [a])).2 =
      ((unboundedRun before).2.add a.name a.data a.options).2 := by
    rw [unboundedRun, addAll_append]
    rfl
  rw [hnext] at refused ⊢
  obtain ⟨f₁, hrun, m⟩ := run_of_fits law.toTakes empty fits
  obtain ⟨fault, f₂, hadd, hstopped⟩ :=
    add_of_refused law m (start_unlimited.addAll before) a fits refused
  refine ⟨fault, f₂, hstopped, fun after => ?_⟩
  rw [addAll_append, hrun]
  simp only [addAll_cons, hadd, addAll_of_broken hstopped.broken]

/-- At any time a sink holds the first bytes of what it should hold. -/
theorem sink_of_fillsUp (law : Sink.FillsUp holds limit) (empty : holds s [])
    (calls : List Addition) :
    holds ((start s).addAll calls).2.sink ((unboundedRun calls).2.output.take limit) := by
  rcases Nat.lt_or_ge limit (unboundedRun calls).2.output.length with refused | fits
  · obtain ⟨before, a, after, rfl, hfits, hrefused⟩ := exists_first_refused refused
    obtain ⟨fault, f, hstopped, hrun⟩ := run_of_refused law empty hfits hrefused
    -- What would be written later lies behind the limit already.
    have hprefix : before ++ [a] <+: before ++ a :: after := ⟨after, by simp⟩
    obtain ⟨more, hmore⟩ := output_prefix_unboundedRun hprefix
    rw [hrun, ← hmore, List.take_append_of_le_length hrefused.le]
    exact hstopped.sink
  · rw [List.take_of_length_le fits]
    exact (agree_of_fits law.toTakes empty fits).sink

/-- The sink in memory holds the first bytes of what it should hold, whatever has been refused. -/
theorem output_bounded (limit : Nat) (refusal : IoError) (calls : List Addition) :
    ((start (MemorySink.bounded limit refusal)).addAll calls).2.output =
      (unboundedRun calls).2.output.take limit :=
  (sink_of_fillsUp (MemorySink.bounded_fillsUp limit) (MemorySink.bounded_holds limit refusal)
    calls).bytes

/-- A run over a sink with a limit, compared with the same run over a sink without one. If all
additions fit, neither they nor the end of the archive can be told apart, unless the end is what
does not fit. Otherwise there is a first addition that does not fit. Up to there the runs cannot be
told apart. The addition fails, the writer says what it said before, and the sink holds as many of
the bytes that it should hold as it takes. All that comes after fails and changes nothing. -/
theorem bounded_refines_unbounded {σ : Type} [PartialSink σ] {contents : σ → List UInt8}
    {limit : Nat} {s : σ} (law : PartialSink.FillsUp contents limit) (empty : contents s = [])
    (calls : List Addition) :
    ((unboundedRun calls).2.output.length ≤ limit ∧
      (∀ done, done <+: calls →
        Agree (contents · = ·) (unboundedRun done) ((start s).addAll done)) ∧
      let u := (unboundedRun calls).2.finish
      if u.2.bytes.size ≤ limit then
        ∃ s', ((start s).addAll calls).2.finish = (u.1, s') ∧
          contents s' = u.2.bytes.data.toList
      else
        ∃ fault s', ((start s).addAll calls).2.finish = (.error (.io fault), s') ∧
          contents s' = u.2.bytes.data.toList.take limit) ∨
    ∃ before a after, calls = before ++ a :: after ∧
      (unboundedRun before).2.output.length ≤ limit ∧
      limit < (unboundedRun (before ++ [a])).2.output.length ∧
      (∀ done, done <+: before →
        Agree (contents · = ·) (unboundedRun done) ((start s).addAll done)) ∧
      ∃ fault f, Stopped (contents · = ·) limit (unboundedRun before).2
          (unboundedRun (before ++ [a])).2 f ∧
        (start s).addAll (before ++ [a]) =
          ((unboundedRun before).1 ++ [.error (.io fault)], f) ∧
        (start s).addAll calls =
          ((unboundedRun before).1 ++
            .error (.io fault) :: after.map fun _ => .error .brokenWriter, f) ∧
        f.finish = (.error .brokenWriter, f.sink) := by
  have whole := law.whole
  rcases Nat.lt_or_ge limit (unboundedRun calls).2.output.length with refused | fits
  · obtain ⟨before, a, after, rfl, hfits, hrefused⟩ := exists_first_refused refused
    obtain ⟨fault, f, hstopped, hrun⟩ := run_of_refused whole empty hfits hrefused
    refine .inr ⟨before, a, after, rfl, hfits, hrefused, fun done hdone => ?_, fault, f, hstopped,
      hrun [], hrun after, finish_of_broken hstopped.broken⟩
    exact agree_of_fits whole.toTakes empty ((output_prefix_unboundedRun hdone).length_le.trans hfits)
  -- All additions fit, and it is left to see whether the end of the archive does.
  · refine .inl ⟨fits, fun done hdone => ?_, ?_⟩
    · exact agree_of_fits whole.toTakes empty ((output_prefix_unboundedRun hdone).length_le.trans fits)
    · obtain ⟨f, hrun, m⟩ := run_of_fits whole.toTakes empty fits
      have hunlimited := start_unlimited.addAll calls
      simp only [hrun]
      split
      · next hend => exact finish_of_fits whole.toTakes m hunlimited hend
      · next hend => exact finish_of_refused whole m hunlimited fits (not_le.mp hend)

end Additions

/-! ### A small sink -/

/-- A sink that takes at most three bytes at a time, and `limit` bytes in all. -/
structure Trickle (limit : Nat) where
  taken : List UInt8

instance (limit : Nat) : PartialSink (Trickle limit) where
  offer s bytes :=
    let count := min 3 (min bytes.size (limit - s.taken.length))
    (.ok count, ⟨s.taken ++ bytes.data.toList.take count⟩)
  flush s := (.ok (), s)

theorem Trickle.fillsUp (limit : Nat) :
    PartialSink.FillsUp (fun s : Trickle limit => s.taken) limit where
  takes s bytes nonempty room := by
    refine ⟨_, _, rfl, ?_, ?_, ?_, rfl⟩
    · omega
    · omega
    · omega
  refuses s bytes nonempty full := by
    have hcount : min 3 (min bytes.size (limit - s.taken.length)) = 0 := by omega
    refine ⟨_, _, rfl, ?_, .inl (congrArg _ hcount)⟩
    simp only [hcount, List.take_zero, List.append_nil]
  flush s := ⟨s, rfl, rfl⟩

/-- An addition of sixteen bytes. -/
def sampleFirst : Addition := ⟨"first.txt", "0123456789abcdef".toUTF8, .ofMethod .stored⟩

/-- An addition after it. -/
def sampleSecond : Addition := ⟨"second.txt", "more".toUTF8, .ofMethod .stored⟩

theorem length_output_sampleFirst : (unboundedRun [sampleFirst]).2.output.length = 55 := by
  have hadd := start_unlimited.add_eq_ok (a := sampleFirst)
    (e := describe "first.txt" sampleFirst.data sampleFirst.data (.ofMethod .stored))
    ⟨by decide +kernel, rfl, rfl, by decide, by decide⟩ ⟨rfl, by simp [start], by decide, by decide⟩
  have hsize : (joined (describe "first.txt" sampleFirst.data sampleFirst.data
      (.ofMethod .stored)).pieces).size = 55 := by decide +kernel
  have hrun : (unboundedRun [sampleFirst]).2 =
      ((start MemorySink.unbounded).add sampleFirst.name sampleFirst.data sampleFirst.options).2 :=
    rfl
  rw [hrun, hadd, length_output_extended, hsize]
  rfl

/-- The sink stops the first addition in the middle of its data, and nothing comes after. -/
theorem bounded_refines_unbounded_trickle : ∃ fault f,
    (start (⟨[]⟩ : Trickle 40)).addAll [sampleFirst, sampleSecond] =
      ([.error (.io fault), .error .brokenWriter], f) ∧
    f.size = 0 ∧ f.offset = 0 ∧ f.sink.taken.length = 40 ∧
    f.finish = (.error .brokenWriter, f.sink) := by
  have hfirst := length_output_sampleFirst
  have hgrows (rest : List Addition) :
      55 ≤ (unboundedRun (sampleFirst :: rest)).2.output.length := by
    rw [← hfirst]
    exact (output_prefix_unboundedRun ⟨rest, rfl⟩).length_le
  rcases bounded_refines_unbounded (Trickle.fillsUp 40) (s := ⟨[]⟩) rfl
    [sampleFirst, sampleSecond] with
    ⟨hfits, -⟩ | ⟨before, a, after, hcalls, hfits, -, -, fault, f, hstopped, -, hrun, hfinish⟩
  · have := hgrows [sampleSecond]
    omega
  · cases before with
    | nil =>
      obtain ⟨rfl, rfl⟩ := List.cons.inj hcalls
      have hsink : f.sink.taken = (unboundedRun [sampleFirst]).2.output.take 40 := hstopped.sink
      refine ⟨fault, f, hrun, hstopped.size, hstopped.offset, ?_, hfinish⟩
      rw [hsink, List.length_take, hfirst]
      rfl
    | cons b rest =>
      obtain ⟨rfl, -⟩ := List.cons.inj hcalls
      have := hgrows rest
      omega

end Folio.Writer
