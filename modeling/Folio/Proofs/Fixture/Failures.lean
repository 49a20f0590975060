import Folio.Proofs.Fixture.Progress

/-!
# When the host fails

The host may fail at every operation on the file aside: when the file is made, at each write, of
which a part may be done, and when the output is flushed, gets its permission bits, is handed to the
disk and is moved. Whatever fails, the tree is what it was, and what has been told is the beginning
of what would have been told. If nothing fails the fixture is built as it always is. It is taken for
granted that a file that is given up can be taken away, and that the size of one that has been moved
can be read.

## Main definitions

* `Sink.Fallible` — a sink in which every operation may fail
* `Delivery.FailSafe` — output that appears at once or not at all, whatever fails
* `CutShort` — an outcome to which a failure has put an end
* `Faulty`, `Delivery.faulty` — output on a host that does something wrong

## Main results

* `addEntries_of_fallible` — entries are added as they are in memory, up to a failure
* `buildBy_of_failSafe` — a fixture is built as it is in memory, or a failure puts an end to it
* `Delivery.Atomic.failSafe`, `Delivery.Atomic.of_healthy` — what appears at once on a good host is
  safe on a bad one, and appears at once if nothing is wrong
* `build_on_faulty_host` — what becomes of a fixture, whatever becomes of the operations
-/

namespace Folio

/-! ### Sinks that may fail -/

/-- A sink in which every operation may fail. Then some of the bytes may have been taken. -/
structure Sink.Fallible {σ : Type} [Sink σ] (holds : σ → List UInt8 → Prop) : Prop where
  write : ∀ {s taken} (bytes : ByteArray), holds s taken →
    (∃ s', Sink.write s bytes = (.ok (), s') ∧ holds s' (taken ++ bytes.data.toList)) ∨
    ∃ fault s' taken', Sink.write s bytes = (.error fault, s') ∧ holds s' taken'
  flush : ∀ {s taken}, holds s taken →
    (∃ s', Sink.flush s = (.ok (), s') ∧ holds s' taken) ∨
    ∃ fault s' taken', Sink.flush s = (.error fault, s') ∧ holds s' taken'

section Writers

variable {σ : Type} [Sink σ] {holds : σ → List UInt8 → Prop} {s : σ} {taken : List UInt8}

/-- All pieces are written, or one of them fails. -/
theorem Sink.Fallible.writeAll (law : Sink.Fallible holds) (pieces : List ByteArray)
    (h : holds s taken) :
    (∃ s', Sink.writeAll s pieces = (.ok (), s') ∧
      holds s' (taken ++ (joined pieces).data.toList)) ∨
    ∃ fault s' taken', Sink.writeAll s pieces = (.error fault, s') ∧ holds s' taken' := by
  induction pieces generalizing s taken with
  | nil => exact .inl ⟨s, rfl, by simpa using h⟩
  | cons piece pieces ih =>
    rcases law.write piece h with ⟨s₁, hwrite, h₁⟩ | ⟨fault, s₁, taken₁, hwrite, h₁⟩
    · simp only [Sink.writeAll, hwrite]
      rw [joined_cons, ByteArray.toList_data_append, ← List.append_assoc]
      exact ih h₁
    · exact .inr ⟨fault, s₁, taken₁, by rw [Sink.writeAll, hwrite], h₁⟩

namespace Writer

variable {u : Writer MemorySink} {f : Writer σ}

/-- An addition comes to what it comes to in memory, or fails although it would be made there. -/
theorem add_of_fallible [Codec] (law : Sink.Fallible holds) (m : Mirrors holds u f)
    (h : u.Unlimited) (a : Addition) :
    (∃ f', f.add a.name a.data a.options = ((u.add a.name a.data a.options).1, f') ∧
      Mirrors holds (u.add a.name a.data a.options).2 f') ∨
    (u.add a.name a.data a.options).1 = .ok () ∧
      ∃ fault f' taken, f.add a.name a.data a.options = (.error (.io fault), f') ∧
        holds f'.sink taken := by
  rcases h.add_cases a with ⟨error, herror, hadd⟩ | ⟨e, he, hadd⟩
  · rw [hadd, add, m.prepare_eq, herror]
    exact .inl ⟨f, rfl, m⟩
  · rw [hadd, add, m.prepare_eq, he]
    simp only [append_eq]
    rcases law.writeAll e.pieces m.sink with ⟨s, hwrite, hs⟩ | ⟨fault, s, taken, hwrite, hs⟩
    · rw [hwrite]
      exact .inl ⟨f.record e s, rfl, m.record e hs⟩
    · rw [hwrite]
      exact .inr ⟨trivial, fault, { f with sink := s, broken := true }, taken, rfl, hs⟩

/-- The end of an archive comes to what it comes to in memory, or fails. -/
theorem finish_of_fallible (law : Sink.Fallible holds) (m : Mirrors holds u f)
    (h : u.Unlimited) :
    (∃ s, f.finish = (u.finish.1, s) ∧ holds s u.finish.2.bytes.data.toList) ∨
    ∃ fault s taken, f.finish = (.error (.io fault), s) ∧ holds s taken := by
  rw [finish_eq, m.closingFault?_eq, m.closing_eq]
  rcases h.finish_cases with ⟨error, hfault, hfinish⟩ | ⟨hfault, hfinish⟩
  · rw [hfault, hfinish]
    exact .inl ⟨f.sink, rfl, m.sink⟩
  · rw [hfault, hfinish, ByteArray.toList_data_append]
    simp only [close_eq]
    rcases law.writeAll u.closing m.sink with ⟨s, hwrite, hs⟩ | ⟨fault, s, taken, hwrite, hs⟩
    · rw [hwrite]
      rcases law.flush hs with ⟨s', hflush, hs'⟩ | ⟨fault, s', taken, hflush, hs'⟩
      · simp only [hflush]
        exact .inl ⟨s', rfl, hs'⟩
      · simp only [hflush]
        exact .inr ⟨fault, s', taken, rfl, hs'⟩
    · rw [hwrite]
      exact .inr ⟨fault, s, taken, rfl, hs⟩

end Writer

end Writers

namespace Fixture

open Writer (Mirrors)

/-! ### Entries -/

section Entries

variable {σ : Type} [Sink σ] [Codec] {holds : σ → List UInt8 → Prop}

/-- No line is taken back. -/
theorem log_prefix_addEntries (document : ByteArray) (modified : DosTime)
    (entries : List PlannedEntry) (previous : Option Nat) (log : List Progress) (w : Writer σ) :
    log.reverse <+: (addEntries document modified entries previous log w).2 := by
  induction entries generalizing previous log w with
  | nil => exact List.prefix_rfl
  | cons e rest ih =>
    have hbefore : log.reverse <+: (Progress.before previous e ++ log).reverse := by
      rw [List.reverse_append]
      exact List.prefix_append _ _
    simp only [addEntries]
    rcases w.add e.name document (e.optionsAt modified) with ⟨_ | _, w'⟩
    · exact hbefore
    · refine hbefore.trans (List.IsPrefix.trans ?_ (ih ..))
      rw [List.reverse_cons]
      exact List.prefix_append _ _

/-- Entries are added to a sink that may fail as they are in memory, up to a failure. The lines then
stop before the entry that has failed. -/
theorem addEntries_of_fallible (law : Sink.Fallible holds) {u : Writer MemorySink} {f : Writer σ}
    (m : Mirrors holds u f) (h : u.Unlimited) (document : ByteArray) (modified : DosTime)
    (entries : List PlannedEntry) (previous : Option Nat) (log : List Progress) :
    let r := addEntries document modified entries previous log u
    (∃ f', addEntries document modified entries previous log f = ((r.1.1, f'), r.2) ∧
      Mirrors holds r.1.2 f' ∧ r.1.2.Unlimited) ∨
    ∃ before e after fault f' taken, entries = before ++ e :: after ∧
      addEntries document modified entries previous log f = ((.error (.io fault), f'),
        log.reverse ++ (told previous before ++ Progress.before (reached previous before) e)) ∧
      holds f'.sink taken ∧
      log.reverse ++ (told previous before ++ Progress.before (reached previous before) e) <+:
        r.2 := by
  induction entries generalizing u f previous log with
  | nil => exact .inl ⟨f, rfl, m, h⟩
  | cons e rest ih =>
    have hnext := h.add ⟨e.name, document, e.optionsAt modified⟩
    rcases Writer.add_of_fallible law m h ⟨e.name, document, e.optionsAt modified⟩ with
      ⟨f₁, hadd, m₁⟩ | ⟨hmade, fault, f₁, taken, hadd, hsink⟩
    · simp only at hnext hadd m₁
      simp only [addEntries, hadd]
      rcases hu : u.add e.name document (e.optionsAt modified) with ⟨_ | _, u'⟩
      · rw [hu] at hnext m₁
        exact .inl ⟨f₁, rfl, m₁, hnext⟩
      · rw [hu] at hnext m₁
        rcases ih m₁ hnext (some e.index)
            (.added e.options.method :: (Progress.before previous e ++ log)) with
          hall | ⟨before, e', after, fault, f', taken, rfl, hrun, hsink, hlog⟩
        · exact .inl hall
        · -- The lines about the first entry stand before the others.
          have hlines : (Progress.added e.options.method ::
              (Progress.before previous e ++ log)).reverse ++ (told (some e.index) before ++
                Progress.before (reached (some e.index) before) e') =
              log.reverse ++ (told previous (e :: before) ++
                Progress.before (reached previous (e :: before)) e') := by
            rw [told, List.reverse_cons, List.reverse_append, reverse_before]
            simp only [List.append_assoc, List.cons_append, List.nil_append]
            rfl
          rw [hlines] at hrun hlog
          exact .inr ⟨e :: before, e', after, fault, f', taken, rfl, hrun, hsink, hlog⟩
    · simp only at hmade hadd
      refine .inr ⟨[], e, rest, fault, f₁, taken, rfl, ?_, hsink, ?_⟩
      · simp only [addEntries, hadd, List.reverse_append, reverse_before]
        rfl
      · rcases hu : u.add e.name document (e.optionsAt modified) with ⟨_ | _, u'⟩
        · rw [hu] at hmade
          cases hmade
        · have hlines := log_prefix_addEntries document modified rest (some e.index)
            (.added e.options.method :: (Progress.before previous e ++ log)) u'
          rw [List.reverse_cons, List.reverse_append, reverse_before] at hlines
          simp only [addEntries, hu]
          exact (List.prefix_append _ _).trans hlines

end Entries

/-! ### Deliveries -/

section Deliveries

variable {σ : Type} [Sink σ] {holds : σ → List UInt8 → Prop} {d : Delivery σ} {t : FileTree}

/-- Output that appears at once or not at all, although every operation on it may fail. -/
structure Delivery.FailSafe (d : Delivery σ) (t : FileTree) (destination : String)
    (holds : σ → List UInt8 → Prop) : Prop where
  fallible : Sink.Fallible holds
  /-- It begins without a byte, and only if the directory of the destination is there. -/
  create : (∃ s directory, d.create = .ok s ∧ holds s [] ∧
      PendingFile.directory t destination = .ok directory) ∨
    ∃ fault, d.create = .error fault
  /-- It leaves nothing behind. -/
  drop : ∀ {s taken}, holds s taken → d.drop s = t
  /-- It is put in its place as a whole, or leaves nothing behind. -/
  persist : ∀ {s} {bytes : ByteArray}, holds s bytes.data.toList →
    d.persist s = t.attempt (t.place destination (archiveFile bytes)) ∨
    ∃ fault, d.persist s = (.error fault, t)

variable [Codec] [LocalTime] {c : Config}

/-- A failure has put an end to the building of a fixture. Nothing else has been told than would have
been told without it, up to the entry that has failed, if it is one. -/
structure CutShort (t : FileTree) (c : Config) (o : Outcome) : Prop where
  result : ∃ fault, o.result = .error (.archive (.io fault))
  tree : o.tree = t
  log_prefix : o.log <+: (build t c).log
  log : o.log = [] ∨ (∃ p, StopsBefore c p o.log) ∨ o.log = fullLog c

/-- What is told of a fixture is told while its entries are added. -/
theorem buildBy_log {document : File} {s : σ} (load : c.source.load t = .ok document)
    (created : d.create = .ok s) : (buildBy d t c).log =
      (addEntries document.contents (.ofTimestamp document.modified) (plan c) none []
        (Writer.start s)).2 := by
  simp only [buildBy, load, created]
  rcases addEntries document.contents (.ofTimestamp document.modified) (plan c) none []
    (Writer.start s) with ⟨⟨_ | _, w⟩, log⟩
  · simp only
  · simp only
    rcases w.finish with ⟨_ | _, s'⟩
    · simp only
    · rcases hpersist : d.persist s' with ⟨_ | _, after⟩
      · simp only [hpersist]
      · simp only [hpersist]
        cases after.file c.output <;> rfl

/-- When all entries have been added, the fixture is finished and put in its place as it is in memory,
or a failure puts an end to it. -/
theorem buildBy_of_added (safe : d.FailSafe t c.output holds) {document : File} {s : σ}
    {f : Writer σ} {w : Writer MemorySink} {log : List Progress}
    (load : c.source.load t = .ok document) (created : d.create = .ok s)
    (memory : (inMemory t c.output).create = .ok .unbounded)
    (hadd : addEntries document.contents (.ofTimestamp document.modified) (plan c) none []
      (Writer.start s) = ((.ok (), f), log))
    (hmemory : addEntries document.contents (.ofTimestamp document.modified) (plan c) none []
      (Writer.start MemorySink.unbounded) = ((.ok (), w), log))
    (m : Mirrors holds w f) (unlimited : w.Unlimited) :
    buildBy d t c = build t c ∨
      ∃ fault, buildBy d t c = ⟨.error (.archive (.io fault)), log, t⟩ := by
  rcases Writer.finish_of_fallible safe.fallible m unlimited with
    ⟨s', hfinish, hs'⟩ | ⟨fault, s', taken, hfinish, hs'⟩
  case inr =>
    exact .inr ⟨fault, by simp only [buildBy, load, created, hadd, hfinish, safe.drop hs']⟩
  rcases hw : w.finish with ⟨error | _, done⟩
  · rw [hw] at hfinish hs'
    refine .inl ?_
    rw [build_eq_inMemory]
    simp only [buildBy, load, created, memory, hadd, hmemory, hfinish, hw, safe.drop hs']
    rfl
  · rw [hw] at hfinish hs'
    rcases safe.persist hs' with hpersist | ⟨fault, hpersist⟩
    · have hsize : f.size = w.size := congrArg Array.size m.directory
      refine .inl ?_
      rw [build_eq_inMemory]
      simp only [buildBy, load, created, memory, hadd, hmemory, hfinish, hw, hpersist, hsize]
      rfl
    · exact .inr ⟨fault, by simp only [buildBy, load, created, hadd, hfinish, hpersist]⟩

/-- A fixture is built as it is in memory, or a failure puts an end to it. -/
theorem buildBy_of_failSafe (safe : d.FailSafe t c.output holds) :
    buildBy d t c = build t c ∨ CutShort t c (buildBy d t c) := by
  cases load : c.source.load t with
  | error fault =>
    rw [build_eq_inMemory]
    exact .inl (by simp only [buildBy, load])
  | ok document =>
    rcases safe.create with ⟨s, directory, created, empty, hdirectory⟩ | ⟨fault, created⟩
    case inr =>
      have hbuild : buildBy d t c = ⟨.error (.archive (.io fault)), [], t⟩ := by
        simp only [buildBy, load, created]
      rw [hbuild]
      exact .inr ⟨⟨fault, rfl⟩, rfl, List.nil_prefix, .inl rfl⟩
    have memory : (inMemory t c.output).create = .ok .unbounded := by
      rw [inMemory, hdirectory]
      rfl
    have hlog := buildBy_log load memory
    rw [← build_eq_inMemory] at hlog
    rcases addEntries_of_fallible safe.fallible (Writer.start_mirrors empty)
        Writer.start_unlimited document.contents (.ofTimestamp document.modified) (plan c) none []
      with ⟨f, hadd, m, unlimited⟩ | ⟨before, e, after, fault, f, taken, split, hadd, hsink, hprefix⟩
    case inr =>
      rw [← hlog] at hprefix
      have hbuild : buildBy d t c = ⟨.error (.archive (.io fault)),
          told none before ++ Progress.before (reached none before) e, t⟩ := by
        simp only [buildBy, load, created, hadd, safe.drop hsink]
        rfl
      rw [hbuild]
      exact .inr ⟨⟨fault, rfl⟩, rfl, hprefix, .inr (.inl ⟨_, stopsBefore_told split⟩)⟩
    -- Without a failure, an entry is refused here if it is refused in memory.
    rcases hmemory : addEntries document.contents (.ofTimestamp document.modified) (plan c) none []
      (Writer.start MemorySink.unbounded) with ⟨⟨error | _, w⟩, log⟩
    · rw [hmemory] at hadd m
      refine .inl ?_
      rw [build_eq_inMemory]
      simp only [buildBy, load, created, memory, hadd, hmemory, safe.drop m.sink]
      rfl
    · rw [hmemory] at hadd m unlimited hlog
      rcases buildBy_of_added safe load created memory hadd hmemory m unlimited with
        hbuild | ⟨fault, hbuild⟩
      · exact .inl hbuild
      · -- All entries have been added before the failure, so everything has been told.
        have hfull : log = fullLog c := by
          have hrun := (addEntries_eq_ok_iff none []).mp ⟨log, hmemory⟩
          rw [addEntries_of_added hrun] at hmemory
          exact (Prod.mk.inj hmemory).2.symm
        rw [hbuild]
        exact .inr ⟨⟨fault, rfl⟩, rfl, hlog ▸ List.prefix_rfl, .inr (.inr hfull)⟩

end Deliveries

/-! ### Bad hosts -/

/-- What a host does wrong in an operation. Of a write the first bytes may still have been done. -/
structure Fault where
  error : IoError
  /-- How many bytes of a write have been done. -/
  done : Nat

/-- Output on a host that does something wrong. -/
structure Faulty (σ : Type) where
  sink : σ
  /-- What is wrong with each of the operations to come, and nothing is with those after them. -/
  faults : List (Option Fault)

instance {σ : Type} [Sink σ] : Sink (Faulty σ) where
  write f bytes :=
    match f.faults.head?.join with
    | none =>
      let (result, sink) := Sink.write f.sink bytes
      (result, ⟨sink, f.faults.tail⟩)
    | some fault =>
      (.error fault.error, ⟨(Sink.write f.sink (bytes.extract 0 fault.done)).2, f.faults.tail⟩)
  flush f :=
    match f.faults.head?.join with
    | none =>
      let (result, sink) := Sink.flush f.sink
      (result, ⟨sink, f.faults.tail⟩)
    | some fault => (.error fault.error, ⟨f.sink, f.faults.tail⟩)

/-- The same delivery on a host that does something wrong. When output is put in its place, it is
flushed, gets its permission bits, is handed to the disk and is moved. -/
def Delivery.faulty {σ : Type} (d : Delivery σ) (faults : List (Option Fault)) :
    Delivery (Faulty σ) where
  create :=
    match faults.head?.join with
    | none => d.create.map (⟨·, faults.tail⟩)
    | some fault => .error fault.error
  drop f := d.drop f.sink
  persist f :=
    match (f.faults.take 4).findSome? id with
    | none => d.persist f.sink
    | some fault => (.error fault.error, d.drop f.sink)

section Faults

variable {σ : Type} [Sink σ] {holds : σ → List UInt8 → Prop} {d : Delivery σ} {t : FileTree}
  {destination : String}

/-- What takes all that is written on a good host may fail on a bad one. -/
theorem fallible_of_takes (law : ∀ limit, Sink.Takes holds limit) :
    Sink.Fallible fun (f : Faulty σ) taken => holds f.sink taken where
  write {f taken} bytes h := by
    simp only [Sink.write]
    cases f.faults.head?.join with
    | none =>
      obtain ⟨s, hwrite, hs⟩ := (law _).write_of_fits bytes h (Nat.le_refl _)
      exact .inl ⟨⟨s, f.faults.tail⟩, by simp only [hwrite], hs⟩
    | some fault =>
      obtain ⟨s, hwrite, hs⟩ :=
        (law _).write_of_fits (bytes.extract 0 fault.done) h (Nat.le_refl _)
      exact .inr ⟨fault.error, ⟨s, f.faults.tail⟩, _, by simp only [hwrite], hs⟩
  flush {f taken} h := by
    simp only [Sink.flush]
    cases f.faults.head?.join with
    | none =>
      obtain ⟨s, hflush, hs⟩ := (law 0).flush h
      exact .inl ⟨⟨s, f.faults.tail⟩, by simp only [hflush], hs⟩
    | some fault => exact .inr ⟨fault.error, ⟨f.sink, f.faults.tail⟩, taken, rfl, h⟩

/-- What appears at once on a good host is safe on a bad one. -/
theorem Delivery.Atomic.failSafe (atomic : d.Atomic t destination holds)
    (faults : List (Option Fault)) :
    (d.faulty faults).FailSafe t destination fun f taken => holds f.sink taken where
  fallible := fallible_of_takes atomic.takes
  create := by
    simp only [Delivery.faulty]
    cases faults.head?.join with
    | some fault => exact .inr ⟨fault.error, rfl⟩
    | none =>
      have hcreate := atomic.create
      cases hs : d.create with
      | error fault => exact .inr ⟨fault, rfl⟩
      | ok s =>
        cases hdirectory : PendingFile.directory t destination with
        | error fault =>
          rw [hs, hdirectory] at hcreate
          cases hcreate
        | ok directory => exact .inl ⟨⟨s, faults.tail⟩, directory, rfl, atomic.empty hs, rfl⟩
  drop h := atomic.drop h
  persist {f bytes} h := by
    simp only [Delivery.faulty]
    cases (f.faults.take 4).findSome? id with
    | none => exact .inl (atomic.persist h)
    | some fault => exact .inr ⟨fault.error, by simp only [atomic.drop h]⟩

theorem head?_join_of_healthy {faults : List (Option Fault)}
    (healthy : ∀ fault ∈ faults, fault = none) : faults.head?.join = none := by
  cases faults with
  | nil => rfl
  | cons fault faults => exact healthy fault List.mem_cons_self

/-- What appears at once on a good host does so on every host on which nothing is wrong. -/
theorem Delivery.Atomic.of_healthy (atomic : d.Atomic t destination holds)
    {faults : List (Option Fault)} (healthy : ∀ fault ∈ faults, fault = none) :
    (d.faulty faults).Atomic t destination fun f taken =>
      holds f.sink taken ∧ ∀ fault ∈ f.faults, fault = none where
  takes limit :=
    { write_of_fits := by
        rintro f taken bytes ⟨h, hfaults⟩ fits
        obtain ⟨s, hwrite, hs⟩ := (atomic.takes limit).write_of_fits bytes h fits
        refine ⟨⟨s, f.faults.tail⟩, ?_, hs, fun _ hmem => hfaults _ (List.mem_of_mem_tail hmem)⟩
        simp only [Sink.write, head?_join_of_healthy hfaults, hwrite]
      flush := by
        rintro f taken ⟨h, hfaults⟩
        obtain ⟨s, hflush, hs⟩ := (atomic.takes limit).flush h
        refine ⟨⟨s, f.faults.tail⟩, ?_, hs, fun _ hmem => hfaults _ (List.mem_of_mem_tail hmem)⟩
        simp only [Sink.flush, head?_join_of_healthy hfaults, hflush] }
  create := by
    rw [atomic.create]
    simp only [Delivery.faulty, head?_join_of_healthy healthy]
    cases d.create <;> rfl
  empty {f} h := by
    simp only [Delivery.faulty, head?_join_of_healthy healthy] at h
    cases hs : d.create with
    | error fault =>
      rw [hs] at h
      cases h
    | ok s =>
      rw [hs] at h
      cases h
      exact ⟨atomic.empty hs, fun _ hmem => healthy _ (List.mem_of_mem_tail hmem)⟩
  drop h := atomic.drop h.1
  persist {f bytes} h := by
    have hfaults : (f.faults.take 4).findSome? id = none :=
      List.findSome?_eq_none_iff.mpr fun fault hmem => h.2 fault (List.mem_of_mem_take hmem)
    simp only [Delivery.faulty, hfaults]
    exact atomic.persist h.1

end Faults

/-- A fixture on a host that may do something wrong in every operation on the file aside. Either the
fixture is built as it always is, or a failure puts an end to it. When it is not built, the tree is
what it was. When nothing fails, it is built as it always is. -/
theorem build_on_faulty_host [Codec] [LocalTime] (t : FileTree) (c : Config)
    (n : AsideName t c.output) (faults : List (Option Fault)) :
    let o := buildBy ((aside n).faulty faults) t c
    (o = build t c ∨ CutShort t c o) ∧ (∀ error, o.result = .error error → o.tree = t) ∧
      ((∀ fault ∈ faults, fault = none) → o = build t c) := by
  intro o
  have hrun : o = build t c ∨ CutShort t c o :=
    buildBy_of_failSafe ((aside_atomic n).failSafe faults)
  refine ⟨hrun, fun error herror => ?_, fun healthy => ?_⟩
  · rcases hrun with hrun | short
    · rw [hrun] at herror ⊢
      rcases build_cases t c with ⟨_, _, htree⟩ | ⟨_, _, _, _, _, _, _, hresult⟩
      · exact htree
      · rw [hresult] at herror
        cases herror
    · exact short.tree
  · exact (buildBy_eq_inMemory ((aside_atomic n).of_healthy healthy)).trans
      (build_eq_inMemory t c).symm

end Fixture

end Folio
