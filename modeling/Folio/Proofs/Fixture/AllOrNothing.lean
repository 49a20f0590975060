import Folio.Proofs.Fixture.Delivery
import Folio.Proofs.Fixture.Plan
import Folio.Proofs.Writer.Layout

/-!
# All or nothing

Either the whole archive of a fixture is in its place and the summary tells the truth about it, or
the tree is what it was. It does not matter at which point the building fails, nor that the archive
grows in a file aside that stands in the tree meanwhile.

## Main definitions

* `additions` — the entries of a fixture, as they are asked of a writer
* `Drafted` — the archive that these entries make

## Main results

* `build_of_drafted` — the fixtures that are built
* `build_cases` — the two ways in which the building of a fixture ends
* `build_all_or_nothing` — what is left in the tree
-/

namespace Folio.Fixture

open Writer (unboundedRun)

variable [Codec] [LocalTime]

/-! ### What is asked of the writer -/

/-- An entry of a plan, as it is asked of a writer. -/
def PlannedEntry.addition (e : PlannedEntry) (document : ByteArray) (modified : DosTime) :
    Addition := ⟨e.name, document, e.optionsAt modified⟩

/-- The entries of a fixture, as they are asked of a writer. -/
def additions (c : Config) (document : File) : List Addition :=
  (plan c).map (·.addition document.contents (.ofTimestamp document.modified))

omit [LocalTime] in
/-- Entries are added if each of them can be. -/
theorem addEntries_eq_ok_iff {σ : Type} [Sink σ] {document : ByteArray} {modified : DosTime}
    {entries : List PlannedEntry} {w w' : Writer σ} (previous : Option Nat) (log : List Progress) :
    (∃ log', addEntries document modified entries previous log w = ((.ok (), w'), log')) ↔
      w.addAll (entries.map (·.addition document modified)) =
        (entries.map fun _ => .ok (), w') := by
  induction entries generalizing previous log w with
  | nil => simp [addEntries]
  | cons e rest ih =>
    rw [List.map_cons, List.map_cons, Writer.addAll_cons]
    simp only [addEntries, PlannedEntry.addition]
    rcases hadd : w.add e.name document (e.optionsAt modified) with ⟨_ | _, w₁⟩
    · simp
    · simp only
      rw [ih]
      simp only [PlannedEntry.addition, Prod.ext_iff, List.cons.injEq, true_and]

/-- All entries of a fixture can be added one after another, and the finished archive is made up of
the given bytes. -/
structure Drafted (c : Config) (document : File) (bytes : ByteArray) : Prop where
  added : (unboundedRun (additions c document)).1 = (additions c document).map fun _ => .ok ()
  finished : ∃ s, (unboundedRun (additions c document)).2.finish = (.ok (), s) ∧ s.bytes = bytes

omit [Codec] [LocalTime] in
theorem succeeded_of_ok (additions : List Addition) :
    succeeded additions (additions.map fun _ => .ok ()) = additions := by
  induction additions with
  | nil => rfl
  | cons a rest ih => rw [List.map_cons, succeeded_cons_ok, ih]

omit [LocalTime] in
/-- The number of entries is that of the additions. -/
theorem size_of_added {calls : List Addition}
    (h : (unboundedRun calls).1 = calls.map fun _ => .ok ()) :
    (unboundedRun calls).2.size = calls.length := by
  obtain ⟨written, hholds, hyields⟩ := Writer.start_holds.addAll calls
  rw [List.nil_append] at hholds
  have hrun : (Writer.start MemorySink.unbounded).addAll calls = unboundedRun calls := rfl
  rw [hrun, h, succeeded_of_ok] at hyields
  exact hholds.size_eq.trans hyields.length_eq.symm

/-! ### The two ends -/

/-- A fixture is built if its entries make an archive that can be put in its place. -/
theorem build_of_drafted {t : FileTree} {c : Config} {document : File} {bytes : ByteArray}
    {directory place : Path} (load : c.source.load t = .ok document)
    (hdirectory : PendingFile.directory t c.output = .ok directory)
    (drafted : Drafted c document bytes) (hplace : t.destination c.output = .ok place) :
    ∃ log, build t c = ⟨.ok ⟨c.output, (plan c).length, bytes.size⟩, log,
      t.insert place (.file (archiveFile bytes))⟩ := by
  obtain ⟨s, hfinish, rfl⟩ := drafted.finished
  have hrun : (Writer.start MemorySink.unbounded).addAll (additions c document) =
      ((plan c).map fun _ => .ok (), (unboundedRun (additions c document)).2) := by
    apply Prod.ext
    · have hadded := drafted.added
      simp only [additions, List.map_map] at hadded
      exact hadded
    · rfl
  obtain ⟨log, hadd⟩ := (addEntries_eq_ok_iff none []).mpr hrun
  have hsize := size_of_added drafted.added
  rw [additions, List.length_map, ← additions] at hsize
  -- What has just been put in its place can be asked for its size.
  obtain ⟨hfollow, hfree⟩ := FileTree.follow_of_destination hplace
  have hfile : (t.insert place (.file (archiveFile s.bytes))).file c.output =
      .ok (archiveFile s.bytes) := FileTree.file_insert_self hfollow hfree
  refine ⟨log, ?_⟩
  rw [build_eq_inMemory, buildBy]
  simp only [load, inMemory, hdirectory, Except.map, hadd, hfinish, FileTree.place, hplace, bind,
    Except.bind, pure, Except.pure, FileTree.attempt, hfile, hsize]
  rfl

/-- The building of a fixture leaves the tree as it was, or puts the archive in its place. -/
theorem build_cases (t : FileTree) (c : Config) :
    (∃ error, (build t c).result = .error error ∧ (build t c).tree = t) ∨
    ∃ document bytes place, c.source.load t = .ok document ∧ Drafted c document bytes ∧
      t.destination c.output = .ok place ∧
      (build t c).tree = t.insert place (.file (archiveFile bytes)) ∧
      (build t c).result = .ok ⟨c.output, (plan c).length, bytes.size⟩ := by
  have failed : ∀ {error log}, buildBy (inMemory t c.output) t c = ⟨.error error, log, t⟩ →
      ∃ error, (build t c).result = .error error ∧ (build t c).tree = t := by
    intro error log h
    rw [build_eq_inMemory, h]
    exact ⟨error, rfl, rfl⟩
  cases hsource : c.source.load t with
  | error fault => exact .inl (failed (by simp only [buildBy, hsource]; rfl))
  | ok document =>
    cases hdirectory : PendingFile.directory t c.output with
    | error fault =>
      exact .inl (failed (by simp only [buildBy, hsource, inMemory, hdirectory, Except.map]; rfl))
    | ok directory =>
      rcases hadd : addEntries document.contents (.ofTimestamp document.modified) (plan c) none []
        (Writer.start MemorySink.unbounded) with ⟨⟨error | _, w⟩, log⟩
      · exact .inl (failed (by
          simp only [buildBy, hsource, inMemory, hdirectory, Except.map, hadd]
          rfl))
      have hrun := (addEntries_eq_ok_iff none []).mp ⟨log, hadd⟩
      rcases hfinish : w.finish with ⟨error | _, s⟩
      · exact .inl (failed (by
          simp only [buildBy, hsource, inMemory, hdirectory, Except.map, hadd, hfinish]
          rfl))
      cases hplace : t.destination c.output with
      | error fault =>
        exact .inl (failed (by
          simp only [buildBy, hsource, inMemory, hdirectory, Except.map, hadd, hfinish,
            FileTree.place, hplace]
          rfl))
      | ok place =>
        have drafted : Drafted c document s.bytes := by
          have hall : unboundedRun (additions c document) = ((plan c).map fun _ => .ok (), w) := hrun
          refine ⟨?_, s, ?_, rfl⟩
          · rw [hall, additions, List.map_map]
            rfl
          · rw [hall]
            exact hfinish
        obtain ⟨log, hbuild⟩ := build_of_drafted hsource hdirectory drafted hplace
        exact .inr ⟨document, s.bytes, place, rfl, drafted, rfl, by rw [hbuild], by rw [hbuild]⟩

/-- A fixture that cannot be built leaves no trace. If it is built, the archive of all its entries
is a file in its place, nothing else has changed, and the summary is true. There is a name for a
file aside, and whichever it is, it makes no difference that the archive stands in that file while
it is written. -/
theorem build_all_or_nothing (t : FileTree) (c : Config) :
    Nonempty (AsideName t c.output) ∧
    (∀ n : AsideName t c.output, buildBy (aside n) t c = build t c) ∧
    match (build t c).result with
    | .error _ => (build t c).tree = t
    | .ok summary => ∃ document bytes place, c.source.load t = .ok document ∧
      Drafted c document bytes ∧ t.follow c.output = .ok place ∧
      (build t c).tree.follow c.output = .ok place ∧
      (build t c).tree.find? place = some (.file ⟨bytes, PendingFile.now, 0o644⟩) ∧
      (∀ other, other ≠ place → (build t c).tree.find? other = t.find? other) ∧
      summary = ⟨c.output, c.iterations * c.methods.length, bytes.size⟩ := by
  refine ⟨AsideName.nonempty t c.output, buildBy_aside, ?_⟩
  rcases build_cases t c with ⟨error, hresult, htree⟩ |
    ⟨document, bytes, place, hsource, hdraft, hplace, htree, hresult⟩
  · rw [hresult]
    exact htree
  · obtain ⟨hfollow, hfree⟩ := FileTree.follow_of_destination hplace
    rw [hresult, htree]
    refine ⟨document, bytes, place, hsource, hdraft, hfollow, ?_, ?_, ?_, ?_⟩
    · exact FileTree.follow_insert hfree hfollow
    · exact FileTree.find?_insert_self (FileTree.ne_nil_of_find? hfree)
    · intro other hother
      exact FileTree.find?_insert_of_ne hother
    · rw [length_plan]

end Folio.Fixture
