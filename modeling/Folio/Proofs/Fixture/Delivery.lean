import Folio.Fixture.Build
import Folio.Proofs.FileTree.Aside
import Folio.Proofs.Writer.Limit

/-!
# How a fixture is delivered

It makes no difference for a fixture whether the archive is kept back while it grows, stands in a
file aside, or is made up in memory. If its output appears at once or not at all, the results, the
lines and the tree afterwards are the same.

## Main definitions

* `Delivery` — how output begins, is given up, and is put in its place
* `buildBy` — builds a fixture by a delivery
* `Delivery.Atomic` — output that appears at once or not at all
* `pending`, `aside`, `inMemory` — the three deliveries

## Main results

* `addEntries_mirrors` — the entries are added to any sink as they are in memory
* `buildBy_eq_inMemory` — all such deliveries come to the same
* `build_eq_inMemory`, `buildBy_aside` — the fixture by a pending file, and by a file aside
-/

namespace Folio.Fixture

open Writer (Mirrors)

/-- How output is delivered in a tree. -/
structure Delivery (σ : Type) where
  create : Except IoError σ
  /-- The tree when the output is given up. -/
  drop : σ → FileTree
  /-- Puts the output in its place. If that fails, it is given up. -/
  persist : σ → Except IoError Unit × FileTree

variable {σ : Type} [Sink σ] [Codec] [LocalTime]

/-- Builds a fixture. Whatever fails, the output is given up. -/
def buildBy (d : Delivery σ) (t : FileTree) (c : Config) : Outcome :=
  match c.source.load t with
  | .error fault => ⟨.error (.sourceRead c.source.path fault), [], t⟩
  | .ok document =>
    match d.create with
    | .error fault => ⟨.error (.archive (.io fault)), [], t⟩
    | .ok s =>
      match addEntries document.contents (.ofTimestamp document.modified) (plan c) none []
        (Writer.start s) with
      | ((.error error, w), log) => ⟨.error (.archive error), log, d.drop w.sink⟩
      | ((.ok (), w), log) =>
        match w.finish with
        | (.error error, s) => ⟨.error (.archive error), log, d.drop s⟩
        | (.ok (), s) =>
          match d.persist s with
          | (.error fault, after) => ⟨.error (.archive (.io fault)), log, after⟩
          | (.ok (), after) =>
            match after.file c.output with
            | .error fault => ⟨.error (.io fault), log, after⟩
            | .ok file => ⟨.ok ⟨c.output, w.size, file.contents.size⟩, log, after⟩

/-! ### Three deliveries -/

/-- Output that a pending file keeps back. -/
def pending (t : FileTree) (destination : String) : Delivery PendingFile where
  create := PendingFile.create t destination
  drop _ := t
  persist p := t.attempt (p.persist t)

/-- Output that stands in a file aside. -/
def aside {t : FileTree} {destination : String} (n : AsideName t destination) :
    Delivery AsideFile where
  create := AsideFile.create t destination n.name
  drop := AsideFile.drop
  persist := AsideFile.persist

/-- The file that holds an archive. -/
def archiveFile (bytes : ByteArray) : File := ⟨bytes, PendingFile.now, FileTree.fileMode⟩

/-- Output that is made up in memory. -/
def inMemory (t : FileTree) (destination : String) : Delivery MemorySink where
  create := (PendingFile.directory t destination).map fun _ => .unbounded
  drop _ := t
  persist s := t.attempt (t.place destination (archiveFile s.bytes))

theorem build_eq_pending (t : FileTree) (c : Config) :
    build t c = buildBy (pending t c.output) t c := by
  rw [build, buildBy]
  cases c.source.load t with
  | error fault => rfl
  | ok document =>
    simp only [pending, Writer.create]
    cases PendingFile.create t c.output with
    | error fault => rfl
    | ok file =>
      simp only
      rcases addEntries document.contents (.ofTimestamp document.modified) (plan c) none []
        (Writer.start file) with ⟨⟨_ | _, w⟩, log⟩
      · rfl
      · simp only [complete, Writer.persist]
        rcases w.finish with ⟨_ | _, p⟩
        · rfl
        · simp only
          cases p.persist t with
          | error fault => rfl
          | ok after => rfl

/-! ### Deliveries that appear at once -/

/-- Output that appears at once or not at all. What a sink holds is for `holds` to say. -/
structure Delivery.Atomic (d : Delivery σ) (t : FileTree) (destination : String)
    (holds : σ → List UInt8 → Prop) : Prop where
  /-- The output takes all that is written. -/
  takes : ∀ limit, Sink.Takes holds limit
  /-- It begins if the directory of the destination is there. -/
  create : (PendingFile.directory t destination).map (fun _ => ()) = d.create.map fun _ => ()
  /-- It begins without a byte. -/
  empty : ∀ {s}, d.create = .ok s → holds s []
  /-- It leaves nothing behind. -/
  drop : ∀ {s taken}, holds s taken → d.drop s = t
  /-- It is put in its place as a whole. -/
  persist : ∀ {s} {bytes : ByteArray}, holds s bytes.data.toList →
    d.persist s = t.attempt (t.place destination (archiveFile bytes))

omit [Codec] [LocalTime] in
theorem pending_atomic (t : FileTree) (destination : String) :
    (pending t destination).Atomic t destination (PendingFile.Holds destination) where
  takes := PendingFile.takes destination
  create := by
    simp only [pending, PendingFile.create]
    cases PendingFile.directory t destination <;> rfl
  empty h := by
    simp only [pending, PendingFile.create] at h
    cases hdirectory : PendingFile.directory t destination with
    | error fault =>
      rw [hdirectory] at h
      cases h
    | ok directory =>
      rw [hdirectory] at h
      cases h
      exact PendingFile.create_holds destination
  drop _ := rfl
  persist h := by
    simp only [pending, PendingFile.persist, h.file_eq, h.destination]
    rfl

omit [Codec] [LocalTime] in
theorem aside_atomic {t : FileTree} {destination : String} (n : AsideName t destination) :
    (aside n).Atomic t destination fun a taken =>
      ∃ directory, PendingFile.directory t destination = .ok directory ∧
        AsideFile.Holds t (directory ++ [n.name]) destination a taken where
  takes limit :=
    { write_of_fits := by
        rintro a taken bytes ⟨directory, hdirectory, h⟩ fits
        obtain ⟨a', hwrite, h'⟩ := (AsideFile.takes t _ destination limit).write_of_fits bytes h fits
        exact ⟨a', hwrite, directory, hdirectory, h'⟩
      flush := by
        rintro a taken ⟨directory, hdirectory, h⟩
        obtain ⟨a', hflush, h'⟩ := (AsideFile.takes t _ destination limit).flush h
        exact ⟨a', hflush, directory, hdirectory, h'⟩ }
  create := by
    simp only [aside, AsideFile.create]
    cases PendingFile.directory t destination <;> rfl
  empty h := by
    simp only [aside, AsideFile.create] at h
    cases hdirectory : PendingFile.directory t destination with
    | error fault =>
      rw [hdirectory] at h
      cases h
    | ok directory =>
      rw [hdirectory] at h
      cases h
      exact ⟨directory, rfl, rfl, rfl, PendingFile.create_holds destination⟩
  drop := by
    rintro a taken ⟨directory, hdirectory, h⟩
    exact h.drop_eq (n.unused directory hdirectory)
  persist := by
    rintro a bytes ⟨directory, hdirectory, h⟩
    have hpersist := h.persist_eq (n.unused directory hdirectory)
      (List.mem_append_right _ List.mem_cons_self) n.unnamed n.ne_empty
    rw [h.pending.file_eq] at hpersist
    exact hpersist

/-! ### The same outcome -/

section Mirrors

variable {holds : σ → List UInt8 → Prop} {u : Writer MemorySink} {f : Writer σ}

omit [LocalTime] in
/-- The entries are added to any sink as they are in memory. -/
theorem addEntries_mirrors (takes : ∀ limit, Sink.Takes holds limit) (m : Mirrors holds u f)
    (h : u.Unlimited) (document : ByteArray) (modified : DosTime) (entries : List PlannedEntry)
    (previous : Option Nat) (log : List Progress) :
    let r := addEntries document modified entries previous log u
    ∃ f', addEntries document modified entries previous log f = ((r.1.1, f'), r.2) ∧
      Mirrors holds r.1.2 f' ∧ r.1.2.Unlimited := by
  induction entries generalizing u f previous log with
  | nil => exact ⟨f, rfl, m, h⟩
  | cons e rest ih =>
    have hnext := h.add ⟨e.name, document, e.optionsAt modified⟩
    obtain ⟨f₁, hadd, m₁⟩ :=
      Writer.add_of_fits (takes _) m h ⟨e.name, document, e.optionsAt modified⟩ (Nat.le_refl _)
    simp only at hnext hadd m₁
    simp only [addEntries, hadd]
    rcases hu : u.add e.name document (e.optionsAt modified) with ⟨_ | _, u'⟩
    · rw [hu] at hnext m₁
      exact ⟨f₁, rfl, m₁, hnext⟩
    · rw [hu] at hnext m₁
      exact ih m₁ hnext _ _

end Mirrors

/-- All deliveries that appear at once come to the same. -/
theorem buildBy_eq_inMemory {d : Delivery σ} {t : FileTree} {c : Config}
    {holds : σ → List UInt8 → Prop} (atomic : d.Atomic t c.output holds) :
    buildBy d t c = buildBy (inMemory t c.output) t c := by
  rw [buildBy, buildBy]
  cases c.source.load t with
  | error fault => rfl
  | ok document =>
    have hcreate := atomic.create
    simp only [inMemory]
    cases hdirectory : PendingFile.directory t c.output with
    | error fault =>
      cases hs : d.create with
      | ok s =>
        rw [hdirectory, hs] at hcreate
        cases hcreate
      | error fault' =>
        rw [hdirectory, hs] at hcreate
        obtain rfl := Except.error.inj hcreate
        rfl
    | ok directory =>
      cases hs : d.create with
      | error fault =>
        rw [hdirectory, hs] at hcreate
        cases hcreate
      | ok s =>
        obtain ⟨f, hadd, m, hunlimited⟩ := addEntries_mirrors atomic.takes
          (Writer.start_mirrors (atomic.empty hs)) Writer.start_unlimited document.contents
          (.ofTimestamp document.modified) (plan c) none []
        simp only [Except.map, hadd]
        rcases hu : addEntries document.contents (.ofTimestamp document.modified) (plan c) none []
          (Writer.start MemorySink.unbounded) with ⟨⟨_ | _, w⟩, log⟩
        · rw [hu] at m
          simp only [atomic.drop m.sink]
        · rw [hu] at m hunlimited
          obtain ⟨s', hfinish, hs'⟩ :=
            Writer.finish_of_fits (atomic.takes _) m hunlimited (Nat.le_refl _)
          have hsize : f.size = w.size := congrArg Array.size m.directory
          simp only [hfinish, hsize]
          rcases hw : w.finish with ⟨_ | _, s⟩
          · simp only [atomic.drop hs']
          · rw [hw] at hs'
            simp only [atomic.persist hs']

/-- A fixture that a pending file keeps back is the one that is made up in memory. -/
theorem build_eq_inMemory (t : FileTree) (c : Config) :
    build t c = buildBy (inMemory t c.output) t c :=
  (build_eq_pending t c).trans (buildBy_eq_inMemory (pending_atomic t c.output))

/-- It makes no difference for a fixture that its file aside can be seen. -/
theorem buildBy_aside {t : FileTree} {c : Config} (n : AsideName t c.output) :
    buildBy (aside n) t c = build t c :=
  (buildBy_eq_inMemory (aside_atomic n)).trans (build_eq_inMemory t c).symm

end Folio.Fixture
