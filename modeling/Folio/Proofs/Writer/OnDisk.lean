import Folio.Calendar.Universal
import Folio.Proofs.FileTree.Aside
import Folio.Proofs.Writer.Calls
import Folio.Proofs.Writer.Limit

/-!
# Archives on a disk

A writer on a disk is asked for entries whose data it finds in files of the tree to which its own
output goes. It answers all requests as a writer in memory that is given the same data, and in the
end its archive holds the same bytes. Until then nothing changes in the tree but the file aside, in
which nobody looks for an entry.

## Main definitions

* `Request` — what a writer on a disk is asked for
* `Writer.callsFor` — the calls that requests come to, each in the tree of the moment
* `FileTree.Keeps` — all that was in a tree is still there
* `Writer.Ends` — how the delivery of an archive ends

## Main results

* `Writer.giveAll_of_takes` — what is given to a sink that takes all, and to one in memory
* `Writer.persist_ends`, `Writer.deliver_ends` — an archive is delivered as a whole or not at all
* `Writer.created_refines_memory` — a run on a disk, compared with the run in memory
-/

namespace Folio

/-! ### Requests -/

/-- What a writer on a disk is asked for: the data of an entry is given, or a path leads to it. -/
inductive Request where
  | data (addition : Addition)
  | file (name path : String) (options : EntryOptions)

namespace Request

/-- The call that a request comes to in a tree. -/
def callIn (t : FileTree) : Request → Call
  | data a => .data a
  | file name path options => .file t name path options

/-- The path of the request does not lead through files or directories of a name. -/
def Avoids (q : Request) (name : String) : Prop :=
  match q with
  | data _ => True
  | file _ path _ => name ∉ FileTree.components path

/-- A file that a request avoids does not matter for it. -/
theorem Avoids.addition_eq [LocalTime] {q : Request} {name : String} {place : Path} {node : Node}
    (avoids : q.Avoids name) (hname : name ∈ place) (t : FileTree) :
    (q.callIn (t.insert place node)).addition = (q.callIn t).addition := by
  cases q with
  | data a => rfl
  | file entry path options =>
    simp only [callIn, Call.addition, FileTree.file_insert_of_unnamed hname avoids]

end Request

/-! ### Trees that keep what they have -/

/-- All that is in the tree `t` is in the tree `u` as well, and every text that leads to a file in
the one leads to the same file in the other. -/
structure FileTree.Keeps (t u : FileTree) : Prop where
  nodes : ∀ path, t.find? path ≠ none → u.find? path = t.find? path
  files : ∀ text file, t.file text = .ok file → u.file text = .ok file

theorem FileTree.keeps_insert {t : FileTree} {place : Path} (unused : t.find? place = none)
    (node : Node) : t.Keeps (t.insert place node) where
  nodes path hpath := by
    apply find?_insert_of_ne
    rintro rfl
    exact hpath unused
  files text file hfile := by
    apply file_insert_of_ne (by simp [unused]) ?_ hfile
    intro hfollow
    obtain ⟨path, hpath, hfind⟩ := file_eq_ok_iff.mp hfile
    obtain rfl := Except.ok.inj (hfollow.symm.trans hpath)
    rw [unused] at hfind
    cases hfind

theorem AsideFile.Holds.keeps {t : FileTree} {place : Path} {destination : String} {a : AsideFile}
    {taken : List UInt8} (h : AsideFile.Holds t place destination a taken)
    (unused : t.find? place = none) : t.Keeps a.tree :=
  h.tree ▸ FileTree.keeps_insert unused _

namespace Writer

/-- A writer on a disk begins where the directory of the destination is there. -/
theorem create_eq_ok_iff {t : FileTree} {destination : String} {w : Writer PendingFile} :
    create t destination = .ok w ↔ w = start ⟨destination, [], .empty⟩ ∧
      ∃ directory, PendingFile.directory t destination = .ok directory := by
  simp only [create, PendingFile.create]
  cases PendingFile.directory t destination with
  | ok directory => simp [eq_comm]
  | error fault => simp

/-! ### Runs -/

section Runs

variable {σ : Type} [Sink σ] [Codec] [LocalTime]

/-- Gives a writer what a call comes to: an addition is made, and a fault is passed on. -/
def give (w : Writer σ) : Except IoError Addition → Except Error Unit × Writer σ
  | .error fault => (.error (.io fault), w)
  | .ok a => w.add a.name a.data a.options

/-- Gives a writer what calls come to, one after another. -/
def giveAll (w : Writer σ) : List (Except IoError Addition) → List (Except Error Unit) × Writer σ
  | [] => ([], w)
  | given :: rest =>
    let (result, w) := w.give given
    let (results, w) := w.giveAll rest
    (result :: results, w)

theorem call_eq_give (w : Writer σ) (c : Call) : w.call c = w.give c.addition := by
  rw [call_eq]
  cases c.addition <;> rfl

theorem callAll_eq_giveAll (w : Writer σ) (calls : List Call) :
    w.callAll calls = w.giveAll (calls.map Call.addition) := by
  induction calls generalizing w with
  | nil => rfl
  | cons c rest ih => simp only [callAll_cons, List.map_cons, giveAll, call_eq_give, ih]

/-- The calls that requests come to, each in the tree that the sink shows when its turn comes. -/
def callsFor (shows : σ → FileTree) (w : Writer σ) : List Request → List Call
  | [] => []
  | q :: rest =>
    let c := q.callIn (shows w.sink)
    c :: callsFor shows (w.call c).2 rest

variable {holds : σ → List UInt8 → Prop} {u : Writer MemorySink} {f : Writer σ}

omit [LocalTime] in
/-- What is given to a writer over a sink that takes all, and to one in memory. -/
theorem give_of_takes (law : ∀ limit, Sink.Takes holds limit) (m : Mirrors holds u f)
    (h : u.Unlimited) (given : Except IoError Addition) :
    ∃ f', f.give given = ((u.give given).1, f') ∧ Mirrors holds (u.give given).2 f' ∧
      (u.give given).2.Unlimited := by
  cases given with
  | error fault => exact ⟨f, rfl, m, h⟩
  | ok a =>
    obtain ⟨f', hadd, m'⟩ := add_of_fits (law _) m h a (Nat.le_refl _)
    exact ⟨f', hadd, m', h.add a⟩

omit [LocalTime] in
theorem giveAll_of_takes (law : ∀ limit, Sink.Takes holds limit) (m : Mirrors holds u f)
    (h : u.Unlimited) (given : List (Except IoError Addition)) :
    ∃ f', f.giveAll given = ((u.giveAll given).1, f') ∧ Mirrors holds (u.giveAll given).2 f' ∧
      (u.giveAll given).2.Unlimited := by
  induction given generalizing u f with
  | nil => exact ⟨f, rfl, m, h⟩
  | cons first rest ih =>
    obtain ⟨f₁, hfirst, m₁, h₁⟩ := give_of_takes law m h first
    obtain ⟨f₂, hrest, m₂, h₂⟩ := ih m₁ h₁
    refine ⟨f₂, ?_, m₂, h₂⟩
    simp only [giveAll, hfirst, hrest]

omit [Sink σ] [Codec] [LocalTime] in
theorem Mirrors.agree {results : List (Except Error Unit)} (m : Mirrors holds u f) :
    Agree holds (results, u) (results, f) :=
  ⟨rfl, congrArg Array.size m.directory, m.offset, m.sink⟩

/-- As long as no request leads through the file aside, all of them come to what they come to in the
tree without it. -/
theorem callsFor_addition {t : FileTree} {place : Path} {destination name : String}
    {w : Writer AsideFile} (m : Mirrors (AsideFile.Holds t place destination) u w)
    (h : u.Unlimited) (hname : name ∈ place) {requests : List Request}
    (avoids : ∀ q ∈ requests, q.Avoids name) :
    (callsFor AsideFile.tree w requests).map Call.addition =
      requests.map fun q => (q.callIn t).addition := by
  induction requests generalizing w u with
  | nil => rfl
  | cons q rest ih =>
    have hq : (q.callIn w.sink.tree).addition = (q.callIn t).addition := by
      rw [m.sink.tree]
      exact (avoids q List.mem_cons_self).addition_eq hname t
    obtain ⟨w', hgive, m', h'⟩ :=
      give_of_takes (AsideFile.takes t place destination) m h (q.callIn t).addition
    simp only [callsFor, List.map_cons, call_eq_give, hq, hgive, List.cons.injEq, true_and]
    exact ih m' h' fun p hp => avoids p (List.mem_cons_of_mem _ hp)

end Runs

/-! ### The end -/

/-- How the delivery of an archive ends, going by a writer in memory. It fails with the writer, and
else if there is no place for the archive, and then the tree is what it was. If it succeeds, the
archive of the writer is a file in its place, and nothing else has changed. -/
inductive Ends (t : FileTree) (destination : String) (memory : Writer MemorySink) :
    Except Error Unit → FileTree → Prop where
  | refused {error : Error} (finish : memory.finish.1 = .error error) :
      Ends t destination memory (.error error) t
  | unplaced {fault : IoError} (finish : memory.finish.1 = .ok ())
      (nowhere : t.destination destination = .error fault) :
      Ends t destination memory (.error (.io fault)) t
  | placed {place : Path} {after : FileTree} (finish : memory.finish.1 = .ok ())
      (somewhere : t.destination destination = .ok place)
      (holds : after.find? place = some (.file ⟨memory.finish.2.bytes, PendingFile.now, 0o644⟩))
      (reads : after.file destination = .ok ⟨memory.finish.2.bytes, PendingFile.now, 0o644⟩)
      (others : ∀ other, other ≠ place → after.find? other = t.find? other) :
      Ends t destination memory (.ok ()) after

section Ends

variable {t : FileTree} {destination : String} {memory : Writer MemorySink}

variable (t destination) in
theorem ends_of_attempt (finish : memory.finish.1 = .ok ()) :
    let r := t.attempt (t.place destination
      ⟨memory.finish.2.bytes, PendingFile.now, FileTree.fileMode⟩)
    Ends t destination memory (r.1.mapError .io) r.2 := by
  rw [FileTree.place]
  cases hplace : t.destination destination with
  | error fault => exact .unplaced finish hplace
  | ok place =>
    obtain ⟨hfollow, hfree⟩ := FileTree.follow_of_destination hplace
    exact .placed finish hplace (FileTree.find?_insert_self (FileTree.ne_nil_of_find? hfree))
      (FileTree.file_insert_self hfollow hfree) fun _ => FileTree.find?_insert_of_ne

/-- The archive of a pending file is delivered as a whole or not at all. -/
theorem persist_ends {w : Writer PendingFile} (m : Mirrors (PendingFile.Holds destination) memory w)
    (h : memory.Unlimited) :
    match w.persist t with
    | .ok after => Ends t destination memory (.ok ()) after
    | .error error => Ends t destination memory (.error error) t := by
  obtain ⟨p, hfinish, hp⟩ := finish_of_fits (PendingFile.takes destination _) m h (Nat.le_refl _)
  rw [persist, hfinish]
  cases hmemory : memory.finish.1 with
  | error error => exact .refused hmemory
  | ok _ =>
    have hends := ends_of_attempt t destination hmemory
    simp only [PendingFile.persist, hp.file_eq, hp.destination]
    cases hplace : t.place destination ⟨memory.finish.2.bytes, PendingFile.now, FileTree.fileMode⟩ with
    | error fault =>
      rw [hplace] at hends
      exact hends
    | ok after =>
      rw [hplace] at hends
      exact hends

/-- Finishes an archive in a file aside, and moves the file to its destination. If that fails, the
output is given up. -/
def deliver (w : Writer AsideFile) : Except Error Unit × FileTree :=
  match w.finish with
  | (.error error, a) => (.error error, a.drop)
  | (.ok (), a) => (a.persist.1.mapError .io, a.persist.2)

/-- The archive of a file aside is delivered as a whole or not at all. -/
theorem deliver_ends {place : Path} {name : String} {w : Writer AsideFile}
    (m : Mirrors (AsideFile.Holds t place destination) memory w) (h : memory.Unlimited)
    (unused : t.find? place = none) (hname : name ∈ place)
    (unnamed : name ∉ FileTree.components destination) (hne : name ≠ "") :
    t.Keeps w.finish.2.tree ∧ Ends t destination memory w.deliver.1 w.deliver.2 := by
  obtain ⟨a, hfinish, ha⟩ :=
    finish_of_fits (AsideFile.takes t place destination _) m h (Nat.le_refl _)
  rw [deliver, hfinish]
  refine ⟨ha.keeps unused, ?_⟩
  cases hmemory : memory.finish.1 with
  | error error =>
    simp only [ha.drop_eq unused]
    exact .refused hmemory
  | ok _ =>
    have hpersist := ha.persist_eq unused hname unnamed hne
    rw [ha.pending.file_eq] at hpersist
    simp only [hpersist]
    exact ends_of_attempt t destination hmemory

end Ends

/-! ### On the disk and in memory -/

/-- A writer on a disk that has begun answers any requests as a writer in memory that is given the
same data, and both say the same of themselves. In the end its archive is delivered as a whole or
not at all, and holds the bytes that are finished in memory.

It makes no difference that the output can be seen in a file aside meanwhile, and that files are
looked up in the tree in which it stands. Whatever the name of the file aside is, all that was in
the tree is still there until the archive is delivered, and when the output is given up the tree is
what it was. -/
theorem created_refines_memory [Codec] [LocalTime] {t : FileTree} {destination : String}
    {w : Writer PendingFile} (created : create t destination = .ok w) (requests : List Request) :
    (let calls := requests.map (Request.callIn t)
      let memory := (start MemorySink.unbounded).giveAll (calls.map Call.addition)
      let disk := w.callAll calls
      Agree (PendingFile.Holds destination) memory disk ∧
        match disk.2.persist t with
        | .ok after => Ends t destination memory.2 (.ok ()) after
        | .error error => Ends t destination memory.2 (.error error) t) ∧
    ∀ n : AsideName t destination, ∃ a place, AsideFile.create t destination n.name = .ok a ∧
      let calls := callsFor AsideFile.tree (start a) requests
      let memory := (start MemorySink.unbounded).giveAll (calls.map Call.addition)
      let disk := (start a).callAll calls
      ((∀ q ∈ requests, q.Avoids n.name) →
          calls.map Call.addition = requests.map fun q => (q.callIn t).addition) ∧
        Agree (AsideFile.Holds t place destination) memory disk ∧
        t.Keeps disk.2.sink.tree ∧ t.Keeps disk.2.finish.2.tree ∧ disk.2.sink.drop = t ∧
        Ends t destination memory.2 disk.2.deliver.1 disk.2.deliver.2 := by
  obtain ⟨rfl, directory, hdirectory⟩ := create_eq_ok_iff.mp created
  constructor
  · intro calls memory disk
    obtain ⟨f, hrun, m, h⟩ := giveAll_of_takes (PendingFile.takes destination)
      (start_mirrors (PendingFile.create_holds destination)) start_unlimited
      (calls.map Call.addition)
    have hdisk : disk = (memory.1, f) := (callAll_eq_giveAll _ _).trans hrun
    rw [hdisk]
    exact ⟨m.agree, persist_ends m h⟩
  · intro n
    have unused := n.unused directory hdirectory
    have hname : n.name ∈ directory ++ [n.name] := List.mem_append_right _ List.mem_cons_self
    refine ⟨_, directory ++ [n.name], by rw [AsideFile.create, hdirectory], ?_⟩
    intro calls memory disk
    have hstart : Mirrors (AsideFile.Holds t (directory ++ [n.name]) destination)
        (start MemorySink.unbounded) (start ⟨⟨destination, [], .empty⟩, directory ++ [n.name],
          t.insert (directory ++ [n.name]) (AsideFile.node ⟨destination, [], .empty⟩)⟩) :=
      start_mirrors ⟨rfl, rfl, PendingFile.create_holds destination⟩
    obtain ⟨f, hrun, m, h⟩ := giveAll_of_takes (AsideFile.takes t (directory ++ [n.name]) destination)
      hstart start_unlimited (calls.map Call.addition)
    have hdisk : disk = (memory.1, f) := (callAll_eq_giveAll _ _).trans hrun
    obtain ⟨hkeeps, hends⟩ := deliver_ends m h unused hname n.unnamed n.ne_empty
    rw [hdisk]
    exact ⟨callsFor_addition hstart start_unlimited hname, m.agree, m.sink.keeps unused, hkeeps,
      m.sink.drop_eq unused, hends⟩

/-! ### A small disk -/

/-- A tree with one file. -/
def sampleDisk : FileTree := ⟨[(["first.txt"], .file ⟨sampleFirst.data, ⟨0, 0⟩, 0o644⟩)]⟩

/-- Requests for this file, and for one that is not there. -/
def sampleRequests : List Request :=
  [.file "copy.txt" "first.txt" (.ofMethod .stored), .file "more.txt" "more.txt" (.ofMethod .stored)]

/-- What the first of them comes to. -/
def sampleCopy : Addition where
  name := "copy.txt"
  data := sampleFirst.data
  options := { EntryOptions.ofMethod .stored with modified := some (.ofTimestamp ⟨0, 0⟩) }

/-- The writer that has been given this. -/
def sampleCopied : Writer MemorySink :=
  (start MemorySink.unbounded).extended
    (describe sampleCopy.name sampleCopy.data sampleCopy.data sampleCopy.options)

theorem giveAll_sampleRequests :
    (start MemorySink.unbounded).giveAll
      ((sampleRequests.map (Request.callIn sampleDisk)).map Call.addition) =
        ([.ok (), .error (.io .notFound)], sampleCopied) := by
  have hgiven : (sampleRequests.map (Request.callIn sampleDisk)).map Call.addition =
      [.ok sampleCopy, .error .notFound] := rfl
  have hadd := start_unlimited.add_eq_ok (a := sampleCopy)
    (e := describe sampleCopy.name sampleCopy.data sampleCopy.data sampleCopy.options)
    ⟨by decide +kernel, rfl, rfl, by decide, by decide⟩ ⟨rfl, by simp [start], by decide, by decide⟩
  rw [hgiven, giveAll, give, hadd]
  rfl

theorem finish_sampleCopied : sampleCopied.finish.1 = .ok () := by
  have hdirectory : (directoryBytes sampleCopied.directory).size = 54 := by decide +kernel
  have hfault : sampleCopied.closingFault? = none := by
    simp only [closingFault?, hdirectory]
    decide +kernel
  have h : sampleCopied.Unlimited := start_unlimited.extended _
  rcases h.finish_cases with ⟨error, herror, -⟩ | ⟨-, hfinish⟩
  · rw [hfault] at herror
    cases herror
  · rw [hfinish]

/-- One file is copied into the archive, the other one cannot be, and then the archive is in its
place. -/
theorem created_refines_memory_sample : ∃ w after bytes,
    create sampleDisk "out.zip" = .ok w ∧
    (w.callAll (sampleRequests.map (Request.callIn sampleDisk))).1 =
      [.ok (), .error (.io .notFound)] ∧
    (w.callAll (sampleRequests.map (Request.callIn sampleDisk))).2.persist sampleDisk =
      .ok after ∧
    after.file "out.zip" = .ok ⟨bytes, PendingFile.now, 0o644⟩ ∧
    after.find? ["first.txt"] = sampleDisk.find? ["first.txt"] := by
  have hcreate : create sampleDisk "out.zip" = .ok (start ⟨"out.zip", [], .empty⟩) := rfl
  obtain ⟨⟨agree, hpersist⟩, -⟩ := created_refines_memory hcreate sampleRequests
  have hplace : sampleDisk.destination "out.zip" = .ok ["out.zip"] := by
    have hslash : "out.zip".endsWith "/" = false := by decide +kernel
    simp only [FileTree.destination, hslash]
    rfl
  rw [giveAll_sampleRequests] at agree hpersist
  have hresults := agree.results
  split at hpersist
  · next after hafter =>
    cases hpersist with
    | placed finish somewhere holds reads others =>
      obtain rfl := Except.ok.inj (hplace.symm.trans somewhere)
      exact ⟨_, after, _, hcreate, hresults, hafter, reads, others _ (by decide)⟩
  · next error herror =>
    cases hpersist with
    | refused finish =>
      rw [finish_sampleCopied] at finish
      cases finish
    | unplaced finish nowhere =>
      rw [hplace] at nowhere
      cases nowhere

end Writer

end Folio
