import Mathlib.Data.Fintype.EquivFin
import Folio.FileTree.PendingFile
import Folio.Proofs.FileTree.Place
import Folio.Proofs.Writer.Filling

/-!
# The file aside

A pending file keeps to itself what has been written aside. Here the same output stands in the tree
from the first byte on, in a file of its own in the directory of the destination, where it can be
seen. It is moved to the destination when it is complete, and taken away when it is given up.

## Main definitions

* `FileTree.attempt` — an attempt to change a tree
* `AsideName` — a name that is free for the file aside
* `AsideFile` — output on its way to a destination, with the file aside in the tree
* `AsideFile.drop`, `AsideFile.persist` — gives the output up, or moves it to its destination

## Main results

* `PendingFile.takes`, `AsideFile.takes` — both kinds of output take all that is written
* `AsideFile.Holds.drop_eq` — output that is given up leaves nothing behind
* `AsideFile.Holds.persist_eq` — output that is moved leaves nothing behind either
-/

namespace Folio

/-- An attempt to change a tree, and the tree after it. -/
def FileTree.attempt (t : FileTree) : Except IoError FileTree → Except IoError Unit × FileTree
  | .ok after => (.ok (), after)
  | .error fault => (.error fault, t)

/-! ### Pending files -/

namespace PendingFile

variable {destination : String} {p : PendingFile} {taken : List UInt8}

/-- Output for a destination that makes up the given bytes. -/
structure Holds (destination : String) (p : PendingFile) (taken : List UInt8) : Prop where
  destination : p.destination = destination
  bytes : p.written.data.toList ++ p.buffer.data.toList = taken

theorem create_holds (destination : String) : Holds destination ⟨destination, [], .empty⟩ [] :=
  ⟨rfl, rfl⟩

/-- A piece goes behind those that have been written before. -/
theorem written_cons (destination : String) (piece buffer : ByteArray) (pieces : List ByteArray) :
    written ⟨destination, piece :: pieces, buffer⟩ =
      written ⟨destination, pieces, buffer⟩ ++ piece := rfl

theorem Holds.flushBuffer (h : Holds destination p taken) :
    Holds destination p.flushBuffer taken := by
  refine ⟨h.destination, ?_⟩
  rw [← h.bytes, PendingFile.flushBuffer, written_cons, ByteArray.toList_data_append]
  exact List.append_nil _

/-- The bytes stay in their order, whether they go through the buffer or past it. -/
theorem Holds.write (h : Holds destination p taken) (bytes : ByteArray) :
    Holds destination (p.write bytes) (taken ++ bytes.data.toList) := by
  rw [PendingFile.write]
  generalize hq : (if bufferSize < p.buffer.size + bytes.size then p.flushBuffer else p) = q
  have hholds : Holds destination q taken := by
    subst hq
    split
    · exact h.flushBuffer
    · exact h
  by_cases hlarge : bufferSize ≤ bytes.size
  · -- What goes past the buffer finds it empty.
    have hempty : q.buffer.data.toList = [] := by
      subst hq
      split
      · rfl
      · next hfits =>
        have hsize : p.buffer.size = 0 := by omega
        exact List.eq_nil_of_length_eq_zero hsize
    simp only [if_pos hlarge]
    refine ⟨hholds.destination, ?_⟩
    rw [← hholds.bytes, written_cons, ByteArray.toList_data_append, hempty, List.append_nil,
      List.append_nil]
  · simp only [if_neg hlarge]
    refine ⟨hholds.destination, ?_⟩
    rw [← hholds.bytes, ByteArray.toList_data_append, List.append_assoc]
    rfl

theorem takes (destination : String) (limit : Nat) : Sink.Takes (Holds destination) limit where
  write_of_fits bytes h _ := ⟨_, rfl, h.write bytes⟩
  flush h := ⟨_, rfl, h.flushBuffer⟩

/-- The file that the output makes holds the bytes. -/
theorem Holds.file_eq {bytes : ByteArray} (h : Holds destination p bytes.data.toList) :
    p.file = ⟨bytes, now, FileTree.fileMode⟩ := by
  have hcontents : p.flushBuffer.written = bytes := by
    apply ByteArray.ext
    apply Array.toList_inj.mp
    rw [PendingFile.flushBuffer, written_cons, ByteArray.toList_data_append]
    exact h.bytes
  rw [PendingFile.file, hcontents]

end PendingFile

/-! ### The file in the tree -/

/-- A name for the file aside. There is no file of this name in the directory of the destination,
and the destination does not lead through one. -/
structure AsideName (t : FileTree) (destination : String) where
  name : String
  ne_empty : name ≠ ""
  unnamed : name ∉ FileTree.components destination
  unused : ∀ directory, PendingFile.directory t destination = .ok directory →
    t.find? (directory ++ [name]) = none

/-- Trees and destinations hold finitely many names, so there is always a free one. -/
theorem AsideName.nonempty (t : FileTree) (destination : String) :
    Nonempty (AsideName t destination) := by
  obtain ⟨name, hname⟩ := Infinite.exists_notMem_finset
    ("" :: (FileTree.components destination ++ t.nodes.flatMap (·.1))).toFinset
  simp only [List.mem_toFinset, List.mem_cons, List.mem_append, not_or] at hname
  obtain ⟨hne, hcomponents, hnodes⟩ := hname
  refine ⟨⟨name, hne, hcomponents, ?_⟩⟩
  intro directory _
  rw [FileTree.find?, if_neg (by simp), List.lookup_eq_none_iff]
  intro entry hentry
  rw [bne_iff_ne]
  intro hpath
  apply hnodes
  rw [List.mem_flatMap]
  exact ⟨entry, hentry, hpath ▸ List.mem_append_right _ List.mem_cons_self⟩

/-- Output on its way to a destination, with the file aside in the tree. -/
structure AsideFile where
  pending : PendingFile
  /-- Where the file aside stands. -/
  place : Path
  tree : FileTree

namespace AsideFile

/-- The permission bits of a file that is nobody else's business. -/
def ownerMode : Nat := 0o600

/-- The node that shows what has been written so far. -/
def node (p : PendingFile) : Node := .file ⟨p.written, PendingFile.now, ownerMode⟩

/-- Begins output for a destination, in a new file of the given name. -/
def create (t : FileTree) (destination name : String) : Except IoError AsideFile :=
  match PendingFile.directory t destination with
  | .ok directory =>
    let pending : PendingFile := ⟨destination, [], .empty⟩
    .ok ⟨pending, directory ++ [name], t.insert (directory ++ [name]) (node pending)⟩
  | .error fault => .error fault

/-- The file aside keeps step with what has been written. -/
def update (a : AsideFile) (p : PendingFile) : AsideFile :=
  { a with pending := p, tree := a.tree.insert a.place (node p) }

instance : Sink AsideFile where
  write a bytes := (.ok (), a.update (a.pending.write bytes))
  flush a := (.ok (), a.update a.pending.flushBuffer)

/-- Gives the output up, and takes the file aside away. -/
def drop (a : AsideFile) : FileTree := a.tree.erase a.place

/-- Moves the file aside to the destination, with the permission bits that it has there. If that
fails, the output is given up. -/
def persist (a : AsideFile) : Except IoError Unit × FileTree :=
  let file := a.pending.file
  let tree := a.tree.insert a.place (.file file)
  match tree.place a.pending.destination file with
  | .ok after => (.ok (), after.erase a.place)
  | .error fault => (.error fault, tree.erase a.place)

/-- Output that makes up the given bytes, in a tree that shows as many of them as have been written
out. -/
structure Holds (t : FileTree) (place : Path) (destination : String) (a : AsideFile)
    (taken : List UInt8) : Prop where
  tree : a.tree = t.insert place (node a.pending)
  place : a.place = place
  pending : PendingFile.Holds destination a.pending taken

variable {t : FileTree} {place : Path} {destination : String} {a : AsideFile} {taken : List UInt8}

theorem Holds.update {p : PendingFile} {taken' : List UInt8} (h : Holds t place destination a taken)
    (hp : PendingFile.Holds destination p taken') :
    Holds t place destination (a.update p) taken' := by
  refine ⟨?_, h.place, hp⟩
  rw [AsideFile.update, h.place, h.tree]
  exact FileTree.insert_insert ..

theorem takes (t : FileTree) (place : Path) (destination : String) (limit : Nat) :
    Sink.Takes (Holds t place destination) limit where
  write_of_fits bytes h _ := ⟨_, rfl, h.update (h.pending.write bytes)⟩
  flush h := ⟨_, rfl, h.update h.pending.flushBuffer⟩

/-- Output that is given up leaves nothing behind. -/
theorem Holds.drop_eq (h : Holds t place destination a taken) (unused : t.find? place = none) :
    a.drop = t := by
  rw [AsideFile.drop, h.place, h.tree, FileTree.erase_insert]
  exact FileTree.erase_of_find?_eq_none unused

/-- The move changes the tree as if there had been no file aside. -/
theorem Holds.persist_eq {name : String} (h : Holds t place destination a taken)
    (unused : t.find? place = none) (hname : name ∈ place)
    (unnamed : name ∉ FileTree.components destination) (hne : name ≠ "") :
    a.persist = t.attempt (t.place destination a.pending.file) := by
  have herase : (t.insert place (.file a.pending.file)).erase place = t := by
    rw [FileTree.erase_insert, FileTree.erase_of_find?_eq_none unused]
  simp only [AsideFile.persist, h.place, h.tree, h.pending.destination, FileTree.insert_insert,
    FileTree.place, FileTree.destination_insert hname unnamed hne]
  cases hpath : t.destination destination with
  | error fault => exact congrArg (Prod.mk _) herase
  | ok path =>
    -- The destination is another place, since the way there does not lead through the file aside.
    have hplace : place ≠ path := by
      rintro rfl
      exact FileTree.not_mem_of_destination unnamed hpath hname
    have hmove : ((t.insert place (.file a.pending.file)).insert path
        (.file a.pending.file)).erase place = t.insert path (.file a.pending.file) := by
      rw [FileTree.erase_insert_of_ne hplace, herase]
    exact congrArg (Prod.mk _) hmove

end AsideFile

end Folio
