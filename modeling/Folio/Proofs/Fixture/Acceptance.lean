import Folio.Proofs.Archive.Damage
import Folio.Proofs.Fixture.Recognition

/-!
# Which archives are fixtures

An archive of any origin is taken for the fixture of a configuration exactly if it has the entries
of the plan, in order, and each of them is read as the document. The check for the sizes of a stored
entry has no part in this: a stored entry whose sizes differ cannot be read.

## Main definitions

* `Meets` — an entry is a planned one and is read as the document

## Main results

* `Archive.stored_sizes_eq` — the sizes of a stored entry that is read
* `checkEntries_eq_ok_iff` — the entries that are taken for those of a plan
* `verify_eq_ok_iff` — the archives that are taken for fixtures
-/

namespace Folio

/-- A stored entry that is read has one size. Its payload is as long as the directory says, and is
the data. -/
theorem Archive.stored_sizes_eq [Codec] {bytes data : ByteArray} {a : Archive} {e : Entry}
    (accepted : ofBytes bytes = .ok a) (stored : e.method = .ok .stored)
    (read : a.readEntry e = .ok data) : e.compressedSize = e.uncompressedSize := by
  simp only [readEntry, unless_eq_ok_iff, bind_eq_ok_iff, checked_eq_ok_iff, stored] at read
  obtain ⟨-, _, ⟨⟩, payload, found, _, decompressed, -, rfl⟩ := read
  simp only [decompress, Method.expand, bind_eq_ok_iff, checked_eq_ok_iff] at decompressed
  obtain ⟨_, ⟨⟩, size_eq, rfl⟩ := decompressed
  obtain rfl := bytes_eq accepted
  obtain ⟨header, -, -, -, inside, rfl⟩ := payload_eq_ok_iff.mp found
  -- All of the payload is there, since it ends before the central directory.
  have hbound := directoryOffset_le accepted
  rw [← size_eq, ByteArray.size_extract]
  omega

namespace Fixture

/-- The last check compares the data with the document. -/
theorem contents_eq_ok_iff {data document : ByteArray} {error : FixtureError} :
    (if data != document then throw error else pure () : Except FixtureError Unit) = .ok () ↔
      data = document := by
  by_cases h : (data != document) = true
  · rw [if_pos h]
    refine ⟨fun hthrow => ?_, fun hdata => absurd hdata (bne_bytes_iff.mp h)⟩
    cases hthrow
  · rw [if_neg h]
    exact ⟨fun _ => not_not.mp (mt bne_bytes_iff.mpr h), fun _ => rfl⟩

variable [Codec] {a : Archive} {document : ByteArray}

/-- An entry is a planned one and is read as the document. -/
structure Meets (a : Archive) (document : ByteArray) (e : Entry) (planned : PlannedEntry) :
    Prop where
  name : e.name = planned.name
  method : e.method = .ok planned.options.method
  read : a.readEntry e = .ok document

/-- An entry is taken for a planned one exactly if it meets the plan. -/
theorem checkEntry_eq_ok_iff {bytes : ByteArray} (accepted : Archive.ofBytes bytes = .ok a)
    (index : Nat) {e : Entry} {planned : PlannedEntry} :
    checkEntry a document index e planned = .ok () ↔ Meets a document e planned := by
  rw [checkEntry, unless_eq_ok_iff, not_not]
  constructor
  · rintro ⟨hname, h⟩
    cases hmethod : e.method with
    | error error =>
      rw [hmethod] at h
      cases h
    | ok method =>
      simp only [hmethod, unless_eq_ok_iff, not_not] at h
      obtain ⟨rfl, -, h⟩ := h
      cases hread : a.readEntry e with
      | error error =>
        rw [hread] at h
        cases h
      | ok data =>
        simp only [hread, contents_eq_ok_iff] at h
        exact ⟨hname, hmethod, hread.trans (congrArg _ h)⟩
  · intro m
    refine ⟨m.name, ?_⟩
    simp only [m.method, m.read, unless_eq_ok_iff, not_not, contents_eq_ok_iff, and_true, true_and]
    -- The sizes of a stored entry are the same, since it is read.
    rintro ⟨stored, hne⟩
    exact hne (Archive.stored_sizes_eq accepted (stored ▸ m.method) m.read)

/-- Entries are taken for those of a plan exactly if all of them meet it. -/
theorem checkEntries_eq_ok_iff {bytes : ByteArray} (accepted : Archive.ofBytes bytes = .ok a)
    (index : Nat) {entries : List Entry} {plan : List PlannedEntry}
    (length : entries.length = plan.length) :
    checkEntries a document index entries plan = .ok () ↔
      List.Forall₂ (Meets a document) entries plan := by
  -- The index serves for messages only, so the induction is over entries and plan together.
  induction entries generalizing index plan with
  | nil =>
    obtain rfl := List.eq_nil_of_length_eq_zero length.symm
    exact ⟨fun _ => .nil, fun _ => rfl⟩
  | cons e entries ih =>
    cases plan with
    | nil => cases length
    | cons planned plan =>
      rw [checkEntries, bind_eq_ok_iff, List.forall₂_cons, ← checkEntry_eq_ok_iff accepted index,
        ← ih (index + 1) (Nat.succ.inj length)]
      exact ⟨fun ⟨(), h⟩ => h, fun h => ⟨(), h⟩⟩

/-- The same by the indices of the entries. -/
theorem meets_iff {plan : List PlannedEntry} (length : a.size = plan.length) :
    List.Forall₂ (Meets a document) a.entries.toList plan ↔
      ∀ (i : Nat) (e : Entry) (planned : PlannedEntry), a.entries[i]? = some e →
        plan[i]? = some planned → e.name = planned.name ∧
          e.method = .ok planned.options.method ∧ a.readAt i = .ok document := by
  rw [List.forall₂_iff_get]
  constructor
  · rintro ⟨-, meets⟩ i e planned entry step
    have hread := Archive.readAt_of_entry entry
    obtain ⟨hi, rfl⟩ := Array.getElem?_eq_some_iff.mp entry
    obtain ⟨hi', rfl⟩ := List.getElem?_eq_some_iff.mp step
    have m := meets i hi hi'
    exact ⟨m.name, m.method, hread.trans m.read⟩
  · intro h
    refine ⟨length, fun i hi hi' => ?_⟩
    have entry : a.entries[i]? = some a.entries[i] := Array.getElem?_eq_getElem hi
    obtain ⟨hname, hmethod, hread⟩ := h i _ _ entry (List.getElem?_eq_getElem hi')
    exact ⟨hname, hmethod, (Archive.readAt_of_entry entry).symm.trans hread⟩

/-- Whatever is verified is checked entry by entry, if everything can be read and the number of
entries is right. -/
theorem verify_eq_ok_iff_checked {t : FileTree} {c : Config} :
    verify t c = .ok () ↔ ∃ source bytes a, c.source.load t = .ok source ∧
      t.read c.output = .ok bytes ∧ Archive.ofBytes bytes = .ok a ∧ a.size = (plan c).length ∧
      checkEntries a source.contents 0 a.entries.toList (plan c) = .ok () := by
  constructor
  · intro h
    cases load : c.source.load t with
    | error fault =>
      rw [verify, load] at h
      cases h
    | ok source =>
      cases read : t.read c.output with
      | error fault =>
        simp only [verify, load, read] at h
        cases h
      | ok bytes =>
        cases accepted : Archive.ofBytes bytes with
        | error error =>
          simp only [verify, load, read, accepted] at h
          cases h
        | ok a =>
          simp only [verify, load, read, accepted] at h
          split_ifs at h with count
          exact ⟨source, bytes, a, rfl, rfl, accepted, not_not.mp count, h⟩
  · rintro ⟨source, bytes, a, load, read, accepted, count, h⟩
    rw [verify, load]
    simp only [read, accepted]
    rw [if_neg (not_not.mpr count)]
    exact h

/-- An archive of any origin is taken for the fixture of a configuration exactly if its document can
be read, readers accept the archive, and it has as many entries as the plan, each with the name and
the method of the planned one at its place, and is read as the document there. That the payload of a
stored entry has the size of the data holds of every entry that is read, and refuses none. -/
theorem verify_eq_ok_iff (t : FileTree) (c : Config) :
    (verify t c = .ok () ↔ ∃ source bytes a, c.source.load t = .ok source ∧
      t.read c.output = .ok bytes ∧ Archive.ofBytes bytes = .ok a ∧ a.size = (plan c).length ∧
      ∀ (i : Nat) (e : Entry) (planned : PlannedEntry), a.entries[i]? = some e →
        (plan c)[i]? = some planned → e.name = planned.name ∧
          e.method = .ok planned.options.method ∧ a.readAt i = .ok source.contents) ∧
    ∀ (bytes data : ByteArray) (a : Archive) (i : Nat) (e : Entry),
      Archive.ofBytes bytes = .ok a → a.entries[i]? = some e → e.method = .ok .stored →
        a.readAt i = .ok data → e.compressedSize = e.uncompressedSize := by
  refine ⟨?_, fun bytes data a i e accepted entry stored read => ?_⟩
  · rw [verify_eq_ok_iff_checked]
    constructor
    · rintro ⟨source, bytes, a, load, read, accepted, count, h⟩
      have meets := (checkEntries_eq_ok_iff accepted 0 count).mp h
      exact ⟨source, bytes, a, load, read, accepted, count, (meets_iff count).mp meets⟩
    · rintro ⟨source, bytes, a, load, read, accepted, count, h⟩
      have meets := (meets_iff count).mpr h
      exact ⟨source, bytes, a, load, read, accepted, count,
        (checkEntries_eq_ok_iff accepted 0 count).mpr meets⟩
  · rw [Archive.readAt_of_entry entry] at read
    exact Archive.stored_sizes_eq accepted stored read

end Fixture

end Folio
