import Folio.Proofs.Record.EndSearch
import Mathlib.Data.Nat.Find

/-!
# The window of the search for the end record

A place is a candidate by what its bytes look like: the fixed fields of an end record have room
there, its signature stands first, and a comment of the length that the record tells ends the bytes.
The search looks at a window at the end of the bytes only. A length is told in sixteen bits, so no
candidate lies before the window, and a record can be read from every candidate, so the search says
as much as a search of all bytes from the back would.

## Main definitions

* `EndRecord.Candidate` — an end record may start at the place

## Main results

* `EndRecord.candidate_iff` — the candidates are the places of the records that end the bytes
* `EndRecord.find_append` — the bytes before the window make no difference
* `EndRecord.find_is_whole_search` — the search finds the last candidate of all the bytes
-/

namespace Folio

namespace EndRecord

variable {r : EndRecord} {bytes : ByteArray} {place : Nat}

/-- An end record may start at the place. -/
structure Candidate (l : List UInt8) (place : Nat) : Prop where
  /-- The bytes reach as far as the fixed fields do. -/
  room : place + fixedSize ≤ l.length
  signed : (l.drop place).take 4 = le32 signature
  /-- The comment behind the fixed fields ends where the bytes do. -/
  closed : ∃ length : UInt16, (l.drop (place + 20)).take 2 = le16 length ∧
    place + fixedSize + length.toNat = l.length

/-- What stands in the places of the signature and of the comment length, for bytes that spell the
fields of a record. -/
theorem take_of_spells {l tail : List UInt8} {w : UInt32} {length : UInt16}
    (h : l.drop place = le32 w ++ (r.fieldBytes ++ (le16 length ++ tail))) :
    (l.drop place).take 4 = le32 w ∧ (l.drop (place + 20)).take 2 = le16 length := by
  constructor
  · rw [h]
    exact List.take_left' (length_le32 w)
  · have hskip : (le32 w ++ r.fieldBytes).length = 20 := by simp
    rw [← List.drop_drop, h, ← List.append_assoc, List.drop_left' hskip]
    exact List.take_left' (length_le16 length)

/-- The candidates are the places of the records that end the bytes. -/
theorem candidate_iff : Candidate bytes.data.toList place ↔ ∃ r, StandsAt r bytes place := by
  constructor
  · rintro ⟨hroom, hsigned, length, hlength, hclosed⟩
    -- Any bytes spell some fields, and the check makes a record of them.
    obtain ⟨w, r, length', hspells⟩ := exists_fields (l := bytes.data.toList.drop place) (by
      rw [List.length_drop]
      omega)
    obtain ⟨hw, hlength'⟩ := take_of_spells hspells
    obtain rfl : w = signature := le32_injective (hw.symm.trans hsigned)
    obtain rfl : length' = length := le16_injective (hlength'.symm.trans hlength)
    have hcomment : r.comment.length = length'.toNat := by
      have hlen := congrArg List.length hspells
      simp only [List.length_drop, List.length_append, length_le32, length_le16,
        length_fieldBytes] at hlen
      simp only [fixedSize] at hclosed
      omega
    refine ⟨r, hcomment.trans_le (toNat_le_maxLength _), ?_⟩
    rw [hspells, encode_eq, hcomment, UInt16.ofNat_toNat]
  · rintro ⟨r, h⟩
    obtain ⟨hsigned, hlength⟩ := take_of_spells (h.spells.trans r.encode_eq)
    have hsize : bytes.data.toList.length = bytes.size := by simp
    refine ⟨hsize ▸ h.lt_size, hsigned, _, hlength, ?_⟩
    rw [toNat_ofNat_length h.fits, hsize, ← h.size_eq, encodedSize, Nat.add_assoc]

/-- Whether a place is a candidate shows in the bytes from there on. -/
theorem candidate_append {front tail : List UInt8} :
    Candidate (front ++ tail) (front.length + place) ↔ Candidate tail place := by
  have hdrop (k : Nat) : (front ++ tail).drop (front.length + k) = tail.drop k := by
    simp [List.drop_append]
  have hcandidate (length : UInt16) :
      front.length + place + fixedSize + length.toNat = (front ++ tail).length ↔
        place + fixedSize + length.toNat = tail.length := by
    rw [List.length_append]
    omega
  constructor
  · rintro ⟨hroom, hsigned, length, hlength, hclosed⟩
    rw [hdrop] at hsigned
    rw [Nat.add_assoc, hdrop] at hlength
    have hclosed := (hcandidate length).mp hclosed
    exact ⟨by omega, hsigned, length, hlength, hclosed⟩
  · rintro ⟨hroom, hsigned, length, hlength, hclosed⟩
    have hclosed := (hcandidate length).mpr hclosed
    refine ⟨by omega, ?_, length, ?_, hclosed⟩
    · rwa [hdrop]
    · rwa [Nat.add_assoc, hdrop]

/-- No candidate lies before the window: sixteen bits tell no longer comment. -/
theorem Candidate.reach {l : List UInt8} (h : Candidate l place) :
    l.length ≤ place + (fixedSize + maxComment) := by
  obtain ⟨length, -, hclosed⟩ := h.closed
  have hbound : length.toNat ≤ maxComment := toNat_le_maxLength length
  omega

/-- The last record that ends the bytes stands at the last candidate. -/
theorem lastAt_iff : r.LastAt bytes place ↔
    Candidate bytes.data.toList place ∧
      (∀ later, Candidate bytes.data.toList later → later ≤ place) ∧
      r.encode = bytes.data.toList.drop place := by
  constructor
  · intro h
    refine ⟨candidate_iff.mpr ⟨r, h.toStandsAt⟩, fun later hlater => ?_, h.spells.symm⟩
    obtain ⟨r', hstands⟩ := candidate_iff.mp hlater
    exact Nat.le_of_not_lt fun hlt => h.last r' later hlt hstands
  · rintro ⟨hcandidate, hmax, hspells⟩
    -- The bytes tell the length of the comment, and so does the record that they spell.
    obtain ⟨r', hstands⟩ := candidate_iff.mp hcandidate
    have hlength : r.encodedSize = r'.encodedSize := by
      rw [← length_encode, ← length_encode, hspells, hstands.spells]
    have hfits : r.Fits := by
      have hfits' := hstands.fits
      simp only [Fits, encodedSize] at hfits' hlength ⊢
      omega
    exact ⟨⟨hfits, hspells.symm⟩, fun r'' later hlt hlater =>
      Nat.not_lt.mpr (hmax later (candidate_iff.mpr ⟨r'', hlater⟩)) hlt⟩

/-- Of several candidates one is the last. -/
theorem exists_last_candidate {l : List UInt8} (h : Candidate l place) :
    ∃ last, Candidate l last ∧ ∀ later, Candidate l later → later ≤ last := by
  classical
  have hbound (k : Nat) (hk : Candidate l k) : k ≤ l.length :=
    (Nat.le_add_right k fixedSize).trans hk.room
  exact ⟨Nat.findGreatest (Candidate l) l.length, Nat.findGreatest_spec (hbound place h) h,
    fun later hlater => Nat.le_findGreatest (hbound later hlater) hlater⟩

theorem exists_find_eq_ok (h : Candidate bytes.data.toList place) :
    ∃ r last, find bytes = .ok (r, last) := by
  obtain ⟨last, hlast, hmax⟩ := exists_last_candidate h
  obtain ⟨r, hstands⟩ := candidate_iff.mp hlast
  exact ⟨r, last, find_eq_ok_iff.mpr (lastAt_iff.mpr ⟨hlast, hmax, hstands.spells.symm⟩)⟩

/-- The search fails where there is no candidate, and nowhere else. -/
theorem find_eq_error_iff {error : Error} : find bytes = .error error ↔
    (∀ place, ¬ Candidate bytes.data.toList place) ∧ error = .invalidFormat
      (if bytes.size < fixedSize then .tooSmall bytes.size else .noEndRecord) := by
  constructor
  · intro h
    refine ⟨fun place hplace => ?_, error_of_find h⟩
    obtain ⟨r, last, hfind⟩ := exists_find_eq_ok hplace
    rw [hfind] at h
    cases h
  · rintro ⟨hnone, rfl⟩
    cases hfind : find bytes with
    | ok found =>
      obtain ⟨r, place⟩ := found
      exact absurd (lastAt_iff.mp (find_eq_ok_iff.mp hfind)).1 (hnone place)
    | error error => rw [error_of_find hfind]

/-- A candidate of bytes that end in a whole window lies in the window. -/
theorem Candidate.of_append {front tail : List UInt8} (h : Candidate (front ++ tail) place)
    (hwindow : fixedSize + maxComment ≤ tail.length) :
    ∃ k, place = front.length + k ∧ Candidate tail k := by
  have hreach := h.reach
  rw [List.length_append] at hreach
  obtain ⟨k, rfl⟩ := Nat.exists_eq_add_of_le (show front.length ≤ place by omega)
  exact ⟨k, rfl, candidate_append.mp h⟩

/-- The bytes before the window make no difference. -/
theorem find_append {front tail : List UInt8} (hwindow : fixedSize + maxComment ≤ tail.length) :
    find ⟨(front ++ tail).toArray⟩ =
      (find ⟨tail.toArray⟩).map fun found => (found.1, front.length + found.2) := by
  have hsize (l : List UInt8) : (ByteArray.mk l.toArray).size = l.length := List.size_toArray
  cases hfind : find ⟨tail.toArray⟩ with
  | ok found =>
    obtain ⟨r, place⟩ := found
    obtain ⟨hcandidate, hmax, hspells⟩ := lastAt_iff.mp (find_eq_ok_iff.mp hfind)
    have hmoved : Candidate (front ++ tail) (front.length + place) :=
      candidate_append.mpr hcandidate
    refine find_eq_ok_iff.mpr (lastAt_iff.mpr ⟨hmoved, ?_, ?_⟩)
    · intro later hlater
      obtain ⟨k, rfl, hk⟩ := hlater.of_append hwindow
      exact Nat.add_le_add_left (hmax k hk) _
    · rw [hspells]
      simp [List.drop_append]
  | error error =>
    obtain ⟨hnone, rfl⟩ := find_eq_error_iff.mp hfind
    refine find_eq_error_iff.mpr ⟨fun place hplace => ?_, ?_⟩
    · obtain ⟨k, -, hk⟩ := hplace.of_append hwindow
      exact hnone k hk
    · rw [hsize, hsize, if_neg (by omega), if_neg (by rw [List.length_append]; omega)]

/-- Behind any bytes a record is found at its place, unless a later candidate lies within it. -/
theorem find_append_encode {front : List UInt8} (hfits : r.Fits) :
    find ⟨(front ++ r.encode).toArray⟩ = .ok (r, front.length) ↔
      ∀ k, 0 < k → ¬ Candidate r.encode k := by
  have hdrop : r.encode = (front ++ r.encode).drop front.length := List.drop_left.symm
  rw [find_eq_ok_iff]
  constructor
  · intro h k hk hcandidate
    have := (lastAt_iff.mp h).2.1 (front.length + k) (candidate_append.mpr hcandidate)
    omega
  · intro h
    have hstands : r.StandsAt ⟨(front ++ r.encode).toArray⟩ front.length := ⟨hfits, hdrop.symm⟩
    refine lastAt_iff.mpr ⟨candidate_iff.mpr ⟨r, hstands⟩, fun later hlater => ?_, hdrop⟩
    by_contra hlt
    obtain ⟨k, rfl⟩ := Nat.exists_eq_add_of_lt (Nat.lt_of_not_le hlt)
    exact h (k + 1) (Nat.succ_pos k) (candidate_append.mp (Nat.add_assoc _ _ _ ▸ hlater))

/-- The search in the window finds what a search of all the bytes would: the last candidate, with
the record that the bytes spell there, and it fails where there is none. What stands before the
window makes no difference, and a record behind any bytes is found unless it holds a candidate. -/
theorem find_is_whole_search (bytes : ByteArray) :
    (∀ r place, find bytes = .ok (r, place) ↔
      Candidate bytes.data.toList place ∧
        (∀ later, Candidate bytes.data.toList later → later ≤ place) ∧
        r.encode = bytes.data.toList.drop place) ∧
    ((∃ place, Candidate bytes.data.toList place) → ∃ r place, find bytes = .ok (r, place)) ∧
    (∀ error, find bytes = .error error ↔
      (∀ place, ¬ Candidate bytes.data.toList place) ∧ error = .invalidFormat
        (if bytes.size < fixedSize then .tooSmall bytes.size else .noEndRecord)) ∧
    (∀ front tail : List UInt8, bytes.data.toList = front ++ tail →
      fixedSize + maxComment ≤ tail.length →
      find bytes = (find ⟨tail.toArray⟩).map fun found => (found.1, front.length + found.2)) ∧
    ∀ (front : List UInt8) (r : EndRecord), bytes.data.toList = front ++ r.encode →
      r.comment.length ≤ maxComment →
      (find bytes = .ok (r, front.length) ↔ ∀ k, 0 < k → ¬ Candidate r.encode k) := by
  refine ⟨fun r place => find_eq_ok_iff.trans lastAt_iff, ?_, fun error => find_eq_error_iff,
    ?_, ?_⟩
  · rintro ⟨place, hplace⟩
    exact exists_find_eq_ok hplace
  · intro front tail hbytes hwindow
    have heq : bytes = ⟨(front ++ tail).toArray⟩ := ByteArray.ext (by rw [← hbytes])
    rw [heq, find_append hwindow]
  · intro front r hbytes hfits
    have heq : bytes = ⟨(front ++ r.encode).toArray⟩ := ByteArray.ext (by rw [← hbytes])
    rw [heq, find_append_encode hfits]

/-- A record whose comment holds another record: the one within is found. -/
example :
    let inner := singleDisk 0 0 0
    let outer : EndRecord := { singleDisk 1 2 3 with comment := inner.encode }
    find ⟨outer.encode.toArray⟩ = .ok (inner, 22) := by
  decide +kernel

end EndRecord

end Folio
