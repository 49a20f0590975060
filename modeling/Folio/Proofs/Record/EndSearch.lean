import Folio.Proofs.Record.Exact

/-!
# The search for the end record

An archive may hold bytes that look like an end record, in its payloads as well as in its comment. A
reader takes the last place from which a record reaches exactly to the end of the bytes, and a
comment cannot be so long that this place lies out of its reach.

## Main definitions

* `EndRecord.StandsAt` — a record stands at a place and ends the bytes
* `EndRecord.LastAt` — it is the last record that does

## Main results

* `EndRecord.isCandidate_iff` — the candidates are the places of the records that end the bytes
* `EndRecord.find_eq_ok_iff` — the search finds the last record that ends the bytes
-/

namespace Folio

/-! ### Words at the front of bytes -/

theorem exists_le16 {l : List UInt8} (h : 2 ≤ l.length) : ∃ w t, l = le16 w ++ t := by
  match l, h with
  | b₀ :: b₁ :: t, _ => exact ⟨ofLe16 b₀ b₁, t, by rw [le16_ofLe16]; rfl⟩

theorem exists_le32 {l : List UInt8} (h : 4 ≤ l.length) : ∃ w t, l = le32 w ++ t := by
  match l, h with
  | b₀ :: b₁ :: b₂ :: b₃ :: t, _ => exact ⟨ofLe32 b₀ b₁ b₂ b₃, t, by rw [le32_ofLe32]; rfl⟩

namespace EndRecord

variable {r : EndRecord} {bytes : ByteArray} {place : Nat}

/-- The bytes of the fields between the signature and the length of the comment. -/
def fieldBytes (r : EndRecord) : List UInt8 :=
  le16 r.diskNumber ++ le16 r.directoryDisk ++ le16 r.diskEntries ++ le16 r.totalEntries
    ++ le32 r.directorySize ++ le32 r.directoryOffset

@[simp] theorem length_fieldBytes (r : EndRecord) : r.fieldBytes.length = 16 := rfl

theorem encode_eq (r : EndRecord) : r.encode = le32 signature
    ++ (r.fieldBytes ++ (le16 (UInt16.ofNat r.comment.length) ++ r.comment)) := by
  simp [encode, fieldBytes]

/-- Whatever the bytes are, enough of them spell the fields of a record, a word in the place of the
signature and a length in the place of the comment's. -/
theorem exists_fields {l : List UInt8} (h : fixedSize ≤ l.length) :
    ∃ (w : UInt32) (r : EndRecord) (length : UInt16),
      l = le32 w ++ (r.fieldBytes ++ (le16 length ++ r.comment)) := by
  simp only [fixedSize] at h
  obtain ⟨w, l, rfl⟩ := exists_le32 (l := l) (by omega)
  simp only [List.length_append, length_le32] at h
  obtain ⟨diskNumber, l, rfl⟩ := exists_le16 (l := l) (by omega)
  simp only [List.length_append, length_le16] at h
  obtain ⟨directoryDisk, l, rfl⟩ := exists_le16 (l := l) (by omega)
  simp only [List.length_append, length_le16] at h
  obtain ⟨diskEntries, l, rfl⟩ := exists_le16 (l := l) (by omega)
  simp only [List.length_append, length_le16] at h
  obtain ⟨totalEntries, l, rfl⟩ := exists_le16 (l := l) (by omega)
  simp only [List.length_append, length_le16] at h
  obtain ⟨directorySize, l, rfl⟩ := exists_le32 (l := l) (by omega)
  simp only [List.length_append, length_le32] at h
  obtain ⟨directoryOffset, l, rfl⟩ := exists_le32 (l := l) (by omega)
  simp only [List.length_append, length_le32] at h
  obtain ⟨length, comment, rfl⟩ := exists_le16 (l := l) (by omega)
  exact ⟨w, ⟨diskNumber, directoryDisk, diskEntries, totalEntries, directorySize, directoryOffset,
    comment⟩, length, by simp [fieldBytes]⟩

/-- The record stands at a place, and its comment ends the bytes. -/
structure StandsAt (r : EndRecord) (bytes : ByteArray) (place : Nat) : Prop where
  fits : r.Fits
  /-- The bytes from the place on are those of the record. -/
  spells : bytes.data.toList.drop place = r.encode

theorem StandsAt.size_eq (h : r.StandsAt bytes place) : place + r.encodedSize = bytes.size := by
  have hlen := congrArg List.length h.spells
  rw [length_encode, List.length_drop, Array.length_toList, ByteArray.size_data] at hlen
  simp only [encodedSize, fixedSize] at hlen ⊢
  omega

theorem StandsAt.lt_size (h : r.StandsAt bytes place) : place + fixedSize ≤ bytes.size := by
  rw [← h.size_eq, encodedSize]
  omega

/-- The byte `k` places into the rest of the bytes. -/
theorem getElem_add {k : Nat} (h : place + k < bytes.size) :
    (bytes.data.toList.drop place)[k]? = some bytes[place + k] := by
  rw [List.getElem?_drop, List.getElem?_eq_getElem (by simpa using h)]
  simp [ByteArray.getElem_eq_getElem_data]

/-- Whether a place is a candidate shows in the first four bytes from there on, in the bytes of the
comment length and in the number of bytes. -/
theorem isCandidate_iff_of_spells {w : UInt32} {middle tail : List UInt8} {length : UInt16}
    (h : bytes.data.toList.drop place = le32 w ++ (middle ++ (le16 length ++ tail)))
    (hmiddle : middle.length = 16) (hplace : place + fixedSize ≤ bytes.size) :
    isCandidate bytes place = true ↔ w = signature ∧ tail.length = length.toNat := by
  have hroom : place + 22 ≤ bytes.size := hplace
  -- The comment is all that stands behind the fields.
  have hsize : bytes.size - place = 22 + tail.length := by
    have := congrArg List.length h
    simp only [List.length_drop, Array.length_toList, ByteArray.size_data, List.length_append,
      length_le32, length_le16, hmiddle] at this
    omega
  have hword : [bytes[place], bytes[place + 1], bytes[place + 2], bytes[place + 3]] = le32 w := by
    have hget (k : Nat) (hk : k < 4) :
        some (getElem bytes (place + k) (by omega)) = (le32 w)[k]? := by
      rw [← getElem_add, h, List.getElem?_append_left (by simpa using hk)]
    apply List.ext_getElem?
    rintro (_ | _ | _ | _ | k)
    · exact hget 0 (by decide)
    · exact hget 1 (by decide)
    · exact hget 2 (by decide)
    · exact hget 3 (by decide)
    · rfl
  have hlength : ofLe16 bytes[place + 20] bytes[place + 21] = length := by
    have hget (k : Nat) (hk : k < 2) :
        some (getElem bytes (place + (20 + k)) (by omega)) = (le16 length)[k]? := by
      have hskip : 20 + k - (le32 w).length - middle.length = k := by
        rw [length_le32, hmiddle]
        omega
      rw [← getElem_add, h, List.getElem?_append_right (by simp; omega),
        List.getElem?_append_right (by simp [hmiddle]; omega), hskip,
        List.getElem?_append_left (by simpa using hk)]
    have h₀ := Option.some.inj (hget 0 (by decide))
    have h₁ := Option.some.inj (hget 1 (by decide))
    simp only [Nat.add_zero, Nat.reduceAdd] at h₀ h₁
    rw [h₀, h₁, ofLe16_bytes]
  have hsignature : le32 w = le32 signature ↔ w = signature :=
    ⟨le32_injective, fun heq => heq ▸ rfl⟩
  -- The check compares single bytes, which have been put together to the words of a record.
  rw [isCandidate, dif_pos hplace]
  change ([bytes[place], bytes[place + 1], bytes[place + 2], bytes[place + 3]] == le32 signature
    && place + 22 + (ofLe16 bytes[place + 20] bytes[place + 21]).toNat == bytes.size) = true ↔ _
  rw [hword, hlength]
  simp only [Bool.and_eq_true, beq_iff_eq, hsignature]
  exact and_congr_right fun _ => by omega

/-- The candidates are the places of the records that end the bytes. -/
theorem isCandidate_iff : isCandidate bytes place = true ↔ ∃ r, StandsAt r bytes place := by
  constructor
  · intro h
    have hplace : place + fixedSize ≤ bytes.size := by
      by_contra hshort
      simp [isCandidate, hshort] at h
    -- Any bytes spell some fields, and the check makes a record of them.
    obtain ⟨w, r, length, hspells⟩ := exists_fields (l := bytes.data.toList.drop place) (by
      simp
      omega)
    obtain ⟨rfl, hlength⟩ := (isCandidate_iff_of_spells hspells r.length_fieldBytes hplace).mp h
    refine ⟨r, ?_, ?_⟩
    · exact hlength.trans_le (toNat_le_maxLength _)
    · rw [hspells, encode_eq, hlength, UInt16.ofNat_toNat]
  · rintro ⟨r, h⟩
    refine (isCandidate_iff_of_spells (h.spells.trans r.encode_eq) r.length_fieldBytes
      h.lt_size).mpr ⟨rfl, ?_⟩
    rw [toNat_ofNat_length h.fits]

/-! ### The last candidate -/

theorem lastCandidate?_eq_some_iff {first count : Nat} :
    lastCandidate? bytes first count = some place ↔
      (first ≤ place ∧ place < first + count) ∧ isCandidate bytes place = true ∧
        ∀ later, place < later → later < first + count → ¬ isCandidate bytes later = true := by
  induction count with
  | zero =>
    constructor
    · intro h
      simp [lastCandidate?] at h
    · rintro ⟨⟨hle, hlt⟩, -⟩
      omega
  | succ count ih =>
    rw [lastCandidate?]
    split
    -- The search goes from the end to the front, so its first hit is the last candidate.
    · next hlast =>
      constructor
      · intro h
        obtain rfl := Option.some.inj h
        exact ⟨⟨by omega, by omega⟩, hlast, fun later _ _ => by omega⟩
      · rintro ⟨⟨hle, hlt⟩, -, hmax⟩
        by_contra hne
        exact hmax (first + count) (by
          have : first + count ≠ place := fun heq => hne (heq ▸ rfl)
          omega) (by omega) hlast
    · next hlast =>
      rw [ih]
      constructor
      · rintro ⟨⟨hle, hlt⟩, hplace, hmax⟩
        refine ⟨⟨hle, by omega⟩, hplace, fun later hlater hbound => ?_⟩
        by_cases heq : later = first + count
        · exact heq ▸ hlast
        · exact hmax later hlater (by omega)
      · rintro ⟨⟨hle, hlt⟩, hplace, hmax⟩
        have hne : place ≠ first + count := fun heq => hlast (heq ▸ hplace)
        exact ⟨⟨hle, by omega⟩, hplace, fun later hlater hbound =>
          hmax later hlater (by omega)⟩

theorem lastCandidate?_eq_none_iff {first count : Nat} :
    lastCandidate? bytes first count = none ↔
      ∀ place, first ≤ place → place < first + count → ¬ isCandidate bytes place = true := by
  constructor
  · intro h place hle hlt hplace
    induction count with
    | zero => omega
    | succ count ih =>
      rw [lastCandidate?] at h
      split at h
      · simp at h
      · next hlast =>
        by_cases heq : place = first + count
        · exact hlast (heq ▸ hplace)
        · exact ih h (by omega)
  · intro h
    cases hlast : lastCandidate? bytes first count with
    | none => rfl
    | some place =>
      obtain ⟨⟨hle, hlt⟩, hplace, -⟩ := lastCandidate?_eq_some_iff.mp hlast
      exact absurd hplace (h place hle hlt)

/-- It is the last record that ends the bytes. -/
structure LastAt (r : EndRecord) (bytes : ByteArray) (place : Nat) : Prop extends
    r.StandsAt bytes place where
  /-- No record that ends the bytes stands behind it. -/
  last : ∀ (r' : EndRecord) (later : Nat), place < later → ¬ r'.StandsAt bytes later

theorem StandsAt.run_decode (h : r.StandsAt bytes place) :
    decode.run ⟨bytes, place⟩ = .ok (r, ⟨bytes, bytes.size⟩) := by
  rw [run_decode_eq_ok_iff]
  refine ⟨h.fits, ?_, ?_⟩
  · rw [Cursor.rest, h.spells]
  · rw [Cursor.advance, h.size_eq]

/-- At most one record stands at a place and ends the bytes. -/
theorem StandsAt.unique {r' : EndRecord} (h : r.StandsAt bytes place)
    (h' : r'.StandsAt bytes place) : r = r' := by
  have heq := h.run_decode.symm.trans h'.run_decode
  simpa using heq

/-- A comment is not so long that its record lies out of the reach of the search. -/
theorem StandsAt.mem_window (h : r.StandsAt bytes place) :
    bytes.size - (fixedSize + maxComment) ≤ place
      ∧ place < bytes.size - (fixedSize + maxComment)
        + (bytes.size - fixedSize + 1 - (bytes.size - (fixedSize + maxComment))) := by
  have hsize := h.size_eq
  have hfits := h.fits
  simp only [encodedSize, fixedSize, Fits, maxLength, maxComment] at *
  omega

/-- The search finds the last record that ends the bytes. -/
theorem find_eq_ok_iff : find bytes = .ok (r, place) ↔ r.LastAt bytes place := by
  rw [find]
  by_cases hsmall : bytes.size < fixedSize
  · rw [if_pos hsmall]
    constructor
    · intro h
      simp at h
    · intro h
      have := h.lt_size
      omega
  · rw [if_neg hsmall]
    dsimp only
    split
    · next hnone =>
      constructor
      · intro h
        simp at h
      · intro h
        have hwindow := h.mem_window
        exact absurd (isCandidate_iff.mpr ⟨r, h.toStandsAt⟩)
          (lastCandidate?_eq_none_iff.mp hnone place hwindow.1 hwindow.2)
    · next found hfound =>
      obtain ⟨hwindow, hcandidate, hmax⟩ := lastCandidate?_eq_some_iff.mp hfound
      obtain ⟨r', hstands⟩ := isCandidate_iff.mp hcandidate
      -- A later record would be another candidate, since no record lies out of reach.
      have hlast : r'.LastAt bytes found := ⟨hstands, fun r'' later hlater hstands' =>
        hmax later hlater hstands'.mem_window.2 (isCandidate_iff.mpr ⟨r'', hstands'⟩)⟩
      rw [hstands.run_decode]
      simp only [Except.ok.injEq, Prod.mk.injEq]
      constructor
      · rintro ⟨rfl, rfl⟩
        exact hlast
      · intro h
        -- Of two last records neither stands behind the other one.
        have hplace : found = place := by
          rcases Nat.lt_trichotomy found place with hlt | heq | hgt
          · exact absurd h.toStandsAt (hlast.last r place hlt)
          · exact heq
          · exact absurd hstands (h.last r' found hgt)
        subst hplace
        exact ⟨hstands.unique h.toStandsAt, rfl⟩

/-- The search fails for a lack of records only: where it finds one, it can be read. -/
theorem error_of_find {error : Error} (h : find bytes = .error error) :
    error = .invalidFormat
      (if bytes.size < fixedSize then .tooSmall bytes.size else .noEndRecord) := by
  rw [find] at h
  split at h
  · next hsmall => rw [if_pos hsmall, Except.error.inj h]
  · next hsmall =>
    rw [if_neg hsmall]
    dsimp only at h
    split at h
    · exact (Except.error.inj h).symm
    · next found hfound =>
      obtain ⟨-, hcandidate, -⟩ := lastCandidate?_eq_some_iff.mp hfound
      obtain ⟨r, hstands⟩ := isCandidate_iff.mp hcandidate
      rw [hstands.run_decode] at h
      cases h

theorem find_error {error : Error} (h : find bytes = .error error) :
    error = .invalidFormat (.tooSmall bytes.size) ∨ error = .invalidFormat .noEndRecord := by
  rw [error_of_find h]
  split
  · exact .inl rfl
  · exact .inr rfl

end EndRecord

end Folio
