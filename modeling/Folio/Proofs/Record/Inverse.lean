import Folio.Proofs.Record.Exact

/-!
# Records and their bytes

What has been written of a record is read, whatever follows it. If a part of the record is longer
than its length field can tell, less of the part is read than has been written, and the rest of it
is taken for what follows. So the record comes back exactly if all of its parts fit. Whatever is
read is written with the bytes from which it has been read, and no record is read from a part of its
bytes.

## Main definitions

* `LocalHeader.parts`, `CentralHeader.parts`, `EndRecord.parts` — the parts of variable length
* `Decoder.Inverts` — a decoder and an encoder that undo each other

## Main results

* `Decoder.Exact.inverts` — an exact decoder undoes its encoder if the bytes of a record that does
  not fit begin with a record that does
* `records_inverted` — the decoders and the encoders of the three records undo each other
-/

namespace Folio

namespace Decoder

variable {α : Type} {decode : Decoder α} {encode : α → List UInt8} {parts : α → List (List UInt8)}

/-- The decoder and the encoder undo each other, for records with the given parts of variable
length. -/
structure Inverts (decode : Decoder α) (encode : α → List UInt8)
    (parts : α → List (List UInt8)) : Prop where
  /-- Behind a place where a record has been written, some record is read, whatever follows. Of each
  part it has as many bytes as the 16 bits of the length field tell. -/
  reads : ∀ (x : α) (r : List UInt8) (c : Cursor), c.rest = encode x ++ r →
    ∃ y c', decode.run c = .ok (y, c') ∧
      (parts y).map List.length = (parts x).map fun part => part.length % 65536
  /-- It is the record that has been written, and nothing of what follows is read, exactly if all
  parts fit. -/
  reads_back_iff : ∀ (x : α) (r : List UInt8) (c : Cursor), c.rest = encode x ++ r →
    ((∃ c', decode.run c = .ok (x, c') ∧ c'.rest = r) ↔ ∀ part ∈ parts x, part.length ≤ 65535)
  /-- A record that has been read is written with the bytes that have been read. -/
  writes_back : ∀ (x : α) (c c' : Cursor), decode.run c = .ok (x, c') →
    ∃ k, k ≤ c.rest.length ∧ c' = c.advance k ∧ encode x = c.rest.take k
  /-- Nothing is read from bytes that are cut off. -/
  cut_off : ∀ (x : α) (c : Cursor), (∀ part ∈ parts x, part.length ≤ 65535) →
    c.rest <+: encode x → c.rest ≠ encode x → decode.run c = .error (.io .unexpectedEnd)

/-- An exact decoder undoes its encoder. It is left to show what is read from the bytes of a record
that does not fit. -/
theorem Exact.inverts {Fits : α → Prop} (hd : decode.Exact fun x bs => Fits x ∧ bs = encode x)
    (fits_iff : ∀ x, Fits x ↔ ∀ part ∈ parts x, part.length ≤ 65535)
    (begins : ∀ x r, ∃ y r', Fits y ∧ encode x ++ r = encode y ++ r' ∧
      (parts y).map List.length = (parts x).map fun part => part.length % 65536) :
    decode.Inverts encode parts where
  reads x r c hrest := by
    obtain ⟨y, r', fits, hsplit, hlengths⟩ := begins x r
    have hpre : encode y <+: c.rest := ⟨r', by rw [hrest, hsplit]⟩
    exact ⟨y, _, hd.run_eq_ok_iff.mpr ⟨_, ⟨fits, rfl⟩, hpre, rfl⟩, hlengths⟩
  reads_back_iff x r c hrest := by
    rw [← fits_iff]
    constructor
    · rintro ⟨c', hrun, -⟩
      obtain ⟨_, ⟨fits, -⟩, -⟩ := hd.run_eq_ok_iff.mp hrun
      exact fits
    · intro fits
      refine ⟨c.advance (encode x).length, hd.run_eq_ok_iff.mpr
        ⟨_, ⟨fits, rfl⟩, ⟨r, hrest.symm⟩, rfl⟩, ?_⟩
      rw [Cursor.rest_advance, hrest, List.drop_left]
  writes_back x c c' hrun := by
    obtain ⟨_, ⟨-, rfl⟩, hpre, rfl⟩ := hd.run_eq_ok_iff.mp hrun
    exact ⟨_, hpre.length_le, rfl, List.prefix_iff_eq_take.mp hpre⟩
  cut_off x c fits hpre hne := (hd.reads x _ ⟨(fits_iff x).mpr fits, rfl⟩).short c hpre hne

end Decoder

/-! ### Parts that do not fit -/

/-- Of a part that stands at the front of bytes, its length field tells a beginning, which fits. All
that is needed to read on stands behind that. -/
theorem exists_told {n : Nat} {l : List UInt8} (h : n ≤ l.length) :
    ∃ told rest, l = told ++ rest ∧ told.length = n % 65536 ∧ l.length - n ≤ rest.length := by
  have hle := Nat.mod_le n 65536
  refine ⟨l.take (n % 65536), l.drop (n % 65536), (List.take_append_drop _ l).symm, ?_, ?_⟩
  · exact List.length_take_of_le (by omega)
  · rw [List.length_drop]
    omega

/-- The length field holds the length of the beginning that it tells. -/
theorem ofNat_told {n : Nat} {told : List UInt8} (h : told.length = n % 65536) :
    UInt16.ofNat told.length = UInt16.ofNat n := by
  rw [← UInt16.toNat_inj, UInt16.toNat_ofNat', UInt16.toNat_ofNat', h]
  omega

theorem length_told_le {n : Nat} {told : List UInt8} (h : told.length = n % 65536) :
    told.length ≤ maxLength := by
  simp only [maxLength]
  omega

namespace LocalHeader

/-- The parts of variable length. -/
def parts (h : LocalHeader) : List (List UInt8) := [h.name, h.extra]

theorem fits_iff (h : LocalHeader) : h.Fits ↔ ∀ part ∈ h.parts, part.length ≤ 65535 := by
  simp only [parts, List.forall_mem_cons, List.not_mem_nil, false_implies, implies_true, and_true]
  exact ⟨fun fits => ⟨fits.name, fits.extra⟩, fun ⟨hname, hextra⟩ => ⟨hname, hextra⟩⟩

theorem exists_encode_append (h : LocalHeader) (r : List UInt8) :
    ∃ (h' : LocalHeader) (r' : List UInt8), h'.Fits ∧ h.encode ++ r = h'.encode ++ r' ∧
      h'.parts.map List.length = h.parts.map fun part => part.length % 65536 := by
  obtain ⟨name, rest, hname, hn, hrest⟩ :=
    exists_told (n := h.name.length) (l := h.name ++ (h.extra ++ r)) (by simp)
  simp only [List.length_append, Nat.add_sub_cancel_left] at hrest
  -- What is left of the name is taken for the beginning of the extra part.
  obtain ⟨extra, rest', rfl, he, -⟩ := exists_told (n := h.extra.length) (l := rest) (by omega)
  refine ⟨{ h with name, extra }, rest', ⟨length_told_le hn, length_told_le he⟩, ?_, ?_⟩
  · simp only [encode, ofNat_told hn, ofNat_told he, List.append_assoc, hname]
  · simp only [parts, List.map_cons, List.map_nil, hn, he]

end LocalHeader

namespace CentralHeader

/-- The parts of variable length. -/
def parts (h : CentralHeader) : List (List UInt8) := [h.name, h.extra, h.comment]

theorem fits_iff (h : CentralHeader) : h.Fits ↔ ∀ part ∈ h.parts, part.length ≤ 65535 := by
  simp only [parts, List.forall_mem_cons, List.not_mem_nil, false_implies, implies_true, and_true]
  exact ⟨fun fits => ⟨fits.name, fits.extra, fits.comment⟩,
    fun ⟨hname, hextra, hcomment⟩ => ⟨hname, hextra, hcomment⟩⟩

theorem exists_encode_append (h : CentralHeader) (r : List UInt8) :
    ∃ (h' : CentralHeader) (r' : List UInt8), h'.Fits ∧ h.encode ++ r = h'.encode ++ r' ∧
      h'.parts.map List.length = h.parts.map fun part => part.length % 65536 := by
  obtain ⟨name, rest, hname, hn, hrest⟩ :=
    exists_told (n := h.name.length) (l := h.name ++ (h.extra ++ (h.comment ++ r))) (by simp)
  simp only [List.length_append, Nat.add_sub_cancel_left] at hrest
  obtain ⟨extra, rest', rfl, he, hrest'⟩ :=
    exists_told (n := h.extra.length) (l := rest) (by omega)
  obtain ⟨comment, rest'', rfl, hc, -⟩ :=
    exists_told (n := h.comment.length) (l := rest') (by omega)
  refine ⟨{ h with name, extra, comment }, rest'',
    ⟨length_told_le hn, length_told_le he, length_told_le hc⟩, ?_, ?_⟩
  · simp only [encode, ofNat_told hn, ofNat_told he, ofNat_told hc, List.append_assoc, hname]
  · simp only [parts, List.map_cons, List.map_nil, hn, he, hc]

end CentralHeader

namespace EndRecord

/-- The part of variable length. -/
def parts (r : EndRecord) : List (List UInt8) := [r.comment]

theorem fits_iff (r : EndRecord) : r.Fits ↔ ∀ part ∈ r.parts, part.length ≤ 65535 := by
  simp only [parts, List.forall_mem_cons, List.not_mem_nil, false_implies, implies_true, and_true]
  exact Iff.rfl

theorem exists_encode_append (e : EndRecord) (r : List UInt8) :
    ∃ (e' : EndRecord) (r' : List UInt8), e'.Fits ∧ e.encode ++ r = e'.encode ++ r' ∧
      e'.parts.map List.length = e.parts.map fun part => part.length % 65536 := by
  obtain ⟨comment, rest, hcomment, hc, -⟩ :=
    exists_told (n := e.comment.length) (l := e.comment ++ r) (by simp)
  refine ⟨{ e with comment }, rest, length_told_le hc, ?_, ?_⟩
  · simp only [encode, ofNat_told hc, List.append_assoc, hcomment]
  · simp only [parts, List.map_cons, List.map_nil, hc]

end EndRecord

/-- The decoders and the encoders of the three records of an archive undo each other. -/
theorem records_inverted :
    LocalHeader.decode.Inverts LocalHeader.encode LocalHeader.parts ∧
      CentralHeader.decode.Inverts CentralHeader.encode CentralHeader.parts ∧
      EndRecord.decode.Inverts EndRecord.encode EndRecord.parts :=
  ⟨LocalHeader.decode_exact.inverts LocalHeader.fits_iff LocalHeader.exists_encode_append,
    CentralHeader.decode_exact.inverts CentralHeader.fits_iff CentralHeader.exists_encode_append,
    EndRecord.decode_exact.inverts EndRecord.fits_iff EndRecord.exists_encode_append⟩

end Folio
