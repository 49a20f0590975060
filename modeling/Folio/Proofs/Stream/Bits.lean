import Mathlib.Data.List.Infix
import Folio.Proofs.Bytes.Exact
import Folio.Stream.Bits

/-!
# Reading bits

A reader of bits sees nothing but the bits that are left, one after another. What it reads is stated
by the bits that it takes off their front, and readers that follow one another take off what each of
them takes off.

## Main definitions

* `BitSource.LeadsTo` — reading bits leads from one source to another
* `BitReader.Reads` — a reader takes given bits off the front and makes a value of them

## Main results

* `BitReader.Reads.bind`, `BitReader.times_reads` — readers that follow one another
* `BitReader.lowNumber_reads`, `BitReader.highNumber_reads` — numbers of a given width
* `BitOrder.unpack_pack` — bits are packed into the bytes that hold them
-/

namespace Folio

/-! ### Bits of bytes -/

@[simp] theorem length_lowBits (width n : Nat) : (lowBits width n).length = width := by
  induction width generalizing n with
  | zero => rfl
  | succ width ih => simp [lowBits, ih]

@[simp] theorem length_highBits (width n : Nat) : (highBits width n).length = width := by
  simp [highBits]

theorem highBits_succ (width n : Nat) :
    highBits (width + 1) n = highBits width (n / 2) ++ [n % 2 == 1] := by
  simp [highBits, lowBits]

theorem toNat_mod_two_eq_one (n : Nat) : (n % 2 == 1).toNat = n % 2 := by
  rcases Nat.mod_two_eq_zero_or_one n with h | h
  · rw [h]
    rfl
  · rw [h]
    rfl

/-- A number is made of its bits. -/
theorem lowBits_ofLowBits (bits : List Bool) : lowBits bits.length (ofLowBits bits) = bits := by
  induction bits with
  | nil => rfl
  | cons b bits ih =>
    have hfirst : (b.toNat + 2 * ofLowBits bits) % 2 = b.toNat := by
      cases b <;> simp
    have hrest : (b.toNat + 2 * ofLowBits bits) / 2 = ofLowBits bits := by
      cases b with
      | false => simp
      | true =>
        simp
        omega
    rw [List.length_cons, ofLowBits, lowBits, hfirst, hrest, ih]
    cases b <;> rfl

theorem ofLowBits_lt (bits : List Bool) : ofLowBits bits < 1 <<< bits.length := by
  induction bits with
  | nil => decide
  | cons b bits ih =>
    rw [List.length_cons, Nat.shiftLeft_succ, ofLowBits]
    have := Bool.toNat_le b
    omega

namespace BitOrder

@[simp] theorem length_unpack (order : BitOrder) (b : UInt8) : (order.unpack b).length = 8 := by
  cases order with
  | lowFirst => simp [unpack]
  | highFirst => simp [unpack]

theorem length_flatMap_unpack (order : BitOrder) (bytes : List UInt8) :
    (bytes.flatMap order.unpack).length = 8 * bytes.length := by
  induction bytes with
  | nil => rfl
  | cons b bytes ih =>
    rw [List.flatMap_cons, List.length_append, length_unpack, ih, List.length_cons]
    omega

theorem lowBits_toNat_ofNat {bits : List Bool} (h : bits.length = 8) :
    lowBits 8 (UInt8.ofNat (ofLowBits bits)).toNat = bits := by
  have hlt : ofLowBits bits < 256 := by
    have := ofLowBits_lt bits
    rwa [h] at this
  rw [UInt8.toNat_ofNat', Nat.mod_eq_of_lt hlt, ← h, lowBits_ofLowBits]

/-- A byte holds the bits from which it is made. -/
theorem unpack_byte (order : BitOrder) {bits : List Bool} (h : bits.length = 8) :
    order.unpack (order.byte bits) = bits := by
  cases order with
  | lowFirst => exact lowBits_toNat_ofNat h
  | highFirst =>
    rw [unpack, byte, highBits, lowBits_toNat_ofNat (by rw [List.length_reverse, h]),
      List.reverse_reverse]

theorem unpack_packOnto (order : BitOrder) (bytes : ByteArray) (bits : List Bool) :
    ∃ padding : List Bool, (order.packOnto bytes bits).data.toList.flatMap order.unpack =
      bytes.data.toList.flatMap order.unpack ++ (bits ++ padding) := by
  fun_induction packOnto order bytes bits with
  | case1 bytes => exact ⟨[], by simp⟩
  | case2 bytes b₀ b₁ b₂ b₃ b₄ b₅ b₆ b₇ rest ih =>
    obtain ⟨padding, h⟩ := ih
    exact ⟨padding, by simp [h, unpack_byte]⟩
  | case3 bytes few hne hlong =>
    -- The bits that are left do not fill a byte, so they are followed by zeros.
    have hlt : few.length < 8 := by
      match few, hlong with
      -- A longer list would have been taken by the case of a full byte.
      | [], _ | [_], _ | [_, _], _ | [_, _, _], _ | [_, _, _, _], _ | [_, _, _, _, _], _
      | [_, _, _, _, _, _], _ | [_, _, _, _, _, _, _], _ => simp
      | _ :: _ :: _ :: _ :: _ :: _ :: _ :: _ :: _, hlong => exact (hlong _ _ _ _ _ _ _ _ _ rfl).elim
    have hlength : (few ++ List.replicate (8 - few.length) false).length = 8 := by
      rw [List.length_append, List.length_replicate]
      omega
    have hbyte := unpack_byte order hlength
    exact ⟨List.replicate (8 - few.length) false, by simp [hbyte]⟩

/-- Bits are packed into bytes that hold them, and perhaps some more. -/
theorem unpack_pack (order : BitOrder) (bits : List Bool) :
    ∃ padding : List Bool,
      (order.pack bits).data.toList.flatMap order.unpack = bits ++ padding := by
  obtain ⟨padding, h⟩ := unpack_packOnto order .empty bits
  exact ⟨padding, by simpa [pack] using h⟩

end BitOrder

namespace BitSource

variable {order : BitOrder} {s s' s'' : BitSource order}

/-- Less than a byte has been begun. -/
def Short (s : BitSource order) : Prop := s.pending.length < 8

theorem length_toList (s : BitSource order) :
    s.toList.length = s.pending.length + 8 * s.bytes.length := by
  rw [toList, List.length_append, BitOrder.length_flatMap_unpack]

/-- Reading the bits leads from the source `s` to the source `s'`. -/
structure LeadsTo (s : BitSource order) (bits : List Bool) (s' : BitSource order) : Prop where
  /-- The bits are taken off the front. -/
  toList : s.toList = bits ++ s'.toList
  /-- Less than a byte has been begun. -/
  short : s'.Short
  /-- No bytes are read but those at the front. -/
  suffix : s'.bytes <:+ s.bytes

theorem LeadsTo.refl (h : s.Short) : s.LeadsTo [] s := ⟨rfl, h, List.suffix_rfl⟩

theorem LeadsTo.trans {bits bits' : List Bool} (h : s.LeadsTo bits s')
    (h' : s'.LeadsTo bits' s'') : s.LeadsTo (bits ++ bits') s'' where
  toList := by rw [h.toList, h'.toList, List.append_assoc]
  short := h'.short
  suffix := h'.suffix.trans h.suffix

/-- The next bit is the first one of those that are left. -/
theorem exists_next? {b : Bool} {rest : List Bool} (hs : s.Short) (h : s.toList = b :: rest) :
    ∃ s', s.next? = some (b, s') ∧ s.LeadsTo [b] s' ∧ s'.toList = rest := by
  obtain ⟨pending, bytes⟩ := s
  -- Either a byte has been begun, or the next one is.
  cases pending with
  | cons b' pending =>
    obtain ⟨rfl, rfl⟩ : b' = b ∧ pending ++ bytes.flatMap order.unpack = rest := by
      simpa [toList] using h
    refine ⟨⟨pending, bytes⟩, rfl, ⟨rfl, ?_, List.suffix_rfl⟩, rfl⟩
    have : pending.length + 1 < 8 := hs
    exact (Nat.lt_succ_self _).trans this
  | nil =>
    cases bytes with
    | nil => cases h
    | cons byte bytes =>
      have hlength := order.length_unpack byte
      cases hunpack : order.unpack byte with
      | nil => simp [hunpack] at hlength
      | cons b' pending =>
        rw [hunpack, List.length_cons] at hlength
        obtain ⟨rfl, rfl⟩ : b' = b ∧ pending ++ bytes.flatMap order.unpack = rest := by
          simpa [toList, hunpack] using h
        refine ⟨⟨pending, bytes⟩, by simp only [next?, hunpack],
          ⟨by simp [toList, hunpack], ?_, List.suffix_cons byte bytes⟩, rfl⟩
        exact Nat.lt_of_lt_of_eq (Nat.lt_succ_self _) hlength

/-- Of the bytes after those that have been read, as many are left as there are full bytes among
the bits. -/
theorem LeadsTo.bytes_eq {bits : List Bool} {bytes : List UInt8} (h : s.LeadsTo bits s')
    (hsuffix : bytes <:+ s.bytes) (hlength : s'.toList.length / 8 = bytes.length) :
    s'.bytes = bytes := by
  have hs : s'.pending.length < 8 := h.short
  rw [length_toList] at hlength
  -- Both are suffixes of the same bytes, so they are the same if they are of one length.
  refine (List.suffix_of_suffix_length_le h.suffix hsuffix ?_).eq_of_length ?_
  · omega
  · omega

/-- If the bits that are left are those of full bytes, nothing of a byte has been begun. -/
theorem LeadsTo.eq_ofBytes {bits : List Bool} {bytes : List UInt8} (h : s.LeadsTo bits s')
    (hsuffix : bytes <:+ s.bytes) (htoList : s'.toList = bytes.flatMap order.unpack) :
    s' = ofBytes order bytes := by
  have hlength := congrArg List.length htoList
  rw [BitOrder.length_flatMap_unpack] at hlength
  have hbytes := h.bytes_eq hsuffix (by omega)
  rw [length_toList, hbytes] at hlength
  -- All bits that are left lie in the bytes.
  have hpending : s'.pending = [] := List.length_eq_zero_iff.mp (by omega)
  obtain ⟨pending, bytes'⟩ := s'
  simp only at hbytes hpending
  rw [hbytes, hpending, ofBytes]

@[simp] theorem toList_ofBytes (bytes : List UInt8) :
    (ofBytes order bytes).toList = bytes.flatMap order.unpack := rfl

theorem short_ofBytes (bytes : List UInt8) : (ofBytes order bytes).Short := by
  simp [Short, ofBytes]

end BitSource

namespace BitReader

variable {order : BitOrder} {α β : Type} {r : BitReader order α} {f : α → BitReader order β}
  {bits bits' : List Bool} {x : α} {y : β}

/-- The reader takes the bits off the front and makes a value of them, whatever follows them. -/
def Reads (r : BitReader order α) (bits : List Bool) (x : α) : Prop :=
  ∀ (s : BitSource order) (rest : List Bool), s.Short → s.toList = bits ++ rest →
    ∃ s', r.run s = .ok (x, s') ∧ s.LeadsTo bits s' ∧ s'.toList = rest

theorem run_bind (r : BitReader order α) (f : α → BitReader order β) (s : BitSource order) :
    (r >>= f).run s = (r.run s).bind fun (x, s') => (f x).run s' := rfl

theorem Reads.pure (x : α) : (pure x : BitReader order α).Reads [] x :=
  fun s _ hs h => ⟨s, rfl, .refl hs, h⟩

theorem Reads.bind (hr : r.Reads bits x) (hf : (f x).Reads bits' y) :
    (r >>= f).Reads (bits ++ bits') y := by
  intro s rest hs h
  rw [List.append_assoc] at h
  obtain ⟨s₁, hrun₁, hlead₁, hrest₁⟩ := hr s _ hs h
  obtain ⟨s₂, hrun₂, hlead₂, hrest₂⟩ := hf s₁ rest hlead₁.short hrest₁
  refine ⟨s₂, ?_, hlead₁.trans hlead₂, hrest₂⟩
  rw [run_bind, hrun₁]
  exact hrun₂

/-- What follows the last bits reads nothing. -/
theorem Reads.last (hr : r.Reads bits x) (hf : (f x).Reads [] y) : (r >>= f).Reads bits y := by
  have h := hr.bind hf
  rwa [List.append_nil] at h

/-- Reading ends with a value that is made without reading on. -/
theorem Reads.map {g : α → β} (hr : r.Reads bits x) :
    (r >>= fun x => Pure.pure (g x)).Reads bits (g x) :=
  hr.last (Reads.pure (g x))

theorem bit_reads (b : Bool) : (bit : BitReader order Bool).Reads [b] b := by
  intro s rest hs h
  obtain ⟨s', hnext, hlead, hrest⟩ := BitSource.exists_next? hs h
  refine ⟨s', ?_, hlead, hrest⟩
  change bit s = _
  rw [bit, hnext]

theorem lowNumber_reads (bits : List Bool) :
    (lowNumber bits.length : BitReader order Nat).Reads bits (ofLowBits bits) := by
  induction bits with
  | nil => exact .pure 0
  | cons b bits ih => exact (bit_reads b).bind ih.map

theorem highNumberAfter_reads (bits : List Bool) (read : Nat) :
    (highNumberAfter bits.length read : BitReader order Nat).Reads bits
      (bits.foldl (fun n b => 2 * n + b.toNat) read) := by
  induction bits generalizing read with
  | nil => exact .pure read
  | cons b bits ih => exact (bit_reads b).bind (ih _)

theorem foldl_highBits {width n : Nat} (h : n < 1 <<< width) :
    (highBits width n).foldl (fun n b => 2 * n + b.toNat) 0 = n := by
  induction width generalizing n with
  | zero =>
    have : n = 0 := by simpa using h
    rw [this]
    rfl
  | succ width ih =>
    rw [Nat.shiftLeft_succ] at h
    rw [highBits_succ, List.foldl_append, ih (by omega)]
    simp only [List.foldl_cons, List.foldl_nil, toNat_mod_two_eq_one]
    omega

/-- A number is read from its bits. -/
theorem highNumber_reads {width n : Nat} (h : n < 1 <<< width) :
    (highNumber width : BitReader order Nat).Reads (highBits width n) n := by
  have hread : (highNumberAfter (highBits width n).length 0 : BitReader order Nat).Reads
      (highBits width n) ((highBits width n).foldl (fun n b => 2 * n + b.toNat) 0) :=
    highNumberAfter_reads (highBits width n) 0
  rwa [length_highBits, foldl_highBits h] at hread

theorem timesAfter_reads {spell : α → List Bool} {values : List α}
    (h : ∀ x ∈ values, r.Reads (spell x) x) (read : List α) :
    (timesAfter r values.length read).Reads (values.flatMap spell) (read.reverse ++ values) := by
  induction values generalizing read with
  | nil =>
    rw [List.append_nil]
    exact .pure read.reverse
  | cons x values ih =>
    rw [List.forall_mem_cons] at h
    have hrest := ih h.2 (x :: read)
    rw [List.reverse_cons, List.append_assoc, List.singleton_append] at hrest
    exact h.1.bind hrest

/-- Values are read from their bits, one after another. -/
theorem times_reads (spell : α → List Bool) (values : List α)
    (h : ∀ x ∈ values, r.Reads (spell x) x) :
    (times r values.length).Reads (values.flatMap spell) values :=
  timesAfter_reads h []

end BitReader

end Folio
