import Mathlib.Algebra.Ring.Nat
import Mathlib.Data.List.Infix
import Mathlib.Logic.Function.Iterate
import Folio.Checksum.Crc32

/-!
# The checksum of an entry shows bursts of errors

A step of the register is linear over the field with two elements, and it can be undone, since the
polynomial has a constant term. Up to four bytes fill the register at most once, so feeding them in
one by one is the same as adding them to the register at once and taking all steps behind that.
Hence different bytes leave different registers, and what follows them cannot make the registers
equal again. One byte alone fills the low end of the register, so the register behind it can be
looked up.

## Main definitions

* `Crc32.word` — the number that a few bytes spell
* `Burst` — two strings of bytes differ, but in no more than four bytes that follow one another

## Main results

* `Crc32.step_xor`, `Crc32.step_injective` — a step is linear and can be undone
* `Crc32.foldl_byte_eq` — a few bytes are fed in at once
* `Crc32.feed_eq`, `crc32_eq` — a look at the table does what eight steps do
* `Burst.crc32_ne` — a burst changes the checksum
-/

namespace Folio

namespace Crc32

variable {r s : UInt32} {b : UInt8} {l l' : List UInt8}

/-! ### Steps -/

/-- What a step adds to the register that it has shifted. -/
def feedback (register : UInt32) : UInt32 := if register &&& 1 = 0 then 0 else polynomial

theorem step_eq (r : UInt32) : step r = (r >>> 1) ^^^ feedback r := by
  rw [step, feedback]
  split
  · rw [UInt32.xor_zero]
  · rfl

theorem toNat_and_one (r : UInt32) : (r &&& 1).toNat = r.toNat % 2 := by
  rw [UInt32.toNat_and]
  exact Nat.and_one_is_mod r.toNat

theorem and_one_cases (r : UInt32) : r &&& 1 = 0 ∨ r &&& 1 = 1 := by
  rw [← UInt32.toNat_inj, ← UInt32.toNat_inj, toNat_and_one]
  exact Nat.mod_two_eq_zero_or_one r.toNat

theorem feedback_xor (r s : UInt32) : feedback (r ^^^ s) = feedback r ^^^ feedback s := by
  have hlow : (r ^^^ s) &&& 1 = (r &&& 1) ^^^ (s &&& 1) := by
    rw [← UInt32.toNat_inj]
    simp only [UInt32.toNat_and, UInt32.toNat_xor]
    exact Nat.and_xor_distrib_right
  simp only [feedback, hlow]
  -- The low bit of the sum is the sum of the low bits.
  rcases and_one_cases r with hr | hr
  · rcases and_one_cases s with hs | hs
    · simp [hr, hs]
    · simp [hr, hs]
  · rcases and_one_cases s with hs | hs
    · simp [hr, hs]
    · simp [hr, hs]

/-- A step is linear. -/
theorem step_xor (r s : UInt32) : step (r ^^^ s) = step r ^^^ step s := by
  rw [step_eq, step_eq, step_eq, UInt32.shiftRight_xor, feedback_xor]
  ac_rfl

theorem toNat_shiftRight_one (r : UInt32) : (r >>> 1).toNat = r.toNat / 2 := by
  rw [UInt32.toNat_shiftRight]
  exact Nat.shiftRight_eq_div_pow r.toNat 1

/-- Nothing but zero is stepped to zero: the polynomial has a one where a shift leaves a zero. -/
theorem eq_zero_of_step (h : step r = 0) : r = 0 := by
  have hlt := r.toNat_lt
  rw [step_eq, UInt32.xor_eq_zero_iff, ← UInt32.toNat_inj, toNat_shiftRight_one, feedback] at h
  split at h
  · next hlow =>
    rw [← UInt32.toNat_inj, toNat_and_one] at hlow
    rw [← UInt32.toNat_inj]
    simp only [UInt32.reduceToNat] at h hlow ⊢
    omega
  · simp only [polynomial, UInt32.reduceToNat] at h
    omega

/-- A step can be undone. -/
theorem step_injective : Function.Injective step := by
  intro r s h
  rw [← UInt32.xor_eq_zero_iff] at h ⊢
  exact eq_zero_of_step ((step_xor r s).trans h)

theorem iterate_step_xor (n : Nat) (r s : UInt32) :
    step^[n] (r ^^^ s) = step^[n] r ^^^ step^[n] s := by
  induction n generalizing r s with
  | zero => rfl
  | succ n ih => rw [Function.iterate_succ_apply, Function.iterate_succ_apply,
      Function.iterate_succ_apply, step_xor, ih]

/-! ### Bytes -/

theorem byte_eq (r : UInt32) (b : UInt8) : byte r b = step^[8] (r ^^^ b.toUInt32) := rfl

theorem step_of_even (h : r.toNat % 2 = 0) : step r = r >>> 1 := by
  rw [step, if_pos]
  rwa [← UInt32.toNat_inj, toNat_and_one]

/-- Zeros in the low bits of the register are shifted out without a feedback. -/
theorem toNat_iterate_step {n : Nat} (h : 2 ^ n ∣ r.toNat) :
    (step^[n] r).toNat = r.toNat / 2 ^ n := by
  induction n generalizing r with
  | zero => simp
  | succ n ih =>
    obtain ⟨k, hk⟩ := h
    have heven : r.toNat % 2 = 0 := by
      rw [hk, Nat.pow_succ, Nat.mul_comm (2 ^ n), Nat.mul_assoc, Nat.mul_mod_right]
    have hhalf : (step r).toNat = 2 ^ n * k := by
      rw [step_of_even heven, toNat_shiftRight_one, hk, Nat.pow_succ, Nat.mul_assoc,
        Nat.mul_left_comm, Nat.mul_div_cancel_left _ (by decide)]
    rw [Function.iterate_succ_apply, ih ⟨k, hhalf⟩, hhalf, hk,
      Nat.mul_div_cancel_left _ (Nat.two_pow_pos n), Nat.mul_div_cancel_left _ (Nat.two_pow_pos _)]

/-- The number that a few bytes spell, the first of them in the low bits. -/
def word : List UInt8 → UInt32
  | [] => 0
  | b :: l => b.toUInt32 ^^^ (word l <<< 8)

theorem toNat_shiftLeft_eight (h : r.toNat < 2 ^ 24) : (r <<< 8).toNat = r.toNat * 2 ^ 8 := by
  rw [UInt32.toNat_shiftLeft]
  have : (8 : UInt32).toNat % 32 = 8 := rfl
  rw [this, Nat.shiftLeft_eq]
  omega

/-- Eight steps shift down what has been shifted up. -/
theorem iterate_step_shiftLeft (h : r.toNat < 2 ^ 24) : step^[8] (r <<< 8) = r := by
  have hshift := toNat_shiftLeft_eight h
  rw [← UInt32.toNat_inj, toNat_iterate_step ⟨r.toNat, by rw [hshift, Nat.mul_comm]⟩, hshift,
    Nat.mul_div_cancel _ (by decide)]

theorem toNat_word_lt (hlen : l.length ≤ 4) : (word l).toNat < 2 ^ (8 * l.length) := by
  induction l with
  | nil => exact Nat.zero_lt_one
  | cons b l ih =>
    rw [List.length_cons] at hlen ⊢
    have hword := ih (by omega)
    have hsmall : (word l).toNat < 2 ^ 24 :=
      hword.trans_le (Nat.pow_le_pow_right (by decide) (by omega))
    have hpow : 2 ^ (8 * (l.length + 1)) = 2 ^ (8 * l.length) * 2 ^ 8 := by
      rw [Nat.mul_succ, Nat.pow_add]
    have hpos := Nat.two_pow_pos (8 * l.length)
    have hb := b.toNat_lt
    rw [word, UInt32.toNat_xor, UInt8.toNat_toUInt32, toNat_shiftLeft_eight hsmall]
    apply Nat.xor_lt_two_pow
    · rw [hpow]
      exact hb.trans_le (Nat.le_mul_of_pos_left _ hpos)
    · rw [hpow]
      exact Nat.mul_lt_mul_of_pos_right hword (by decide)

theorem toNat_word_lt_of_length (hlen : l.length ≤ 3) : (word l).toNat < 2 ^ 24 :=
  (toNat_word_lt (hlen.trans (by decide))).trans_le
    (Nat.pow_le_pow_right (by decide) (by omega))

/-- The first byte stands in the low bits, and the number of the others above them. -/
theorem word_cons_inj {b b' : UInt8} (hlen : l.length ≤ 3) (hlen' : l'.length ≤ 3)
    (h : word (b :: l) = word (b' :: l')) : b = b' ∧ word l = word l' := by
  have hlow (b : UInt8) (l : List UInt8) : (word (b :: l)).toUInt8 = b := by
    have hzero : (word l <<< 8).toUInt8 = 0 := by
      rw [← UInt8.toNat_inj, UInt32.toNat_toUInt8, UInt32.toNat_shiftLeft, Nat.shiftLeft_eq]
      simp
    rw [word, UInt32.toUInt8_xor, hzero, UInt8.xor_zero, UInt8.toUInt8_toUInt32]
  have hhigh (b : UInt8) {l : List UInt8} (hlen : l.length ≤ 3) :
      word (b :: l) >>> 8 = word l := by
    have hzero : b.toUInt32 >>> 8 = 0 := by
      have hb := b.toNat_lt
      rw [← UInt32.toNat_inj, UInt32.toNat_shiftRight, UInt8.toNat_toUInt32]
      simp [Nat.shiftRight_eq_div_pow]
      omega
    have hword : word l <<< 8 >>> 8 = word l := by
      rw [← UInt32.toNat_inj, UInt32.toNat_shiftRight,
        toNat_shiftLeft_eight (toNat_word_lt_of_length hlen)]
      simp [Nat.shiftRight_eq_div_pow]
    rw [word, UInt32.shiftRight_xor, hzero, hword, UInt32.zero_xor]
  refine ⟨?_, ?_⟩
  · rw [← hlow b l, h, hlow]
  · rw [← hhigh b hlen, h, hhigh b' hlen']

theorem word_injective (hlen : l.length = l'.length) (hle : l.length ≤ 4)
    (h : word l = word l') : l = l' := by
  induction l generalizing l' with
  | nil => exact (List.length_eq_zero_iff.mp hlen.symm).symm
  | cons b l ih =>
    match l', hlen with
    | b' :: l', hlen =>
      rw [List.length_cons, List.length_cons] at hlen
      rw [List.length_cons] at hle
      obtain ⟨rfl, hrest⟩ := word_cons_inj (by omega) (by omega) h
      rw [ih (by omega) (by omega) hrest]

/-! ### Bytes, one after another -/

/-- A few bytes are fed into the register at once. -/
theorem foldl_byte_eq (r : UInt32) (hlen : l.length ≤ 4) :
    l.foldl byte r = step^[8 * l.length] (r ^^^ word l) := by
  induction l generalizing r with
  | nil => exact (UInt32.xor_zero).symm
  | cons b l ih =>
    rw [List.length_cons] at hlen
    -- The number of the later bytes is shifted down to where they are fed in.
    have hshift := iterate_step_shiftLeft (toNat_word_lt_of_length (l := l) (by omega))
    rw [List.foldl_cons, ih (byte r b) (by omega), List.length_cons, Nat.mul_succ,
      Function.iterate_add_apply, word, ← UInt32.xor_assoc, iterate_step_xor 8, hshift, byte_eq]

theorem foldl_byte_injective (r : UInt32) (hlen : l.length = l'.length) (hle : l.length ≤ 4)
    (h : l.foldl byte r = l'.foldl byte r) : l = l' := by
  rw [foldl_byte_eq r hle, foldl_byte_eq r (hlen ▸ hle), hlen] at h
  exact word_injective hlen hle
    (UInt32.xor_right_inj r |>.mp (step_injective.iterate _ h))

/-- What follows cannot make different registers equal. -/
theorem foldl_byte_register_injective (l : List UInt8) :
    Function.Injective fun r => l.foldl byte r := by
  intro r s h
  induction l generalizing r s with
  | nil => exact h
  | cons b l ih =>
    have hbyte : step^[8] (r ^^^ b.toUInt32) = step^[8] (s ^^^ b.toUInt32) := ih h
    exact UInt32.xor_left_inj b.toUInt32 |>.mp (step_injective.iterate 8 hbyte)

/-! ### The table -/

theorem table_getD (b : UInt8) : table.getD b.toNat 0 = byte 0 b := by
  have hsize : b.toNat < 256 := b.toNat_lt
  simp [table, Array.getD_eq_getD_getElem?, hsize]

/-- A register is its low byte and what stands above it. -/
theorem eq_low_xor_high (r : UInt32) : r = r.toUInt8.toUInt32 ^^^ ((r >>> 8) <<< 8) := by
  have hlt := r.toNat_lt
  have hhigh : (r >>> 8).toNat = r.toNat / 2 ^ 8 := by
    rw [UInt32.toNat_shiftRight]
    exact Nat.shiftRight_eq_div_pow r.toNat 8
  rw [← UInt32.toNat_inj, UInt32.toNat_xor, UInt8.toNat_toUInt32, UInt32.toNat_toUInt8,
    toNat_shiftLeft_eight (by omega), hhigh]
  -- A bit stands either in the low byte or above it.
  apply Nat.eq_of_testBit_eq
  intro i
  rw [Nat.testBit_xor, Nat.testBit_mod_two_pow, Nat.testBit_mul_two_pow, Nat.testBit_div_two_pow]
  by_cases hi : i < 8
  · simp [hi, Nat.not_le_of_lt hi]
  · simp [hi, Nat.le_of_not_lt hi]

/-- A look at the table does what eight steps do. -/
theorem feed_eq (r : UInt32) (b : UInt8) : feed r b = byte r b := by
  have hsplit : r ^^^ b.toUInt32 = (r.toUInt8 ^^^ b).toUInt32 ^^^ ((r >>> 8) <<< 8) := by
    conv_lhs => rw [eq_low_xor_high r]
    rw [UInt8.toUInt32_xor]
    ac_rfl
  have hhigh : (r >>> 8).toNat < 2 ^ 24 := by
    have := r.toNat_lt
    rw [UInt32.toNat_shiftRight]
    simp [Nat.shiftRight_eq_div_pow]
    omega
  rw [feed, table_getD, byte_eq r, hsplit, iterate_step_xor, iterate_step_shiftLeft hhigh,
    byte_eq, UInt32.zero_xor]

end Crc32

/-- Bytes are folded one after another. -/
theorem foldl_eq_foldl_toList {α : Type} (f : α → UInt8 → α) (x : α) (bytes : ByteArray) :
    bytes.foldl f x = bytes.data.toList.foldl f x := by
  have hloop (i j : Nat) (x : α) (h : bytes.size ≤ j + i) :
      Id.run (ByteArray.foldlM.loop (pure <| f · ·) bytes bytes.size (Nat.le_refl _) i j x) =
        (bytes.data.toList.drop j).foldl f x := by
    induction i generalizing j x with
    | zero =>
      have hdrop : bytes.data.toList.drop j = [] := List.drop_of_length_le h
      rw [ByteArray.foldlM.loop, hdrop]
      split <;> rfl
    | succ i ih =>
      rw [ByteArray.foldlM.loop]
      split
      · next hlt =>
        have hlist : j < bytes.data.toList.length := hlt
        rw [List.drop_eq_getElem_cons hlist]
        exact ih (j + 1) _ (by omega)
      · next hge =>
        have hdrop : bytes.data.toList.drop j = [] := List.drop_of_length_le (Nat.le_of_not_lt hge)
        rw [hdrop]
        rfl
  have hall := hloop bytes.size 0 x (by omega)
  rw [ByteArray.foldl, ByteArray.foldlM, dif_pos (Nat.le_refl _)]
  exact hall

/-- The checksum is that of a register without a table. -/
theorem crc32_eq (bytes : ByteArray) :
    crc32 bytes = bytes.data.toList.foldl Crc32.byte 0xFFFFFFFF ^^^ 0xFFFFFFFF := by
  have hfeed : Crc32.feed = Crc32.byte := funext fun r => funext fun b => Crc32.feed_eq r b
  rw [crc32, foldl_eq_foldl_toList, hfeed]

/-! ### Bursts -/

/-- The data differs from other data of the same size, but only within four bytes that follow one
another. -/
structure Burst (data damaged : ByteArray) : Prop where
  size_eq : damaged.size = data.size
  ne : damaged ≠ data
  window : ∃ first, ∀ i, i < first ∨ first + 4 ≤ i →
    damaged.data.toList[i]? = data.data.toList[i]?

namespace Burst

variable {data damaged : ByteArray}

/-- The bytes in front of a burst and those behind it are the same. -/
theorem exists_split (h : Burst data damaged) : ∃ before bytes bytes' after,
    data.data.toList = before ++ (bytes ++ after) ∧
      damaged.data.toList = before ++ (bytes' ++ after) ∧
      bytes'.length = bytes.length ∧ bytes.length ≤ 4 ∧ bytes' ≠ bytes := by
  obtain ⟨first, hwindow⟩ := h.window
  have hlength : damaged.data.toList.length = data.data.toList.length := h.size_eq
  have hbefore : damaged.data.toList.take first = data.data.toList.take first := by
    apply List.ext_getElem?
    intro i
    rw [List.getElem?_take, List.getElem?_take]
    split
    · next hi => exact hwindow i (.inl hi)
    · rfl
  have hafter : damaged.data.toList.drop (first + 4) = data.data.toList.drop (first + 4) := by
    apply List.ext_getElem?
    intro i
    rw [List.getElem?_drop, List.getElem?_drop]
    exact hwindow _ (.inr (Nat.le_add_right _ _))
  have hsplit (l : List UInt8) :
      l = l.take first ++ ((l.drop first).take 4 ++ l.drop (first + 4)) := by
    rw [← List.drop_drop, List.take_append_drop, List.take_append_drop]
  refine ⟨_, _, (damaged.data.toList.drop first).take 4, _, hsplit data.data.toList, ?_, ?_, ?_, ?_⟩
  · rw [← hbefore, ← hafter]
    exact hsplit _
  · simp only [List.length_take, List.length_drop, hlength]
  · exact List.length_take_le 4 _
  · intro hbytes
    apply h.ne
    apply ByteArray.ext
    apply Array.toList_inj.mp
    rw [hsplit damaged.data.toList, hbefore, hbytes, hafter, ← hsplit]

/-- A burst changes the checksum, whatever stands in front of it and behind it. -/
theorem crc32_ne (h : Burst data damaged) : crc32 damaged ≠ crc32 data := by
  obtain ⟨before, bytes, bytes', after, hdata, hdamaged, hlen, hle, hne⟩ := h.exists_split
  intro hcrc
  rw [crc32_eq, crc32_eq, UInt32.xor_left_inj, hdata, hdamaged, List.foldl_append,
    List.foldl_append, List.foldl_append, List.foldl_append] at hcrc
  -- The registers behind the burst would have to be equal, and so would the bytes.
  exact hne (Crc32.foldl_byte_injective _ hlen (hlen ▸ hle)
    (Crc32.foldl_byte_register_injective after hcrc))

end Burst

end Folio
