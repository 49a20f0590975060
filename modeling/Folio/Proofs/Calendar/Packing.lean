import Mathlib.Algebra.Ring.Nat
import Folio.Calendar.DosTime
import Folio.Proofs.Calendar.DayNumber

/-!
# Packed dates and times are unpacked

Packing keeps a date and time to the even second, moved to the nearest end of the range if it lies
outside. The fields of two words need not be a date and time, but if they are, then the words are
what it packs to, so that no date and time has two forms.

## Main definitions

* `DosTime.bits` — a field of a word
* `DosTime.Real` — the fields are a date of the calendar and a time of the clock
* `DateTime.packed` — what packing leaves of a date and time

## Main results

* `DosTime.toDateTime?_ofDateTime` — what is packed is unpacked
* `DosTime.ofDateTime_of_unpacked` — what is unpacked is packed to the same words
* `DosTime.packing_inverse` — both, with the words that are no date and time
-/

namespace Folio

namespace DosTime

/-! ### Fields of words -/

/-- The bits of a word that a mask selects, from the given bit on. -/
def bits (word low mask : UInt16) : Nat := (word >>> low &&& mask).toNat

/-- A field whose mask is `width` ones. -/
theorem bits_eq {word low mask : UInt16} (width : Nat) (hlow : low.toNat % 16 = low.toNat)
    (hmask : mask.toNat = 2 ^ width - 1) :
    bits word low mask = word.toNat / 2 ^ low.toNat % 2 ^ width := by
  rw [bits, UInt16.toNat_and, UInt16.toNat_shiftRight, hlow, hmask,
    Nat.and_two_pow_sub_one_eq_mod, Nat.shiftRight_eq_div_pow]

/-- The fields of the two words are a date of the calendar and a time of the clock, where the
seconds are counted by twos. -/
structure Real (t : DosTime) : Prop where
  month_pos : 1 ≤ bits t.date 5 0x0F
  month_le : bits t.date 5 0x0F ≤ 12
  day_pos : 1 ≤ bits t.date 0 0x1F
  day_le : bits t.date 0 0x1F ≤
    daysInMonth (isLeapYear (1980 + bits t.date 9 0x7F)) (bits t.date 5 0x0F)
  hour_le : bits t.time 11 0x1F ≤ 23
  minute_le : bits t.time 5 0x3F ≤ 59
  half_le : bits t.time 0 0x1F ≤ 29

/-- The date and time that is read off the words consists of their fields. -/
theorem fields_eq (t : DosTime) :
    t.fields = {
      year := 1980 + bits t.date 9 0x7F
      month := bits t.date 5 0x0F
      day := bits t.date 0 0x1F
      hour := bits t.time 11 0x1F
      minute := bits t.time 5 0x3F
      second := bits t.time 0 0x1F * 2
      nanosecond := 0 } := by
  have hyear : bits t.date 9 0x7F = t.date.toNat / 512 % 128 := bits_eq 7 rfl rfl
  have hmonth : bits t.date 5 0x0F = t.date.toNat / 32 % 16 := bits_eq 4 rfl rfl
  have hday : bits t.date 0 0x1F = t.date.toNat / 1 % 32 := bits_eq 5 rfl rfl
  have hhour : bits t.time 11 0x1F = t.time.toNat / 2048 % 32 := bits_eq 5 rfl rfl
  have hminute : bits t.time 5 0x3F = t.time.toNat / 32 % 64 := bits_eq 6 rfl rfl
  have hhalf : bits t.time 0 0x1F = t.time.toNat / 1 % 32 := bits_eq 5 rfl rfl
  have hdate := t.date.toNat_lt
  have htime := t.time.toNat_lt
  -- The fields at the high ends take all the bits that are left.
  rw [Nat.mod_eq_of_lt (by omega)] at hyear hhour
  rw [Nat.div_one] at hday hhalf
  rw [fields, hyear, hmonth, hday, hhour, hminute, hhalf, Int.natCast_ediv]
  rfl

theorem real_iff (t : DosTime) : t.Real ↔ t.fields.Valid := by
  rw [fields_eq]
  constructor
  · intro h
    have hhour := h.hour_le
    have hminute := h.minute_le
    have hhalf := h.half_le
    refine ⟨⟨h.day_pos, h.day_le⟩, ?_, ?_, ?_, Nat.zero_lt_succ _⟩
    all_goals dsimp only; omega
  · rintro ⟨hdate, hhour, hminute, hsecond, -⟩
    dsimp only at hhour hminute hsecond
    exact ⟨hdate.month_pos, hdate.month_le, hdate.1, hdate.2, by omega, by omega, by omega⟩

theorem toDateTime?_eq_none_iff (t : DosTime) : t.toDateTime? = none ↔ ¬ t.Real := by
  rw [toDateTime?, real_iff]
  split_ifs with h
  · simp [h]
  · simp [h]

theorem toDateTime?_eq_some_iff {t : DosTime} {v : DateTime} :
    t.toDateTime? = some v ↔ t.fields = v ∧ v.Valid := by
  rw [toDateTime?]
  split_ifs with h
  · rw [Option.some.injEq]
    exact ⟨fun heq => ⟨heq, heq ▸ h⟩, And.left⟩
  · simp only [false_iff, not_and]
    rintro rfl
    exact h

/-! ### Packing -/

theorem toNat_packDate {years month day : Nat} (hyears : years < 128) (hmonth : month < 16)
    (hday : day < 32) : (packDate years month day).toNat = years * 512 + month * 32 + day := by
  rw [packDate, UInt16.toNat_ofNat', Nat.mod_eq_of_lt]
  omega

theorem toNat_packTime {hour minute second : Nat} (hhour : hour < 32) (hminute : minute < 64)
    (hsecond : second < 64) :
    (packTime hour minute second).toNat = hour * 2048 + minute * 32 + second / 2 := by
  rw [packTime, UInt16.toNat_ofNat', Nat.mod_eq_of_lt]
  omega

/-- The fields of words are packed to the words, whether or not they are a date and time. -/
theorem ofDateTime_fields (t : DosTime) : ofDateTime t.fields = t := by
  obtain ⟨date, time⟩ := t
  have hdate := date.toNat_lt
  have htime := time.toNat_lt
  rw [ofDateTime, if_neg (by simp only [fields]; omega), if_neg (by simp only [fields]; omega)]
  simp only [fields, mk.injEq]
  constructor
  · apply UInt16.toNat_inj.mp
    rw [toNat_packDate (by omega) (by omega) (by omega)]
    omega
  · apply UInt16.toNat_inj.mp
    rw [toNat_packTime (by omega) (by omega) (by omega)]
    omega

end DosTime

/-- What packing leaves of a date and time: the even second, or the nearest end of the range for a
year outside it. -/
def DateTime.packed (v : DateTime) : DateTime :=
  if v.year < 1980 then ⟨⟨1980, 1, 1⟩, 0, 0, 0, 0⟩
  else if 2107 < v.year then ⟨⟨2107, 12, 31⟩, 23, 59, 58, 0⟩
  else { v with second := v.second / 2 * 2, nanosecond := 0 }

theorem DateTime.packed_valid {v : DateTime} (h : v.Valid) : v.packed.Valid := by
  rw [packed]
  split_ifs
  · decide
  · decide
  · obtain ⟨hdate, hhour, hminute, hsecond, -⟩ := h
    exact ⟨hdate, hhour, hminute, by dsimp only; omega, Nat.zero_lt_succ _⟩

namespace DosTime

variable {v : DateTime}

theorem ofDateTime_of_before (h : v.year < 1980) : ofDateTime v = epoch := if_pos h

theorem ofDateTime_of_after (h : 2107 < v.year) : ofDateTime v = last := by
  rw [ofDateTime, if_neg (by omega), if_pos h]

/-- The words of a date and time in the range. -/
theorem words_ofDateTime (h : v.Valid) (hfirst : 1980 ≤ v.year) (hlast : v.year ≤ 2107) :
    (ofDateTime v).date.toNat = (v.year - 1980).toNat * 512 + v.month * 32 + v.day ∧
      (ofDateTime v).time.toNat = v.hour * 2048 + v.minute * 32 + v.second / 2 := by
  obtain ⟨hdate, hhour, hminute, hsecond, -⟩ := h
  have hmonth := hdate.month_le
  have hday := hdate.day_le
  rw [ofDateTime, if_neg hfirst.not_gt, if_neg hlast.not_gt]
  exact ⟨toNat_packDate (by omega) (by omega) (by omega),
    toNat_packTime (by omega) (by omega) (by omega)⟩

theorem fields_ofDateTime (h : v.Valid) : (ofDateTime v).fields = v.packed := by
  rw [DateTime.packed]
  split_ifs with hbefore hafter
  · rw [ofDateTime_of_before hbefore]
    decide
  · rw [ofDateTime_of_after hafter]
    decide
  · obtain ⟨hdate, htime⟩ := words_ofDateTime h (not_lt.mp hbefore) (not_lt.mp hafter)
    obtain ⟨hvalid, hhour, hminute, hsecond, -⟩ := h
    have hmonth := hvalid.month_le
    have hday := hvalid.day_le
    rw [fields, hdate, htime]
    obtain ⟨⟨year, month, day⟩, hour, minute, second, nanosecond⟩ := v
    simp only [DateTime.mk.injEq, Date.mk.injEq, and_true]
    dsimp only at hmonth hday hhour hminute hsecond hbefore hafter
    refine ⟨⟨?_, ?_, ?_⟩, ?_, ?_, ?_⟩ <;> omega

/-- What is packed is unpacked. -/
theorem toDateTime?_ofDateTime (h : v.Valid) : (ofDateTime v).toDateTime? = some v.packed :=
  toDateTime?_eq_some_iff.mpr ⟨fields_ofDateTime h, DateTime.packed_valid h⟩

/-- What is unpacked is packed to the same words. -/
theorem ofDateTime_of_unpacked {t : DosTime} (h : t.toDateTime? = some v) :
    v.Valid ∧ ofDateTime v = t := by
  obtain ⟨rfl, hvalid⟩ := toDateTime?_eq_some_iff.mp h
  exact ⟨hvalid, ofDateTime_fields t⟩

/-- Packing and unpacking. Every date and time, in a leap second or not, is packed to words that
are unpacked to the even second at or before it, or to the nearest end of the range. Words are
unpacked unless their fields are no date and time, and what they are unpacked to is packed to the
same words. -/
theorem packing_inverse :
    (∀ v : DateTime, v.Valid → (ofDateTime v).toDateTime? = some v.packed) ∧
    (∀ t : DosTime, t.toDateTime? = none ↔ ¬ t.Real) ∧
    ∀ (t : DosTime) (v : DateTime), t.toDateTime? = some v → v.Valid ∧ ofDateTime v = t :=
  ⟨fun _ => toDateTime?_ofDateTime, toDateTime?_eq_none_iff, fun _ _ => ofDateTime_of_unpacked⟩

/-- The leap second at the end of 2016, and the end of February in the leap year 2000. -/
theorem packing_inverse_leap :
    DateTime.Valid ⟨⟨2016, 12, 31⟩, 23, 59, 59, 1500000000⟩ ∧
    (ofDateTime ⟨⟨2016, 12, 31⟩, 23, 59, 59, 1500000000⟩).toDateTime? =
      some ⟨⟨2016, 12, 31⟩, 23, 59, 58, 0⟩ ∧
    toDateTime? ⟨10333, 0⟩ = some ⟨⟨2000, 2, 29⟩, 0, 0, 0, 0⟩ ∧
    ofDateTime ⟨⟨2000, 2, 29⟩, 0, 0, 0, 0⟩ = ⟨10333, 0⟩ := by
  obtain ⟨hpacked, -, hunpacked⟩ := packing_inverse
  have hvalid : DateTime.Valid ⟨⟨2016, 12, 31⟩, 23, 59, 59, 1500000000⟩ := by decide
  have hleapDay : toDateTime? ⟨10333, 0⟩ = some ⟨⟨2000, 2, 29⟩, 0, 0, 0, 0⟩ := by decide
  exact ⟨hvalid, hpacked _ hvalid, hleapDay, (hunpacked _ _ hleapDay).2⟩

end DosTime

end Folio
