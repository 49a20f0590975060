import Folio.Calendar.Universal
import Folio.Proofs.Calendar.Packing

/-!
# Points in time are packed in their order

A later point in time is never packed to an earlier date and time. All are packed into the range,
and of those in it only the odd seconds and the parts of a second are lost.

## Main results

* `DateTime.unixSeconds_ofSeconds` — the date and time at a number of seconds from the start of 1970
  is as many seconds from it
* `DosTime.ofDateTime_mono` — packing keeps the order of dates and times
* `DosTime.timestamps_packed` — packing keeps the order of timestamps and the even second
-/

namespace Folio

/-- A timestamp is not after another if it has fewer seconds, or the same and no more
nanoseconds. -/
instance : LE Timestamp where
  le t t' := t.seconds < t'.seconds ∨ t.seconds = t'.seconds ∧ t.nanoseconds ≤ t'.nanoseconds

theorem Timestamp.seconds_le {t t' : Timestamp} (h : t ≤ t') : t.seconds ≤ t'.seconds :=
  h.elim Int.le_of_lt fun ⟨heq, _⟩ => heq.le

namespace DateTime

variable {v v' : DateTime}

/-- The date and time at a number of seconds from the start of 1970. -/
def ofSeconds (seconds : Int) : DateTime := ofTimestamp ⟨seconds, 0⟩

theorem ofSeconds_valid (seconds : Int) : (ofSeconds seconds).Valid := by
  simp only [ofSeconds, ofTimestamp]
  refine ⟨Date.ofDayNumber_valid _, ?_, ?_, ?_, Nat.zero_lt_succ _⟩
  all_goals dsimp only; omega

@[simp] theorem unixSeconds_ofSeconds (seconds : Int) :
    (ofSeconds seconds).unixSeconds = seconds := by
  simp only [unixSeconds, ofSeconds, ofTimestamp, Date.dayNumber_ofDayNumber]
  omega

/-- Of two dates and times the one that is not later comes first by the date and then by the hour,
the minute and the second, or is the same to the second. -/
theorem fields_of_unixSeconds_le (h : v.Valid) (h' : v'.Valid)
    (hle : v.unixSeconds ≤ v'.unixSeconds) :
    v.toDate < v'.toDate ∨ v.toDate = v'.toDate ∧
      (v.hour < v'.hour ∨ v.hour = v'.hour ∧
        (v.minute < v'.minute ∨ v.minute = v'.minute ∧ v.second ≤ v'.second)) := by
  obtain ⟨hdate, hhour, hminute, hsecond, -⟩ := h
  obtain ⟨hdate', hhour', hminute', hsecond', -⟩ := h'
  simp only [unixSeconds] at hle
  rcases Date.eq_or_lt_of_dayNumber_le hdate hdate' (by omega) with heq | hlt
  · rw [heq] at hle
    exact .inr ⟨heq, by omega⟩
  · exact .inl hlt

/-- The seconds of the years that can be packed. -/
theorem year_of_unixSeconds (h : v.Valid) (hfirst : 315532800 ≤ v.unixSeconds)
    (hlast : v.unixSeconds < 4354819200) : 1980 ≤ v.year ∧ v.year ≤ 2107 := by
  obtain ⟨hdate, hhour, hminute, hsecond, -⟩ := h
  have hstart : startOfYear 1980 = 723180 := by decide
  have hend : startOfYear 2108 = 769931 := by decide
  simp only [unixSeconds, unixEpochDay] at hfirst hlast
  constructor
  · by_contra hbefore
    have := hdate.lt_startOfYear (not_le.mp hbefore)
    omega
  · by_contra hafter
    have hyear : 2108 ≤ v.year := not_le.mp hafter
    have := startOfYear_mono hyear
    have := hdate.startOfYear_le
    omega

/-- In the years that can be packed, packing leaves the even second. -/
theorem unixSeconds_packed (hfirst : 1980 ≤ v.year) (hlast : v.year ≤ 2107) :
    v.packed.unixSeconds = v.unixSeconds - v.unixSeconds % 2 := by
  rw [packed, if_neg hfirst.not_gt, if_neg hlast.not_gt]
  simp only [unixSeconds]
  omega

end DateTime

namespace DosTime

variable {t t' : DosTime} {v v' : DateTime}

/-- Packed times are in the order of their dates, and on the same date in the order of their times
of day. -/
instance : LE DosTime where
  le t t' := t.date < t'.date ∨ t.date = t'.date ∧ t.time ≤ t'.time

theorem le_iff : t ≤ t' ↔ t.date.toNat < t'.date.toNat ∨
    t.date.toNat = t'.date.toNat ∧ t.time.toNat ≤ t'.time.toNat := by
  rw [← UInt16.lt_iff_toNat_lt, UInt16.toNat_inj, ← UInt16.le_iff_toNat_le]
  exact Iff.rfl

/-- No word lies outside those of the two ends of the range. -/
theorem words_between (h : v.Valid) : epoch.date.toNat ≤ (ofDateTime v).date.toNat ∧
    (ofDateTime v).date.toNat ≤ last.date.toNat ∧
    (ofDateTime v).time.toNat ≤ last.time.toNat := by
  have hepoch : epoch.date.toNat = 33 := rfl
  have hlast : last.date.toNat = 65439 ∧ last.time.toNat = 49021 := ⟨rfl, rfl⟩
  by_cases hbefore : v.year < 1980
  · rw [ofDateTime_of_before hbefore]
    decide
  by_cases hafter : 2107 < v.year
  · rw [ofDateTime_of_after hafter]
    decide
  obtain ⟨hdate, htime⟩ := words_ofDateTime h (not_lt.mp hbefore) (not_lt.mp hafter)
  obtain ⟨hvalid, hhour, hminute, hsecond, -⟩ := h
  have hmonth := hvalid.month_le
  have hmonth' := hvalid.month_pos
  have hday := hvalid.day_le
  have hday' := hvalid.1
  rw [hdate, htime, hepoch, hlast.1, hlast.2]
  refine ⟨?_, ?_, ?_⟩ <;> omega

theorem epoch_le_ofDateTime (h : v.Valid) : epoch ≤ ofDateTime v := by
  rw [le_iff]
  rcases (words_between h).1.lt_or_eq with hlt | heq
  · exact .inl hlt
  · have hstart : epoch.time.toNat = 0 := rfl
    rw [hstart]
    exact .inr ⟨heq, Nat.zero_le _⟩

theorem ofDateTime_le_last (h : v.Valid) : ofDateTime v ≤ last := by
  rw [le_iff]
  obtain ⟨-, hdate, htime⟩ := words_between h
  exact hdate.lt_or_eq.imp_right fun heq => ⟨heq, htime⟩

/-- Packing keeps the order of dates and times. -/
theorem ofDateTime_mono (h : v.Valid) (h' : v'.Valid) (hle : v.unixSeconds ≤ v'.unixSeconds) :
    ofDateTime v ≤ ofDateTime v' := by
  have horder := DateTime.fields_of_unixSeconds_le h h' hle
  have hyear : v.year ≤ v'.year := by
    rcases horder with hlt | ⟨heq, -⟩
    · rw [Date.lt_iff] at hlt
      omega
    · rw [heq]
  -- At the ends of the range there is nothing before and nothing after.
  by_cases hbefore : v.year < 1980
  · rw [ofDateTime_of_before hbefore]
    exact epoch_le_ofDateTime h'
  by_cases hafter : 2107 < v'.year
  · rw [ofDateTime_of_after hafter]
    exact ofDateTime_le_last h
  obtain ⟨hdate, htime⟩ := words_ofDateTime h (by omega) (by omega)
  obtain ⟨hdate', htime'⟩ := words_ofDateTime h' (by omega) (by omega)
  rw [le_iff, hdate, htime, hdate', htime']
  obtain ⟨hvalid, hhour, hminute, hsecond, -⟩ := h
  obtain ⟨hvalid', hhour', hminute', hsecond', -⟩ := h'
  rcases horder with hlt | ⟨heq, hclock⟩
  · have hmonth := hvalid.month_le
    have hday := hvalid.day_le
    rw [Date.lt_iff] at hlt
    exact .inl (by omega)
  · rw [heq]
    exact .inr ⟨rfl, by omega⟩

/-! ### Timestamps -/

/-- The nanoseconds of a timestamp have no effect. -/
theorem ofTimestamp_eq (t : Timestamp) : ofTimestamp t = ofDateTime (.ofSeconds t.seconds) := rfl

/-- Packing keeps the order of points in time, before 1970 and after. What is packed lies in the
range from the start of 1980, 315532800 seconds from the start of 1970, to the end of 2107, and for
a point in that range it is unpacked to the even second at or before it. -/
theorem timestamps_packed :
    (∀ t t' : Timestamp, t ≤ t' → ofTimestamp t ≤ ofTimestamp t') ∧
    (∀ t : Timestamp, epoch ≤ ofTimestamp t ∧ ofTimestamp t ≤ last) ∧
    ∀ t : Timestamp, 315532800 ≤ t.seconds → t.seconds < 4354819200 →
      ∃ v, (ofTimestamp t).toDateTime? = some v ∧
        v.unixSeconds = t.seconds - t.seconds % 2 := by
  refine ⟨fun t t' hle => ?_, fun t => ?_, fun t hfirst hlast => ?_⟩
  · rw [ofTimestamp_eq, ofTimestamp_eq]
    refine ofDateTime_mono (DateTime.ofSeconds_valid _) (DateTime.ofSeconds_valid _) ?_
    rw [DateTime.unixSeconds_ofSeconds, DateTime.unixSeconds_ofSeconds]
    exact Timestamp.seconds_le hle
  · have hvalid := DateTime.ofSeconds_valid t.seconds
    rw [ofTimestamp_eq]
    exact ⟨epoch_le_ofDateTime hvalid, ofDateTime_le_last hvalid⟩
  · have hvalid := DateTime.ofSeconds_valid t.seconds
    have hseconds := DateTime.unixSeconds_ofSeconds t.seconds
    obtain ⟨hyear, hyear'⟩ := DateTime.year_of_unixSeconds hvalid (hfirst.trans_eq hseconds.symm)
      (hseconds.trans_lt hlast)
    rw [ofTimestamp_eq]
    refine ⟨_, toDateTime?_ofDateTime hvalid, ?_⟩
    rw [DateTime.unixSeconds_packed hyear hyear', hseconds]

/-- The last nanosecond before 1970 and the last second of February in the leap year 2000. -/
theorem timestamps_packed_leapDay :
    (⟨-1, 999999999⟩ : Timestamp) ≤ ⟨951868799, 5⟩ ∧
    ofTimestamp ⟨-1, 999999999⟩ ≤ ofTimestamp ⟨951868799, 5⟩ ∧
    315532800 ≤ (951868799 : Int) ∧ (951868799 : Int) < 4354819200 ∧
    ∃ v, (ofTimestamp ⟨951868799, 5⟩).toDateTime? = some v ∧ v.unixSeconds = 951868798 := by
  obtain ⟨hmono, -, hexact⟩ := timestamps_packed
  have hle : (⟨-1, 999999999⟩ : Timestamp) ≤ ⟨951868799, 5⟩ := .inl (by decide)
  exact ⟨hle, hmono _ _ hle, by decide, by decide,
    hexact ⟨951868799, 5⟩ (by decide) (by decide)⟩

end DosTime

end Folio
