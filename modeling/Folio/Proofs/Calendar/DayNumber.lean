import Mathlib.Data.Nat.Find
import Mathlib.Order.Monotone.Basic
import Folio.Calendar.Gregorian

/-!
# Days in their order

The days of the calendar follow one another without a gap, and each has the number behind that of
the day before. Going from dates to numbers and back loses nothing, and the order of dates by year,
month and day is the order of their numbers.

## Main definitions

* `startOfYear` — the number of the first day of a year
* `Date.next` — the day after

## Main results

* `startOfYear_add_one` — a year has 366 days if it is a leap year, and 365 if it is not
* `Date.dayNumber_lt` — a later date has a greater number
* `Date.dayNumber_ofDayNumber`, `Date.ofDayNumber_dayNumber` — dates and their numbers are the same
* `Date.ofDayNumber_add_one` — the number behind that of a date is that of the day after
-/

namespace Folio

/-! ### Searches -/

theorem greatestBelow_eq (p : Nat → Bool) (n : Nat) :
    greatestBelow p n = Nat.findGreatest (p ·) n := by
  induction n with
  | zero => rfl
  | succ n ih => rw [greatestBelow, Nat.findGreatest_succ, ih]

/-- Between two numbers of a sequence that starts below `x`, the search finds the last one that is
not above `x`. -/
theorem greatestBelow_between {f : Nat → Nat} {n x : Nat} (hfirst : f 0 ≤ x)
    (hlast : x < f (n + 1)) :
    greatestBelow (f · ≤ x) n ≤ n ∧ f (greatestBelow (f · ≤ x) n) ≤ x ∧
      x < f (greatestBelow (f · ≤ x) n + 1) := by
  rw [greatestBelow_eq]
  have hle : Nat.findGreatest (fun k => decide (f k ≤ x) = true) n ≤ n := Nat.findGreatest_le n
  refine ⟨hle, ?_, ?_⟩
  · have hspec := Nat.findGreatest_spec (P := fun k => decide (f k ≤ x) = true) (Nat.zero_le n)
      (decide_eq_true hfirst)
    exact of_decide_eq_true hspec
  · rcases hle.lt_or_eq with hlt | heq
    · have hmax := Nat.findGreatest_is_greatest
        (P := fun k => decide (f k ≤ x) = true) (Nat.lt_succ_self _) hlt
      simpa using hmax
    · rwa [heq]

/-! ### Years -/

/-- The number of days in a year. -/
def daysInYear (leap : Bool) : Nat := if leap then 366 else 365

/-- The number of the first day of a year. -/
def startOfYear (year : Int) : Int :=
  year / 400 * daysPerCycle + daysBeforeYear (year % 400).toNat

/-- Years follow one another without a gap. -/
theorem startOfYear_add_one (year : Int) :
    startOfYear (year + 1) = startOfYear year + daysInYear (isLeapYear year) := by
  simp only [startOfYear, daysBeforeYear, daysPerCycle, daysInYear, isLeapYear, Bool.and_eq_true,
    Bool.or_eq_true, beq_iff_eq, bne_iff_ne]
  split <;> omega

theorem startOfYear_mono {year year' : Int} (h : year ≤ year') :
    startOfYear year ≤ startOfYear year' := by
  refine monotone_int_of_le_succ (fun year => ?_) h
  rw [startOfYear_add_one, daysInYear]
  split <;> omega

/-- The years of a cycle. -/
theorem startOfYear_of_le {k : Nat} (h : k ≤ 400) (cycle : Int) :
    startOfYear (cycle * 400 + k) = cycle * daysPerCycle + daysBeforeYear k := by
  rcases h.lt_or_eq with hlt | rfl
  · have hcycle : (cycle * 400 + k) / 400 = cycle := by omega
    have hyear : ((cycle * 400 + k) % 400).toNat = k := by omega
    rw [startOfYear, hcycle, hyear]
  -- The year behind a cycle is the first one of the next.
  · have hcycle : (cycle * 400 + (400 : Nat)) / 400 = cycle + 1 := by omega
    have hyear : ((cycle * 400 + (400 : Nat)) % 400).toNat = 0 := by omega
    have hlast : daysBeforeYear 400 = daysPerCycle := rfl
    rw [startOfYear, hcycle, hyear, hlast, Int.add_mul, Int.one_mul]
    exact Int.add_zero _

/-! ### Months -/

theorem daysInMonth_pos_iff (leap : Bool) (month : Nat) :
    0 < daysInMonth leap month ↔ 1 ≤ month ∧ month ≤ 12 := by
  unfold daysInMonth
  split
  case h_12 => cases leap <;> decide
  -- A number that is none of the twelve.
  case h_13 => grind
  all_goals decide

theorem daysInMonth_le (leap : Bool) (month : Nat) : daysInMonth leap month ≤ 31 := by
  unfold daysInMonth
  split
  case h_12 => cases leap <;> decide
  all_goals decide

theorem daysBeforeMonth_mono (leap : Bool) : Monotone (daysBeforeMonth leap) :=
  monotone_nat_of_le_succ fun month => Nat.le_add_right _ (daysInMonth leap month)

/-- The months of a year are all of its days. -/
theorem daysBeforeMonth_thirteen (leap : Bool) : daysBeforeMonth leap 13 = daysInYear leap := by
  cases leap <;> rfl

namespace Date

variable {d d' : Date}

theorem dayNumber_eq (d : Date) :
    d.dayNumber =
      startOfYear d.year + daysBeforeMonth (isLeapYear d.year) d.month + d.day - 1 := rfl

theorem Valid.month_pos (h : d.Valid) : 1 ≤ d.month :=
  ((daysInMonth_pos_iff _ _).mp (h.1.trans h.2)).1

theorem Valid.month_le (h : d.Valid) : d.month ≤ 12 :=
  ((daysInMonth_pos_iff _ _).mp (h.1.trans h.2)).2

theorem Valid.day_le (h : d.Valid) : d.day ≤ 31 := h.2.trans (daysInMonth_le _ _)

/-- A date comes before all later months. -/
theorem Valid.le_daysBeforeMonth (h : d.Valid) {month : Nat} (hlt : d.month < month) :
    daysBeforeMonth (isLeapYear d.year) d.month + d.day ≤
      daysBeforeMonth (isLeapYear d.year) month :=
  (Nat.add_le_add_left h.2 _).trans (daysBeforeMonth_mono _ hlt)

theorem Valid.startOfYear_le (h : d.Valid) : startOfYear d.year ≤ d.dayNumber := by
  have hday := h.1
  rw [dayNumber_eq]
  omega

/-- A date comes before all later years. -/
theorem Valid.lt_startOfYear (h : d.Valid) {year : Int} (hlt : d.year < year) :
    d.dayNumber < startOfYear year := by
  have hmonth := h.le_daysBeforeMonth (Nat.lt_succ_of_le h.month_le)
  have hnext := startOfYear_mono (Int.add_one_le_of_lt hlt)
  rw [daysBeforeMonth_thirteen] at hmonth
  rw [startOfYear_add_one] at hnext
  rw [dayNumber_eq]
  omega

/-! ### The order of dates -/

/-- A date is before another if its year is, or its month in the same year, or its day in the same
month. -/
instance : LT Date where
  lt d d' := d.year < d'.year ∨
    d.year = d'.year ∧ (d.month < d'.month ∨ d.month = d'.month ∧ d.day < d'.day)

theorem lt_iff : d < d' ↔ d.year < d'.year ∨
    d.year = d'.year ∧ (d.month < d'.month ∨ d.month = d'.month ∧ d.day < d'.day) := Iff.rfl

theorem lt_trichotomy (d d' : Date) : d < d' ∨ d = d' ∨ d' < d := by
  obtain ⟨year, month, day⟩ := d
  obtain ⟨year', month', day'⟩ := d'
  simp only [lt_iff, mk.injEq]
  omega

/-- A later date has a greater number. -/
theorem dayNumber_lt (h : d.Valid) (h' : d'.Valid) (hlt : d < d') :
    d.dayNumber < d'.dayNumber := by
  rcases hlt with hyear | ⟨hyear, hmonth | ⟨hmonth, hday⟩⟩
  · exact (h.lt_startOfYear hyear).trans_le h'.startOfYear_le
  · have hle := h.le_daysBeforeMonth hmonth
    have hday' := h'.1
    rw [dayNumber_eq, dayNumber_eq, ← hyear]
    omega
  · rw [dayNumber_eq, dayNumber_eq, ← hyear, ← hmonth]
    omega

/-- A date whose number is not greater is the same date or an earlier one. -/
theorem eq_or_lt_of_dayNumber_le (h : d.Valid) (h' : d'.Valid)
    (hle : d.dayNumber ≤ d'.dayNumber) : d = d' ∨ d < d' := by
  rcases lt_trichotomy d d' with hlt | heq | hgt
  · exact .inr hlt
  · exact .inl heq
  · exact absurd (dayNumber_lt h' h hgt) hle.not_gt

theorem eq_of_dayNumber_eq (h : d.Valid) (h' : d'.Valid) (heq : d.dayNumber = d'.dayNumber) :
    d = d' := by
  rcases eq_or_lt_of_dayNumber_le h h' heq.le with hsame | hlt
  · exact hsame
  · exact absurd (dayNumber_lt h h' hlt) heq.not_lt

/-! ### Dates of numbers -/

/-- The date behind the given number of days of a year. -/
def ofDayOfYear (year : Int) (dayOfYear : Nat) : Date :=
  let leap := isLeapYear year
  let month := greatestBelow (daysBeforeMonth leap · ≤ dayOfYear) 12
  ⟨year, month, dayOfYear - daysBeforeMonth leap month + 1⟩

/-- Every day of a year is a day of one of its months. -/
theorem ofDayOfYear_spec {year : Int} {dayOfYear : Nat}
    (h : dayOfYear < daysInYear (isLeapYear year)) :
    (ofDayOfYear year dayOfYear).Valid ∧
      (ofDayOfYear year dayOfYear).dayNumber = startOfYear year + dayOfYear := by
  rw [← daysBeforeMonth_thirteen] at h
  obtain ⟨-, hle, hlt⟩ := greatestBelow_between (Nat.zero_le dayOfYear) h
  rw [dayNumber_eq]
  simp only [ofDayOfYear, Valid]
  rw [daysBeforeMonth] at hlt
  omega

/-- Every day is a day of one of the years. -/
theorem exists_ofDayNumber_eq (n : Int) :
    ∃ (year : Int) (dayOfYear : Nat), dayOfYear < daysInYear (isLeapYear year) ∧
      startOfYear year + dayOfYear = n ∧ ofDayNumber n = ofDayOfYear year dayOfYear := by
  have hcycle : (n % daysPerCycle).toNat < daysBeforeYear (399 + 1) := by
    have hdays : daysBeforeYear (399 + 1) = 146097 := rfl
    rw [hdays, daysPerCycle]
    omega
  obtain ⟨hyear, hle, hlt⟩ := greatestBelow_between (f := daysBeforeYear) (Nat.zero_le _) hcycle
  have hdays : n / daysPerCycle * daysPerCycle + (n % daysPerCycle).toNat = n := by
    rw [daysPerCycle]
    omega
  have hstart := startOfYear_of_le (hyear.trans (Nat.le_succ 399)) (n / daysPerCycle)
  have hnext := startOfYear_of_le (Nat.add_le_add_right hyear 1) (n / daysPerCycle)
  rw [Int.natCast_add, ← Int.add_assoc] at hnext
  have hlength := (startOfYear_add_one _).symm.trans hnext
  exact ⟨_, _, by omega, by omega, rfl⟩

theorem ofDayNumber_valid (n : Int) : (ofDayNumber n).Valid := by
  obtain ⟨year, dayOfYear, hlt, -, heq⟩ := exists_ofDayNumber_eq n
  rw [heq]
  exact (ofDayOfYear_spec hlt).1

@[simp] theorem dayNumber_ofDayNumber (n : Int) : (ofDayNumber n).dayNumber = n := by
  obtain ⟨year, dayOfYear, hlt, hn, heq⟩ := exists_ofDayNumber_eq n
  rw [heq, (ofDayOfYear_spec hlt).2, hn]

theorem ofDayNumber_dayNumber (h : d.Valid) : ofDayNumber d.dayNumber = d :=
  eq_of_dayNumber_eq (ofDayNumber_valid _) h (dayNumber_ofDayNumber _)

/-! ### Days one after another -/

/-- The day after a date. -/
def next (d : Date) : Date :=
  if d.day < daysInMonth (isLeapYear d.year) d.month then ⟨d.year, d.month, d.day + 1⟩
  else if d.month < 12 then ⟨d.year, d.month + 1, 1⟩
  else ⟨d.year + 1, 1, 1⟩

/-- The day after a day of the calendar is one, and has the number behind its own. -/
theorem next_spec (h : d.Valid) : d.next.Valid ∧ d.next.dayNumber = d.dayNumber + 1 := by
  rw [next]
  split_ifs with hday hmonth
  · refine ⟨⟨Nat.le_add_left 1 _, hday⟩, ?_⟩
    rw [dayNumber_eq, dayNumber_eq]
    push_cast
    omega
  -- Behind the last day of a month comes the first one of the next month or of the next year.
  · have hlast : d.day = daysInMonth (isLeapYear d.year) d.month := h.2.antisymm (not_lt.mp hday)
    refine ⟨⟨Nat.le_refl 1, (daysInMonth_pos_iff _ _).mpr ⟨Nat.le_add_left 1 _, hmonth⟩⟩, ?_⟩
    rw [dayNumber_eq, dayNumber_eq, daysBeforeMonth]
    push_cast
    omega
  · have hlast : d.day = daysInMonth (isLeapYear d.year) d.month := h.2.antisymm (not_lt.mp hday)
    have hdecember : d.month = 12 := h.month_le.antisymm (not_lt.mp hmonth)
    refine ⟨⟨Nat.le_refl 1, (daysInMonth_pos_iff _ _).mpr ⟨Nat.le_refl 1, ?_⟩⟩, ?_⟩
    · exact Nat.le_add_left 1 11
    have hyear := daysBeforeMonth_thirteen (isLeapYear d.year)
    rw [daysBeforeMonth, ← hdecember] at hyear
    have hfirst : daysBeforeMonth (isLeapYear (d.year + 1)) 1 = 0 := rfl
    rw [dayNumber_eq, dayNumber_eq, startOfYear_add_one, hfirst]
    push_cast
    omega

/-- The number behind that of a date is that of the day after. -/
theorem ofDayNumber_add_one (n : Int) : ofDayNumber (n + 1) = (ofDayNumber n).next := by
  obtain ⟨hvalid, hnumber⟩ := next_spec (ofDayNumber_valid n)
  rw [dayNumber_ofDayNumber] at hnumber
  rw [← hnumber, ofDayNumber_dayNumber hvalid]

/-- The days are counted so that this one has its number. -/
example : ofDayNumber unixEpochDay = ⟨1970, 1, 1⟩ := by decide

end Date

end Folio
