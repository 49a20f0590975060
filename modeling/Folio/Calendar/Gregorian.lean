/-!
# The proleptic Gregorian calendar

Dates in the Gregorian calendar, carried back before its introduction and on either side without
end. Days are numbered from 1 January of the year 0, and the calendar repeats every 400 years.

## Main definitions

* `Date`, `DateTime` — a date, and a date with a time of day
* `Date.Valid`, `DateTime.Valid` — the calendar and the clock have it
* `Date.dayNumber`, `Date.ofDayNumber` — dates as numbers of days
* `Timestamp` — seconds since the start of 1970, as file systems keep them
* `DateTime.ofTimestamp` — the date and time of a timestamp, in universal time
* `LocalTime` — the date and time of a timestamp, as a host tells it
-/

namespace Folio

/-- Every fourth year is a leap year, but of the years that end a century only every fourth. -/
def isLeapYear (year : Int) : Bool :=
  year % 4 == 0 && (year % 100 != 0 || year % 400 == 0)

/-- The number of days in a month, and zero for what is no month. -/
def daysInMonth (leap : Bool) : (month : Nat) → Nat
  | 1 | 3 | 5 | 7 | 8 | 10 | 12 => 31
  | 4 | 6 | 9 | 11 => 30
  | 2 => if leap then 29 else 28
  | _ => 0

/-- A day of the calendar, with the month and the day counted from one. -/
structure Date where
  /-- The year, with the year before the year 1 counted as 0. -/
  year : Int
  /-- The month, from 1 to 12. -/
  month : Nat
  /-- The day of the month, from 1. -/
  day : Nat
deriving DecidableEq, Repr, Inhabited

/-- A date that the calendar has. -/
def Date.Valid (d : Date) : Prop :=
  1 ≤ d.day ∧ d.day ≤ daysInMonth (isLeapYear d.year) d.month

instance (d : Date) : Decidable d.Valid := inferInstanceAs (Decidable (_ ∧ _))

/-- The number of days in the first `n` years of a cycle of 400 years. -/
def daysBeforeYear (n : Nat) : Nat := 365 * n + (n + 3) / 4 - (n + 99) / 100 + (n + 399) / 400

/-- The number of days in the months before the given one. -/
def daysBeforeMonth (leap : Bool) : (month : Nat) → Nat
  | 0 => 0
  | month + 1 => daysBeforeMonth leap month + daysInMonth leap month

/-- The greatest number up to `n` with a property, or zero if none has it. -/
def greatestBelow (p : Nat → Bool) : (n : Nat) → Nat
  | 0 => 0
  | n + 1 => if p (n + 1) then n + 1 else greatestBelow p n

/-- The days in a cycle of 400 years. -/
def daysPerCycle : Nat := 146097

/-- The number of days from 1 January of the year 0 to the given date. -/
def Date.dayNumber (d : Date) : Int :=
  d.year / 400 * daysPerCycle + daysBeforeYear (d.year % 400).toNat
    + daysBeforeMonth (isLeapYear d.year) d.month + d.day - 1

/-- The date at the given number of days from 1 January of the year 0. -/
def Date.ofDayNumber (n : Int) : Date :=
  let dayOfCycle := (n % daysPerCycle).toNat
  let yearOfCycle := greatestBelow (fun k => daysBeforeYear k ≤ dayOfCycle) 399
  let year := n / daysPerCycle * 400 + yearOfCycle
  let leap := isLeapYear year
  let dayOfYear := dayOfCycle - daysBeforeYear yearOfCycle
  let month := greatestBelow (fun k => daysBeforeMonth leap k ≤ dayOfYear) 12
  ⟨year, month, dayOfYear - daysBeforeMonth leap month + 1⟩

/-- A date with a time of day. -/
structure DateTime extends Date where
  /-- The hour, from 0 to 23. -/
  hour : Nat
  /-- The minute, from 0 to 59. -/
  minute : Nat
  /-- The second, from 0 to 59. -/
  second : Nat
  /-- The part of the second that has passed. In a leap second it reaches beyond one second. -/
  nanosecond : Nat
deriving DecidableEq, Repr, Inhabited

/-- A date and time that the calendar and the clock have. -/
def DateTime.Valid (t : DateTime) : Prop :=
  t.toDate.Valid ∧ t.hour < 24 ∧ t.minute < 60 ∧ t.second < 60 ∧ t.nanosecond < 2000000000

instance (t : DateTime) : Decidable t.Valid := inferInstanceAs (Decidable (_ ∧ _))

/-- A point in time: whole seconds since the start of 1970 in universal time, and nanoseconds
after them. -/
structure Timestamp where
  /-- Whole seconds, negative before 1970. -/
  seconds : Int
  /-- Nanoseconds after the whole second. -/
  nanoseconds : Nat
deriving DecidableEq, Repr, Inhabited

/-- The number of the first day of 1970. -/
def unixEpochDay : Nat := 719528

/-- The date and time of a point in time, in universal time. -/
def DateTime.ofTimestamp (t : Timestamp) : DateTime :=
  let secondOfDay := (t.seconds % 86400).toNat
  { Date.ofDayNumber (t.seconds / 86400 + unixEpochDay) with
    hour := secondOfDay / 3600
    minute := secondOfDay / 60 % 60
    second := secondOfDay % 60
    nanosecond := t.nanoseconds }

/-- The whole seconds from the start of 1970 to the given date and time in universal time. -/
def DateTime.unixSeconds (t : DateTime) : Int :=
  (t.toDate.dayNumber - unixEpochDay) * 86400 + t.hour * 3600 + t.minute * 60 + t.second

/-- The clocks of a host. In which zone they go and when they are changed is for the host to say. -/
class LocalTime where
  /-- The date and time that they show at a point in time. -/
  dateTime : Timestamp → DateTime

end Folio
