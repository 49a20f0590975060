import Folio.Calendar.Gregorian

/-!
# Packed dates and times

The form in which archives keep the time of the last modification: two 16-bit words that hold the
years 1980 to 2107 to a precision of two seconds.

## Main definitions

* `DosTime` — the two words
* `DosTime.ofDateTime` — packs a date and time, moving what lies outside to the nearest end
* `DosTime.toDateTime?` — unpacks the words if the fields are a date and time
* `DosTime.epoch`, `DosTime.last` — the two ends of the range
-/

namespace Folio

/-- A packed date and time. -/
structure DosTime where
  /-- Seven bits for the years since 1980, four for the month, five for the day. -/
  date : UInt16
  /-- Five bits for the hour, six for the minute, five for half the second. -/
  time : UInt16
deriving DecidableEq, Repr

namespace DosTime

/-- The word for a date, from the years since 1980. -/
def packDate (years month day : Nat) : UInt16 := UInt16.ofNat (years * 512 + month * 32 + day)

/-- The word for a time of day. -/
def packTime (hour minute second : Nat) : UInt16 :=
  UInt16.ofNat (hour * 2048 + minute * 32 + second / 2)

/-- The start of 1980, the earliest packed time. -/
def epoch : DosTime := ⟨packDate 0 1 1, packTime 0 0 0⟩

/-- The end of 2107, the latest packed time. -/
def last : DosTime := ⟨packDate 127 12 31, packTime 23 59 58⟩

instance : Inhabited DosTime := ⟨epoch⟩

/-- Packs a date and time. What lies before or after the range becomes its first or last time. -/
def ofDateTime (t : DateTime) : DosTime :=
  if t.year < 1980 then epoch
  else if 2107 < t.year then last
  else ⟨packDate (t.year - 1980).toNat t.month t.day, packTime t.hour t.minute t.second⟩

/-- Packs what the clocks of the host show at a point in time. -/
def ofTimestamp [LocalTime] (t : Timestamp) : DosTime := ofDateTime (LocalTime.dateTime t)

/-- The fields of the two words, whether or not they are a date and time. -/
def fields (t : DosTime) : DateTime where
  year := 1980 + t.date.toNat / 512
  month := t.date.toNat / 32 % 16
  day := t.date.toNat % 32
  hour := t.time.toNat / 2048
  minute := t.time.toNat / 32 % 64
  second := t.time.toNat % 32 * 2
  nanosecond := 0

/-- The date and time that the words hold, if their fields are one. -/
def toDateTime? (t : DosTime) : Option DateTime :=
  if t.fields.Valid then some t.fields else none

end DosTime

end Folio
