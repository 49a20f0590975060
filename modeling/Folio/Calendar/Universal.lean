import Folio.Calendar.Gregorian

/-!
# Universal time

The time that this library goes by unless a host says otherwise.
-/

namespace Folio

/-- Clocks that show universal time. -/
instance : LocalTime where
  dateTime := DateTime.ofTimestamp

end Folio
