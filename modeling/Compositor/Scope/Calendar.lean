/-!
# Date and time

The clock of a run, at a precision of minutes, in the Gregorian calendar extended to all years. A date may be
given with a day, month, hour or minute out of range; it is then carried over to the next larger unit.
-/

namespace Compositor

/-- A date and a time of day. -/
structure Moment where
  year : Int
  month : Int
  day : Int
  hour : Int
  minute : Int
deriving DecidableEq, Repr

namespace Moment

/-- The days from the start of the year 0 to the first of March of a year. -/
def daysBeforeMarch (year : Int) : Int :=
  365 * year + Int.fdiv year 4 - Int.fdiv year 100 + Int.fdiv year 400

/-- The number of a day, counted from a fixed one, for a month in range. Years are taken to begin in March, so
that the leap day is their last. -/
def dayNumber (year month day : Int) : Int :=
  let shifted := if month > 2 then month - 3 else month + 9
  let year := if month > 2 then year else year - 1
  daysBeforeMarch year + Int.fdiv (153 * shifted + 2) 5 + day

def ofDayNumber (n : Int) : Int × Int × Int :=
  let day := n - 1
  let era := Int.fdiv day 146097
  let dayOfEra := day - era * 146097
  let yearOfEra :=
    Int.fdiv (dayOfEra - Int.fdiv dayOfEra 1460 + Int.fdiv dayOfEra 36524 - Int.fdiv dayOfEra 146096) 365
  let dayOfYear := dayOfEra - (365 * yearOfEra + Int.fdiv yearOfEra 4 - Int.fdiv yearOfEra 100)
  let shifted := Int.fdiv (5 * dayOfYear + 2) 153
  let month := if shifted < 10 then shifted + 3 else shifted - 9
  let year := yearOfEra + era * 400
  (if month ≤ 2 then year + 1 else year, month, dayOfYear - Int.fdiv (153 * shifted + 2) 5 + 1)

def normalize (m : Moment) : Moment :=
  let months := m.month - 1
  let minutes := m.hour * 60 + m.minute
  let number := dayNumber (m.year + Int.fdiv months 12) (Int.fmod months 12 + 1) 1 + (m.day - 1) +
    Int.fdiv minutes 1440
  let (year, month, day) := ofDayNumber number
  let minutes := Int.fmod minutes 1440
  ⟨year, month, day, Int.fdiv minutes 60, Int.fmod minutes 60⟩

/-- The start of the calendar, which stands for an unknown moment. -/
def unknown : Moment := ⟨1, 1, 1, 0, 0⟩

/-- The moment which is taken if none is known: noon of July 4, 1776. -/
def standard : Moment := ⟨1776, 7, 4, 12, 0⟩

def shown (m : Moment) : Moment :=
  let m := m.normalize
  if m = unknown then standard else m

def time (m : Moment) : Int := m.hour * 60 + m.minute

end Moment

end Compositor
