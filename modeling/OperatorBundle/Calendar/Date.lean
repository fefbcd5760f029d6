/-!
# Dates

Days of the Gregorian calendar, extended to all years before and after, and their numbers counted
from the first of January 1970.
-/

namespace OperatorBundle.Calendar

/-- A date; the year zero stands before the year one. -/
structure Date where
  year : Int
  month : Nat
  day : Nat
deriving DecidableEq, Repr, Inhabited

/-- Has this year a twenty-ninth of February? -/
def isLeap (year : Int) : Bool :=
  (year % 4 == 0 && year % 100 != 0) || year % 400 == 0

/-- The number of days of a month. -/
def daysOfMonth (year : Int) (month : Nat) : Nat :=
  match month with
  | 2 => if isLeap year then 29 else 28
  | 4 | 6 | 9 | 11 => 30
  | _ => 31

namespace Date

/-- Is there such a day? -/
def isValid (d : Date) : Bool :=
  1 ≤ d.month && d.month ≤ 12 && 1 ≤ d.day && d.day ≤ daysOfMonth d.year d.month

/-- The number of a day.  Years are counted from March, so that a leap day is the last of its year;
400 years have 146097 days. -/
def dayNumber (d : Date) : Int :=
  let year := if d.month ≤ 2 then d.year - 1 else d.year
  let era := year / 400
  let yearOfEra := year % 400
  let dayOfYear : Int := (153 * ((d.month + 9) % 12) + 2) / 5 + (d.day - 1)
  146097 * era + (365 * yearOfEra + yearOfEra / 4 - yearOfEra / 100 + dayOfYear) - 719468

/-- The day with a number. -/
def ofDayNumber (n : Int) : Date :=
  let n := n + 719468
  let era := n / 146097
  let dayOfEra := n % 146097
  let yearOfEra := (dayOfEra - dayOfEra / 1460 + dayOfEra / 36524 - dayOfEra / 146096) / 365
  let dayOfYear := dayOfEra - (365 * yearOfEra + yearOfEra / 4 - yearOfEra / 100)
  let march := (5 * dayOfYear + 2) / 153
  let day := dayOfYear - (153 * march + 2) / 5 + 1
  let month := if march < 10 then march + 3 else march - 9
  let year := 400 * era + yearOfEra + if month ≤ 2 then 1 else 0
  ⟨year, month.toNat, day.toNat⟩

example : ofDayNumber 0 = ⟨1970, 1, 1⟩ := by decide
example : ofDayNumber (-1) = ⟨1969, 12, 31⟩ := by decide
example : (⟨2000, 2, 29⟩ : Date).dayNumber = 11016 := by decide

end Date

end OperatorBundle.Calendar
