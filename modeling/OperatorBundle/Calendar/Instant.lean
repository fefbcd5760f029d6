import OperatorBundle.Calendar.Date

/-!
# Instants

Points in time and how they are stamped on a bundle: date and time of day in coordinated universal
time, to the second.
-/

namespace OperatorBundle.Calendar

/-- A point in time.  A thousand million nanoseconds and more stand for a second that is inserted
behind the one that the count of seconds names. -/
structure Instant where
  /-- Seconds since the beginning of 1970. -/
  seconds : Int
  nanoseconds : Nat := 0
deriving DecidableEq, Repr, Inhabited

/-- The seconds of a day. -/
def secondsOfDay : Nat := 86400

/-- The years that a clock can show. -/
def isShownYear (year : Int) : Bool := -262143 ≤ year && year ≤ 262142

namespace Instant

/-- The point in time of a date and time of day; `none` if there is no such date or time, or no
clock shows it. -/
def at? (date : Date) (hour minute second : Nat) : Option Instant :=
  if isShownYear date.year && date.isValid && hour < 24 && minute < 60 && second < 60 then
    some ⟨date.dayNumber * secondsOfDay + (3600 * hour + 60 * minute + second : Nat), 0⟩
  else none

/-- The date of an instant. -/
def date (t : Instant) : Date := .ofDayNumber (t.seconds / secondsOfDay)

/-- The seconds of its day before an instant. -/
def secondOfDay (t : Instant) : Nat := (t.seconds % secondsOfDay).toNat

end Instant

/-- The decimal digits of a number, with zeros in front up to `width`. -/
def padded (width n : Nat) : String :=
  let digits := Nat.toDigits 10 n
  String.ofList (List.replicate (width - digits.length) '0' ++ digits)

/-- The text of a year: four digits, and a sign in front of years that need more or lie before the
year zero. -/
def yearText (year : Int) : String :=
  if year < 0 then "-" ++ padded 4 year.natAbs
  else if 9999 < year then "+" ++ padded 4 year.natAbs
  else padded 4 year.natAbs

/-- The stamp of an instant, such as `2024-01-02T03:04:05Z`.  An inserted second is the sixtieth. -/
def Instant.stamp (t : Instant) : String :=
  let date := t.date
  let s := t.secondOfDay
  yearText date.year ++ "-" ++ padded 2 date.month ++ "-" ++ padded 2 date.day ++ "T" ++
    padded 2 (s / 3600) ++ ":" ++ padded 2 (s / 60 % 60) ++ ":" ++
    padded 2 (s % 60 + t.nanoseconds / 1000000000) ++ "Z"

example : (⟨1704164645, 0⟩ : Instant).stamp = "2024-01-02T03:04:05Z" := by decide +kernel
example : (⟨59, 1500000000⟩ : Instant).stamp = "1970-01-01T00:00:60Z" := by decide +kernel

end OperatorBundle.Calendar
