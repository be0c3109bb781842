/-!
# Dates

A moment given in seconds since the start of 1970 is shown as a date and a time of day, both in
universal time. Years are counted from March on, so that the leap day comes last and the months
before a day follow from one linear formula.
-/

namespace Reckon

namespace Clock

/-- A day of the calendar. -/
structure Date where
  year : Nat
  month : Nat
  day : Nat
deriving DecidableEq, Repr

/-- The date that is `days` days after the first of January 1970. -/
def dateOfDays (days : Nat) : Date :=
  let shifted := days + 719468
  let cycle := shifted / 146097
  let dayOfCycle := shifted % 146097
  let yearOfCycle :=
    (dayOfCycle - dayOfCycle / 1460 + dayOfCycle / 36524 - dayOfCycle / 146096) / 365
  let dayOfYear := dayOfCycle - (365 * yearOfCycle + yearOfCycle / 4 - yearOfCycle / 100)
  let marchMonth := (5 * dayOfYear + 2) / 153
  let month := if marchMonth < 10 then marchMonth + 3 else marchMonth - 9
  { year := yearOfCycle + cycle * 400 + (if month ≤ 2 then 1 else 0)
    month := month
    day := dayOfYear - (153 * marchMonth + 2) / 5 + 1 }

/-- The short name of a month. -/
def monthName (month : Nat) : String :=
  (["Jan", "Feb", "Mar", "Apr", "May", "Jun", "Jul", "Aug", "Sep", "Oct", "Nov",
    "Dec"][month - 1]?).getD ""

/-- A number with at least two digits. -/
def twoDigits (n : Nat) : String := if n < 10 then "0" ++ n.repr else n.repr

/-- A moment as date and time of day. -/
def stamp (seconds : Nat) : String :=
  let date := dateOfDays (seconds / 86400)
  let time := seconds % 86400
  monthName date.month ++ " " ++ twoDigits date.day ++ " " ++ date.year.repr ++ ", "
    ++ twoDigits (time / 3600) ++ ":" ++ twoDigits (time / 60 % 60) ++ ":" ++ twoDigits (time % 60)

example : stamp 0 = "Jan 01 1970, 00:00:00" := by decide +kernel

example : stamp 951827696 = "Feb 29 2000, 12:34:56" := by decide +kernel

end Clock

end Reckon
