/-
# Dates of the proleptic Gregorian calendar

A date is a year, a month and a day of the month; its day number counts from the first of
January 1970. Both directions are sums of whole years and months, without a search: a year
begins 365 days after the one before it, one day later behind a leap year.
-/

namespace Rollup.Calendar

/-- A year, a month from 1 to 12 and a day from 1. -/
structure Date where
  year : Int
  month : Nat
  day : Nat
  deriving DecidableEq, Repr, Inhabited

/-- Every fourth year is a leap year, of the full centuries only every fourth. -/
def isLeap (year : Int) : Bool :=
  year % 4 = 0 && (year % 100 ≠ 0 || year % 400 = 0)

/-- Days between the first of January of the year 1 and that of another year. -/
def daysBeforeYear (year : Int) : Int :=
  365 * (year - 1) + (year - 1) / 4 - (year - 1) / 100 + (year - 1) / 400

/-- Days between the first of January of the year 1 and that of 1970. -/
def daysBeforeEpoch : Int := 719162

/-- Days of a year before each of its months. -/
def daysBeforeMonth (leap : Bool) (month : Nat) : Nat :=
  let common := [0, 31, 59, 90, 120, 151, 181, 212, 243, 273, 304, 334, 365]
  common.getD (month - 1) 365 + if leap && 2 < month then 1 else 0

/-- The length of a month. -/
def daysInMonth (year : Int) (month : Nat) : Nat :=
  daysBeforeMonth (isLeap year) (month + 1) - daysBeforeMonth (isLeap year) month

/-- The years that have dates. -/
def firstYear : Int := -262143

def lastYear : Int := 262142

namespace Date

/-- A date that exists. -/
def isValid (d : Date) : Bool :=
  firstYear ≤ d.year && d.year ≤ lastYear && 1 ≤ d.month && d.month ≤ 12 && 1 ≤ d.day &&
    d.day ≤ daysInMonth d.year d.month

/-- The date with these parts, if it exists. -/
def of? (year : Int) (month day : Nat) : Option Date :=
  let d : Date := ⟨year, month, day⟩
  if d.isValid then some d else none

/-- Days since the first of January 1970. -/
def dayNumber (d : Date) : Int :=
  daysBeforeYear d.year + daysBeforeMonth (isLeap d.year) d.month + (d.day - 1) - daysBeforeEpoch

/-- The year in which a day lies, counted in days from the first of January of the year 1. The
quotient by the mean length of a year is off by one at most. -/
def yearOfDay (days : Int) : Int :=
  let estimate := 400 * days / 146097 + 1
  if daysBeforeYear (estimate + 1) ≤ days then estimate + 1
  else if days < daysBeforeYear estimate then estimate - 1
  else estimate

/-- The month in which a day of a year lies, the first day being zero. -/
def monthOfDay (leap : Bool) (day : Nat) : Nat :=
  ((List.range 12).filter fun m => daysBeforeMonth leap (m + 1) ≤ day).length

/-- The date of a day number. -/
def ofDayNumber (n : Int) : Date :=
  let days := n + daysBeforeEpoch
  let year := yearOfDay days
  let day := (days - daysBeforeYear year).toNat
  let month := monthOfDay (isLeap year) day
  ⟨year, month, day - daysBeforeMonth (isLeap year) month + 1⟩

/-- The first and the last day number that have a date. -/
def firstDayNumber : Int := dayNumber ⟨firstYear, 1, 1⟩

def lastDayNumber : Int := dayNumber ⟨lastYear, 12, 31⟩

/-- Days since the last Monday. The first of January 1970 was a Thursday. -/
def daysSinceMonday (n : Int) : Int := (n + 3) % 7

/-- The same day some months later or earlier, moved to the end of a month that is too short. -/
def addMonths? (d : Date) (months : Int) : Option Date :=
  let total := 12 * d.year + (d.month - 1) + months
  let year := total / 12
  let month := (total % 12).toNat + 1
  of? year month (min d.day (daysInMonth year month))

/-- The year that is found for a day has begun by then and has not ended. -/
theorem yearOfDay_spec (days : Int) :
    daysBeforeYear (yearOfDay days) ≤ days ∧ days < daysBeforeYear (yearOfDay days + 1) := by
  unfold yearOfDay
  simp only
  split
  · rename_i h
    refine ⟨h, ?_⟩
    unfold daysBeforeYear at *
    omega
  · rename_i h
    split
    · rename_i h'
      refine ⟨?_, ?_⟩
      · unfold daysBeforeYear at *
        omega
      · simpa using h'
    · rename_i h'
      omega

end Date
end Rollup.Calendar
