/-
# Instants

An instant is a second since the first of January 1970 and nanoseconds within it. A leap
second is the second before it with a thousand million nanoseconds more. Instants exist
for the years that have dates.
-/

import Rollup.Calendar.Date

namespace Rollup.Calendar

structure Instant where
  second : Int
  nano : Nat
  deriving DecidableEq, Repr, Inhabited

def secondsPerDay : Int := 86400

def nanosPerSecond : Nat := 1000000000

/-- The units in which an instant can be moved or rounded. -/
inductive TimeUnit where
  | year
  | month
  | week
  | day
  | hour
  | minute
  | second
  deriving DecidableEq, Repr

namespace TimeUnit

/-- The letter of a unit; hours have two. -/
def ofLetter? : Char → Option TimeUnit
  | 'y' => some year
  | 'M' => some month
  | 'w' => some week
  | 'd' => some day
  | 'h' => some hour
  | 'H' => some hour
  | 'm' => some minute
  | 's' => some second
  | _ => none

/-- The length of a unit: seconds that are always the same, or months that are not. -/
inductive Length where
  | seconds (n : Int)
  | months (n : Int)

def length : TimeUnit → Length
  | year => .months 12
  | month => .months 1
  | week => .seconds 604800
  | day => .seconds 86400
  | hour => .seconds 3600
  | minute => .seconds 60
  | second => .seconds 1

end TimeUnit

namespace Instant

/-- The first and the last second that have a date. -/
def firstSecond : Int := Date.firstDayNumber * secondsPerDay

def lastSecond : Int := (Date.lastDayNumber + 1) * secondsPerDay - 1

/-- An instant, if its second has a date. -/
def of? (second : Int) (nano : Nat) : Option Instant :=
  if firstSecond ≤ second ∧ second ≤ lastSecond then some ⟨second, nano⟩ else none

/-- The day number of an instant. -/
def dayNumber (t : Instant) : Int := t.second / secondsPerDay

/-- The second of the day of an instant. -/
def secondOfDay (t : Instant) : Int := t.second % secondsPerDay

/-- The date of an instant. -/
def date (t : Instant) : Date := Date.ofDayNumber t.dayNumber

/-- Midnight at the start of a date. -/
def midnight (d : Date) : Instant := ⟨d.dayNumber * secondsPerDay, 0⟩

/-- Whole milliseconds since the first of January 1970. -/
def millis (t : Instant) : Int := t.second * 1000 + (t.nano / 1000000 : Nat)

/-- The instant of a number of milliseconds. -/
def ofMillis? (ms : Int) : Option Instant :=
  of? (ms / 1000) ((ms % 1000).toNat * 1000000)

/-- Move an instant by whole seconds. A leap second is left as soon as the instant moves: forward
as if from the second before it, backward as if from the second behind it. -/
def addSeconds? (t : Instant) (seconds : Int) : Option Instant :=
  if seconds = 0 then some t
  else if t.nano < nanosPerSecond then of? (t.second + seconds) t.nano
  else
    let start := if 0 < seconds then t.second else t.second + 1
    of? (start + seconds) (t.nano - nanosPerSecond)

/-- Move an instant by months, the time of day staying as it is. -/
def addMonths? (t : Instant) (months : Int) : Option Instant :=
  (t.date.addMonths? months).map fun d => ⟨d.dayNumber * secondsPerDay + t.secondOfDay, t.nano⟩

/-- Move an instant by an amount of some unit. -/
def shift? (t : Instant) (amount : Int) (unit : TimeUnit) : Option Instant :=
  match unit.length with
  | .seconds n => t.addSeconds? (amount * n)
  | .months n => t.addMonths? (amount * n)

/-- The start of the unit in which an instant lies. Weeks start on Monday. -/
def floor? (t : Instant) (unit : TimeUnit) : Option Instant :=
  let d := t.date
  match unit with
  | .year => (Date.of? d.year 1 1).map midnight
  | .month => (Date.of? d.year d.month 1).map midnight
  | .week =>
      let n := t.dayNumber
      of? ((n - Date.daysSinceMonday n) * secondsPerDay) 0
  | .day => some (midnight d)
  | .hour => of? (t.second - t.second % 3600) 0
  | .minute => of? (t.second - t.second % 60) 0
  | .second => of? t.second 0

end Instant

/-! ## Months as numbers

The month of a year is also written as one integer, a hundred times the year plus the month. -/

/-- Months since January of the year zero of a month written as one integer. -/
def monthIndex (yearMonth : Int) : Int :=
  yearMonth / 100 * 12 + yearMonth % 100 - 1

/-- The month at an index, written as one integer. -/
def yearMonthAt (index : Int) : Int :=
  index / 12 * 100 + index % 12 + 1

/-- The start of a month written as one integer, in milliseconds. -/
def millisOfYearMonth? (yearMonth : Int) : Option Int :=
  (Date.of? (yearMonth / 100) (yearMonth % 100).toNat 1).map fun d => (Instant.midnight d).millis

/-- The month of an instant given in milliseconds, as one integer. -/
def yearMonthOfMillis? (ms : Int) : Option Int :=
  (Instant.ofMillis? ms).map fun t => t.date.year * 100 + t.date.month

theorem monthIndex_yearMonthAt (index : Int) : monthIndex (yearMonthAt index) = index := by
  unfold monthIndex yearMonthAt
  omega

end Rollup.Calendar
