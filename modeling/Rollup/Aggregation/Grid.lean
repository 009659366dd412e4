/-
# Intervals and their grids

A date interval is a fixed number of seconds, or one, three or twelve calendar months. Its
buckets are values that the statement computes: seconds, or months written as one integer.
A grid numbers the buckets, so that every bucket between two others can be visited.
-/

import Rollup.Calendar.Expression
import Rollup.Cell
import Rollup.Statement.Quoting

namespace Rollup

/-- Equally spaced buckets, or buckets of some months each. -/
inductive Grid where
  | linear (width offset : Binary64)
  | months (n : Int)
  deriving DecidableEq

namespace Grid

/-- The index of a value that lies on the grid. -/
def indexOf : Grid → Binary64 → Int
  | linear width offset, raw => ((raw - offset) / width).toInt64 Binary64.roundHalfAway
  | months n, raw => Calendar.monthIndex (raw.toInt64 Binary64.truncate) / n

/-- The index of the bucket that holds a value. -/
def floorIndex : Grid → Binary64 → Int
  | linear width offset, raw => ((raw - offset) / width).toInt64 Rat.floor
  | months n, raw => indexOf (months n) raw

/-- The value at an index. -/
def valueAt : Grid → Int → Json
  | linear width offset, index => Json.ofBinary64 (Binary64.ofInt index * width + offset)
  | months n, index => Json.ofInt (Calendar.yearMonthAt (index * n))

end Grid

/-- An interval of time. -/
inductive DateInterval where
  /-- Buckets of some seconds, one of which starts at the offset. -/
  | seconds (width offset : Int)
  | months (n : Int)
  deriving DecidableEq

namespace DateInterval

/-- Weeks start on Monday; the first one in 1970 was the fifth of January. -/
def weekOffset : Int := 345600

/-- The interval of a calendar unit. -/
def calendar? (text : String) : Option DateInterval :=
  [("1m", seconds 60 0), ("minute", seconds 60 0),
    ("1h", seconds 3600 0), ("hour", seconds 3600 0),
    ("1d", seconds 86400 0), ("day", seconds 86400 0),
    ("1w", seconds 604800 weekOffset), ("week", seconds 604800 weekOffset),
    ("1M", months 1), ("month", months 1),
    ("1q", months 3), ("quarter", months 3),
    ("1y", months 12), ("year", months 12)].lookup text

/-- The interval of a fixed length, which is a whole number of seconds. -/
def fixed? (text : String) : Option DateInterval :=
  (Calendar.fixedMillis? text).bind fun ms =>
    if ms % 1000 = 0 then some (seconds (ms / 1000) 0) else none

/-- The expression that computes the bucket of an attribute. -/
def expression (interval : DateInterval) (field : String) : String :=
  let f := Statement.quoteName field
  match interval with
  | seconds width offset =>
      let w := toString width
      let o := toString offset
      if offset = 0 then "FLOOR(" ++ f ++ "/" ++ w ++ ")*" ++ w
      else "FLOOR((" ++ f ++ "-" ++ o ++ ")/" ++ w ++ ")*" ++ w ++ "+" ++ o
  | months n =>
      if n = 1 then "YEARMONTH(" ++ f ++ ")"
      else if n = 12 then "YEAR(" ++ f ++ ")*100+1"
      else
        "YEAR(" ++ f ++ ")*100+FLOOR((MONTH(" ++ f ++ ")-1)/" ++ toString n ++ ")*" ++
          toString n ++ "+1"

/-- The start of a bucket in milliseconds. -/
def toMillis? (interval : DateInterval) (raw : Binary64) : Option Int :=
  let n := raw.toInt64 Binary64.truncate
  match interval with
  | seconds _ _ => some (n * 1000)
  | months _ => Calendar.millisOfYearMonth? n

/-- The bucket that holds an instant given in milliseconds. -/
def ofMillis? (interval : DateInterval) (ms : Int) : Option Binary64 :=
  match interval with
  | seconds width offset =>
      some (Binary64.ofInt ((ms / 1000 - offset) / width * width + offset))
  | months n =>
      (Calendar.yearMonthOfMillis? ms).map fun yearMonth =>
        let index := Calendar.monthIndex yearMonth
        Binary64.ofInt (Calendar.yearMonthAt (index - index % n))

def grid : DateInterval → Grid
  | seconds width offset => .linear (Binary64.ofInt width) (Binary64.ofInt offset)
  | months n => .months n

end DateInterval
end Rollup
