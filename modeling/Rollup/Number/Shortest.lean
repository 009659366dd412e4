/-
# The fewest decimal digits that read back

A finite binary number is the nearest one for a whole interval of rationals. Its shortest
decimal is the first of the grids of 1, 2, ... 17 significant digits that has a point in the
interval, and of two such points the nearer to the number. Two points at the same distance
are settled by a tie rule, since users of the digits differ there.
-/

import Rollup.Number.Binary64
import Rollup.Text.Digits

namespace Rollup

/-- The decimal number `coefficient * 10 ^ exponent`. -/
structure Decimal where
  coefficient : Nat
  exponent : Int
  deriving DecidableEq, Repr, Inhabited

namespace Decimal

/-- The rational that a decimal denotes. -/
def toRat (d : Decimal) : Rat := d.coefficient * 10 ^ d.exponent

/-- Move trailing zeros of the coefficient into the exponent. -/
def dropZeros : Nat → Decimal → Decimal
  | 0, d => d
  | fuel + 1, d =>
      if d.coefficient ≠ 0 ∧ d.coefficient % 10 = 0 then
        dropZeros fuel ⟨d.coefficient / 10, d.exponent + 1⟩
      else d

/-- Which of two equally near decimals is taken. -/
inductive Tie where
  | upward
  | toEven
  deriving DecidableEq, Repr

end Decimal

namespace Binary64

/-- The rationals that round to a positive number: the ends, and whether the ends belong to it. -/
structure Interval where
  low : Rat
  high : Rat
  closed : Bool

/-- The interval of a positive number. The gap below a power of two is half as wide. -/
def interval (q : Rat) : Interval :=
  let place := lastPlace q
  let unit : Rat := 2 ^ place
  let units := roundHalfEven (q / unit)
  let below := if units = 0x10000000000000 ∧ -1074 < place then unit / 4 else unit / 2
  { low := q - below, high := q + unit / 2, closed := units % 2 = 0 }

def Interval.holds (i : Interval) (q : Rat) : Bool :=
  if i.closed then i.low ≤ q && q ≤ i.high else i.low < q && q < i.high

/-- For a positive rational the greatest `k` with `10 ^ k ≤ q`. -/
def decimalExponent (q : Rat) : Int :=
  if 1 ≤ q then (Text.digitCount q.floor.toNat : Int) - 1
  else -(Text.digitCount (((1 / q).ceil - 1).toNat) : Int)

/-- The decimal with `digits` significant digits that lies in the interval of a positive number
and is nearest to it, if there is one. -/
def nearestWithDigits (tie : Decimal.Tie) (q : Rat) (digits : Nat) : Option Decimal :=
  let i := interval q
  let exponent := decimalExponent q - digits + 1
  let step : Rat := 10 ^ exponent
  let below := (q / step).floor.toNat
  let above := below + 1
  let belowGap := q - below * step
  let aboveGap := above * step - q
  let takeAbove :=
    if aboveGap < belowGap then true
    else if belowGap < aboveGap then false
    else match tie with
      | .upward => true
      | .toEven => below % 2 == 1
  let choice := match i.holds (below * step), i.holds (above * step) with
    | true, true => some (if takeAbove then above else below)
    | true, false => some below
    | false, true => some above
    | false, false => none
  choice.map fun coefficient => ⟨coefficient, exponent⟩

/-- The shortest decimal of a positive number. -/
def shortest (tie : Decimal.Tie) (q : Rat) : Decimal :=
  let found := (List.range 17).findSome? fun n => nearestWithDigits tie q (n + 1)
  Decimal.dropZeros 400 (found.getD ⟨0, 0⟩)

end Binary64
end Rollup
