/-
# Numbers as text

Writing takes the shortest decimal of a number and a style that says where positional
notation ends. Reading is exact: the decimal is taken as a rational and rounded once.
-/

import Rollup.Number.Shortest
import Rollup.Text.Blank

namespace Rollup

namespace Decimal

/-- The exponent of the first significant digit. -/
def leadingExponent (d : Decimal) : Int :=
  d.exponent + (Text.digitCount d.coefficient : Int) - 1

/-- Positional notation: all digits, and a point only before a fraction. -/
def positional (d : Decimal) : String :=
  if 0 ≤ d.exponent then
    String.ofList (Nat.toDigits 10 d.coefficient ++ List.replicate d.exponent.toNat '0')
  else
    let places := (-d.exponent).toNat
    let digits := (Text.padded (places + 1) d.coefficient).toList
    let whole := digits.length - places
    String.ofList (digits.take whole ++ '.' :: digits.drop whole)

/-- Scientific notation: one digit, the other digits after a point, and a signed exponent. -/
def scientific (d : Decimal) : String :=
  let mantissa := match Nat.toDigits 10 d.coefficient with
    | [] => []
    | [digit] => [digit]
    | digit :: rest => digit :: '.' :: rest
  let exponent := d.leadingExponent
  let sign := if exponent < 0 then "-" else "+"
  String.ofList mantissa ++ "e" ++ sign ++ toString exponent.natAbs

end Decimal

/-- How numbers are written. -/
structure NumberStyle where
  /-- Which of two equally near decimals is taken. -/
  tie : Decimal.Tie
  /-- The leading exponents written in positional notation, from the first up to but not with the
  second; without a range all are. -/
  positional : Option (Int × Int)
  /-- Whether an integer keeps a point and a zero. -/
  pointed : Bool

namespace NumberStyle

/-- Numbers between programs: short exponents stay positional, and a point marks the fraction. -/
def interchange : NumberStyle := ⟨.toEven, some (-5, 16), true⟩

/-- Numbers inside statements and labels: never an exponent, no empty fraction. -/
def plain : NumberStyle := ⟨.upward, none, false⟩

/-- A positive number in a style. -/
def writePositive (style : NumberStyle) (q : Rat) : String :=
  let d := Binary64.shortest style.tie q
  let positional := match style.positional with
    | some (first, limit) => first ≤ d.leadingExponent && d.leadingExponent < limit
    | none => true
  if positional then
    d.positional ++ (if style.pointed && 0 ≤ d.exponent then ".0" else "")
  else d.scientific

/-- A number in a style. -/
def write (style : NumberStyle) : Binary64 → String
  | .finite q =>
      if q = 0 then (if style.pointed then "0.0" else "0")
      else if q < 0 then "-" ++ style.writePositive (-q)
      else style.writePositive q
  | .negativeZero => if style.pointed then "-0.0" else "-0"
  | .infinite negative => if negative then "-inf" else "inf"
  | .nan _ => "NaN"

end NumberStyle

namespace Binary64

/-- Integers of a size below this bound are written and kept as integers. -/
def integerBound : Rat := 9000000000000000

/-- The integer that a number is, when it is one of a size below the bound. -/
def smallInteger? (x : Binary64) : Option Int :=
  match x.toRat? with
  | some q => if q.den = 1 ∧ q.abs < integerBound then some q.num else none
  | none => none

/-- Plain text of a number: an integer without a point, else the shortest digits. -/
def text (x : Binary64) : String :=
  match x.smallInteger? with
  | some n => toString n
  | none => NumberStyle.plain.write x

/-- Text with a fraction: integers in full with one zero after the point, else the plain text. -/
def labelText (x : Binary64) : String :=
  if x.isIntegral then
    match x with
    | finite q => toString q.num ++ ".0"
    | _ => "-0.0"
  else NumberStyle.plain.write x

/-! ## Reading -/

/-- The number nearest to `coefficient * 10 ^ exponent`. Exponents so large or small that the
result is infinite or zero whatever the digits are settled by size alone. -/
def ofDecimal (negative : Bool) (coefficient : Nat) (exponent : Int) : Binary64 :=
  if coefficient = 0 then zero negative
  else
    let size := (Text.digitCount coefficient : Int) + exponent
    if 400 < size then infinite negative
    else if size < -400 then zero negative
    else
      let q : Rat := coefficient * 10 ^ exponent
      round (if negative then -q else q)

/-- An exponent part: `e`, an optional sign and at least one digit, or nothing at all. -/
def readExponent? : List Char → Option Int
  | [] => some 0
  | e :: rest =>
      if e == 'e' || e == 'E' then
        match rest with
        | '+' :: digits => (Text.readNat? digits).map fun n => (n : Int)
        | '-' :: digits => (Text.readNat? digits).map fun n => -(n : Int)
        | digits => (Text.readNat? digits).map fun n => (n : Int)
      else none

/-- Digits with an optional point and an optional exponent; at least one digit stands before the
exponent. -/
def readUnsigned? (negative : Bool) (text : List Char) : Option Binary64 := do
  let (whole, afterWhole) := Text.spanDigits text
  let (fraction, afterFraction) := match afterWhole with
    | '.' :: rest => Text.spanDigits rest
    | rest => ([], rest)
  if whole.isEmpty && fraction.isEmpty then none
  else
    let exponent ← readExponent? afterFraction
    some (ofDecimal negative (Text.digitsValue (whole ++ fraction)) (exponent - fraction.length))

/-- The words for infinity and for the value that is no number, in any case. -/
def readWord? (negative : Bool) (text : List Char) : Option Binary64 :=
  let word := String.ofList (text.map Char.toLower)
  if word == "inf" || word == "infinity" then some (infinite negative)
  else if word == "nan" then some (nan negative)
  else none

/-- Read a number without blanks around it. -/
def read? (text : List Char) : Option Binary64 :=
  let (negative, body) := match text with
    | '+' :: rest => (false, rest)
    | '-' :: rest => (true, rest)
    | _ => (false, text)
  (readWord? negative body).or (readUnsigned? negative body)

/-- Read a number, blanks around it allowed. -/
def readTrimmed? (text : String) : Option Binary64 :=
  read? (Text.trim text.toList)

end Binary64
end Rollup
