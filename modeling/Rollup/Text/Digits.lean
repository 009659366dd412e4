/-
# Decimal digits

Runs of ASCII digits and their values. Digits of other scripts are no digits here.
-/

namespace Rollup.Text

/-- Split a text into its leading ASCII digits and the rest. -/
def spanDigits (text : List Char) : List Char × List Char :=
  (text.takeWhile Char.isDigit, text.dropWhile Char.isDigit)

/-- The number written by a run of digits; the empty run writes zero. -/
def digitsValue (digits : List Char) : Nat :=
  digits.foldl (fun value c => 10 * value + (c.toNat - 48)) 0

/-- How many decimal digits a number needs; zero needs none. -/
def digitCount (n : Nat) : Nat :=
  if n = 0 then 0 else (Nat.toDigits 10 n).length

/-- The number written by a text of digits only, if it has at least one. -/
def readNat? (text : List Char) : Option Nat :=
  if text ≠ [] ∧ text.all Char.isDigit then some (digitsValue text) else none

/-- An unsigned integer with an optional plus sign that fits into 64 bits. -/
def readUnsigned64? (text : List Char) : Option Nat :=
  let digits := match text with
    | '+' :: rest => rest
    | _ => text
  (readNat? digits).filter (· < 0x10000000000000000)

/-- An integer with an optional sign that fits into 64 bits in two's complement. -/
def readSigned64? (text : List Char) : Option Int :=
  let value : Option Int := match text with
    | '+' :: rest => (readNat? rest).map fun n => (n : Int)
    | '-' :: rest => (readNat? rest).map fun n => -(n : Int)
    | _ => (readNat? text).map fun n => (n : Int)
  value.filter fun n => -0x8000000000000000 ≤ n && n < 0x8000000000000000

/-- Write a number with at least `width` digits, zeros in front. -/
def padded (width n : Nat) : String :=
  let digits := Nat.toDigits 10 n
  String.ofList (List.replicate (width - digits.length) '0' ++ digits)

theorem spanDigits_append (text : List Char) : (spanDigits text).1 ++ (spanDigits text).2 = text :=
  List.takeWhile_append_dropWhile

end Rollup.Text
