/-
# Written dates

A date is written with a time and an offset from universal time, with a time alone, or
without one. The first form is strict; the others allow blanks before every number and
numbers with fewer digits. All other times are universal time.
-/

import Rollup.Calendar.Instant
import Rollup.Text.Blank
import Rollup.Text.Digits

namespace Rollup.Calendar

/-- The numbers of a written date; a time that is not written is midnight. -/
structure Stamp where
  year : Int := 0
  month : Nat := 0
  day : Nat := 0
  hour : Nat := 0
  minute : Nat := 0
  second : Nat := 0
  nano : Nat := 0

namespace Stamp

/-- The instant of a stamp in universal time. A second 60 is the leap second after second 59. -/
def toInstant? (s : Stamp) : Option Instant := do
  let date ← Date.of? s.year s.month s.day
  if s.hour ≤ 23 ∧ s.minute ≤ 59 ∧ s.second ≤ 60 then
    let leap := s.second = 60
    let second := if leap then 59 else s.second
    let nano := if leap then s.nano + nanosPerSecond else s.nano
    some ⟨date.dayNumber * secondsPerDay + (s.hour * 3600 + s.minute * 60 + second : Nat), nano⟩
  else none

end Stamp

/-! ## Reading by pattern -/

/-- The parts of a written date. -/
inductive Piece where
  /-- A year: four digits at most, or a sign and any number of digits. -/
  | year
  | month
  | day
  | hour
  | minute
  | second
  /-- A point and digits, or nothing. -/
  | fraction
  /-- One fixed character. -/
  | mark (c : Char)
  /-- Any number of blanks. -/
  | gap

/-- At least one and at most `width` digits. -/
def takeNumber (width : Nat) (text : List Char) : Option (Nat × List Char) :=
  let digits := (text.takeWhile Char.isDigit).take width
  if digits.isEmpty then none else some (Text.digitsValue digits, text.drop digits.length)

/-- The digits behind a point as nanoseconds; digits beyond the ninth are passed over. -/
def takeNanos (text : List Char) : Option (Nat × List Char) :=
  let digits := text.takeWhile Char.isDigit
  if digits.isEmpty then none
  else
    let kept := digits.take 9
    some (Text.digitsValue kept * Nat.pow 10 (9 - kept.length), text.drop digits.length)

/-- A year with an optional sign. -/
def takeYear (text : List Char) : Option (Int × List Char) :=
  match text with
  | '-' :: rest => (takeNumber rest.length rest).map fun (n, rest) => (-(n : Int), rest)
  | '+' :: rest => (takeNumber rest.length rest).map fun (n, rest) => ((n : Int), rest)
  | _ => (takeNumber 4 text).map fun (n, rest) => ((n : Int), rest)

/-- Read one part into a stamp. -/
def Piece.read (piece : Piece) (s : Stamp) (text : List Char) : Option (Stamp × List Char) :=
  let two := takeNumber 2 (Text.trimStart text)
  match piece with
  | .year => (takeYear (Text.trimStart text)).map fun (n, rest) => ({ s with year := n }, rest)
  | .month => two.map fun (n, rest) => ({ s with month := n }, rest)
  | .day => two.map fun (n, rest) => ({ s with day := n }, rest)
  | .hour => two.map fun (n, rest) => ({ s with hour := n }, rest)
  | .minute => two.map fun (n, rest) => ({ s with minute := n }, rest)
  | .second => two.map fun (n, rest) => ({ s with second := n }, rest)
  | .fraction =>
      match text with
      | '.' :: rest => (takeNanos rest).map fun (n, rest) => ({ s with nano := n }, rest)
      | _ => some (s, text)
  | .mark c =>
      match text with
      | d :: rest => if d = c then some (s, rest) else none
      | [] => none
  | .gap => some (s, Text.trimStart text)

/-- Read a whole text part by part. -/
def readPieces : List Piece → Stamp → List Char → Option Stamp
  | [], s, text => if text.isEmpty then some s else none
  | piece :: pieces, s, text => do
      let (s, rest) ← piece.read s text
      readPieces pieces s rest

/-- The parts of a date, and of a time. -/
def datePieces : List Piece := [.year, .mark '-', .month, .mark '-', .day]

def timePieces : List Piece := [.hour, .mark ':', .minute, .mark ':', .second]

/-- The forms without an offset. -/
def localForms : List (List Piece) :=
  [datePieces ++ [.mark 'T'] ++ timePieces ++ [.fraction],
    datePieces ++ [.gap] ++ timePieces,
    datePieces]

/-! ## The strict form -/

/-- Exactly `width` digits. -/
def takeExactly (width : Nat) (text : List Char) : Option (Nat × List Char) :=
  let digits := text.take width
  if digits.length = width ∧ digits.all Char.isDigit then
    some (Text.digitsValue digits, text.drop width)
  else none

/-- One character out of some. -/
def takeMark (marks : List Char) : List Char → Option (List Char)
  | c :: rest => if marks.contains c then some rest else none
  | [] => none

/-- An offset from universal time in seconds: the letter `Z`, or a sign, hours and minutes. -/
def takeOffset (text : List Char) : Option (Int × List Char) :=
  match text with
  | [] => none
  | sign :: rest =>
      if sign = 'Z' ∨ sign = 'z' then some (0, rest)
      else do
        let negative := sign = '-' ∨ sign = '−'
        let rest ← if negative ∨ sign = '+' then some rest else none
        let (hours, rest) ← takeExactly 2 rest
        let rest ← takeMark [':'] rest
        let (minutes, rest) ← takeExactly 2 rest
        if hours ≤ 23 ∧ minutes ≤ 59 then
          let seconds : Int := (hours * 3600 + minutes * 60 : Nat)
          some (if negative then -seconds else seconds, rest)
        else none

/-- A date and a time with an offset, every number with all its digits. -/
def readStrict? (text : List Char) : Option Instant := do
  let (year, rest) ← takeExactly 4 text
  let rest ← takeMark ['-'] rest
  let (month, rest) ← takeExactly 2 rest
  let rest ← takeMark ['-'] rest
  let (day, rest) ← takeExactly 2 rest
  let rest ← takeMark ['T', 't', ' '] rest
  let (hour, rest) ← takeExactly 2 rest
  let rest ← takeMark [':'] rest
  let (minute, rest) ← takeExactly 2 rest
  let rest ← takeMark [':'] rest
  let (second, rest) ← takeExactly 2 rest
  let (nano, rest) ← match rest with
    | '.' :: digits => takeNanos digits
    | _ => some (0, rest)
  let (offset, rest) ← takeOffset rest
  if rest.isEmpty then
    let t ← Stamp.toInstant? ⟨year, month, day, hour, minute, second, nano⟩
    some { t with second := t.second - offset }
  else none

/-- Read a date in any of the forms, blanks around it allowed. -/
def readDate? (text : List Char) : Option Instant :=
  let text := Text.trim text
  (readStrict? text).or
    (localForms.findSome? fun pieces => (readPieces pieces {} text).bind Stamp.toInstant?)

/-! ## Writing -/

/-- A year of four digits, or of more with a sign. -/
def yearText (year : Int) : String :=
  if 0 ≤ year ∧ year ≤ 9999 then Text.padded 4 year.natAbs
  else (if year < 0 then "-" else "+") ++ Text.padded 4 year.natAbs

/-- An instant with milliseconds in universal time. -/
def Instant.text (t : Instant) : String :=
  let d := t.date
  let s := t.secondOfDay.toNat
  yearText d.year ++ "-" ++ Text.padded 2 d.month ++ "-" ++ Text.padded 2 d.day ++ "T" ++
    Text.padded 2 (s / 3600) ++ ":" ++ Text.padded 2 (s / 60 % 60) ++ ":" ++
    Text.padded 2 (s % 60) ++ "." ++ Text.padded 3 (t.nano / 1000000) ++ "Z"

/-- The text of an instant given in milliseconds; a number without a date is written as it is. -/
def millisText (ms : Int) : String :=
  match Instant.ofMillis? ms with
  | some t => t.text
  | none => toString ms

end Rollup.Calendar
