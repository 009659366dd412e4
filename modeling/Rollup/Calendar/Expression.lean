/-
# Date expressions

An expression is an anchor, the word for the present or a written date, with adjustments
behind it: a signed amount of a unit moves the instant, a slash rounds it down to the start
of a unit. Adjustments are made in the order written, and one that leaves the range of dates
leaves no result.
-/

import Rollup.Calendar.Stamp
import Rollup.Json.Print

namespace Rollup.Calendar

/-- One step of a date expression. -/
inductive Adjustment where
  | shift (amount : Int) (unit : TimeUnit)
  | floor (unit : TimeUnit)
  deriving DecidableEq, Repr

/-- Make one step. -/
def Adjustment.apply? (t : Instant) : Adjustment → Option Instant
  | shift amount unit => t.shift? amount unit
  | floor unit => t.floor? unit

/-- The amount written by digits; no digits write one. -/
def amountOf (digits : List Char) : Nat :=
  if digits.isEmpty then 1 else Text.digitsValue digits

/-- The first adjustment of a text and the rest. -/
def readAdjustment? (text : List Char) : Option (Adjustment × List Char) :=
  match text with
  | '/' :: letter :: rest => (TimeUnit.ofLetter? letter).map fun unit => (.floor unit, rest)
  | sign :: rest =>
      if sign = '+' ∨ sign = '-' then
        let (digits, rest) := Text.spanDigits rest
        match rest with
        | letter :: rest =>
            (TimeUnit.ofLetter? letter).map fun unit =>
              let amount : Int := amountOf digits
              (.shift (if sign = '-' then -amount else amount) unit, rest)
        | [] => none
      else none
  | [] => none

/-- All adjustments of a text. Each has a character at least, so the length is fuel enough. -/
def readAdjustmentsFrom : Nat → List Char → Option (List Adjustment)
  | _, [] => some []
  | 0, _ :: _ => none
  | fuel + 1, text => do
      let (first, rest) ← readAdjustment? text
      let others ← readAdjustmentsFrom fuel rest
      return first :: others

def readAdjustments? (text : List Char) : Option (List Adjustment) :=
  readAdjustmentsFrom text.length text

/-- Split a text at the first pair of bars. -/
def splitAtBars : List Char → Option (List Char × List Char)
  | '|' :: '|' :: rest => some ([], rest)
  | c :: rest => (splitAtBars rest).map fun (anchor, adjustments) => (c :: anchor, adjustments)
  | [] => none

/-- The instant of a date expression, `now` being the present. -/
def evaluate? (now : Instant) (text : List Char) : Option Instant :=
  match text with
  | 'n' :: 'o' :: 'w' :: rest => do
      let adjustments ← readAdjustments? rest
      adjustments.foldlM Adjustment.apply? now
  | _ =>
      match splitAtBars text with
      | some (anchor, rest) => do
          let start ← readDate? anchor
          let adjustments ← readAdjustments? rest
          adjustments.foldlM Adjustment.apply? start
      | none => readDate? text

/-! ## Dates in requests -/

/-- Whether one text occurs in another. -/
def occursIn (part text : List Char) : Bool :=
  match text with
  | [] => part.isEmpty
  | c :: rest => part.isPrefixOf (c :: rest) || occursIn part rest

/-- Whether a format switches bare numbers from milliseconds to seconds. -/
def inSeconds (format : Option String) : Bool :=
  match format with
  | some f => occursIn "epoch_second".toList f.toList
  | none => false

/-- Milliseconds of a bare number. -/
def scaleToMillis (seconds : Bool) (x : Binary64) : Int :=
  (if seconds then x * 1000 else x).toInt64 Binary64.truncate

/-- Milliseconds of a date in a request: a number, the text of a number, or a date expression.
Otherwise the text that is no date. -/
def resolveMillis (now : Instant) (format : Option String) (value : Json) : Except String Int :=
  let scale := scaleToMillis (inSeconds format)
  match value with
  | .number n => .ok (scale n.toBinary64)
  | .string s =>
      let text := Text.trim s.toList
      match Binary64.read? text with
      | some x => .ok (scale x)
      | none =>
          match evaluate? now text with
          | some t => .ok t.millis
          | none => .error (String.ofList text)
  | other => .error other.compact

/-! ## Lengths of time -/

/-- Milliseconds of a unit of fixed length. -/
def unitMillis? (unit : String) : Option Int :=
  [("ms", 1), ("s", 1000), ("m", 60000), ("h", 3600000), ("d", 86400000)].lookup unit

/-- Milliseconds of a positive amount of a unit, when they fit into 64 bits. -/
def fixedMillis? (text : String) : Option Int := do
  let (digits, unit) := Text.spanDigits (Text.trim text.toList)
  let amount ← Text.readSigned64? digits
  let factor ← unitMillis? (String.ofList unit)
  if 0 < amount ∧ amount * factor ≤ Binary64.int64Max then some (amount * factor) else none

end Rollup.Calendar
