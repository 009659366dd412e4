/-
# Words, numbers and strings of a JSON text

A number without fraction and exponent that fits into 64 bits is an integer. Any other number
keeps its leading digits as long as they fit into 64 bits without a sign, and is that
significand times or over a power of ten, each of the two rounded.
-/

import Rollup.Json.Basic
import Rollup.Json.Cursor

namespace Rollup.Json

open Cursor

/-! ## Words -/

/-- The rest of a fixed word. -/
def readWord : List Char → Cursor → Except ReadError (Unit × Cursor)
  | [], s => .ok ((), s)
  | expected :: word, s =>
      match s.rest with
      | [] => .error (s.fail .valueEnds)
      | c :: _ =>
          if c = expected then readWord word s.advance
          else .error (s.failAhead .wordExpected)

/-! ## Numbers -/

/-- The greatest significand. -/
def significandLimit : Nat := 0x10000000000000000

/-- Take digits into a significand while it stays below the limit: the significand, how many
digits were taken, and whether a digit is left over. -/
def takeSignificand : List Char → Nat → Nat → Nat × Nat × Bool
  | [], significand, taken => (significand, taken, false)
  | c :: rest, significand, taken =>
      if c.isDigit then
        let next := 10 * significand + (c.toNat - 48)
        if next < significandLimit then takeSignificand rest next (taken + 1)
        else (significand, taken, true)
      else (significand, taken, false)

/-- Ten to a power, as a binary number. -/
def powerOfTen (n : Nat) : Binary64 := Binary64.round ((10 : Rat) ^ n)

/-- A significand times ten to an exponent, dividing when the exponent is negative. Exponents
below the range of the powers are reached in steps of 308; nothing when the result is too large. -/
def scaled : Nat → Binary64 → Int → Option Binary64
  | 0, x, _ => some x
  | fuel + 1, x, exponent =>
      if exponent.natAbs ≤ 308 then
        if 0 ≤ exponent then
          let y := x * powerOfTen exponent.natAbs
          if y.toRat?.isSome then some y else none
        else some (x / powerOfTen exponent.natAbs)
      else if x.same 0 then some x
      else if 0 ≤ exponent then none
      else scaled fuel (x / powerOfTen 308) (exponent + 308)

/-- The binary number of a significand and an exponent. -/
def floatingNumber (negative : Bool) (significand : Nat) (exponent : Int) (s : Cursor) :
    Except ReadError (Number × Cursor) :=
  -- After four divisions by ten to the 308th every significand has become zero.
  match scaled 8 (Binary64.ofInt significand) exponent with
  | some x => .ok (.floating (if negative then -x else x), s)
  | none => .error (s.fail .numberTooLarge)

/-- The exponent part, the cursor being on its `e`. -/
def readExponent (negative : Bool) (significand : Nat) (exponent : Int) (s : Cursor) :
    Except ReadError (Number × Cursor) :=
  let s := s.advance
  let (minus, s) := match s.rest with
    | '+' :: _ => (false, s.advance)
    | '-' :: _ => (true, s.advance)
    | _ => (false, s)
  match s.rest with
  | [] => .error (s.fail .valueEnds)
  | c :: _ =>
      if c.isDigit then
        let digits := s.rest.takeWhile Char.isDigit
        let shift := Text.digitsValue digits
        if shift < 0x80000000 then
          let total := if minus then exponent - shift else exponent + shift
          floatingNumber negative significand total (s.skipRun digits)
        else if significand ≠ 0 ∧ !minus then
          -- The fault is found at the digit that makes the exponent too long.
          .error ((s.skipRun (digits.take (overlongAt digits 0 0))).fail .numberTooLarge)
        else .ok (.floating (Binary64.zero negative), s.skipRun digits)
      else .error (s.failAhead .badNumber)
where
  /-- How many digits are read until the exponent exceeds 31 bits. -/
  overlongAt : List Char → Nat → Nat → Nat
    | [], _, read => read
    | c :: rest, value, read =>
        let next := 10 * value + (c.toNat - 48)
        if next < 0x80000000 then overlongAt rest next (read + 1) else read + 1

/-- The exponent part if there is one. -/
def readExponentPart (negative : Bool) (significand : Nat) (exponent : Int) (s : Cursor) :
    Except ReadError (Number × Cursor) :=
  match s.rest with
  | 'e' :: _ => readExponent negative significand exponent s
  | 'E' :: _ => readExponent negative significand exponent s
  | _ => floatingNumber negative significand exponent s

/-- The fraction, the cursor being on its point. -/
def readFraction (negative : Bool) (significand : Nat) (exponent : Int) (s : Cursor) :
    Except ReadError (Number × Cursor) :=
  let s := s.advance
  let (significand, taken, overflow) := takeSignificand s.rest significand 0
  let s := s.skipRun (s.rest.take taken)
  if overflow then
    readExponentPart negative significand (exponent - taken) (s.skipWhile Char.isDigit)
  else if taken = 0 then
    .error (s.failAhead (if s.rest.isEmpty then .valueEnds else .badNumber))
  else readExponentPart negative significand (exponent - taken) s

/-- What follows the digits before the point. -/
def readAfterWhole (negative : Bool) (significand : Nat) (s : Cursor) :
    Except ReadError (Number × Cursor) :=
  match s.rest with
  | '.' :: _ => readFraction negative significand 0 s
  | 'e' :: _ => readExponent negative significand 0 s
  | 'E' :: _ => readExponent negative significand 0 s
  | _ =>
      if !negative then .ok (.integer significand, s)
      else if significand = 0 ∨ 0x8000000000000000 < significand then
        .ok (.floating (-Binary64.ofInt significand), s)
      else .ok (.integer (-significand), s)

/-- A number without its sign. -/
def readNumber (negative : Bool) (s : Cursor) : Except ReadError (Number × Cursor) :=
  match s.rest with
  | [] => .error (s.fail .valueEnds)
  | c :: _ =>
      if c = '0' then
        let s := s.advance
        match s.rest with
        | d :: _ =>
            if d.isDigit then .error (s.failAhead .badNumber) else readAfterWhole negative 0 s
        | [] => readAfterWhole negative 0 s
      else if c.isDigit then
        let (significand, taken, overflow) := takeSignificand s.rest 0 0
        let s := s.skipRun (s.rest.take taken)
        if overflow then
          let more := s.rest.takeWhile Char.isDigit
          let s := s.skipRun more
          match s.rest with
          | '.' :: _ => readFraction negative significand more.length s
          | _ => readExponentPart negative significand more.length s
        else readAfterWhole negative significand s
      else .error (s.failAhead .badNumber)

/-! ## Strings -/

/-- The value of a hexadecimal digit. -/
def hexValue? (c : Char) : Option Nat :=
  if '0' ≤ c ∧ c ≤ '9' then some (c.toNat - 48)
  else if 'a' ≤ c ∧ c ≤ 'f' then some (c.toNat - 87)
  else if 'A' ≤ c ∧ c ≤ 'F' then some (c.toNat - 55)
  else none

/-- The value of four hexadecimal digits. -/
def hexValues? : List Char → Option Nat
  | [a, b, c, d] => do
      return (((← hexValue? a) * 16 + (← hexValue? b)) * 16 + (← hexValue? c)) * 16 + (← hexValue? d)
  | _ => none

/-- Four hexadecimal digits. Only a text with less than four bytes left ends too early. -/
def readHex (s : Cursor) : Except ReadError (Nat × Cursor) :=
  let digits := s.rest.take 4
  match hexValues? digits with
  | some value => .ok (value, s.skipRun digits)
  | none =>
      if (digits.map Char.utf8Size).foldl (· + ·) 0 < 4 then .error ((s.skipRun digits).fail .stringEnds)
      else .error (s.failBehind 4 .badEscape)

/-- A character escaped by its number, the cursor being behind the `u`. Characters beyond the
first 65536 are written as two escapes. -/
def readUnicodeEscape (s : Cursor) : Except ReadError (Char × Cursor) := do
  let (high, s) ← readHex s
  if 0xdc00 ≤ high ∧ high ≤ 0xdfff then .error (s.fail .loneSurrogate)
  else if high < 0xd800 ∨ 0xdbff < high then .ok (Char.ofNat high, s)
  else
    let s ← expect '\\' s
    let s ← expect 'u' s
    let (low, s) ← readHex s
    if low < 0xdc00 ∨ 0xdfff < low then .error (s.fail .loneSurrogate)
    else .ok (Char.ofNat ((high - 0xd800) * 0x400 + (low - 0xdc00) + 0x10000), s)
where
  /-- Step over one expected character of the second escape. -/
  expect (wanted : Char) (s : Cursor) : Except ReadError Cursor :=
    match s.rest with
    | [] => .error (s.fail .stringEnds)
    | c :: _ =>
        if c = wanted then .ok s.advance
        else .error (s.failAhead .hexEscapeEnds)

/-- The character of an escape, the cursor being behind the backslash. -/
def readEscape (s : Cursor) : Except ReadError (Char × Cursor) :=
  match s.rest with
  | [] => .error (s.fail .stringEnds)
  | c :: _ =>
      let plain (d : Char) : Except ReadError (Char × Cursor) := .ok (d, s.advance)
      if c = '"' ∨ c = '\\' ∨ c = '/' then plain c
      else if c = 'b' then plain '\x08'
      else if c = 'f' then plain '\x0c'
      else if c = 'n' then plain '\n'
      else if c = 'r' then plain '\r'
      else if c = 't' then plain '\t'
      else if c = 'u' then readUnicodeEscape s.advance
      else .error (s.failAhead .badEscape)

/-- The characters up to the closing quote, collected in reverse. Every step reads at least one
character, so the length of the text is fuel enough. -/
def readStringFrom : Nat → List Char → Cursor → Except ReadError (String × Cursor)
  | 0, _, s => .error (s.fail .stringEnds)
  | fuel + 1, collected, s =>
      match s.rest with
      | [] => .error (s.fail .stringEnds)
      | c :: _ =>
          if c = '"' then .ok (String.ofList collected.reverse, s.advance)
          else if c = '\\' then do
            let (escaped, s) ← readEscape s.advance
            readStringFrom fuel (escaped :: collected) s
          else if c.toNat < 0x20 then .error (s.advance.fail .controlCharacter)
          else readStringFrom fuel (c :: collected) s.advance

/-- A string, the cursor being on its opening quote. -/
def readString (s : Cursor) : Except ReadError (String × Cursor) :=
  readStringFrom (s.rest.length + 1) [] s.advance

end Rollup.Json
