/-
# Passing over JSON

A value that nobody asks for is only looked at as far as its end requires. Its numbers may be of
any size, its strings may hold half of a surrogate pair, its parts may be nested to any depth, and
a comma promises another part whatever stands behind it.
-/

import Rollup.Json.Read

namespace Rollup.Json

open Cursor

/-! ## Numbers -/

/-- Step over the digits of an exponent, the cursor being on its `e`. -/
def skipExponent (s : Cursor) : Except ReadError Cursor :=
  let s := s.advance
  let s := match s.rest with
    | '+' :: _ => s.advance
    | '-' :: _ => s.advance
    | _ => s
  match s.rest with
  | c :: _ =>
      if c.isDigit then .ok (s.skipWhile Char.isDigit) else .error (s.failAhead .badNumber)
  | [] => .error (s.fail .badNumber)

/-- Step over an exponent if there is one. -/
def skipExponentPart (s : Cursor) : Except ReadError Cursor :=
  match s.rest with
  | 'e' :: _ => skipExponent s
  | 'E' :: _ => skipExponent s
  | _ => .ok s

/-- Step over what follows the digits before the point. -/
def skipAfterWhole (s : Cursor) : Except ReadError Cursor :=
  match s.rest with
  | '.' :: _ =>
      let s := s.advance
      if (s.rest.takeWhile Char.isDigit).isEmpty then .error (s.failAhead .badNumber)
      else skipExponentPart (s.skipWhile Char.isDigit)
  | _ => skipExponentPart s

/-- Step over a number without its sign. -/
def skipNumber (s : Cursor) : Except ReadError Cursor :=
  match s.rest with
  | '0' :: _ =>
      let s := s.advance
      if s.rest.head?.any Char.isDigit then .error (s.failAhead .badNumber) else skipAfterWhole s
  | c :: _ =>
      if c.isDigit then skipAfterWhole (s.skipWhile Char.isDigit)
      else .error (s.failAhead .badNumber)
  | [] => .error (s.fail .badNumber)

/-! ## Strings -/

/-- Whether a character stands for itself or for another one behind a backslash. -/
def isPlainEscape (c : Char) : Bool := "\"\\/bfnrt".toList.contains c

/-- Step over an escape, the cursor being behind the backslash. -/
def skipEscape (s : Cursor) : Except ReadError Cursor :=
  match s.rest with
  | [] => .error (s.fail .stringEnds)
  | 'u' :: _ => do
      let (_, s) ← readHex s.advance
      .ok s
  | c :: _ => if isPlainEscape c then .ok s.advance else .error (s.failAhead .badEscape)

/-- Step to behind the closing quote. Every step reads at least one character, so the length of
the text is fuel enough. -/
def skipStringFrom : Nat → Cursor → Except ReadError Cursor
  | 0, s => .error (s.fail .stringEnds)
  | fuel + 1, s =>
      match s.rest with
      | [] => .error (s.fail .stringEnds)
      | c :: _ =>
          if c = '"' then .ok s.advance
          else if c = '\\' then do
            let s ← skipEscape s.advance
            skipStringFrom fuel s
          else if c.toNat < 0x20 then .error (s.fail .controlCharacter)
          else skipStringFrom fuel s.advance

/-- Step over a string, the cursor being on its opening quote. -/
def skipString (s : Cursor) : Except ReadError Cursor :=
  skipStringFrom (s.rest.length + 1) s.advance

/-! ## Values -/

/-- What may be open around a value. -/
inductive Enclosure where
  | list
  | fields
  deriving DecidableEq, Repr

namespace Enclosure

/-- The character that ends it. -/
def closer : Enclosure → Char
  | list => ']'
  | fields => '\x7d'

/-- The fault of a text that ends within it. -/
def unfinished : Enclosure → Fault
  | list => .listEnds
  | fields => .objectEnds

/-- The fault of a part that nothing separates from the next. -/
def unseparated : Enclosure → Fault
  | list => .listCommaExpected
  | fields => .objectCommaExpected

end Enclosure

/-- Step over a value without parts, the cursor being on its first character. -/
def skipScalar (s : Cursor) : Except ReadError Cursor :=
  match s.rest with
  | '-' :: _ => skipNumber s.advance
  | '"' :: _ => skipString s
  | c :: _ =>
      if c.isDigit then skipNumber s
      else do
        let (_, s) ← readScalar s
        .ok s
  | [] => .error (s.fail .valueEnds)

/-- Step over what ends here, from the innermost enclosure outwards, until another part follows:
what is open around that part, or nothing when everything has ended. A comma stands only behind a
whole part. -/
def skipEnds : Bool → List Enclosure → Cursor → Except ReadError (List Enclosure × Cursor)
  | _, [], s => .ok ([], s)
  | behindPart, innermost :: outer, s =>
      let s := s.skipSpaces
      match s.rest with
      | [] => .error (s.fail innermost.unfinished)
      | c :: _ =>
          if behindPart && c = ',' then .ok (innermost :: outer, s.advance)
          else if c = innermost.closer then skipEnds true outer s.advance
          else if behindPart then .error (s.failAhead innermost.unseparated)
          else .ok (innermost :: outer, s)

/-- Step over a key and its colon. -/
def skipKey (s : Cursor) : Except ReadError Cursor :=
  let s := s.skipSpaces
  match s.rest with
  | [] => .error (s.fail .objectEnds)
  | '"' :: _ => do
      let s ← skipString s
      let (_, s) ← readColon s
      .ok s
  | _ => .error (s.failAhead .keyNotString)

/-- Step over a value and everything that is open around it. Every call reads at least one
character, so the length of the text is fuel enough. -/
def skipWithin : Nat → List Enclosure → Cursor → Except ReadError Cursor
  | 0, _, s => .error (s.fail .valueEnds)
  | fuel + 1, enclosures, s => do
      let s := s.skipSpaces
      let (enclosures, s) ← match s.rest with
        | '[' :: _ => skipEnds false (.list :: enclosures) s.advance
        | '\x7b' :: _ => skipEnds false (.fields :: enclosures) s.advance
        | _ => do
            let s ← skipScalar s
            skipEnds true enclosures s
      match enclosures with
      | [] => .ok s
      | .list :: _ => skipWithin fuel enclosures s
      | .fields :: _ => do
          let s ← skipKey s
          skipWithin fuel enclosures s

/-- Step over a value. -/
def skipValue (s : Cursor) : Except ReadError Cursor := skipWithin (s.rest.length + 1) [] s

end Rollup.Json
