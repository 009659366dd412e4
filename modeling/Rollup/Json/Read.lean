/-
# Reading JSON

A text is one value with nothing but spaces around it. Arrays and objects may be nested 127
levels deep. Of a repeated field the last value counts, in the place of the first.
-/

import Rollup.Json.Token

namespace Rollup.Json

open Cursor

/-- How many levels of nesting are refused. -/
def depthLimit : Nat := 128

/-- Step to the next item of an array: whether there is one. The first item has no comma. -/
def nextItem (first : Bool) (s : Cursor) : Except ReadError (Bool × Cursor) :=
  let s := s.skipSpaces
  match s.rest with
  | [] => .error (s.fail .listEnds)
  | c :: _ =>
      if c = ']' then .ok (false, s)
      else if first then .ok (true, s)
      else if c = ',' then
        let s := s.advance.skipSpaces
        match s.rest with
        | [] => .error (s.fail .valueEnds)
        | d :: _ => if d = ']' then .error (s.failAhead .trailingComma) else .ok (true, s)
      else .error (s.failAhead .listCommaExpected)

/-- Step to the next key of an object: whether there is one. -/
def nextKey (first : Bool) (s : Cursor) : Except ReadError (Bool × Cursor) :=
  let s := s.skipSpaces
  match s.rest with
  | [] => .error (s.fail .objectEnds)
  | c :: _ =>
      if c = '\x7d' then .ok (false, s)
      else if first then
        if c = '"' then .ok (true, s) else .error (s.failAhead .keyNotString)
      else if c = ',' then
        let s := s.advance.skipSpaces
        match s.rest with
        | [] => .error (s.fail .valueEnds)
        | d :: _ =>
            if d = '"' then .ok (true, s)
            else if d = '\x7d' then .error (s.failAhead .trailingComma)
            else .error (s.failAhead .keyNotString)
      else .error (s.failAhead .objectCommaExpected)

/-- Step over the colon behind a key. -/
def readColon (s : Cursor) : Except ReadError (Unit × Cursor) :=
  let s := s.skipSpaces
  match s.rest with
  | [] => .error (s.fail .objectEnds)
  | c :: _ => if c = ':' then .ok ((), s.advance) else .error (s.failAhead .colonExpected)

/-- A value without parts, the cursor being on its first character. -/
def readScalar (s : Cursor) : Except ReadError (Json × Cursor) :=
  match s.rest with
  | [] => .error (s.fail .valueEnds)
  | c :: _ =>
      if c = 'n' then do
        let (_, s) ← readWord ['u', 'l', 'l'] s.advance
        .ok (null, s)
      else if c = 't' then do
        let (_, s) ← readWord ['r', 'u', 'e'] s.advance
        .ok (bool true, s)
      else if c = 'f' then do
        let (_, s) ← readWord ['a', 'l', 's', 'e'] s.advance
        .ok (bool false, s)
      else if c = '-' then do
        let (n, s) ← readNumber true s.advance
        .ok (number n, s)
      else if c.isDigit then do
        let (n, s) ← readNumber false s
        .ok (number n, s)
      else if c = '"' then do
        let (text, s) ← readString s
        .ok (string text, s)
      else .error (s.failAhead .valueExpected)

mutual

/-- A value. Every call reads at least one character before the next, so twice the length of the
text is fuel enough. -/
def readValue : Nat → Nat → Cursor → Except ReadError (Json × Cursor)
  | 0, _, s => .error (s.fail .valueEnds)
  | fuel + 1, depth, s =>
      let s := s.skipSpaces
      match s.rest with
      | '[' :: _ =>
          if depth + 1 = depthLimit then .error (s.failAhead .tooDeep)
          else do
            let (items, s) ← readItems fuel (depth + 1) true [] s.advance
            .ok (array items, s)
      | '\x7b' :: _ =>
          if depth + 1 = depthLimit then .error (s.failAhead .tooDeep)
          else do
            let (fields, s) ← readFields fuel (depth + 1) true [] s.advance
            .ok (object fields, s)
      | _ => readScalar s

/-- The items of an array with its closing bracket, collected in reverse. -/
def readItems : Nat → Nat → Bool → List Json → Cursor → Except ReadError (List Json × Cursor)
  | 0, _, _, _, s => .error (s.fail .listEnds)
  | fuel + 1, depth, first, collected, s => do
      let (more, s) ← nextItem first s
      if more then
        let (item, s) ← readValue fuel depth s
        readItems fuel depth false (item :: collected) s
      else .ok (collected.reverse, s.advance)

/-- The fields of an object with its closing brace. -/
def readFields : Nat → Nat → Bool → Fields → Cursor → Except ReadError (Fields × Cursor)
  | 0, _, _, _, s => .error (s.fail .objectEnds)
  | fuel + 1, depth, first, collected, s => do
      let (more, s) ← nextKey first s
      if more then
        let (name, s) ← readString s
        let (_, s) ← readColon s
        let (value, s) ← readValue fuel depth s
        readFields fuel depth false (collected.insert name value) s
      else .ok (collected, s.advance)

end

/-- The end of the text behind a value. -/
def readEnd (s : Cursor) : Except ReadError Unit :=
  let s := s.skipSpaces
  if s.rest.isEmpty then .ok () else .error (s.failAhead .trailingText)

/-- Read a whole text as one value. -/
def read (text : String) : Except ReadError Json := do
  let chars := text.toList
  let (value, s) ← readValue (2 * chars.length + 2) 0 (Cursor.start chars)
  readEnd s
  return value

end Rollup.Json
