/-
# Reading positions and the faults of a JSON text

A cursor is the unread text with the position before it. Columns count bytes of UTF-8 and
start at zero; a fault is reported either here or just behind the next byte.
-/

import Rollup.Number.Text

namespace Rollup.Json

/-- Why a text is no JSON. -/
inductive Fault where
  | listEnds
  | objectEnds
  | stringEnds
  | valueEnds
  | colonExpected
  | listCommaExpected
  | objectCommaExpected
  | wordExpected
  | valueExpected
  | badEscape
  | badNumber
  | numberTooLarge
  | controlCharacter
  | keyNotString
  | loneSurrogate
  | trailingComma
  | trailingText
  | hexEscapeEnds
  | tooDeep
  | unexpected (message : String)
  deriving DecidableEq

/-- The wording of a fault. -/
def Fault.message : Fault → String
  | listEnds => "EOF while parsing a list"
  | objectEnds => "EOF while parsing an object"
  | stringEnds => "EOF while parsing a string"
  | valueEnds => "EOF while parsing a value"
  | colonExpected => "expected `:`"
  | listCommaExpected => "expected `,` or `]`"
  | objectCommaExpected => "expected `,` or `\x7d`"
  | wordExpected => "expected ident"
  | valueExpected => "expected value"
  | badEscape => "invalid escape"
  | badNumber => "invalid number"
  | numberTooLarge => "number out of range"
  | controlCharacter => "control character (\\u0000-\\u001F) found while parsing a string"
  | keyNotString => "key must be a string"
  | loneSurrogate => "lone leading surrogate in hex escape"
  | trailingComma => "trailing comma"
  | trailingText => "trailing characters"
  | hexEscapeEnds => "unexpected end of hex escape"
  | tooDeep => "recursion limit exceeded"
  | unexpected message => message

/-- A fault and where it was found. -/
structure ReadError where
  fault : Fault
  line : Nat
  column : Nat
  deriving DecidableEq

/-- The wording of an error with its position. -/
def ReadError.message (e : ReadError) : String :=
  e.fault.message ++ " at line " ++ toString e.line ++ " column " ++ toString e.column

/-- Unread text and the position before it. -/
structure Cursor where
  rest : List Char
  line : Nat
  column : Nat

namespace Cursor

/-- The start of a text. -/
def start (text : List Char) : Cursor := ⟨text, 1, 0⟩

/-- The position behind one character. -/
def behind (c : Char) (line column : Nat) : Nat × Nat :=
  if c = '\n' then (line + 1, 0) else (line, column + c.utf8Size)

/-- Step over the next character, if any. -/
def advance (s : Cursor) : Cursor :=
  match s.rest with
  | [] => s
  | c :: rest =>
      let (line, column) := behind c s.line s.column
      ⟨rest, line, column⟩

/-- The position behind a number of bytes, which may end within a character, or at the end of the
text if it comes before. -/
def behindBytes : List Char → Nat → Nat → Nat → Nat × Nat
  | [], _, line, column => (line, column)
  | c :: rest, bytes, line, column =>
      if bytes = 0 then (line, column)
      else if c = '\n' then behindBytes rest (bytes - 1) (line + 1) 0
      else behindBytes rest (bytes - c.utf8Size) line (column + min c.utf8Size bytes)

/-- An error at the cursor. -/
def fail (s : Cursor) (fault : Fault) : ReadError := ⟨fault, s.line, s.column⟩

/-- An error behind a number of bytes. -/
def failBehind (s : Cursor) (bytes : Nat) (fault : Fault) : ReadError :=
  let (line, column) := behindBytes s.rest bytes s.line s.column
  ⟨fault, line, column⟩

/-- An error behind the next byte. -/
def failAhead (s : Cursor) (fault : Fault) : ReadError := s.failBehind 1 fault

/-- The four characters that may stand between the parts of a text. -/
def isSpace (c : Char) : Bool :=
  c == ' ' || c == '\n' || c == '\t' || c == '\r'

/-- Step over a run of characters. -/
def skipRun (run : List Char) (s : Cursor) : Cursor :=
  run.foldl (fun s _ => s.advance) s

/-- Step over the leading characters of a class. -/
def skipWhile (p : Char → Bool) (s : Cursor) : Cursor :=
  s.skipRun (s.rest.takeWhile p)

/-- Step over spaces. -/
def skipSpaces (s : Cursor) : Cursor := s.skipWhile isSpace

end Cursor
end Rollup.Json
