/-
# Describing tables

A table is described on the command line by its name and its attributes, or in a file as JSON. A
file is read strictly: what is missing or of another type is reported with its position.
-/

import Rollup.Catalog.Table
import Rollup.Json.Skip
import Rollup.Text.Printable
import Rollup.Text.Split

namespace Rollup.Command

/-- An attribute; a tilde behind its name marks one that is only searched as text. -/
def describedAttribute (text : String) : String × Bool :=
  match text.toList.reverse with
  | '~' :: rest => (String.ofList rest.reverse, false)
  | _ => (text, true)

/-- A table described by a name, a colon and its attributes between commas. -/
def describedTable (text : String) : Except String Table :=
  match Text.splitFirst? ':' text with
  | none => .error ("expected NAME:FIELD,... in '" ++ text ++ "'")
  | some (name, fields) =>
      let attributes :=
        ((Text.parts ',' fields).map Text.trimmed).filter fun field => !field.isEmpty
      .ok (Table.ofFields (Text.trimmed name) (attributes.map describedAttribute))

namespace TableFile

open Json

/-! ## Values of a certain type -/

/-- One character of a text that is quoted for a reader. -/
def quotedChar (c : Char) : String :=
  if c = '"' then "\\\""
  else if c = '\\' then "\\\\"
  else if c = '\n' then "\\n"
  else if c = '\r' then "\\r"
  else if c = '\t' then "\\t"
  else if c = '\x00' then "\\0"
  else if Text.isPrintable c then String.singleton c
  else "\\u\x7b" ++ String.ofList (Nat.toDigits 16 c.toNat) ++ "\x7d"

/-- What a value is called that should have been another one. -/
def nameOf : Json → String
  | .null => "null"
  | .bool b => if b then "boolean `true`" else "boolean `false`"
  | .number (.integer n) => "integer `" ++ toString n ++ "`"
  | .number n => "floating point `" ++ n.text ++ "`"
  | .string s => "string \"" ++ String.join (s.toList.map quotedChar) ++ "\""
  | .array _ => "sequence"
  | .object _ => "map"

/-- The fault of a value of another type than expected. -/
def wrongType (found expected : String) : Fault :=
  .unexpected ("invalid type: " ++ found ++ ", expected " ++ expected)

/-- The error of a value that is not of the expected type, the cursor being on it. -/
def typeError (expected : String) (s : Cursor) : ReadError :=
  match s.rest with
  | '[' :: _ => s.fail (wrongType "sequence" expected)
  | '\x7b' :: _ => s.fail (wrongType "map" expected)
  | _ =>
      match readScalar s with
      | .ok (value, s) => s.fail (wrongType (nameOf value) expected)
      | .error e => e

/-- A value that starts with a certain character. -/
def expecting {α : Type} (start : Char) (expected : String) (s : Cursor)
    (read : Cursor → Except ReadError (α × Cursor)) : Except ReadError (α × Cursor) :=
  let s := s.skipSpaces
  match s.rest with
  | [] => .error (s.fail .valueEnds)
  | c :: _ => if c = start then read s else .error (typeError expected s)

def readText (s : Cursor) : Except ReadError (String × Cursor) :=
  expecting '"' "a string" s readString

def readFlag (s : Cursor) : Except ReadError (Bool × Cursor) :=
  let s := s.skipSpaces
  match s.rest with
  | [] => .error (s.fail .valueEnds)
  | 't' :: _ => do
      let (_, s) ← readWord ['r', 'u', 'e'] s.advance
      .ok (true, s)
  | 'f' :: _ => do
      let (_, s) ← readWord ['a', 'l', 's', 'e'] s.advance
      .ok (false, s)
  | _ => .error (typeError "a boolean" s)

/-! ## Tables -/

/-- The attributes of a table, the cursor being behind the opening brace. -/
def readAttributes : Nat → Bool → List (String × Bool) → Cursor →
    Except ReadError (List (String × Bool) × Cursor)
  | 0, _, _, s => .error (s.fail .objectEnds)
  | fuel + 1, first, fields, s => do
      let (more, s) ← nextKey first s
      if more then
        let (name, s) ← readString s
        let (_, s) ← readColon s
        let (usable, s) ← readFlag s
        readAttributes fuel false (Table.insertField fields name usable) s
      else .ok (fields, s.advance)

/-- The attributes of a table. Every step reads at least one character, so the length of the text
is fuel enough. -/
def readFieldMap (s : Cursor) : Except ReadError (List (String × Bool) × Cursor) :=
  expecting '\x7b' "a map" s fun s => readAttributes (s.rest.length + 1) true [] s.advance

/-- What is known of a table so far. -/
structure KnownMembers where
  name : Option String
  fields : Option (List (String × Bool))

/-- The table, or the field that is missing. -/
def KnownMembers.complete (known : KnownMembers) : Except Fault Table :=
  match known.name, known.fields with
  | some name, some fields => .ok ⟨name, fields⟩
  | none, _ => .error (.unexpected "missing field `name`")
  | _, none => .error (.unexpected "missing field `fields`")

/-- The error of a field that is there already, the cursor being behind its key. It is found behind
the closing brace if that comes next. -/
def repeatedField (name : String) (s : Cursor) : ReadError :=
  let s := s.skipSpaces
  let s := match s.rest with
    | '\x7d' :: _ => s.advance
    | _ => s
  s.fail (.unexpected ("duplicate field `" ++ name ++ "`"))

/-- One field of a table, the cursor being behind its key. Other fields are passed over. -/
def readMember (known : KnownMembers) (key : String) (s : Cursor) :
    Except ReadError (KnownMembers × Cursor) :=
  if key = "name" then
    if known.name.isSome then .error (repeatedField "name" s)
    else do
      let (_, s) ← readColon s
      let (name, s) ← readText s
      .ok ({ known with name := some name }, s)
  else if key = "fields" then
    if known.fields.isSome then .error (repeatedField "fields" s)
    else do
      let (_, s) ← readColon s
      let (fields, s) ← readFieldMap s
      .ok ({ known with fields := some fields }, s)
  else do
    let (_, s) ← readColon s
    let s ← skipValue s
    .ok (known, s)

/-- A table written as an object, the cursor being behind the opening brace. -/
def readMembers : Nat → Bool → KnownMembers → Cursor → Except ReadError (Table × Cursor)
  | 0, _, _, s => .error (s.fail .objectEnds)
  | fuel + 1, first, known, s => do
      let (more, s) ← nextKey first s
      if more then
        let (key, s) ← readString s
        let (known, s) ← readMember known key s
        readMembers fuel false known s
      else
        match known.complete with
        | .ok table => .ok (table, s.advance)
        | .error fault => .error (s.advance.fail fault)

/-- The end of a list behind its last item. -/
def readListEnd (s : Cursor) : Except ReadError Cursor :=
  let s := s.skipSpaces
  match s.rest with
  | [] => .error (s.fail .listEnds)
  | ']' :: _ => .ok s.advance
  | ',' :: _ =>
      let s := s.advance.skipSpaces
      if s.rest.head? = some ']' then .error (s.failAhead .trailingComma)
      else .error (s.failAhead .trailingText)
  | _ => .error (s.failAhead .trailingText)

/-- The fault of a list with too few items for a table. -/
def tooShort (length : Nat) : Fault :=
  .unexpected
    ("invalid length " ++ toString length ++ ", expected struct TableFields with 2 elements")

/-- A table written as a list of its name and its attributes, the cursor being behind the opening
bracket. -/
def readTuple (s : Cursor) : Except ReadError (Table × Cursor) := do
  let (more, s) ← nextItem true s
  if more then
    let (name, s) ← readText s
    let (more, s) ← nextItem false s
    if more then
      let (fields, s) ← readFieldMap s
      let s ← readListEnd s
      .ok (⟨name, fields⟩, s)
    else .error (s.advance.fail (tooShort 1))
  else .error (s.advance.fail (tooShort 0))

def readTable (s : Cursor) : Except ReadError (Table × Cursor) :=
  let s := s.skipSpaces
  match s.rest with
  | [] => .error (s.fail .valueEnds)
  | '[' :: _ => readTuple s.advance
  | '\x7b' :: _ => readMembers (s.rest.length + 1) true ⟨none, none⟩ s.advance
  | _ => .error (typeError "struct TableFields" s)

/-- The tables of a list in reverse, the cursor being behind the opening bracket. -/
def readTables : Nat → Bool → List Table → Cursor → Except ReadError (List Table × Cursor)
  | 0, _, _, s => .error (s.fail .listEnds)
  | fuel + 1, first, tables, s => do
      let (more, s) ← nextItem first s
      if more then
        let (table, s) ← readTable s
        readTables fuel false (table :: tables) s
      else .ok (tables.reverse, s.advance)

/-- Read a file of tables. -/
def read (text : String) : Except ReadError (List Table) := do
  let chars := text.toList
  let (tables, s) ← expecting '[' "a sequence" (Cursor.start chars) fun s =>
    readTables (chars.length + 1) true [] s.advance
  readEnd s
  return tables

end TableFile
end Rollup.Command
