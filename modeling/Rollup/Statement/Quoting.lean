/-
# Names and literals in statements

A name of letters, digits and underscores, with points between its parts, stands as it is;
any other name stands in backquotes, and backquotes in it are left out. A text literal stands
in quotes, with a backslash before quotes and backslashes.
-/

import Rollup.Json.Basic

namespace Rollup.Statement

/-- An ASCII letter or an underscore. -/
def startsName (c : Char) : Bool := c.isAlpha || c == '_'

/-- An ASCII letter or digit or an underscore. -/
def continuesName (c : Char) : Bool := c.isAlphanum || c == '_'

/-- Whether a part between points needs no quoting: it starts as a name and goes on as one. -/
def isPlainPart : List Char → Bool
  | [] => false
  | c :: rest => startsName c && rest.all continuesName

/-- The parts of a text between its points. -/
def partsAtPoints : List Char → List (List Char)
  | [] => [[]]
  | c :: rest =>
      match partsAtPoints rest with
      | [] => [[c]]
      | part :: parts => if c = '.' then [] :: part :: parts else (c :: part) :: parts

/-- Whether a name needs no quoting. -/
def isPlainName (name : List Char) : Bool :=
  (partsAtPoints name).all isPlainPart

/-- The backquote. -/
def backquote : Char := '\x60'

/-- A name as a statement writes it. -/
def quoteName (name : String) : String :=
  let chars := name.toList
  if isPlainName chars then name
  else String.ofList (backquote :: (chars.filter (· ≠ backquote) ++ [backquote]))

/-- A character inside a text literal. -/
def escapeInText (c : Char) : List Char :=
  if c = '\\' ∨ c = '\'' then ['\\', c] else [c]

/-- A text literal. -/
def quoteText (text : String) : String :=
  String.ofList ('\'' :: (text.toList.flatMap escapeInText ++ ['\'']))

/-- A literal of a statement. -/
inductive Literal where
  | number (value : Json.Number)
  | text (value : String)
  deriving DecidableEq

namespace Literal

/-- A truth value as one or zero. -/
def ofBool (b : Bool) : Literal := number (.integer (if b then 1 else 0))

/-- The literal of a JSON scalar; null, lists and objects have none. -/
def ofJson? : Json → Option Literal
  | .number n => some (number n)
  | .bool b => some (ofBool b)
  | .string s => some (text s)
  | _ => none

def render : Literal → String
  | number n => n.text
  | text s => quoteText s

end Literal
end Rollup.Statement
