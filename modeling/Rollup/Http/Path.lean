/-
# Paths

What stands behind the host of an address becomes the target of a request. Tabs and line ends do
not count; a hash sign ends the target, and the first question mark starts its query. Backslashes
are slashes, and parts of one or two points lead nowhere or back. Bytes that a target does not
hold are written in hexadecimal behind a percent sign.
-/

import Rollup.Text.Split

namespace Rollup.Http

/-- The printable characters that a path does not hold as they are. -/
def escapedInPath : List Char := [' ', '"', '#', '<', '>', '?', '\x60', '\x7b', '\x7d']

/-- The printable characters that a query does not hold as they are. -/
def escapedInQuery : List Char := [' ', '"', '#', '<', '>', '\'']

/-- Two hexadecimal digits in upper case. -/
def hexByte (n : Nat) : String :=
  let digit (d : Nat) : Char := Char.ofNat (if d < 10 then 48 + d else 55 + d)
  String.ofList [digit (n / 16 % 16), digit (n % 16)]

/-- One character, escaped unless it is printable and not among some. -/
def escapeChar (escaped : List Char) (c : Char) : String :=
  if 32 ≤ c.toNat ∧ c.toNat < 127 ∧ c ∉ escaped then String.singleton c
  else String.join ((String.utf8EncodeChar c).map fun b => "%" ++ hexByte b.toNat)

def escape (escaped : List Char) (text : List Char) : String :=
  String.join (text.map (escapeChar escaped))

/-- The points of a part that is made of one or two points, which may be escaped. -/
def pointsOf? (part : String) : Option Nat :=
  let lower := String.ofList (part.toList.map Char.toLower)
  if [".", "%2e"].contains lower then some 1
  else if ["..", ".%2e", "%2e.", "%2e%2e"].contains lower then some 2
  else none

/-- The parts of a path with points followed. -/
def followPoints (parts : List (List Char)) : List String :=
  parts.foldl (fun taken part =>
    let part := escape escapedInPath part
    match pointsOf? part with
    | some 1 => taken
    | some _ => taken.dropLast
    | none => taken ++ [part]) []

/-- The target for the text behind the host, which starts with a slash. -/
def targetOf (text : String) : String :=
  let shown := text.toList.filter fun c => c ≠ '\t' ∧ c ≠ '\n' ∧ c ≠ '\r'
  let addressed := shown.takeWhile (· ≠ '#')
  let path := addressed.takeWhile (· ≠ '?')
  let slashed := (path.map fun c => if c = '\\' then '/' else c).drop 1
  let start := "/" ++ String.intercalate "/" (followPoints (Text.split '/' slashed))
  match addressed.dropWhile (· ≠ '?') with
  | [] => start
  | _ :: query => start ++ "?" ++ escape escapedInQuery query

end Rollup.Http
