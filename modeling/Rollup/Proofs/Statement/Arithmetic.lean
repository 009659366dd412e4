/-
# Arithmetic of a statement

A reader of arithmetic in which products bind tighter than sums, and the value of what it reads. The
values are rational numbers, so that quotients are exact, and dates are those of a calendar. A minus
sign that stands right before a number belongs to its numeral, so behind an operand such a number is
added.
-/

import Rollup.Proofs.Calendar.Months
import Rollup.Proofs.Filter.Grammar

namespace Rollup.Statement

open Calendar

/-- The functions of one argument. -/
inductive Builtin where
  | floor
  | year
  | month
  | yearMonth
  deriving DecidableEq, Repr

namespace Builtin

/-- The function that a token calls. -/
def read? : Token → Option Builtin
  | .word name =>
      [("FLOOR", floor), ("YEAR", year), ("MONTH", month), ("YEARMONTH", yearMonth)].lookup name
  | _ => none

/-- The value for an argument; for dates this is a time in seconds. -/
def apply (calendar : UtcCalendar) (x : Rat) : Builtin → Rat
  | floor => x.floor
  | year => calendar.year x.floor
  | month => calendar.month x.floor
  | yearMonth => calendar.year x.floor * 100 + calendar.month x.floor

end Builtin

/-- The operations on two numbers. -/
inductive Operation where
  | add
  | subtract
  | multiply
  | divide
  deriving DecidableEq, Repr

/-- The value for two operands; there is none for a quotient by zero. -/
def Operation.apply (x y : Rat) : Operation → Option Rat
  | add => some (x + y)
  | subtract => some (x - y)
  | multiply => some (x * y)
  | divide => if y = 0 then none else some (x / y)

/-- An arithmetic expression. -/
inductive Arithmetic where
  | number (numeral : String)
  /-- An attribute, by the token that names it. -/
  | field (name : Token)
  | call (function : Builtin) (argument : Arithmetic)
  | operate (operation : Operation) (left right : Arithmetic)
  deriving DecidableEq

namespace Arithmetic

/-- The value, given the values of the attributes. -/
def value (calendar : UtcCalendar) (attributes : Token → Option Rat) : Arithmetic → Option Rat
  | number numeral => (Json.Number.readInteger? numeral.toList).map fun n : Int => (n : Rat)
  | field name => attributes name
  | call function argument =>
      (argument.value calendar attributes).map fun x => function.apply calendar x
  | operate operation left right =>
      (left.value calendar attributes).bind fun x =>
        (right.value calendar attributes).bind fun y => operation.apply x y

/-! ## Reading -/

/-- The operation of a product that a token stands for. -/
def factorOperation? : Token → Option Operation
  | .sign '*' => some .multiply
  | .sign '/' => some .divide
  | _ => none

/-- The operation of a sum that a token stands for. -/
def termOperation? : Token → Option Operation
  | .sign '+' => some .add
  | .sign '-' => some .subtract
  | _ => none

/-- Whether a token is a number with a minus sign. -/
def isNegated : Token → Bool
  | .number numeral => numeral.toList.head? = some '-'
  | _ => false

section

variable (readPart : List Token → Option (Arithmetic × List Token))

/-- More parts behind the first ones, with operations between them; the first ones are taken
together. -/
def readMore (operation? : Token → Option Operation) (joins : Token → Bool) :
    Nat → Arithmetic → List Token → Option (Arithmetic × List Token)
  | 0, _, _ => none
  | _ + 1, left, [] => some (left, [])
  | fuel + 1, left, token :: rest =>
      match operation? token with
      | some operation =>
          (readPart rest).bind fun right =>
            readMore operation? joins fuel (operate operation left right.1) right.2
      | none =>
          if joins token then
            (readPart (token :: rest)).bind fun right =>
              readMore operation? joins fuel (operate .add left right.1) right.2
          else some (left, token :: rest)

/-- A product of operands. -/
def readProduct (fuel : Nat) (ts : List Token) : Option (Arithmetic × List Token) :=
  (readPart ts).bind fun first =>
    readMore readPart factorOperation? (fun _ => false) fuel first.1 first.2

/-- A sum of products. -/
def readSum (fuel : Nat) (ts : List Token) : Option (Arithmetic × List Token) :=
  (readProduct readPart fuel ts).bind fun first =>
    readMore (readProduct readPart fuel) termOperation? isNegated fuel first.1 first.2

end

/-- A number, an attribute, a call, or anything in parentheses. A keyword in the place of an operand
is taken for an attribute. -/
def readOperand : Nat → List Token → Option (Arithmetic × List Token)
  | 0, _ => none
  | fuel + 1, .opening :: rest => beforeClosing (readSum (readOperand fuel) fuel rest)
  | fuel + 1, token :: .opening :: rest =>
      (Builtin.read? token).bind fun function =>
        (beforeClosing (readSum (readOperand fuel) fuel rest)).map fun argument =>
          (call function argument.1, argument.2)
  | _ + 1, .number numeral :: rest => some (number numeral, rest)
  | _ + 1, .word name :: rest => some (field (.word name), rest)
  | _ + 1, .quoted name :: rest => some (field (.quoted name), rest)
  | _ + 1, .keyword k :: rest => some (field (.keyword k), rest)
  | _ + 1, _ => none

/-- The expression that all of the tokens say. -/
def parse (ts : List Token) : Option Arithmetic :=
  (readSum (readOperand ts.length) ts.length ts).bind fun e => if e.2 = [] then some e.1 else none

/-- Products come first, and a number with a minus sign is added. -/
example : parse (tokens "1+2*(ts-3)") = some (operate .add (number "1")
    (operate .multiply (number "2") (operate .add (field (.word "ts")) (number "-3")))) := by
  decide +kernel

end Arithmetic

/-- The value of a text where one attribute has a value, and no other has one. -/
def evaluate (calendar : UtcCalendar) (field : String) (x : Rat) (text : String) : Option Rat :=
  (Arithmetic.parse (tokens text)).bind
    (Arithmetic.value calendar fun name => if name = nameToken field then some x else none)

end Rollup.Statement
