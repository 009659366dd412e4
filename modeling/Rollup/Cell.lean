/-
# Cells

A cell of a result row is a JSON value whose numbers may be written as strings. Here are its
readings as a number, as a text and as a group identity, and the order of cells.
-/

import Rollup.Json.Print

namespace Rollup.Cell

/-- The number in a cell: a number, the text of one, or a truth value as one or zero. -/
def number? : Json → Option Binary64
  | .number n => some n.toBinary64
  | .string s => Binary64.readTrimmed? s
  | .bool b => some (if b then 1 else 0)
  | _ => none

/-- The text of a cell: a string as it is, all else as compact JSON. -/
def text : Json → String
  | .string s => s
  | other => other.compact

/-- The identity of a cell in a group. Numbers and the plain text of numbers coincide. -/
def key : Json → String
  | .null => "\x00"
  | .number n => n.toBinary64.text
  | other => text other

/-- The order of cells: numbers before texts, null last. Numbers that do not compare count as
equal. -/
def compare (a b : Json) : Ordering :=
  match a.isNull, b.isNull with
  | true, true => .eq
  | true, false => .gt
  | false, true => .lt
  | false, false =>
      match number? a, number? b with
      | some x, some y => (Binary64.compare? x y).getD .eq
      | some _, none => .lt
      | none, some _ => .gt
      | none, none => Ord.compare (text a) (text b)

theorem compare_null_self : compare .null .null = .eq := rfl

/-- Null comes after every other cell. -/
theorem compare_null_right {a : Json} (h : a.isNull = false) : compare a .null = .lt := by
  have hnull : Json.null.isNull = true := rfl
  simp [compare, h, hnull]

end Rollup.Cell
