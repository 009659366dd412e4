/-
# The tables of the search daemon

The daemon lists the tables like a pattern and describes each one by a row for each of its
attributes.
-/

import Rollup.Catalog.Pattern
import Rollup.Catalog.Table
import Rollup.Json.Basic
import Rollup.Order

namespace Rollup.Daemon

/-- Whether a pattern may stand in a statement. -/
def isSafe (pattern : String) : Bool :=
  !pattern.isEmpty &&
    pattern.toList.all fun c => c.isAlphanum || ['_', '.', '*', '-'].contains c

/-- One character of a pattern as the daemon writes patterns; the underscore stands for itself
behind a backslash, which is written twice in a text. -/
def likeChar (c : Char) : List Char :=
  if c = '_' then ['\\', '\\', '_']
  else if c = '*' then ['%']
  else [c]

/-- A pattern as the daemon writes patterns. -/
def likePattern (pattern : String) : String := String.ofList (pattern.toList.flatMap likeChar)

/-- The name of the table that a row lists, in one of two columns or else in the first one. -/
def listedName? (row : Fields) : Option String :=
  let cell := match Fields.get? row "Table", Fields.get? row "Index" with
    | some cell, _ => some cell
    | none, some cell => some cell
    | none, none => (row.head?).map Prod.snd
  cell.bind Json.string?

/-- Names with those that rows list and a pattern describes, each once. -/
def addNames (pattern : String) (names : List String) (rows : List Fields) : List String :=
  (rows.filterMap listedName?).foldl (fun names name =>
    if TablePattern.isMatch pattern name && !names.contains name then names ++ [name]
    else names) names

/-- The attribute that a row describes. A text that is only searched cannot be grouped by. -/
def describedField? (row : Fields) : Option (String × Bool) :=
  match (Fields.get? row "Field").bind Json.string?, (Fields.get? row "Type").bind Json.string? with
  | some field, some kind => some (field, kind ≠ "text")
  | _, _ => none

/-- Add an attribute; one that is described twice can be grouped by if either says so. -/
def addField (table : Table) (field : String × Bool) : Table :=
  { table with
    fields := Table.insertField table.fields field.1
      (table.isAggregatable field.1 || field.2) }

/-- A table from the rows that describe it. -/
def describeTable (name : String) (rows : List Fields) : Table :=
  (rows.filterMap describedField?).foldl addField ⟨name, []⟩

/-- Names in ascending order. -/
def sortedNames (names : List String) : List String := Order.sortBy compare names

end Rollup.Daemon
