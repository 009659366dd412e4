/-
# Result sets as text

The first result set of a reply, as a table with the names of its columns above the rows and
the number of rows below.
-/

import Rollup.Command.Grid
import Rollup.Json.Print

namespace Rollup.Command

/-- The first result set of a reply, null if there is none. -/
def firstResultSet : Json → Json
  | .array sets => sets.head?.getD .null
  | other => other

/-- The text of a cell; a missing one and null have none. -/
def cellText (row : Json) (column : String) : String :=
  match row.field? column with
  | none => ""
  | some .null => ""
  | some (.string text) => text
  | some value => value.compact

/-- The names of the columns: the first key of each description. -/
def columnNames (set : Json) : List String :=
  match (set.field? "columns").bind Json.array? with
  | some columns =>
      columns.filterMap fun column => (column.object?.bind List.head?).map Prod.fst
  | none => []

/-- A reply as text, or its error. -/
def resultText (reply : Json) : Except String String :=
  let set := firstResultSet reply
  match (set.stringField? "error").filter fun e => !e.isEmpty with
  | some error => .error error
  | none =>
      let columns := columnNames set
      let rows := ((set.field? "data").bind Json.array?).getD []
      let count := toString rows.length ++ " rows"
      if columns.isEmpty then .ok count
      else
        let records := columns :: rows.map fun row => columns.map (cellText row)
        .ok (TextTable.render records ++ "\n" ++ count)

end Rollup.Command
