/-
# Groups of rows

Rows belong to one group when they agree in the identities of some cells. What a row says about
its documents is added up over a group.
-/

import Rollup.Aggregation.Metric
import Rollup.Row

namespace Rollup

namespace Row

/-- The value of a metric in a row; a row without documents has none. -/
def measure? (row : Row) (column countColumn : String) : Option Binary64 :=
  if row.count countColumn = 0 then none else row.number? column

end Row

/-- Add the value of a metric in a row, weighted by the documents of the row. -/
def Tally.addRow (tally : Tally) (column countColumn : String) (row : Row) : Tally :=
  match row.measure? column countColumn with
  | some value => tally.add value (row.count countColumn)
  | none => tally

namespace Rows

/-- The groups over some columns in the order in which they first appear, each with its rows in
their order. -/
def groups (columns : List String) (rows : List Row) : List (String × List Row) :=
  let keyed := rows.map fun row => (row.groupKey columns, row)
  (keyed.map Prod.fst).eraseDups.map fun key =>
    (key, (keyed.filter fun entry => entry.1 = key).map Prod.snd)

/-- The documents of all rows. -/
def documents (countColumn : String) (rows : List Row) : Nat :=
  (rows.map fun row => row.count countColumn).foldl (· + ·) 0

/-- The metric of the documents of all rows. -/
def tally (function : MetricFunction) (column countColumn : String) (rows : List Row) : Tally :=
  rows.foldl (fun tally row => tally.addRow column countColumn row) (Tally.empty function)

end Rows
end Rollup
