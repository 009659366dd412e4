/-
# Blanked metrics

A metric that the table cannot compute is shown without a value.
-/

import Rollup.Forest.Basic
import Rollup.Row

namespace Rollup.Rows

def isBlanked (node : Node) : Bool := node.isMetric && node.decisions.blanked

/-- The columns of blanked metrics. -/
def blankedColumns (forest : Forest) : List String :=
  (forest.filter isBlanked).filterMap fun node => node.decisions.column

/-- Empty the cells of blanked metrics. -/
def blank (forest : Forest) (rows : List Row) : List Row :=
  let columns := blankedColumns forest
  rows.map fun row => columns.foldl (fun row column => row.set column .null) row

end Rollup.Rows
