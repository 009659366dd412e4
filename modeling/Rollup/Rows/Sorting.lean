/-
# The order of rows

An order that the statement could not take is settled here. Rows are ordered level by level: a
terms level by its key, by the documents of its groups, or by a metric of them; a histogram
level by its own column, ascending. Missing cells come last in every direction.
-/

import Rollup.Forest.Basic
import Rollup.Order
import Rollup.Rows.Group

namespace Rollup.Rows

/-- What the rows are ordered by at one level. -/
inductive SortKey where
  /-- A cell of the row. -/
  | column (name : String)
  /-- The documents of the group over some columns. -/
  | count (group : List String)
  /-- A metric of the group over some columns. -/
  | metric (group : List String) (function : MetricFunction) (column : String)
  deriving DecidableEq

structure SortLevel where
  key : SortKey
  direction : Direction
  deriving DecidableEq

/-- The function and the column of the metric that a node is ordered by. -/
def orderedMetric? (forest : Forest) (node : Node) : Option (MetricFunction × String) :=
  match node.decisions.orderMetric.bind fun index => forest[index]? with
  | some other =>
      match other.aggregation.metric?, other.decisions.column with
      | some m, some column => some (m.function, column)
      | _, _ => none
  | none => none

/-- What a node that orders its buckets asks of the rows. -/
def sortLevel? (forest : Forest) (index : Nat) (node : Node) : Option SortLevel :=
  match node.aggregation.terms? with
  | some t =>
      let group := forest.groupColumnsThrough index
      let key := match t.order.target, orderedMetric? forest node with
        | .key, _ => SortKey.column t.field
        | .metric _, some (function, column) => SortKey.metric group function column
        | _, _ => SortKey.count group
      some ⟨key, t.order.direction⟩
  | none => node.decisions.column.map fun column => ⟨.column column, .ascending⟩

/-- The levels of the order, from the outermost inward. -/
def sortLevels (forest : Forest) : List SortLevel :=
  (forest.zipIdx.filter fun (node, _) => node.isActive && node.aggregation.isValueGroup).filterMap
    fun (node, index) => sortLevel? forest index node

/-- The cell of every row that one level compares. -/
def sortCells (countColumn : String) (rows : List Row) : SortKey → List Json
  | .column name => rows.map fun row => row.cellOrNull name
  | .count group =>
      let totals := (groups group rows).map fun entry =>
        (entry.1, Json.ofNat (documents countColumn entry.2))
      rows.map fun row => (totals.lookup (row.groupKey group)).getD .null
  | .metric group function column =>
      let values := (groups group rows).map fun entry =>
        (entry.1, Json.ofOption
          ((tally function column countColumn entry.2).result?.map Json.ofBinary64))
      rows.map fun row => (values.lookup (row.groupKey group)).getD .null

/-- Every row with the cells that the levels compare. -/
def withSortCells (countColumn : String) (levels : List SortLevel) (rows : List Row) :
    List (List Json × Row) :=
  let cells := levels.foldr
    (fun level cells => List.zipWith List.cons (sortCells countColumn rows level.key) cells)
    (rows.map fun _ => [])
  cells.zip rows

/-- Compare two cells in some direction, null last. -/
def compareCell (direction : Direction) (a b : Json) : Ordering :=
  if direction.isDescending && !a.isNull && !b.isNull then Cell.compare b a
  else Cell.compare a b

/-- Compare level by level. -/
def compareCells : List SortLevel → List Json → List Json → Ordering
  | level :: levels, a :: as, b :: bs =>
      (compareCell level.direction a b).then (compareCells levels as bs)
  | _, _, _ => .eq

/-- The rows in the order of the levels. -/
def sort (forest : Forest) (countColumn : String) (rows : List Row) : List Row :=
  let levels := sortLevels forest
  (Order.sortBy (fun a b => compareCells levels a.1 b.1)
    (withSortCells countColumn levels rows)).map Prod.snd

end Rollup.Rows
