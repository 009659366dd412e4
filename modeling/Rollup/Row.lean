/-
# Result rows

A row has one cell for each selected column. Passes over the rows copy rows and make new ones;
a row remembers where it comes from and at which aggregations its documents count.
-/

import Rollup.Cell

namespace Rollup

/-- Where a row comes from. -/
inductive Origin where
  /-- A row of the result. -/
  | engine
  /-- A copy of a row that matched several filter buckets side by side. -/
  | expanded
  /-- A row without documents for an interval that had none. -/
  | gapFill
  /-- A row that missed a filter; it counts outside that filter only. -/
  | placeholder
  /-- The row that stands for a result without rows. -/
  | empty
  deriving DecidableEq, Repr

structure Row where
  cells : Fields
  origin : Origin
  /-- Anchors of the aggregations within which alone the documents count; no entry restricts
  nothing. -/
  countScopes : List Nat
  /-- Anchors of the aggregations within which the documents do not count. -/
  mutedScopes : List Nat

namespace Row

/-- A row with the given cells that counts everywhere. -/
def ofCells (cells : Fields) (origin : Origin) : Row := ⟨cells, origin, [], []⟩

/-- A cell that is present and not null. -/
def get? (row : Row) (column : String) : Option Json :=
  (row.cells.get? column).filter fun v => !v.isNull

/-- The number in a cell. -/
def number? (row : Row) (column : String) : Option Binary64 :=
  (row.get? column).bind Cell.number?

def set (row : Row) (column : String) (value : Json) : Row :=
  { row with cells := row.cells.insert column value }

/-- The document count of a row; a cell that is no positive number counts none. -/
def count (row : Row) (column : String) : Nat :=
  match row.number? column with
  | some x => if Binary64.less 0 x then x.toNat64 else 0
  | none => 0

/-- Whether a filter column reports a match: any number but zero. -/
def flag (row : Row) (column : String) : Bool :=
  match row.number? column with
  | some x => !x.same 0
  | none => false

/-- The same row without documents. -/
def muted (row : Row) (countColumn : String) : Row := row.set countColumn (.ofInt 0)

/-- The cell of a column, null when there is none. -/
def cellOrNull (row : Row) (column : String) : Json :=
  (row.cells.get? column).getD .null

/-- The identity of a row among groups over some columns: the identities of its cells, each closed
by the unit separator. -/
def groupKey (row : Row) (columns : List String) : String :=
  String.join (columns.map fun column => Cell.key (row.cellOrNull column) ++ "\x1f")

end Row
end Rollup
