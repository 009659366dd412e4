/-
# Planning for a table

A request is planned for each table by passes over its forest. A pass decides about nodes, or
finds that the table cannot answer the request at all.
-/

import Rollup.Catalog.Table
import Rollup.Forest.OfRequest

namespace Rollup

/-- The table that is planned for, and what the passes share. -/
structure PlanContext where
  table : Table
  /-- Whether the request goes to other tables too. -/
  multiTable : Bool
  /-- Names that generated columns keep away from. -/
  reserved : List String
  /-- The column of the document count. -/
  countColumn : String
  /-- Whether the order of buckets is settled after the statement. -/
  complexOrder : Bool

/-- How a pass ends. -/
inductive PassOutcome where
  | goOn
  /-- The table is left out, for a reason. -/
  | skip (reason : String)
  deriving DecidableEq, Repr

/-- What the passes work on. -/
structure Draft where
  context : PlanContext
  forest : Forest

namespace PlanContext

/-- Lengthen a name by underscores until no reserved name equals it. Each of the reserved names
can be met once, so their number is fuel enough. -/
def lengthen (isTaken : String → Bool) : Nat → String → String
  | 0, name => name
  | fuel + 1, name => if isTaken name then lengthen isTaken fuel (name ++ "_") else name

/-- A context before any pass. The column of the count keeps away from reserved names. -/
def new (table : Table) (multiTable : Bool) (reserved : List String) (countColumn : String) :
    PlanContext :=
  { table, multiTable, reserved
    countColumn := lengthen reserved.contains reserved.length countColumn
    complexOrder := false }

end PlanContext
end Rollup
