/-
# Rows that miss a filter

A row that no leg of a filter aggregation matches still has documents for every bucket outside
that filter: enclosing ones and those beside it. It becomes a placeholder whose documents are
muted inside the filter. When nothing outside the filter is shown, a placeholder is dropped
unless a row of its group that comes later matches.
-/

import Rollup.Forest.Basic
import Rollup.Row

namespace Rollup.Rows

/-- The indirect legs of one filter aggregation: the first of them and their columns. -/
structure FilterUnit where
  first : Nat
  columns : List String
  deriving DecidableEq, Repr

/-- Whether the leg at an index is active and indirect. -/
def isIndirectLeg (forest : Forest) (index : Nat) : Bool :=
  match forest[index]? with
  | some node => node.isActive && !node.decisions.direct
  | none => false

/-- Whether the leg at an index restricts nothing. -/
def isMatchAllLeg (forest : Forest) (index : Nat) : Bool :=
  match forest[index]?.bind fun node => node.aggregation.leg? with
  | some leg => leg.matchesAll
  | none => false

/-- The unit of the legs of one aggregation. No row misses an aggregation with a leg that
restricts nothing. -/
def filterUnit? (forest : Forest) (legs : List Nat) : Option FilterUnit :=
  let indirect := legs.filter (isIndirectLeg forest)
  let columns := indirect.filterMap fun index => forest[index]?.bind Node.groupColumn?
  match indirect with
  | [] => none
  | first :: _ =>
      if indirect.any (isMatchAllLeg forest) || columns.isEmpty then none
      else some ⟨first, columns⟩

/-- The units of all filter aggregations. -/
def filterUnits (forest : Forest) : List FilterUnit :=
  forest.legGroups.filterMap (filterUnit? forest)

namespace FilterUnit

/-- Whether a row matches some leg. -/
def isMatchedBy (unit : FilterUnit) (row : Row) : Bool := unit.columns.any row.flag

/-- Whether a row of a result misses every leg. -/
def isMissedBy (unit : FilterUnit) (row : Row) : Bool :=
  row.origin ≠ .empty && !unit.isMatchedBy row

end FilterUnit

/-- A row whose documents do not count within the aggregation that starts at an anchor. -/
def placeholder (anchor : Nat) (row : Row) : Row :=
  { row with
    origin := .placeholder
    mutedScopes :=
      if row.mutedScopes.contains anchor then row.mutedScopes
      else row.mutedScopes ++ [anchor] }

/-- Drop every row that misses the legs while no later row of its group matches. Also the groups
of the rows that match. -/
def dropUnread (unit : FilterUnit) (outer : List String) : List Row → List Row × List String
  | [] => ([], [])
  | row :: rest =>
      let (kept, matched) := dropUnread unit outer rest
      if row.origin = .empty then (row :: kept, matched)
      else
        let group := row.groupKey outer
        if unit.isMatchedBy row then (row :: kept, group :: matched)
        else if matched.contains group then (row :: kept, matched)
        else (kept, matched)

/-- Whether a shown node outside the aggregation that starts at an anchor reads the rows. -/
def isReadOutside (forest : Forest) (anchor : Nat) : Bool :=
  forest.zipIdx.any fun (node, index) => node.isShown && !forest.isWithin index anchor

/-- Settle the rows that miss one unit. -/
def settleUnit (forest : Forest) (rows : List Row) (unit : FilterUnit) : List Row :=
  let anchor := forest.anchor unit.first
  let kept :=
    if isReadOutside forest anchor then rows
    else (dropUnread unit (forest.groupColumnsBefore unit.first) rows).1
  kept.map fun row => if unit.isMissedBy row then placeholder anchor row else row

/-- Settle the rows that miss a filter, one filter aggregation after the other. -/
def settleUnmatched (forest : Forest) (rows : List Row) : List Row :=
  (filterUnits forest).foldl (settleUnit forest) rows

end Rollup.Rows
