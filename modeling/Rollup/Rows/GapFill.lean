/-
# Empty intervals

The innermost histogram behind every terms level shows its empty intervals, if it asks for them.
Within each group of the levels above it, every interval between the first and the last one, or
the declared bounds if these lie further out, gets a row without documents.
-/

import Rollup.Forest.Basic
import Rollup.Rows.Group

namespace Rollup.Rows

/-- A histogram that is filled in. -/
structure GapTarget where
  index : Nat
  column : String
  grid : Grid
  bounds : Option (Int × Int)

/-- Whether no terms level is active at an index or behind it. -/
def isBehindTerms (forest : Forest) (index : Nat) : Bool :=
  (forest.drop index).all fun node => !(node.isActive && node.aggregation.terms?.isSome)

/-- The node at an index, if it shows its empty intervals. -/
def gapTargetAt? (forest : Forest) (index : Nat) (node : Node) : Option GapTarget :=
  if node.isActive && node.aggregation.showsEmpty && isBehindTerms forest index then
    match node.decisions.column, node.aggregation.grid? with
    | some column, some (grid, bounds) => some ⟨index, column, grid, bounds⟩
    | _, _ => none
  else none

/-- The histogram to fill in: the last one that shows its empty intervals. -/
def gapTarget? (forest : Forest) : Option GapTarget :=
  (forest.zipIdx.filterMap fun (node, index) => gapTargetAt? forest index node).getLast?

/-- The indices that are not present among some successive ones, up to a limit. -/
def missingFrom (present : List Int) : Nat → Nat → Int → List Int
  | 0, _, _ => []
  | steps + 1, limit, index =>
      if present.contains index then missingFrom present steps limit (index + 1)
      else
        match limit with
        | 0 => []
        | limit + 1 => index :: missingFrom present steps limit (index + 1)

/-- The first indices, up to a limit, that are not present from the lowest to the highest one. -/
def missingBetween (present : List Int) (low high : Int) (limit : Nat) : List Int :=
  missingFrom present (high + 1 - low).toNat limit low

/-- The indices of the intervals that rows have. -/
def presentIndices (target : GapTarget) (group : List Row) : List Int :=
  (group.filterMap fun row => (row.number? target.column).map target.grid.indexOf).eraseDups

/-- The indices of the intervals that are missing in a group. -/
def missingIndices (target : GapTarget) (limit : Nat) (group : List Row) : List Int :=
  let present := presentIndices target group
  match (present ++ (target.bounds.map Prod.fst).toList).min?,
      (present ++ (target.bounds.map Prod.snd).toList).max? with
  | some low, some high => missingBetween present low high limit
  | _, _ => []

/-- A row without documents for one interval of the group of another row. -/
def gapRow (target : GapTarget) (outer : List String) (countColumn : String) (template : Row)
    (index : Int) : Row :=
  let kept : Fields := template.cells.map fun cell =>
    (cell.1, if outer.contains cell.1 then cell.2 else .null)
  Row.ofCells ((kept.insert target.column (target.grid.valueAt index)).insert countColumn
    (.ofInt 0)) .gapFill

/-- A group with the rows of its missing intervals behind it. -/
def fillGroup (target : GapTarget) (outer : List String) (countColumn : String) (limit : Nat)
    (group : List Row) : List Row :=
  match group with
  | [] => []
  | template :: _ =>
      group ++ (missingIndices target limit group).map
        (gapRow target outer countColumn template)

/-- Fill in the empty intervals, group by group. -/
def fillGaps (forest : Forest) (countColumn : String) (limit : Nat) (rows : List Row) :
    List Row :=
  match gapTarget? forest with
  | none => rows
  | some target =>
      let outer := forest.groupColumnsBefore target.index
      (groups outer rows).flatMap fun entry =>
        fillGroup target outer countColumn limit entry.2

end Rollup.Rows
