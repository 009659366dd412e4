/-
# Filter buckets side by side

A row that matches several legs of one filter aggregation is split into a copy for each of
them. The copies behind the first count their documents within that aggregation only, so that
the levels around it still see every document once.
-/

import Rollup.Forest.Basic
import Rollup.Row

namespace Rollup.Rows

/-- A row that matches one of several legs alone. -/
def matchingOnly (legs : List String) (kept : String) (row : Row) : Row :=
  legs.foldl (fun row leg => row.set leg (.ofInt (if leg = kept then 1 else 0))) row

/-- A copy whose documents count within the aggregation that starts at an anchor only. -/
def scopedCopy (anchor : Nat) (row : Row) : Row :=
  { row with origin := .expanded, countScopes := row.countScopes ++ [anchor] }

/-- The copies of a row for the legs that it matches. -/
def splitRow (legs : List String) (anchor : Nat) (row : Row) : List Row :=
  match legs.filter row.flag with
  | first :: second :: others =>
      matchingOnly legs first row ::
        (second :: others).map fun leg => scopedCopy anchor (matchingOnly legs leg row)
  | _ => [row]

/-- Split the rows at the legs of one aggregation. -/
def splitRun (forest : Forest) (rows : List Row) (run : List Nat) : List Row :=
  match run with
  | [] => rows
  | first :: _ =>
      let legs := run.filterMap fun index => forest[index]?.bind Node.groupColumn?
      if legs.length < 2 then rows else rows.flatMap (splitRow legs (forest.anchor first))

/-- Split the rows at every filter aggregation with several legs. -/
def splitConcurrent (forest : Forest) (rows : List Row) : List Row :=
  forest.concurrentRuns.foldl (splitRun forest) rows

end Rollup.Rows
