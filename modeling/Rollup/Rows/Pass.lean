/-
# Passes over the rows

The rows of one table go through the passes, in a fixed order, before the response is built from
them. A pass that has nothing to do is left out.
-/

import Rollup.Rows.Blanking
import Rollup.Rows.Concurrent
import Rollup.Rows.GapFill
import Rollup.Rows.Sorting
import Rollup.Rows.Unmatched

namespace Rollup

/-- What the passes need to know beside the forest. -/
structure RowContext where
  countColumn : String
  complexOrder : Bool
  maxGapBuckets : Nat
  deriving DecidableEq, Repr

inductive RowPass where
  /-- Settle the order of the rows. -/
  | sorting
  /-- Settle the rows that miss a filter. -/
  | unmatched
  /-- Split the rows that match several filters. -/
  | concurrent
  /-- Fill in the empty intervals. -/
  | gapFill
  /-- Empty the cells of blanked metrics. -/
  | blanking
  deriving DecidableEq, Repr

namespace RowPass

/-- All passes, in order. -/
def all : List RowPass := [sorting, unmatched, concurrent, gapFill, blanking]

/-- Whether a pass has anything to do. -/
def isAvailable (pass : RowPass) (forest : Forest) (context : RowContext) : Bool :=
  match pass with
  | sorting => context.complexOrder
  | unmatched => !(Rows.filterUnits forest).isEmpty
  | concurrent => forest.concurrentRuns.any fun run => 1 < run.length
  | gapFill => (Rows.gapTarget? forest).isSome
  | blanking => forest.any Rows.isBlanked

def apply (pass : RowPass) (forest : Forest) (context : RowContext) (rows : List Row) :
    List Row :=
  match pass with
  | sorting => Rows.sort forest context.countColumn rows
  | unmatched => Rows.settleUnmatched forest rows
  | concurrent => Rows.splitConcurrent forest rows
  | gapFill => Rows.fillGaps forest context.countColumn context.maxGapBuckets rows
  | blanking => Rows.blank forest rows

/-- Run all available passes. -/
def run (forest : Forest) (context : RowContext) (rows : List Row) : List Row :=
  (all.filter fun pass => pass.isAvailable forest context).foldl
    (fun rows pass => pass.apply forest context rows) rows

end RowPass
end Rollup
