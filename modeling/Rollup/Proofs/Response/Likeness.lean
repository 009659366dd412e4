/-
# Stops of rows that are alike

A node tells the bucket of a row by the identity of a cell or by a number whose sign does not matter
when it is zero. So rows that are alike stop at the same nodes, with the same documents for the same
buckets.
-/

import Rollup.Proofs.Response.Itinerary
import Rollup.Proofs.Rows.Alike

namespace Rollup

/-! ## At one node -/

theorem DateInterval.toMillis?_negativeZero (interval : DateInterval) :
    interval.toMillis? .negativeZero = interval.toMillis? (.finite 0) := by
  have hzero : Binary64.negativeZero.toInt64 Binary64.truncate =
      (Binary64.finite 0).toInt64 Binary64.truncate := by decide +kernel
  unfold toMillis?
  rw [hzero]

namespace Node

variable {row other : Row}

theorem map_id_valueBucket?_of_alike (n : Node) (h : row.IsAlike other) :
    (n.valueBucket? row).map Bucket.id = (n.valueBucket? other).map Bucket.id := by
  unfold valueBucket?
  cases n.aggregation with
  | terms t =>
      have hcell := h.cells t.field
      simp only [Terms.bucket?, Option.map_map]
      generalize row.get? t.field = a, other.get? t.field = b at hcell
      cases hcell with
      | none => rfl
      | some halike => exact congrArg some halike.key_eq
  | histogram g =>
      simp only [Histogram.bucket?, Option.map_map]
      exact Row.map_number?_of_alike (h.cells _) _ (by decide +kernel)
  | dateHistogram g =>
      have hnumber := Row.number?_of_alike (h.cells (n.decisions.column.getD ""))
      simp only [DateHistogram.bucket?]
      generalize row.number? _ = a, other.number? _ = b at hnumber
      cases hnumber with
      | none => rfl
      | some hsame =>
          rw [Option.bind_some, Option.bind_some,
            hsame.congr g.interval.toMillis? g.interval.toMillis?_negativeZero]
  | metric m => rfl
  | ranges r => rfl
  | leg l => rfl
  | query q => rfl

theorem rangesOf_of_alike (n : Node) (h : row.IsAlike other) :
    n.rangesOf row = n.rangesOf other := by
  unfold rangesOf
  cases n.aggregation with
  | ranges r =>
      have hsegment : Ranges.segment? (n.decisions.column.getD "") row =
          Ranges.segment? (n.decisions.column.getD "") other :=
        Row.map_number?_of_alike (h.cells _) _ (by decide +kernel)
      dsimp only
      rw [hsegment]
  | metric m => rfl
  | terms t => rfl
  | histogram g => rfl
  | dateHistogram g => rfl
  | leg l => rfl
  | query q => rfl

theorem matchesLeg_of_alike (n : Node) (h : row.IsAlike other) :
    n.matchesLeg row = n.matchesLeg other := by
  unfold matchesLeg Leg.isMatchedBy
  cases n.aggregation with
  | leg l =>
      cases n.decisions.column with
      | none => rfl
      | some column =>
          dsimp only
          rw [Row.flag_of_alike (h.cells column)]
  | metric m => rfl
  | terms t => rfl
  | histogram g => rfl
  | dateHistogram g => rfl
  | ranges r => rfl
  | query q => rfl

/-- What is told by the identity of a bucket is told for rows that are alike. -/
theorem any_valueBucket?_of_alike (n : Node) (h : row.IsAlike other) (id : String) :
    ((n.valueBucket? row).any fun b => b.id == id) =
      (n.valueBucket? other).any fun b => b.id == id := by
  have hids := n.map_id_valueBucket?_of_alike h
  generalize n.valueBucket? row = a, n.valueBucket? other = b at hids
  cases a <;> cases b <;> simp_all

theorem gives_of_alike (n : Node) (h : row.IsAlike other) (mark : Mark) :
    n.gives row mark = n.gives other mark := by
  unfold gives
  simp only [n.rangesOf_of_alike h, n.matchesLeg_of_alike h, n.any_valueBucket?_of_alike h]

theorem goesTo?_of_alike (n : Node) (h : row.IsAlike other) :
    n.goesTo? row = n.goesTo? other := by
  have hnamed (r : Row) : ((n.valueBucket? r).map fun b => Mark.named b.id) =
      ((n.valueBucket? r).map Bucket.id).map Mark.named := by
    rw [Option.map_map]
    rfl
  unfold goesTo?
  simp only [n.rangesOf_of_alike h, n.matchesLeg_of_alike h, hnamed,
    n.map_id_valueBucket?_of_alike h]

theorem isSome_freshAt?_of_alike (n : Node) (h : row.IsAlike other) (mark : Mark) :
    (n.freshAt? row mark).isSome = (n.freshAt? other mark).isSome := by
  cases mark with
  | named id =>
      simp only [freshAt?, Option.isSome_filter]
      exact n.any_valueBucket?_of_alike h id
  | placed index => rfl
  | only => rfl

end Node

/-! ## Along the nodes -/

namespace Stop

/-- Whether two stops are at one node, with rows that are alike. -/
structure IsAlike (stop other : Stop) : Prop where
  trail : stop.trail = other.trail
  node : stop.node = other.node
  countColumn : stop.countColumn = other.countColumn
  row : stop.row.IsAlike other.row

variable {stop other : Stop}

theorem IsAlike.isAt_iff (h : stop.IsAlike other) (trail : Trail) (name : String) :
    stop.IsAt trail name ↔ other.IsAt trail name := by
  unfold IsAt
  rw [h.trail, h.node]

theorem IsAlike.docsFor (h : stop.IsAlike other) (trail : Trail) (turn : Turn) :
    stop.docsFor trail turn = other.docsFor trail turn := by
  unfold Stop.docsFor
  simp only [h.isAt_iff, h.node, Node.gives_of_alike _ h.row, h.row.count, h.countColumn]

theorem IsAlike.isSome_opens? (h : stop.IsAlike other) (trail : Trail) (turn : Turn) :
    (stop.opens? trail turn).isSome = (other.opens? trail turn).isSome := by
  unfold opens?
  simp only [h.isAt_iff, h.node]
  split
  · exact Node.isSome_freshAt?_of_alike _ h.row turn.mark
  · rfl

theorem IsAlike.onward? (h : stop.IsAlike other) : stop.onward? = other.onward? := by
  unfold Stop.onward?
  rw [h.node, h.trail, Node.goesTo?_of_alike _ h.row]

end Stop

namespace Forest

variable {forest : Forest} {row other : Row}

theorem sourceAt_of_alike (forest : Forest) (countColumn : String) (h : row.IsAlike other)
    (index : Nat) :
    (forest.sourceAt countColumn row index).IsAlike (forest.sourceAt countColumn other index) := by
  unfold sourceAt isSilenced
  rw [h.countScopes, h.mutedScopes]
  split
  · exact h.set countColumn _
  · exact h

theorem stopAt?_of_alike (forest : Forest) (countColumn : String) (h : row.IsAlike other)
    (ways : Ways) (entry : Node × Nat) :
    Option.Rel Stop.IsAlike (forest.stopAt? countColumn row ways entry)
      (forest.stopAt? countColumn other ways entry) := by
  unfold stopAt?
  split
  · cases ways.base? entry.1.parent with
    | none => exact .none
    | some trail => exact .some ⟨rfl, rfl, rfl, forest.sourceAt_of_alike countColumn h entry.2⟩
  · exact .none

/-- Rows that are alike stop alike. -/
theorem stopsFrom_of_alike (forest : Forest) (countColumn : String) (h : row.IsAlike other)
    (ways : Ways) (entries : List (Node × Nat)) :
    List.Forall₂ Stop.IsAlike (forest.stopsFrom countColumn row ways entries)
      (forest.stopsFrom countColumn other ways entries) := by
  induction entries generalizing ways with
  | nil => exact .nil
  | cons entry rest ih =>
      have hstop := forest.stopAt?_of_alike countColumn h ways entry
      unfold stopsFrom moveOn
      generalize forest.stopAt? countColumn row ways entry = a,
        forest.stopAt? countColumn other ways entry = b at hstop
      cases hstop with
      | none => exact ih ways
      | some halike =>
          dsimp only
          rw [halike.onward?]
          exact .cons halike (ih _)

/-- The documents that a row brings to the bucket that a turn goes into. -/
def docsOf (forest : Forest) (countColumn : String) (row : Row) (trail : Trail) (turn : Turn) :
    Nat :=
  ((forest.stops countColumn row).map fun stop => stop.docsFor trail turn).sum

/-- Whether a row makes the bucket that a turn goes into, or a list that has it from the start. -/
def makesBucket (forest : Forest) (countColumn : String) (row : Row) (trail : Trail)
    (turn : Turn) : Bool :=
  (forest.stops countColumn row).any fun stop => (stop.opens? trail turn).isSome

theorem docsOf_of_alike (forest : Forest) (countColumn : String) (h : row.IsAlike other)
    (trail : Trail) (turn : Turn) :
    forest.docsOf countColumn row trail turn = forest.docsOf countColumn other trail turn := by
  have hstops : List.Forall₂ Stop.IsAlike (forest.stops countColumn row)
      (forest.stops countColumn other) := forest.stopsFrom_of_alike countColumn h _ _
  unfold docsOf
  congr 1
  generalize forest.stops countColumn row = first, forest.stops countColumn other = second at hstops
  induction hstops with
  | nil => rfl
  | cons halike _ ih => rw [List.map_cons, List.map_cons, halike.docsFor, ih]

theorem makesBucket_of_alike (forest : Forest) (countColumn : String) (h : row.IsAlike other)
    (trail : Trail) (turn : Turn) :
    forest.makesBucket countColumn row trail turn =
      forest.makesBucket countColumn other trail turn := by
  have hstops : List.Forall₂ Stop.IsAlike (forest.stops countColumn row)
      (forest.stops countColumn other) := forest.stopsFrom_of_alike countColumn h _ _
  unfold makesBucket
  generalize forest.stops countColumn row = first, forest.stops countColumn other = second at hstops
  induction hstops with
  | nil => rfl
  | cons halike _ ih => rw [List.any_cons, List.any_cons, halike.isSome_opens?, ih]

end Forest
end Rollup
