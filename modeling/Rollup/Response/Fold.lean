/-
# Folding rows

Each row walks through the nodes in order. A node places the row into the bucket that the row is
in at the node's parent; where the row is in no bucket, the nodes below are passed over. Legs
side by side are placed one beside the other: the last one decides where the row goes on, and
gives way to an earlier one that matched. Where the documents of a row do not count, it is
placed without documents.
-/

import Rollup.Response.Finished
import Rollup.Response.Place

namespace Rollup

/-- The paths of a row so far. -/
structure Places where
  /-- Where the row is, for each aggregation by its first node. -/
  settled : Nat → Option Path
  /-- Where the row goes on unless a later leg matches. -/
  pending : Nat → Option Path

namespace Places

/-- A row that has gone nowhere yet. -/
def nowhere : Places := ⟨fun _ => none, fun _ => none⟩

/-- Where a row is below some parent. -/
def base? (places : Places) (parent : Option Nat) : Option Path :=
  match parent with
  | none => some []
  | some index => places.settled index

def settle (places : Places) (anchor : Nat) (path : Option Path) : Places :=
  { places with settled := fun i => if i = anchor then path else places.settled i }

def suspend (places : Places) (anchor : Nat) (path : Option Path) : Places :=
  { places with pending := fun i => if i = anchor then path else places.pending i }

end Places

namespace Forest

/-- Whether a node is a concurrent leg, and if so whether it is the last one of its
aggregation. -/
def lastLeg? (runs : List (List Nat)) (index : Nat) : Option Bool :=
  (runs.find? fun run => run.contains index).map fun run => run.getLast? == some index

/-- Whether the documents of a row do not count at a node. -/
def isSilenced (forest : Forest) (row : Row) (index : Nat) : Bool :=
  !(row.countScopes.all fun scope => forest.isWithin index scope) ||
    row.mutedScopes.any fun scope => forest.isWithin index scope

/-- The name of the metric that a node is ordered by. -/
def orderMetricName? (forest : Forest) (node : Node) : Option String :=
  (node.decisions.orderMetric.bind fun index => forest[index]?).map Node.name

/-- Remember where a row went at a node. -/
def remember (places : Places) (anchor : Nat) (lastLeg : Option Bool) (base : Path) :
    Step → Places
  | .descend segment =>
      let path := base ++ [segment]
      if lastLeg = some false then places.suspend anchor (some path)
      else places.settle anchor (some path)
  | .skip =>
      if lastLeg = some true then
        (places.settle anchor (places.pending anchor)).suspend anchor none
      else places
  | .stay => places

/-- Place a row at one node. -/
def visit (forest : Forest) (runs : List (List Nat)) (countColumn : String) (row : Row)
    (state : Places × Level) (entry : Node × Nat) : Places × Level :=
  let (places, root) := state
  let (node, index) := entry
  if !node.isShown then state
  else
    match places.base? node.parent with
    | none => state
    | some base =>
        let source := if forest.isSilenced row index then row.muted countColumn else row
        let act := node.place countColumn (forest.orderMetricName? node) source
        match Level.atPath act base root with
        | none => state
        | some (step, root) =>
            (remember places (forest.anchor index) (lastLeg? runs index) base step, root)

/-- Fold a row into a response. -/
def foldRow (forest : Forest) (runs : List (List Nat)) (countColumn : String) (root : Level)
    (row : Row) : Level :=
  (forest.zipIdx.foldl (forest.visit runs countColumn row) (Places.nowhere, root)).2

/-- Fold rows into a response, one after the other. -/
def foldRows (forest : Forest) (countColumn : String) (root : Level) (rows : List Row) : Level :=
  let runs := forest.concurrentRuns
  rows.foldl (forest.foldRow runs countColumn) root

end Forest

/-- A response under construction. -/
structure Response where
  /-- Documents that the query matches. -/
  total : Nat
  root : Level

namespace Response

def empty : Response := ⟨0, []⟩

/-- Count documents that the query matches. -/
def addTotal (r : Response) (docs : Nat) : Response := { r with total := r.total + docs }

/-- Fold the rows of one table in. -/
def addRows (r : Response) (forest : Forest) (countColumn : String) (rows : List Row) :
    Response :=
  { r with root := forest.foldRows countColumn r.root rows }

/-- The finished response as JSON. -/
def toJson (r : Response) (tookMillis : Nat) : Json :=
  .object
    [("took", .ofNat tookMillis), ("timed_out", .bool false),
      ("_shards", .object
        [("total", .ofInt 1), ("successful", .ofInt 1), ("skipped", .ofInt 0),
          ("failed", .ofInt 0)]),
      ("hits", .object
        [("total", .ofNat r.total), ("max_score", .null), ("hits", .array [])]),
      ("aggregations", Level.toJson (finishedLevel r.root))]

end Response
end Rollup
