/-
# Placing a row

A node puts a row into the level of the response where its parent left the row. It creates its
output there if need be, counts the documents of the row, and says which bucket the row is in.
-/

import Rollup.Forest.Basic
import Rollup.Response.Bucket
import Rollup.Rows.Group

namespace Rollup

/-- What a node did with a row. -/
inductive Step where
  /-- The row is in a bucket; the nodes below go on inside it. -/
  | descend (segment : Segment)
  /-- The row was used, and there is no bucket. -/
  | stay
  /-- The row is in no bucket of this node. -/
  | skip
  deriving DecidableEq

/-! ## Metrics -/

/-- Add a row to the tally of a metric. -/
def Metric.place (m : Metric) (name column countColumn : String) (row : Row) (level : Level) :
    Step × Level :=
  let (_, level) := level.onMetric name m.function fun tally =>
    ((), tally.addRow column countColumn row)
  (.stay, level)

/-! ## Values and intervals -/

/-- The bucket list of an output, and the bucket of a row in it. -/
def placeIn (name : String) (finish : Finish) (bucket? : Option (Bucket Output)) (docs : Nat)
    (level : Level) : Step × Level :=
  let (result, level) := level.onBuckets name (.new .array finish) fun list =>
    match bucket? with
    | some bucket =>
        let (index, list) := list.findOrInsert bucket
        (Step.descend (.bucket name index), list.modify index fun b => b.addDocs docs)
    | none => (Step.skip, list)
  (result.getD .skip, level)

/-- What the buckets of a terms aggregation are ordered by. A metric that is not there gives way to
the count. -/
def Terms.bucketOrder (t : Terms) (metricName : Option String) : BucketOrder :=
  match t.order.target, metricName with
  | .key, _ => .key t.order.direction
  | .metric _, some name => .metric name t.order.direction
  | _, _ => .count t.order.direction

def Terms.finish (t : Terms) (metricName : Option String) : Finish :=
  ⟨some (t.bucketOrder metricName), some t.size, t.minDocCount, true⟩

/-- The bucket of a value. -/
def Terms.bucket? (t : Terms) (row : Row) : Option (Bucket Output) :=
  (row.get? t.field).map fun value => Bucket.empty (Cell.key value) (some value) []

/-- Buckets of intervals, in ascending order. -/
def intervalFinish (minDocCount : Nat) : Finish :=
  ⟨some (.key .ascending), none, minDocCount, false⟩

/-- The bucket of an interval of numbers. -/
def Histogram.bucket? (column : String) (row : Row) : Option (Bucket Output) :=
  (row.number? column).map fun raw =>
    let key := Json.ofBinary64 raw
    Bucket.empty (Cell.key key) (some key) []

/-- The bucket of an interval of time, which also shows its start as text. -/
def DateHistogram.bucket? (h : DateHistogram) (column : String) (row : Row) :
    Option (Bucket Output) :=
  ((row.number? column).bind h.interval.toMillis?).map fun ms =>
    let key := Json.ofInt ms
    Bucket.empty (Cell.key key) (some key) [("key_as_string", .string (Calendar.millisText ms))]

/-! ## Ranges -/

/-- The buckets of the ranges, without documents. -/
def Ranges.buckets (r : Ranges) : List (Bucket Output) :=
  r.specs.map fun spec => Bucket.empty spec.key (some (.string spec.key)) (r.attributes spec)

/-- The segment that a row is in. -/
def Ranges.segment? (column : String) (row : Row) : Option Nat :=
  (row.number? column).map Binary64.toNat64

/-- Count a row in every range that contains its segment; it goes on in the first one. -/
def Ranges.place (r : Ranges) (name column countColumn : String) (row : Row) (level : Level) :
    Step × Level :=
  let shape := if r.keyed then ListShape.keyed else ListShape.array
  let (result, level) := level.onBuckets name (.preset shape r.buckets) fun list =>
    match Ranges.segment? column row with
    | some segment =>
        let containing := r.containing segment
        let docs := row.count countColumn
        let list := containing.foldl
          (fun list index => list.modify index fun b => b.addDocs docs) list
        match containing with
        | first :: _ => (Step.descend (.bucket name first), list)
        | [] => (Step.skip, list)
    | none => (Step.skip, list)
  (result.getD .skip, level)

/-! ## Filters -/

/-- The buckets of the legs, without documents. -/
def Leg.buckets (l : Leg) : List (Bucket Output) :=
  l.labels.map fun label => Bucket.empty label none []

/-- Whether a row matches a leg. The rows of a direct leg all do. -/
def Leg.isMatchedBy (l : Leg) (direct : Bool) (column : Option String) (row : Row) : Bool :=
  direct ||
    match column with
    | some column => row.flag column
    | none => l.matchesAll

/-- Count a row in the bucket of a leg if it matches. -/
def Leg.place (l : Leg) (name : String) (isMatched : Bool) (docs : Nat) (level : Level) :
    Step × Level :=
  let docs := if isMatched then docs else 0
  let inside (segment : Segment) : Step := if isMatched then .descend segment else .skip
  match l.shape with
  | .single =>
      let (result, level) := level.onSingle name fun bucket =>
        (inside (.single name), bucket.addDocs docs)
      (result.getD .skip, level)
  | .named => listed .keyed docs inside level
  | .anonymous => listed .array docs inside level
where
  /-- The same for a leg in a list. -/
  listed (shape : ListShape) (docs : Nat) (inside : Segment → Step) (level : Level) :
      Step × Level :=
    let (result, level) := level.onBuckets name (.preset shape l.buckets) fun list =>
      (inside (.bucket name l.index), list.modify l.index fun b => b.addDocs docs)
    (result.getD .skip, level)

/-! ## Nodes -/

/-- Place a row. A terms node may order its buckets by the metric of a name. -/
def Node.place (n : Node) (countColumn : String) (metricName : Option String) (row : Row)
    (level : Level) : Step × Level :=
  let column := n.decisions.column.getD ""
  let docs := row.count countColumn
  match n.aggregation with
  | .metric m => m.place n.name column countColumn row level
  | .terms t => placeIn n.name (t.finish metricName) (t.bucket? row) docs level
  | .histogram h =>
      placeIn n.name (intervalFinish h.minDocCount) (Histogram.bucket? column row) docs level
  | .dateHistogram h =>
      placeIn n.name (intervalFinish h.minDocCount) (h.bucket? column row) docs level
  | .ranges r => r.place n.name column countColumn row level
  | .leg l =>
      let isMatched := l.isMatchedBy n.decisions.direct n.decisions.column row
      l.place n.name isMatched docs level
  | .query _ => (.stay, level)

end Rollup
