/-
# Aggregations

What one node of a request asks for: a metric, a grouping by values or intervals, ranges, one
leg of a filter aggregation, or the query of the whole request.
-/

import Rollup.Aggregation.Histogram
import Rollup.Aggregation.Leg
import Rollup.Aggregation.Metric
import Rollup.Aggregation.Ranges
import Rollup.Aggregation.Terms

namespace Rollup

inductive Aggregation where
  | metric (m : Metric)
  | terms (t : Terms)
  | histogram (h : Histogram)
  | dateHistogram (h : DateHistogram)
  | ranges (r : Ranges)
  | leg (l : Leg)
  | query (q : Query)

namespace Aggregation

/-- The name of the kind in a request. -/
def kindName : Aggregation → String
  | metric m => m.function.name
  | terms _ => "terms"
  | histogram _ => "histogram"
  | dateHistogram _ => "date_histogram"
  | ranges r => if r.dates then "date_range" else "range"
  | leg l => if l.shape = .single then "filter" else "filters"
  | query _ => "query"

def metric? : Aggregation → Option Metric
  | metric m => some m
  | _ => none

def terms? : Aggregation → Option Terms
  | terms t => some t
  | _ => none

def leg? : Aggregation → Option Leg
  | leg l => some l
  | _ => none

def query? : Aggregation → Option Query
  | query q => some q
  | _ => none

def isMetric (a : Aggregation) : Bool := a.metric?.isSome

def isLeg (a : Aggregation) : Bool := a.leg?.isSome

def isQuery (a : Aggregation) : Bool := a.query?.isSome

def isHistogram : Aggregation → Bool
  | histogram _ => true
  | dateHistogram _ => true
  | _ => false

/-- Whether this groups by values or intervals: without it, buckets would silently merge. -/
def isValueGroup (a : Aggregation) : Bool := a.terms?.isSome || a.isHistogram

/-- Whether this computes a column that needs a name. -/
def needsColumn : Aggregation → Bool
  | terms _ => false
  | query _ => false
  | _ => true

/-- The expression of the computed column. -/
def expression? : Aggregation → Option String
  | metric m => some m.expression
  | terms _ => none
  | histogram h => some h.expression
  | dateHistogram h => some h.expression
  | ranges r => some r.expression
  | leg l => l.expression?
  | query _ => none

/-- The attributes that are read. -/
def attributes : Aggregation → List String
  | metric m => [m.field]
  | terms t => [t.field]
  | histogram h => [h.field]
  | dateHistogram h => [h.field]
  | ranges r => [r.field]
  | leg l => match l.filter? with
    | some filter => filter.fields
    | none => []
  | query _ => []

/-- Whether this is a histogram that shows empty intervals. -/
def showsEmpty : Aggregation → Bool
  | histogram h => h.minDocCount = 0
  | dateHistogram h => h.minDocCount = 0
  | _ => false

/-- The grid of a histogram and its declared bounds on the grid. -/
def grid? : Aggregation → Option (Grid × Option (Int × Int))
  | histogram h => some (h.grid, h.boundIndices?)
  | dateHistogram h => some (h.grid, h.boundIndices?)
  | _ => none

/-- One leg of a filter aggregation. A filter that cannot be read is kept with its error. -/
def legOf (now : Calendar.Instant) (shape : LegShape) (index : Nat) (labels : List String)
    (clause : Json) : Aggregation :=
  leg ⟨shape, index, labels, Clause.compile now clause⟩

/-- The query of a request. -/
def queryOf (now : Calendar.Instant) (clause : Json) : Except RequestError Aggregation :=
  match Clause.compile now clause with
  | .ok filter => .ok (query ⟨filter, Clause.hasData clause⟩)
  | .error e => .error (.unsupportedQuery e)

/-- The aggregation of some kind. A kind that is not known is a filter under its own name. -/
def ofKind (now : Calendar.Instant) (name kind : String) (body : Json) :
    Except RequestError Aggregation :=
  if kind = "terms" then (Terms.ofJson name body).map terms
  else if kind = "histogram" then (Histogram.ofJson name body).map histogram
  else if kind = "date_histogram" then (DateHistogram.ofJson name now body).map dateHistogram
  else if kind = "range" then (Ranges.ofJson name body).map ranges
  else if kind = "date_range" then (Ranges.datesOfJson name now body).map ranges
  else if kind = "query" then queryOf now body
  else
    match MetricFunction.ofName? kind with
    | some function => (Metric.ofJson name function body).map metric
    | none => .ok (legOf now .named 0 [kind] body)

end Aggregation
end Rollup
