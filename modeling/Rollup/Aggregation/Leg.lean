/-
# Filter buckets

A filter aggregation has one leg for each of its filters. A leg is applied directly, as a
condition of the statement, or indirectly, as a column that says for each group whether its
documents match.
-/

import Rollup.Filter.Clause

namespace Rollup

/-- How the legs of a filter aggregation are declared, and so how their buckets are written. -/
inductive LegShape where
  /-- Legs with names: buckets under their names. -/
  | named
  /-- A list of legs: buckets in a list. -/
  | anonymous
  /-- One leg: one bucket without a list. -/
  | single
  deriving DecidableEq, Repr

structure Leg where
  shape : LegShape
  /-- The position among the labels. -/
  index : Nat
  /-- The labels of all legs of the aggregation. -/
  labels : List String
  /-- What the filter was read into. -/
  filter : Except FilterError (Option Filter)

namespace Leg

def label (leg : Leg) : String := leg.labels.getD leg.index ""

def isNamed (leg : Leg) : Bool := leg.shape ≠ .anonymous

/-- The filter, when it could be read and restricts something. -/
def filter? (leg : Leg) : Option Filter :=
  match leg.filter with
  | .ok filter => filter
  | .error _ => none

/-- Why the filter could not be read. -/
def failure? (leg : Leg) : Option FilterError :=
  match leg.filter with
  | .ok _ => none
  | .error e => some e

/-- Whether the filter restricts nothing. -/
def matchesAll (leg : Leg) : Bool :=
  match leg.filter with
  | .ok none => true
  | _ => false

/-- The column of the indirect form. A filter that restricts nothing has a constant one, so that
it can still be told from legs beside it. -/
def expression? (leg : Leg) : Option String :=
  match leg.filter with
  | .ok (some filter) => some ("IF(" ++ filter.text ++ ", 1, 0)")
  | .ok none => some "1"
  | .error _ => none

end Leg

/-- The query of a request, which is always a condition of the statement. -/
structure Query where
  filter : Option Filter
  /-- Whether the query holds any data to restrict by. -/
  hasData : Bool

namespace Query

/-- Whether the query restricts anything. -/
def isEffective (q : Query) : Bool := q.filter.isSome && q.hasData

end Query
end Rollup
