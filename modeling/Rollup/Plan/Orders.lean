/-
# Orders of the statement

The dimensions of an order are the active terms and histogram nodes. One statement can order by
all of them unless there are several and one orders by a count or a metric, or one states no
order. Then every dimension is ordered by its own column, and the order is settled after the
rows have come back.
-/

import Rollup.Plan.Basic

namespace Rollup.Plan

/-- The dimensions of the order. -/
def dimensions (forest : Forest) : List (Node × Nat) :=
  forest.zipIdx.filter fun (node, _) => node.isActive && node.aggregation.isValueGroup

/-- Whether a dimension states its order; histograms always do. -/
def statesOrder (node : Node) : Bool :=
  match node.aggregation.terms? with
  | some t => t.order.explicit
  | none => true

/-- Whether a dimension orders by a count or a metric. -/
def ordersByValue (node : Node) : Bool :=
  match node.aggregation.terms? with
  | some t => t.order.target ≠ .key
  | none => false

/-- Whether one statement cannot order by all dimensions. -/
def isComplexOrder (forest : Forest) : Bool :=
  let nodes := (dimensions forest).map Prod.fst
  1 < nodes.length && (nodes.any ordersByValue || nodes.any fun node => !statesOrder node)

/-- The active metric that the buckets of a node are ordered by. -/
def orderMetric? (forest : Forest) (index : Nat) (t : Terms) : Option Nat :=
  match t.order.target with
  | .metric name =>
      forest.findIdx? fun n =>
        n.parent == some index && n.isMetric && n.isActive && n.name == name
  | _ => none

/-- The column of a node. -/
def columnAt? (forest : Forest) (index : Nat) : Option String :=
  forest[index]?.bind fun n => n.decisions.column

/-- What a terms node adds to the order of the statement. -/
def statementOrder (forest : Forest) (countColumn : String) (complex : Bool) (t : Terms)
    (metric : Option Nat) : String × Direction :=
  let field := Statement.quoteName t.field
  if complex then (field, .ascending)
  else
    match t.order.target, metric.bind (columnAt? forest) with
    | .key, _ => (field, t.order.direction)
    | .metric _, some column => (column, t.order.direction)
    | _, _ => (countColumn, t.order.direction)

/-- Decide about the orders of all nodes. -/
def orderNodes (context : PlanContext) (forest : Forest) : Forest × PlanContext :=
  let complex := isComplexOrder forest
  let ordered := forest.zipIdx.map fun (node, index) =>
    match node.aggregation.terms? with
    | some t =>
        if node.isActive then
          let metric := orderMetric? forest index t
          node.decide fun d =>
            { d with
              orderMetric := metric
              statementOrder := some (statementOrder forest context.countColumn complex t metric) }
        else node
    | none => node
  (ordered, { context with complexOrder := complex })

end Rollup.Plan
