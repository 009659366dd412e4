/-
# The forest of a request

A request is laid out in pre-order. An order by a metric must name a metric directly below the
node that is ordered.
-/

import Rollup.Forest.Basic

namespace Rollup.Forest

mutual

/-- The nodes of a branch, the next free index being `start`. -/
def ofBranch (parent : Option Nat) (depth start : Nat) : Branch → Forest
  | .node name legs children =>
      let roots := legs.map (Node.new name parent depth !children.isEmpty)
      roots ++ ofBranches (some start) (depth + 1) (start + roots.length) children

/-- The nodes of branches below one parent. -/
def ofBranches (parent : Option Nat) (depth start : Nat) : List Branch → Forest
  | [] => []
  | branch :: rest =>
      let first := ofBranch parent depth start branch
      first ++ ofBranches parent depth (start + first.length) rest

end

/-- The nodes of a request. -/
def ofRequest (request : Request) : Forest :=
  let query := request.query.toList.map (Node.new "query" none 0 false)
  query ++ ofBranches none 0 query.length request.branches

/-- The metric below a node that its buckets are ordered by, when the order names one. -/
def metricBelow? (forest : Forest) (index : Nat) (name : String) : Option Nat :=
  forest.findIdx? fun n => n.parent == some index && n.isMetric && n.name == name

/-- Check the order of one node. -/
def checkOrder (forest : Forest) (index : Nat) (node : Node) : Except RequestError Unit :=
  match node.aggregation with
  | .terms t =>
      match t.order.target with
      | .metric name =>
          if (forest.metricBelow? index name).isSome then .ok ()
          else
            .error (.invalidField node.name "terms" "order"
              ("'" ++ name ++ "' is not a metric sub-aggregation"))
      | _ => .ok ()
  | _ => .ok ()

/-- Check the orders of all nodes. -/
def checkOrders (forest : Forest) : Except RequestError Unit :=
  forest.zipIdx.forM fun (node, index) => checkOrder forest index node

/-- Read a request into its forest. -/
def ofJson (now : Calendar.Instant) (request : Json) : Except RequestError Forest := do
  let request ← Request.ofJson now request
  let forest := ofRequest request
  checkOrders forest
  return forest

end Rollup.Forest
