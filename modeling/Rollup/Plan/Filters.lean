/-
# Direct and indirect filters

A filter that cannot be read is left out. Legs of one aggregation are concurrent when more than
one of them is active: they must come out side by side. A leg is direct, a condition of the
statement, when it is not concurrent, all other active nodes lie below it, and there is no
effective query or the leg has a name. Every other leg is a column. A column cannot hold a
search in the full text, so such a leg is left out, and then the decisions are made again.
-/

import Rollup.Plan.Basic

namespace Rollup.Plan

/-- Leave out a leg whose filter could not be read. -/
def dropUnreadable (forest : Forest) (index : Nat) : Forest :=
  match forest[index]? with
  | some node =>
      match node.aggregation.leg?.bind Leg.failure? with
      | some _ => if node.isActive then forest.disable index else forest
      | none => forest
  | none => forest

/-- Mark the active legs of one aggregation as concurrent if there are several. -/
def markConcurrentGroup (forest : Forest) (group : List Nat) : Forest :=
  let isActive (index : Nat) : Bool :=
    match forest[index]? with
    | some node => node.isActive
    | none => false
  let several := 1 < (group.filter isActive).length
  group.foldl (fun forest index =>
    forest.decideAt index fun d => { d with concurrent := several && !d.disabled }) forest

def markConcurrent (forest : Forest) : Forest :=
  forest.legGroups.foldl markConcurrentGroup forest

/-- Whether all other active nodes but the query lie below a leg. -/
def enclosesAll (forest : Forest) (index : Nat) : Bool :=
  forest.zipIdx.all fun (other, j) =>
    j == index || !other.isActive || other.isQuery || forest.isBelow j index

/-- Whether a leg is a condition of the statement. -/
def isDirect (forest : Forest) (index : Nat) (node : Node) (leg : Leg) : Bool :=
  node.isActive && !node.decisions.concurrent && enclosesAll forest index &&
    (!forest.hasEffectiveQuery || leg.isNamed)

def markDirect (forest : Forest) : Forest :=
  forest.zipIdx.map fun (node, index) =>
    match node.aggregation.leg? with
    | some leg => node.decide fun d => { d with direct := isDirect forest index node leg }
    | none => node

/-- The indirect legs that search in the full text. -/
def unselectable (forest : Forest) : List Nat :=
  (forest.zipIdx.filter fun (node, _) =>
    node.isActive && !node.decisions.direct &&
      match node.aggregation.leg?.bind Leg.filter? with
      | some filter => filter.isFullText
      | none => false).map Prod.snd

/-- Decide about the legs; leave out those that cannot be columns and decide again. Every time
leaves out an active node, so the number of nodes is fuel enough. -/
def settleFilters : Nat → Forest → Forest
  | 0, forest => markDirect (markConcurrent forest)
  | fuel + 1, forest =>
      let marked := markDirect (markConcurrent forest)
      match unselectable marked with
      | [] => marked
      | doomed => settleFilters fuel (doomed.foldl Forest.disable marked)

def classifyFilters (forest : Forest) : Forest :=
  let readable := (List.range forest.length).foldl dropUnreadable forest
  settleFilters forest.length readable

end Rollup.Plan
