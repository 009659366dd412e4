/-
# Forests

The nodes of a request in one list: the query first, then every aggregation before those below
it, and the legs of a filter aggregation side by side. A node names its parent by index, for a
filter aggregation by its first leg. Planning for a table decides about nodes and leaves all
else as it is.
-/

import Rollup.Request.Basic

namespace Rollup

/-- What is decided about a node for one table. -/
structure Decisions where
  /-- The node is left out. -/
  disabled : Bool := false
  /-- The node is a metric that is left out and still shown, without a value. -/
  blanked : Bool := false
  /-- The filter is a condition of the statement. -/
  direct : Bool := false
  /-- The filter has other filters beside it. -/
  concurrent : Bool := false
  /-- The name of the computed column. -/
  column : Option String := none
  /-- The order that the statement takes from this node. -/
  statementOrder : Option (String × Direction) := none
  /-- The node of the metric that the buckets are ordered by. -/
  orderMetric : Option Nat := none
  deriving DecidableEq

structure Node where
  name : String
  parent : Option Nat
  depth : Nat
  hasChildren : Bool
  aggregation : Aggregation
  decisions : Decisions

/-- Nodes in order. -/
abbrev Forest := List Node

namespace Node

/-- A node about which nothing is decided. -/
def new (name : String) (parent : Option Nat) (depth : Nat) (hasChildren : Bool)
    (aggregation : Aggregation) : Node :=
  ⟨name, parent, depth, hasChildren, aggregation, {}⟩

def isActive (n : Node) : Bool := !n.decisions.disabled

def isMetric (n : Node) : Bool := n.aggregation.isMetric

def isLeg (n : Node) : Bool := n.aggregation.isLeg

def isQuery (n : Node) : Bool := n.aggregation.isQuery

/-- Whether the node is part of the response. -/
def isShown (n : Node) : Bool := !n.isQuery && (n.isActive || n.decisions.blanked)

/-- The column that is read back from the rows. -/
def outputColumn? (n : Node) : Option String :=
  match n.aggregation with
  | .terms t => some t.field
  | .query _ => none
  | _ => n.decisions.column

/-- The column by which the statement groups. -/
def groupColumn? (n : Node) : Option String :=
  if !n.isActive then none
  else
    match n.aggregation with
    | .metric _ => none
    | .query _ => none
    | .leg _ => if n.decisions.direct then none else n.outputColumn?
    | _ => n.outputColumn?

/-- Change the decisions. -/
def decide (n : Node) (f : Decisions → Decisions) : Node := { n with decisions := f n.decisions }

/-- Add what the node needs to a statement. -/
def contribute (n : Node) (s : Statement) : Statement :=
  match n.aggregation with
  | .metric m =>
      match n.decisions.column with
      | some column => s.select m.expression (some column)
      | none => s
  | .terms t =>
      let field := Statement.quoteName t.field
      let s := (s.select field none).groupBy field
      match n.decisions.statementOrder with
      | some (target, direction) => s.orderBy target direction
      | none => s
  | .histogram h => bucketColumn h.expression s
  | .dateHistogram h => bucketColumn h.expression s
  | .ranges r =>
      match n.decisions.column with
      | some column => (s.select r.expression (some column)).groupBy column
      | none => s
  | .leg l =>
      if n.decisions.direct then
        match l.filter? with
        | some filter => s.addCondition filter.text
        | none => s
      else
        match n.decisions.column, l.expression? with
        | some column, some expression => (s.select expression (some column)).groupBy column
        | _, _ => s
  | .query q =>
      match q.filter with
      | some filter => if q.isEffective then s.addCondition filter.text else s
      | none => s
where
  /-- Group by the buckets of a histogram, in ascending order. -/
  bucketColumn (expression : String) (s : Statement) : Statement :=
    match n.decisions.column with
    | some column =>
        ((s.select expression (some column)).groupBy column).orderBy column .ascending
    | none => s

end Node

namespace Forest

/-! ## Columns -/

/-- The columns that the first `count` nodes group by. -/
def groupColumnsBefore (forest : Forest) (count : Nat) : List String :=
  ((forest.take count).filterMap Node.groupColumn?).eraseDups

/-- All columns that identify the group of a row. -/
def groupColumns (forest : Forest) : List String :=
  forest.groupColumnsBefore forest.length

/-- The columns that the nodes up to one group by, this one included. -/
def groupColumnsThrough (forest : Forest) (index : Nat) : List String :=
  forest.groupColumnsBefore (index + 1)

/-- The columns with values of metrics. -/
def metricColumns (forest : Forest) : List String :=
  (forest.filter fun n => n.isMetric && (n.isActive || n.decisions.blanked)).filterMap
    fun n => n.decisions.column

/-- All selected columns but the document count. -/
def columns (forest : Forest) : List String :=
  ((forest.filter Node.isActive).filterMap Node.outputColumn?).eraseDups

/-- The attributes that a node reads. -/
def attributesAt (forest : Forest) (index : Nat) : List String :=
  match forest[index]? with
  | some node => node.aggregation.attributes
  | none => []

/-- The attributes that any node reads. -/
def attributes (forest : Forest) : List String :=
  (forest.flatMap fun n => n.aggregation.attributes).eraseDups

/-- The query. -/
def query? (forest : Forest) : Option Query :=
  (forest.filter Node.isActive).findSome? fun n => n.aggregation.query?

/-- Whether there is a query that restricts anything. -/
def hasEffectiveQuery (forest : Forest) : Bool :=
  match forest.query? with
  | some query => query.isEffective
  | none => false

/-! ## Aggregations and what lies inside them -/

/-- Whether two neighbours are legs of one aggregation. -/
def areLegsOfOne (a b : Node) : Bool :=
  a.isLeg && b.isLeg && a.name == b.name && a.parent == b.parent

/-- How many nodes of a list that runs backwards belong to the aggregation of the first one, beside
it. -/
def legsBefore : List Node → Nat
  | node :: before :: rest =>
      if areLegsOfOne before node then legsBefore (before :: rest) + 1 else 0
  | _ => 0

/-- The first node of the aggregation that a node belongs to. -/
def anchor (forest : Forest) (index : Nat) : Nat :=
  if index < forest.length then index - legsBefore (forest.take (index + 1)).reverse else index

theorem anchor_zero (forest : Forest) : forest.anchor 0 = 0 := by simp [anchor]

/-- A node that is no leg beside the one before it starts an aggregation. -/
theorem anchor_succ (forest : Forest) (index : Nat) :
    forest.anchor (index + 1) =
      match forest[index]?, forest[index + 1]? with
      | some before, some node =>
          if areLegsOfOne before node then forest.anchor index else index + 1
      | _, _ => index + 1 := by
  by_cases h : index + 1 < forest.length
  · have hbefore : index < forest.length := by omega
    have hlast : ∀ i, (hi : i < forest.length) →
        (forest.take (i + 1)).reverse = forest[i] :: (forest.take i).reverse := by
      intro i hi
      rw [List.take_add_one, List.getElem?_eq_getElem hi]
      simp
    simp only [anchor, h, hbefore, if_true, List.getElem?_eq_getElem, hlast]
    rw [legsBefore]
    by_cases hlegs : areLegsOfOne forest[index] forest[index + 1]
    · rw [if_pos hlegs, if_pos hlegs, Nat.add_sub_add_right]
    · rw [if_neg hlegs, if_neg hlegs, Nat.sub_zero]
  · have hnone : forest[index + 1]? = none := List.getElem?_eq_none (by omega)
    rw [hnone, anchor, if_neg h]
    cases forest[index]? <;> rfl

/-- The legs of each filter aggregation. -/
def legGroups (forest : Forest) : List (List Nat) :=
  let legs := (forest.zipIdx.filter fun (n, _) => n.isLeg).map Prod.snd
  (legs.map forest.anchor).eraseDups.map fun start =>
    legs.filter fun index => forest.anchor index = start

/-- The active legs that are marked as having others beside them, for each aggregation. -/
def concurrentRuns (forest : Forest) : List (List Nat) :=
  let isConcurrent (index : Nat) : Bool :=
    match forest[index]? with
    | some node => node.isActive && node.decisions.concurrent
    | none => false
  (forest.legGroups.map fun legs => legs.filter isConcurrent).filter fun run => !run.isEmpty

/-- The parents of a node, their parents and so on. A parent comes before its children, so the
number of nodes is fuel enough. -/
def ancestorsFrom (forest : Forest) : Nat → Nat → List Nat
  | 0, _ => []
  | fuel + 1, index =>
      match forest[index]?.bind Node.parent with
      | some parent => parent :: ancestorsFrom forest fuel parent
      | none => []

def ancestors (forest : Forest) (index : Nat) : List Nat :=
  forest.ancestorsFrom forest.length index

/-- Whether a node lies below the aggregation of another. -/
def isBelow (forest : Forest) (index above : Nat) : Bool :=
  (forest.ancestors index).contains (forest.anchor above)

/-- Whether a node belongs to the aggregation that starts at an anchor or lies below it. -/
def isWithin (forest : Forest) (index anchor : Nat) : Bool :=
  forest.anchor index == anchor || forest.isBelow index anchor

/-- Whether nothing is left of the aggregation that starts at some parent. -/
def isBranchDisabled (forest : Forest) (parent : Nat) : Bool :=
  let start := forest.anchor parent
  match forest[start]? with
  | some first =>
      ((forest.drop start).takeWhile fun n => n.name == first.name && n.parent == first.parent).all
        fun n => !n.isActive
  | none => false

/-! ## Decisions -/

/-- Change the decisions about one node. -/
def decideAt (forest : Forest) (index : Nat) (f : Decisions → Decisions) : Forest :=
  forest.modify index fun n => n.decide f

/-- Leave a node out if nothing is left of the aggregation above it. -/
def disableIfOrphaned (forest : Forest) (index : Nat) : Forest :=
  match forest[index]? with
  | some node =>
      match node.parent with
      | some parent =>
          if node.isActive && forest.isBranchDisabled parent then
            forest.decideAt index fun d => { d with disabled := true }
          else forest
      | none => forest
  | none => forest

/-- Leave a node out, and with it every node below an aggregation of which nothing is left. -/
def disable (forest : Forest) (index : Nat) : Forest :=
  if index < forest.length then
    let forest := forest.decideAt index fun d => { d with disabled := true }
    ((List.range forest.length).filter (index < ·)).foldl disableIfOrphaned forest
  else forest

end Forest
end Rollup
