/-
# Names of computed columns

Computed columns are called `al1`, `al2` and so on; a name that a table uses is lengthened.
Nodes that compute the same expression share one column. A node that has a column keeps it.
-/

import Rollup.Plan.Basic

namespace Rollup.Plan

/-- What is known while names are given: the names in use, the name of each expression, and the
number of the last name tried. -/
structure Naming where
  used : List String
  byExpression : List (String × String)
  counter : Nat

namespace Naming

/-- The names that nodes have already; of several for one expression the first counts. -/
def ofForest (forest : Forest) : Naming :=
  let named := forest.filterMap fun node =>
    match node.decisions.column, node.aggregation.expression? with
    | some column, some expression => some (expression, column)
    | _, _ => none
  ⟨named.map Prod.snd, named, 0⟩

/-- The name with a number, lengthened until it is neither reserved nor the count. -/
def candidate (context : PlanContext) (number : Nat) : String :=
  PlanContext.lengthen (fun name => context.reserved.contains name || name == context.countColumn)
    (context.reserved.length + 1) ("al" ++ toString number)

/-- The next number with a name that is not in use, and the name. A number is passed over when its
short or its lengthened name is in use; every used name can rule out one number in each way. -/
def nextName (context : PlanContext) (used : List String) : Nat → Nat → Nat × String
  | 0, number => (number, candidate context number)
  | fuel + 1, number =>
      let name := candidate context number
      if used.contains ("al" ++ toString number) || used.contains name then
        nextName context used fuel (number + 1)
      else (number, name)

/-- The column of an expression, a new one if the expression has none yet. -/
def nameOf (context : PlanContext) (naming : Naming) (expression : String) : String × Naming :=
  match naming.byExpression.lookup expression with
  | some column => (column, naming)
  | none =>
      let (number, column) :=
        nextName context naming.used (2 * naming.used.length + 1) (naming.counter + 1)
      (column,
        { used := column :: naming.used
          byExpression := naming.byExpression ++ [(expression, column)]
          counter := number })

end Naming

/-- Give a node its column, if it needs one and has none. -/
def nameNode (context : PlanContext) (naming : Naming) (node : Node) : Node × Naming :=
  if node.aggregation.needsColumn && node.decisions.column.isNone then
    match node.aggregation.expression? with
    | some expression =>
        let (column, naming) := naming.nameOf context expression
        (node.decide fun d => { d with column := some column }, naming)
    | none => (node, naming)
  else (node, naming)

/-- Give the nodes of a list their columns, from the first to the last. -/
def nameNodes (context : PlanContext) : Naming → Forest → Forest
  | _, [] => []
  | naming, node :: rest =>
      let (node, naming) := nameNode context naming node
      node :: nameNodes context naming rest

/-- Give all nodes their columns. -/
def nameColumns (context : PlanContext) (forest : Forest) : Forest :=
  nameNodes context (Naming.ofForest forest) forest

end Rollup.Plan
