/-
# Attributes that a table lacks

When a request goes to several tables, a table may lack some of the attributes. Without a
grouping attribute buckets would silently merge, so the table is left out. A metric is shown
without a value, and ranges and filters are left out for this table.
-/

import Rollup.Plan.Basic

namespace Rollup.Plan

/-- The first attribute of a node that the table cannot provide for it. Grouping and metrics need
an attribute that can be aggregated; ranges and filters any attribute. -/
def unusable? (table : Table) (node : Node) : Option String :=
  let needsAggregatable := node.aggregation.isValueGroup || node.isMetric
  node.aggregation.attributes.find? fun field =>
    !(if needsAggregatable then table.isAggregatable field else table.has field)

/-- Check one node: leave it out when it cannot be answered, or say why the table cannot. -/
def checkNode (table : Table) (forest : Forest) (index : Nat) : Forest × PassOutcome :=
  match forest[index]? with
  | some node =>
      if node.isQuery || !node.isActive then (forest, .goOn)
      else
        match unusable? table node with
        | none => (forest, .goOn)
        | some field =>
            if node.aggregation.isValueGroup then
              (forest, .skip ("'" ++ table.name ++ "' cannot group on '" ++ field ++
                "' for aggregation '" ++ node.name ++ "'"))
            else
              ((forest.disable index).decideAt index fun d =>
                { d with blanked := node.isMetric }, .goOn)
  | none => (forest, .goOn)

/-- Check nodes in order up to the first that the table cannot do without. -/
def checkNodes (table : Table) : List Nat → Forest → Forest × PassOutcome
  | [], forest => (forest, .goOn)
  | index :: rest, forest =>
      match checkNode table forest index with
      | (forest, .goOn) => checkNodes table rest forest
      | stopped => stopped

/-- Check every node, unless the table has none of the requested attributes. -/
def checkAttributes (table : Table) (forest : Forest) : Forest × PassOutcome :=
  let requested := forest.attributes
  if !requested.isEmpty && requested.all fun field => !table.has field then
    (forest, .skip ("'" ++ table.name ++ "' has none of the requested fields"))
  else checkNodes table (List.range forest.length) forest

end Rollup.Plan
