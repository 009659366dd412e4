/-
# Plans

One statement for each table, or the reason why a table is left out.
-/

import Rollup.Plan.Pass
import Rollup.Settings

namespace Rollup

structure TablePlan where
  /-- The decisions about the table. -/
  draft : Draft
  /-- The statement, or why there is none. -/
  result : Except String Statement

namespace TablePlan

def table (plan : TablePlan) : String := plan.draft.context.table.name

def forest (plan : TablePlan) : Forest := plan.draft.forest

def countColumn (plan : TablePlan) : String := plan.draft.context.countColumn

def statement? (plan : TablePlan) : Option Statement :=
  match plan.result with
  | .ok statement => some statement
  | .error _ => none

/-- The text of the statement. -/
def text? (plan : TablePlan) : Option String := plan.statement?.map Statement.text

/-- Why the table is left out. -/
def skipped? (plan : TablePlan) : Option String :=
  match plan.result with
  | .ok _ => none
  | .error reason => some reason

def isSkipped (plan : TablePlan) : Bool := plan.skipped?.isSome

/-- The statement that the active nodes of a forest make up. -/
def statementOf (draft : Draft) (settings : Settings) : Statement :=
  let start := Statement.empty draft.context.table.name draft.context.countColumn
  let filled := (draft.forest.filter Node.isActive).foldl (fun s node => node.contribute s) start
  settings.statementOptions.foldl (fun s option => s.setOption option.1 option.2)
    filled.selectCount

/-- Plan for one table. -/
def ofForest (forest : Forest) (table : Table) (multiTable : Bool) (reserved : List String)
    (settings : Settings) : TablePlan :=
  let context := PlanContext.new table multiTable reserved settings.countColumn
  match PlanPass.run ⟨context, forest⟩ with
  | (draft, .goOn) => ⟨draft, .ok (statementOf draft settings)⟩
  | (draft, .skip reason) => ⟨draft, .error reason⟩

/-- Plan for all tables; the columns keep away from the attributes of every one of them. -/
def forTables (forest : Forest) (tables : List Table) (settings : Settings) : List TablePlan :=
  let reserved := tables.flatMap Table.fieldNames
  tables.map fun table => ofForest forest table (1 < tables.length) reserved settings

/-- Read a request and plan it for all tables. -/
def ofRequest (now : Calendar.Instant) (request : Json) (tables : List Table)
    (settings : Settings) : Except RequestError (List TablePlan) :=
  (Forest.ofJson now request).map fun forest => forTables forest tables settings

/-- The plan as JSON: the table, its statement and why it is left out. -/
def summary (plan : TablePlan) : Json :=
  .object
    [("table", .string plan.table), ("sql", .ofOption (plan.text?.map Json.string)),
      ("skipped", .ofOption (plan.skipped?.map Json.string))]

end TablePlan
end Rollup
