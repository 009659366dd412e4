/-
# Searches

A search plans one statement for each table that the target describes, runs them one after
another and folds the rows of all tables into one response. When no table has a row left, one
empty row gives the response its shape.
-/

import Rollup.Catalog.Source
import Rollup.Engine.Executor
import Rollup.Plan.TablePlan
import Rollup.Response.Fold
import Rollup.Rows.Pass

namespace Rollup

namespace TablePlan

/-- What the passes over the rows need to know. -/
def rowContext (plan : TablePlan) (settings : Settings) : RowContext :=
  ⟨plan.countColumn, plan.draft.context.complexOrder, settings.maxGapBuckets⟩

/-- The rows of a table after the passes. -/
def settleRows (plan : TablePlan) (settings : Settings) (rows : List Row) : List Row :=
  RowPass.run plan.forest (plan.rowContext settings) rows

/-- The row that stands for a result without rows. -/
def emptyRow : Row := Row.ofCells [] .empty

/-- Fold the shape of a response without rows. -/
def foldShape (plan : TablePlan) (settings : Settings) (response : Response) : Response :=
  response.addRows plan.forest plan.countColumn (plan.settleRows settings [emptyRow])

/-- The plan that gives a response without rows its shape: the first that has a statement, or else
one for a table of which no attributes are known. -/
def shapeOf (plans : List TablePlan) (forest : Forest) (settings : Settings) : TablePlan :=
  match plans.find? fun plan => !plan.isSkipped with
  | some plan => plan
  | none =>
      let name := match plans with
        | plan :: _ => plan.table
        | [] => ""
      ofForest forest ⟨name, []⟩ false [] settings

end TablePlan

/-- A search under way: the response so far, and whether any row is in it. -/
structure SearchState where
  response : Response
  anyRows : Bool

namespace SearchState

def start : SearchState := ⟨.empty, false⟩

/-- Take in the result of the statement of a table. -/
def absorb (state : SearchState) (plan : TablePlan) (settings : Settings) (result : ResultSet) :
    SearchState :=
  let rows := result.rows.map fun cells => Row.ofCells cells .engine
  let response := state.response.addTotal (Rows.documents plan.countColumn rows)
  match plan.settleRows settings rows with
  | [] => { state with response := response }
  | settled => ⟨response.addRows plan.forest plan.countColumn settled, true⟩

/-- The response, in its shape at least. -/
def finish (state : SearchState) (plans : List TablePlan) (forest : Forest)
    (settings : Settings) : Response :=
  if state.anyRows then state.response
  else (TablePlan.shapeOf plans forest settings).foldShape settings state.response

end SearchState

/-- Tables, a program that runs statements about them, and settings. -/
structure Engine (m : Type → Type) where
  executor : Executor m
  source : TableSource m
  settings : Settings

namespace Engine

variable {m : Type → Type} [Monad m]

/-- The tables that a target describes, at least one. -/
def tables (engine : Engine m) (target : String) : ExceptT RequestError m (List Table) := do
  let tables ← ExceptT.mk (engine.source.resolve target)
  if tables.isEmpty then throw (.noTables target) else return tables

/-- Plan a request without running anything. -/
def translate (engine : Engine m) (now : Calendar.Instant) (target : String) (request : Json) :
    ExceptT RequestError m (List TablePlan) := do
  let tables ← engine.tables target
  ExceptT.mk (pure (TablePlan.ofRequest now request tables engine.settings))

/-- Run the statement of a plan, if it has one. -/
def runPlan (engine : Engine m) (state : SearchState) (plan : TablePlan) :
    ExceptT RequestError m SearchState :=
  match plan.text? with
  | none => return state
  | some statement => do
      match ← engine.executor.run statement with
      | .ok result => return state.absorb plan engine.settings result
      | .error reason => throw (.execution plan.table reason)

/-- Search the tables that a target describes. -/
def search (engine : Engine m) (now : Calendar.Instant) (target : String) (request : Json) :
    ExceptT RequestError m Response := do
  let tables ← engine.tables target
  let forest ← ExceptT.mk (pure (Forest.ofJson now request))
  let plans := TablePlan.forTables forest tables engine.settings
  let state ← plans.foldlM engine.runPlan SearchState.start
  return state.finish plans forest engine.settings

end Engine
end Rollup
