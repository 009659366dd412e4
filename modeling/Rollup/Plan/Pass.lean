/-
# Passes

The passes in the order in which they run. The check of attributes is only for requests that go
to several tables; it alone can leave a table out.
-/

import Rollup.Plan.Availability
import Rollup.Plan.Columns
import Rollup.Plan.Filters
import Rollup.Plan.Orders

namespace Rollup

inductive PlanPass where
  /-- Leave out what the table lacks. -/
  | attributes
  /-- Name the computed columns. -/
  | columns
  /-- Tell direct filters from indirect ones. -/
  | filters
  /-- Decide about the order of the statement. -/
  | orders
  deriving DecidableEq, Repr

namespace PlanPass

/-- All passes, in order. -/
def all : List PlanPass := [attributes, columns, filters, orders]

/-- Whether a pass has its place in planning for this table. -/
def isAvailable (pass : PlanPass) (context : PlanContext) : Bool :=
  match pass with
  | attributes => context.multiTable
  | columns => true
  | filters => true
  | orders => true

def apply (pass : PlanPass) (draft : Draft) : Draft × PassOutcome :=
  match pass with
  | attributes =>
      let (forest, outcome) := Plan.checkAttributes draft.context.table draft.forest
      ({ draft with forest := forest }, outcome)
  | columns => ({ draft with forest := Plan.nameColumns draft.context draft.forest }, .goOn)
  | filters => ({ draft with forest := Plan.classifyFilters draft.forest }, .goOn)
  | orders =>
      let (forest, context) := Plan.orderNodes draft.context draft.forest
      (⟨context, forest⟩, .goOn)

/-- Run the available ones of some passes up to the first that leaves the table out. -/
def runEach : List PlanPass → Draft → Draft × PassOutcome
  | [], draft => (draft, .goOn)
  | pass :: rest, draft =>
      if pass.isAvailable draft.context then
        match pass.apply draft with
        | (draft, .goOn) => runEach rest draft
        | stopped => stopped
      else runEach rest draft

/-- Run all available passes. -/
def run (draft : Draft) : Draft × PassOutcome := runEach all draft

end PlanPass
end Rollup
