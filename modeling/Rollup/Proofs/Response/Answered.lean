/-
# Answered searches

A search sends the statement of every table that is not left out, and takes in one answer after the
other. When none of them leaves a row, one empty row gives the response its shape. So the response
is made of the rows of several sources, each with a plan for the same request, and folding the
settled rows of each source in is all that happens to it.
-/

import Rollup.Engine.Search
import Rollup.Proofs.Response.Parts
import Rollup.Proofs.Rows.Settled

namespace Rollup

/-- A search for a request whose statements have all been answered, with any rows. -/
structure AnsweredSearch where
  now : Calendar.Instant
  request : Json
  tables : List Table
  settings : Settings
  forest : Forest
  answers : List (TablePlan × ResultSet)
  isAccepted : Forest.ofJson now request = .ok forest
  hasDistinctKeys : request.hasDistinctKeys = true
  isComplete : answers.map Prod.fst =
    (TablePlan.forTables forest tables settings).filter fun plan => !plan.isSkipped

namespace SearchState

/-- Taking in an answer folds its settled rows in. -/
theorem root_absorb (state : SearchState) (plan : TablePlan) (settings : Settings)
    (result : ResultSet) :
    (state.absorb plan settings result).response.root =
      plan.forest.foldRows plan.countColumn state.response.root
        (plan.settleRows settings (result.rows.map fun cells => Row.ofCells cells .engine)) := by
  unfold absorb
  dsimp only
  split
  · rename_i hnone
    rw [hnone]
    rfl
  · rfl

end SearchState

namespace AnsweredSearch

variable (search : AnsweredSearch)

def plans : List TablePlan :=
  TablePlan.forTables search.forest search.tables search.settings

/-- The search when all answers are in. -/
def state : SearchState :=
  search.answers.foldl (fun state answer => state.absorb answer.1 search.settings answer.2) .start

def response : Response :=
  search.state.finish search.plans search.forest search.settings

/-- The rows that the response is made of, with their plans: those that came back, and the empty
one if no other is left. -/
def sources : List (TablePlan × List Row) :=
  (search.answers.map fun answer =>
    (answer.1, answer.2.rows.map fun cells => Row.ofCells cells .engine)) ++
  if search.state.anyRows then []
  else [(TablePlan.shapeOf search.plans search.forest search.settings, [TablePlan.emptyRow])]

/-- The settled rows of a source. -/
def partOf (settings : Settings) (source : TablePlan × List Row) : Part :=
  ⟨source.1.forest, source.1.countColumn, source.1.settleRows settings source.2⟩

/-- The settled rows of all sources. -/
def parts : List Part := search.sources.map (partOf search.settings)

/-- Taking in answers folds their settled rows in. -/
theorem root_foldl_absorb (settings : Settings) (answers : List (TablePlan × ResultSet))
    (state : SearchState) :
    (answers.foldl (fun state answer => state.absorb answer.1 settings answer.2)
      state).response.root =
      ((answers.map fun answer =>
        (answer.1, answer.2.rows.map fun cells => Row.ofCells cells .engine)).map
          (partOf settings)).foldl Part.fold state.response.root := by
  induction answers generalizing state with
  | nil => rfl
  | cons answer rest ih =>
      rw [List.foldl_cons, ih, SearchState.root_absorb]
      rfl

/-- Giving a response its shape folds the settled empty row in. -/
theorem root_foldShape (plan : TablePlan) (settings : Settings) (response : Response) :
    (plan.foldShape settings response).root =
      (partOf settings (plan, [TablePlan.emptyRow])).fold response.root := rfl

/-- The response is what folding the settled rows of all sources makes. -/
theorem root_response : search.response.root = search.parts.foldl Part.fold [] := by
  have hstart : SearchState.start.response.root = [] := rfl
  have hstate := root_foldl_absorb search.settings search.answers .start
  rw [hstart] at hstate
  unfold response SearchState.finish parts sources
  rw [List.map_append, List.foldl_append]
  cases hany : search.state.anyRows with
  | true =>
      simp only [if_true, List.map_nil, List.foldl_nil]
      exact hstate
  | false =>
      simp only [Bool.false_eq_true, if_false, List.map_cons, List.map_nil, List.foldl_cons,
        List.foldl_nil]
      rw [← hstate]
      exact root_foldShape _ search.settings search.state.response

variable {search}

/-- Every answer is one to a plan for the request that has a statement. -/
theorem mem_plans_of_mem_answers {answer : TablePlan × ResultSet} (h : answer ∈ search.answers) :
    answer.1 ∈ search.plans ∧ answer.1.isSkipped = false := by
  have hmem : answer.1 ∈ search.answers.map Prod.fst := List.mem_map_of_mem h
  rw [search.isComplete, List.mem_filter, Bool.not_eq_true'] at hmem
  exact hmem

/-- The plan of a source is that of an answer, as long as there is one. -/
theorem exists_answer_of_mem_sources (hsome : search.answers ≠ [])
    {source : TablePlan × List Row} (h : source ∈ search.sources) :
    ∃ answer ∈ search.answers, source.1 = answer.1 ∧
      (source.2 = [TablePlan.emptyRow] ∨
        source.2 = answer.2.rows.map fun cells => Row.ofCells cells .engine) := by
  rcases List.mem_append.mp h with hanswer | hshape
  · obtain ⟨answer, hmem, rfl⟩ := List.mem_map.mp hanswer
    exact ⟨answer, hmem, rfl, Or.inr rfl⟩
  · split at hshape
    · cases hshape
    · obtain rfl := List.mem_singleton.mp hshape
      obtain ⟨first, hfirst⟩ := List.exists_mem_of_ne_nil _ hsome
      obtain ⟨hplan, hskipped⟩ := mem_plans_of_mem_answers hfirst
      -- the plan that gives the shape is the first one with a statement
      have hfound : ∃ plan, search.plans.find? (fun plan => !plan.isSkipped) = some plan := by
        rw [← Option.isSome_iff_exists, List.find?_isSome]
        exact ⟨first.1, hplan, by simp [hskipped]⟩
      obtain ⟨plan, hfind⟩ := hfound
      have hmem : plan ∈ search.answers.map Prod.fst := by
        rw [search.isComplete, List.mem_filter]
        exact ⟨List.mem_of_find?_eq_some hfind, by simpa using List.find?_some hfind⟩
      obtain ⟨answer, hanswer, rfl⟩ := List.mem_map.mp hmem
      refine ⟨answer, hanswer, ?_, Or.inl rfl⟩
      unfold TablePlan.shapeOf
      rw [hfind]

theorem isLaidOut_forest (search : AnsweredSearch) : search.forest.IsLaidOut :=
  Forest.isLaidOut_of_ofJson search.isAccepted search.hasDistinctKeys

/-- What is known about the plan of a source. -/
theorem source_spec (hsome : search.answers ≠ []) {source : TablePlan × List Row}
    (h : source ∈ search.sources) :
    search.forest.IsRevision source.1.forest ∧ source.1.forest.IsLaidOut ∧
      source.1.forest.IsMarked := by
  obtain ⟨answer, hanswer, heq, -⟩ := exists_answer_of_mem_sources hsome h
  obtain ⟨hplan, hskipped⟩ := mem_plans_of_mem_answers hanswer
  rw [heq]
  exact ⟨TablePlan.isRevision_of_mem_forTables hplan,
    TablePlan.isLaidOut_of_mem_forTables search.isAccepted search.hasDistinctKeys hplan hskipped⟩

/-- Whether the nodes of all plans that were sent read apart. -/
def ReadsApart (search : AnsweredSearch) : Prop :=
  ∀ answer ∈ search.answers, answer.1.forest.ReadsApart answer.1.countColumn

theorem ReadsApart.source (hapart : search.ReadsApart) (hsome : search.answers ≠ [])
    {source : TablePlan × List Row} (h : source ∈ search.sources) :
    source.1.forest.ReadsApart source.1.countColumn := by
  obtain ⟨answer, hanswer, heq, -⟩ := exists_answer_of_mem_sources hsome h
  rw [heq]
  exact hapart answer hanswer

/-- What the response is made of, source by source. -/
theorem gathered_root (hsome : search.answers ≠ []) (hapart : search.ReadsApart) :
    Part.Gathered search.forest search.parts [] search.response.root := by
  rw [search.root_response]
  apply Part.gathered_foldl search.isLaidOut_forest _ (Forest.fits_empty search.forest)
  intro part hpart
  obtain ⟨source, hsource, rfl⟩ := List.mem_map.mp hpart
  obtain ⟨hrevision, hlaid, hmarked⟩ := source_spec hsome hsource
  have hreads : source.1.forest.ReadsApart (source.1.rowContext search.settings).countColumn :=
    hapart.source hsome hsource
  exact ⟨hrevision, hmarked, hreads.count, matchesOne_of_mem_run hlaid hmarked hreads⟩

end AnsweredSearch

/-! ## Searches that succeed -/

namespace Engine

variable {σ : Type} {engine : Engine (StateM σ)} {s s' : σ}

/-- What comes after an action is only done when the action succeeds. -/
theorem bind_eq_ok {α β : Type} {action : ExceptT RequestError (StateM σ) α}
    {next : α → ExceptT RequestError (StateM σ) β} {b : β}
    (h : (action >>= next).run.run s = (.ok b, s')) :
    ∃ a middle, action.run.run s = (.ok a, middle) ∧ (next a).run.run middle = (.ok b, s') := by
  have hrun : (action >>= next).run.run s =
      match action.run.run s with
      | (.ok a, middle) => (next a).run.run middle
      | (.error e, middle) => (.error e, middle) := by
    change (ExceptT.bindCont next (action.run.run s).1).run (action.run.run s).2 = _
    cases action.run.run s with
    | mk result middle => cases result <;> rfl
  rw [hrun] at h
  split at h
  · rename_i a middle haction
    exact ⟨a, middle, haction, h⟩
  · cases h

/-- A plan with a statement gets an answer, and one without is passed over. -/
theorem runPlan_eq_ok {state state' : SearchState} {plan : TablePlan}
    (h : (engine.runPlan state plan).run.run s = (.ok state', s')) :
    (plan.isSkipped = true ∧ state' = state) ∨
      (plan.isSkipped = false ∧ ∃ result, state' = state.absorb plan engine.settings result) := by
  unfold runPlan at h
  cases hresult : plan.result with
  | error reason =>
      have htext : plan.text? = none := by
        rw [TablePlan.text?, TablePlan.statement?, hresult]
        rfl
      rw [htext] at h
      refine Or.inl ⟨by rw [TablePlan.isSkipped, TablePlan.skipped?, hresult]; rfl, ?_⟩
      cases h
      rfl
  | ok statement =>
      have htext : plan.text? = some statement.text := by
        rw [TablePlan.text?, TablePlan.statement?, hresult]
        rfl
      rw [htext] at h
      refine Or.inr ⟨by rw [TablePlan.isSkipped, TablePlan.skipped?, hresult]; rfl, ?_⟩
      obtain ⟨answer, middle, -, hanswer⟩ := bind_eq_ok h
      cases answer with
      | error reason => cases hanswer
      | ok result =>
          cases hanswer
          exact ⟨result, rfl⟩

theorem foldlM_runPlan_eq_ok {plans : List TablePlan} {state state' : SearchState}
    (h : (plans.foldlM engine.runPlan state).run.run s = (.ok state', s')) :
    ∃ answers : List (TablePlan × ResultSet),
      answers.map Prod.fst = plans.filter (fun plan => !plan.isSkipped) ∧
      state' = answers.foldl
        (fun state answer => state.absorb answer.1 engine.settings answer.2) state := by
  induction plans generalizing state s with
  | nil =>
      cases h
      exact ⟨[], rfl, rfl⟩
  | cons plan rest ih =>
      rw [List.foldlM_cons] at h
      obtain ⟨next, middle, hplan, hrest⟩ := bind_eq_ok h
      obtain ⟨answers, hanswers, rfl⟩ := ih hrest
      rcases runPlan_eq_ok hplan with ⟨hskipped, rfl⟩ | ⟨hskipped, result, rfl⟩
      · exact ⟨answers, by rw [hanswers, List.filter_cons, hskipped]; rfl, rfl⟩
      · exact ⟨(plan, result) :: answers,
          by rw [List.map_cons, hanswers, List.filter_cons, hskipped]; rfl, rfl⟩

/-- A search that succeeds is one whose statements were all answered, whatever answers and with
whatever effects. -/
theorem exists_answered_of_search {now : Calendar.Instant} {target : String} {request : Json}
    {response : Response} (hkeys : request.hasDistinctKeys = true)
    (h : (engine.search now target request).run.run s = (.ok response, s')) :
    ∃ search : AnsweredSearch, search.now = now ∧ search.request = request ∧
      search.settings = engine.settings ∧ search.response = response := by
  unfold search at h
  obtain ⟨tables, afterTables, -, h⟩ := bind_eq_ok h
  obtain ⟨forest, afterForest, hforest, h⟩ := bind_eq_ok h
  obtain ⟨state, afterPlans, hstate, hend⟩ := bind_eq_ok h
  obtain ⟨answers, hanswers, rfl⟩ := foldlM_runPlan_eq_ok hstate
  have haccepted : Forest.ofJson now request = .ok forest := congrArg Prod.fst hforest
  cases hend
  exact ⟨⟨now, request, tables, engine.settings, forest, answers, haccepted, hkeys, hanswers⟩,
    rfl, rfl, rfl, rfl⟩

end Engine
end Rollup
