/-
# The aggregations that a response names

A response names an aggregation of the request's own level when some row has stopped at one of its
nodes. Every settled row stops at every such node that its plan shows. So an aggregation is named
when a plan shows it whose table leaves rows; when no table leaves a row, the plan that gives the
response its shape decides, and what other plans show is not named.
-/

import Rollup.Proofs.Response.Answered
import Rollup.Proofs.Response.Itinerary
import Rollup.Proofs.Response.Rendered

namespace Rollup

/-! ## Names of JSON objects -/

/-- A level is written under the names of its outputs. -/
theorem Level.isSome_field?_toJson (level : Level) (name : String) :
    (level.toJson.field? name).isSome = true ↔ (level.get? name).isSome = true := by
  have hentries := Fields.isSome_get?_insertAll [] (levelToEntries level) name
  rw [map_fst_levelToEntries] at hentries
  rw [Level.isSome_get?_iff]
  exact hentries.trans (by simp [Fields.get?])

/-- Whether a response names an aggregation of the request's own level, however long the search
took. -/
def Response.Names (response : Response) (name : String) : Prop :=
  ∀ tookMillis, ∃ aggregations,
    (response.toJson tookMillis).field? "aggregations" = some aggregations ∧
      (aggregations.field? name).isSome = true

theorem Response.names_iff_output (response : Response) (name : String) :
    response.Names name ↔ (response.root.outputOn? [] name).isSome = true := by
  have hfield (tookMillis : Nat) : (response.toJson tookMillis).field? "aggregations" =
      some (Level.toJson (finishedLevel response.root)) := rfl
  have hroot : response.root.outputOn? [] name = response.root.get? name := rfl
  unfold Response.Names
  simp only [hfield, hroot, Option.some.injEq, exists_eq_left', forall_const,
    Level.isSome_field?_toJson, Level.get?_finishedLevel, Option.isSome_map]

/-! ## The row that stands for a result without rows -/

namespace Rows

/-- Whether some row stands for a result without rows. -/
def StandsFor (rows : List Row) : Prop := ∃ row ∈ rows, row.origin = .empty

variable {forest : Forest} {rows : List Row}

theorem standsFor_of_perm {rows' : List Row} (hperm : rows'.Perm rows) (h : StandsFor rows) :
    StandsFor rows' := by
  obtain ⟨row, hrow, horigin⟩ := h
  exact ⟨row, hperm.mem_iff.mpr hrow, horigin⟩

theorem standsFor_map {f : Row → Row} (hf : ∀ row, row.origin = .empty → (f row).origin = .empty)
    (h : StandsFor rows) : StandsFor (rows.map f) := by
  obtain ⟨row, hrow, horigin⟩ := h
  exact ⟨f row, List.mem_map_of_mem hrow, hf row horigin⟩

theorem standsFor_dropUnread (unit : FilterUnit) (outer : List String) (h : StandsFor rows) :
    StandsFor (dropUnread unit outer rows).1 := by
  obtain ⟨row, hrow, horigin⟩ := h
  refine ⟨row, ?_, horigin⟩
  induction rows with
  | nil => cases hrow
  | cons first rest ih =>
      rw [dropUnread]
      generalize dropUnread unit outer rest = result at ih
      obtain ⟨kept, matched⟩ := result
      dsimp only at ih ⊢
      rcases List.mem_cons.mp hrow with rfl | hrest
      · rw [if_pos horigin]
        exact List.mem_cons_self
      · have hkept := ih hrest
        split
        · exact List.mem_cons_of_mem _ hkept
        · split
          · exact List.mem_cons_of_mem _ hkept
          · split
            · exact List.mem_cons_of_mem _ hkept
            · exact hkept

theorem standsFor_settleUnmatched (h : StandsFor rows) :
    StandsFor (settleUnmatched forest rows) := by
  unfold settleUnmatched
  induction filterUnits forest generalizing rows with
  | nil => exact h
  | cons unit rest ih =>
      refine ih ?_
      unfold settleUnit
      apply standsFor_map
      · intro row horigin
        simp [FilterUnit.isMissedBy, horigin]
      · split
        · exact h
        · exact standsFor_dropUnread unit _ h

theorem standsFor_splitConcurrent (h : StandsFor rows) :
    StandsFor (splitConcurrent forest rows) := by
  unfold splitConcurrent
  induction forest.concurrentRuns generalizing rows with
  | nil => exact h
  | cons run rest ih =>
      refine ih ?_
      unfold splitRun
      split
      · exact h
      · dsimp only
        split
        · exact h
        · obtain ⟨row, hrow, horigin⟩ := h
          -- the first copy of a row is the row itself, matching one leg
          have hcopy (legs : List String) (anchor : Nat) :
              StandsFor (splitRow legs anchor row) := by
            unfold splitRow
            split
            · exact ⟨_, List.mem_cons_self, (origin_matchingOnly _ _ row).trans horigin⟩
            · exact ⟨row, List.mem_singleton.mpr rfl, horigin⟩
          obtain ⟨copy, hcopy, hempty⟩ := hcopy _ _
          exact ⟨copy, List.mem_flatMap.mpr ⟨row, hrow, hcopy⟩, hempty⟩

theorem standsFor_fillGaps (countColumn : String) (limit : Nat) (h : StandsFor rows) :
    StandsFor (fillGaps forest countColumn limit rows) := by
  unfold fillGaps
  split
  · exact h
  · rename_i target _
    dsimp only
    obtain ⟨row, hrow, horigin⟩ :=
      standsFor_of_perm (flatMap_groups_perm (forest.groupColumnsBefore target.index) rows) h
    obtain ⟨group, hgroup, hmem⟩ := List.mem_flatMap.mp hrow
    refine ⟨row, List.mem_flatMap.mpr ⟨group, hgroup, ?_⟩, horigin⟩
    unfold fillGroup
    split
    · rename_i hnil
      rw [hnil] at hmem
      cases hmem
    · rename_i template others heq
      exact List.mem_append_left _ (heq ▸ hmem)

theorem origin_blanked (columns : List String) (row : Row) :
    (columns.foldl (fun row column => row.set column .null) row).origin = row.origin := by
  induction columns generalizing row with
  | nil => rfl
  | cons column rest ih => exact ih _

/-- The row that stands for a result without rows is not dropped. -/
theorem standsFor_run {context : RowContext} (h : StandsFor rows) :
    StandsFor (RowPass.run forest context rows) := by
  rw [RowPass.run_eq]
  refine standsFor_map (fun row horigin => (origin_blanked _ row).trans horigin) ?_
  refine standsFor_fillGaps _ _ (standsFor_splitConcurrent (standsFor_settleUnmatched ?_))
  split
  · exact standsFor_of_perm (sort_perm _ _ _) h
  · exact h

end Rows

/-- The row that stands for a result without rows leaves rows. -/
theorem TablePlan.settleRows_emptyRow_ne_nil (plan : TablePlan) (settings : Settings) :
    plan.settleRows settings [TablePlan.emptyRow] ≠ [] := by
  have hsettled : Rows.StandsFor (plan.settleRows settings [TablePlan.emptyRow]) :=
    Rows.standsFor_run ⟨TablePlan.emptyRow, List.mem_singleton.mpr rfl, rfl⟩
  obtain ⟨row, hrow, -⟩ := hsettled
  exact List.ne_nil_of_mem hrow

/-! ## The aggregations that plans show -/

/-- Whether a plan shows an aggregation of the request's own level. -/
def TablePlan.Shows (plan : TablePlan) (name : String) : Prop :=
  ∃ node ∈ plan.forest, node.isShown = true ∧ node.parent = none ∧ node.name = name

/-- A row stops at the nodes of the request's own level that are shown, at the root of the
response, and elsewhere at the others. -/
theorem Forest.IsLaidOut.exists_stop_at_root {forest : Forest} (h : forest.IsLaidOut)
    (countColumn : String) (row : Row) (name : String) :
    (∃ stop ∈ forest.stops countColumn row, stop.IsAt [] name) ↔
      ∃ node ∈ forest, node.isShown = true ∧ node.parent = none ∧ node.name = name := by
  constructor
  · rintro ⟨stop, hstop, htrail, rfl⟩
    obtain ⟨i, hi, hshown, -⟩ := Forest.mem_stops hstop
    have hparent := h.parentOn?_of_mem_stops hstop
    rw [htrail] at hparent
    exact ⟨stop.node, List.mem_of_getElem? hi, hshown, (Option.some.inj hparent).symm, rfl⟩
  · rintro ⟨node, hnode, hshown, hparent, rfl⟩
    obtain ⟨i, hi⟩ := List.getElem?_of_mem hnode
    obtain ⟨stop, hstop, htrail, rfl⟩ :=
      Forest.exists_stop_of_root countColumn row hi hshown hparent
    exact ⟨stop, hstop, htrail, rfl⟩

namespace AnsweredSearch

variable (search : AnsweredSearch)

/-- Whether a table leaves rows when the passes have settled those of its answer. -/
def LeavesRows (answer : TablePlan × ResultSet) : Prop :=
  answer.1.settleRows search.settings
    (answer.2.rows.map fun cells => Row.ofCells cells .engine) ≠ []

/-- The plan that gives the response its shape when no table leaves a row. -/
def shapePlan : TablePlan :=
  TablePlan.shapeOf search.plans search.forest search.settings

/-- Every source has a plan for the request. -/
theorem isRevision_of_mem_sources {source : TablePlan × List Row} (h : source ∈ search.sources) :
    search.forest.IsRevision source.1.forest := by
  rcases List.mem_append.mp h with hanswer | hshape
  · obtain ⟨answer, hmem, rfl⟩ := List.mem_map.mp hanswer
    exact TablePlan.isRevision_of_mem_forTables (mem_plans_of_mem_answers hmem).1
  · split at hshape
    · cases hshape
    · obtain rfl := List.mem_singleton.mp hshape
      unfold TablePlan.shapeOf
      split
      · rename_i plan hfind
        exact TablePlan.isRevision_of_mem_forTables (List.mem_of_find?_eq_some hfind)
      · exact TablePlan.isRevision_ofForest _ _ _ _ _

/-- The response is what the stops of all sources bring. -/
theorem gains_root : search.forest.Hosts search.response.root ∧
    Level.Gains [] search.response.root (search.parts.flatMap Part.stops) := by
  rw [search.root_response]
  refine Part.gains_foldl search.isLaidOut_forest ?_ (search.forest.hosts_nil)
  intro part hpart
  obtain ⟨source, hsource, rfl⟩ := List.mem_map.mp hpart
  exact search.isRevision_of_mem_sources hsource

/-- Some row is in the response when some table leaves one. -/
theorem anyRows_iff : search.state.anyRows = true ↔
    ∃ answer ∈ search.answers, search.LeavesRows answer := by
  have hfold (answers : List (TablePlan × ResultSet)) (state : SearchState) :
      (answers.foldl (fun state answer => state.absorb answer.1 search.settings answer.2)
        state).anyRows = true ↔
        state.anyRows = true ∨ ∃ answer ∈ answers, search.LeavesRows answer := by
    induction answers generalizing state with
    | nil => simp
    | cons answer rest ih =>
        rw [List.foldl_cons, ih]
        have hstep : (state.absorb answer.1 search.settings answer.2).anyRows = true ↔
            state.anyRows = true ∨ search.LeavesRows answer := by
          unfold SearchState.absorb LeavesRows
          dsimp only
          split
          · rename_i hnone
            simp [hnone]
          · rename_i hsome
            exact ⟨fun _ => Or.inr hsome, fun _ => rfl⟩
        rw [hstep]
        simp [or_assoc]
  exact (hfold search.answers .start).trans (by simp [SearchState.start])

/-- A response names an aggregation of the request's own level when a plan shows it whose table
leaves rows, or else, when no table leaves a row, when the plan that gives the shape shows it. -/
theorem names_iff (name : String) : search.response.Names name ↔
    (∃ answer ∈ search.answers, search.LeavesRows answer ∧ answer.1.Shows name) ∨
      (∀ answer ∈ search.answers, ¬ search.LeavesRows answer) ∧ search.shapePlan.Shows name := by
  have hroot : Level.outputOn? [] [] name = none := rfl
  have hsource {source : TablePlan × List Row} (h : source ∈ search.sources) :
      (∃ stop ∈ (partOf search.settings source).stops, stop.IsAt [] name) ↔
        source.1.settleRows search.settings source.2 ≠ [] ∧ source.1.Shows name := by
    have hlaid := (search.isRevision_of_mem_sources h).isLaidOut search.isLaidOut_forest
    simp only [Part.stops, partOf, List.mem_flatMap]
    constructor
    · rintro ⟨stop, ⟨row, hrow, hstop⟩, hat⟩
      exact ⟨List.ne_nil_of_mem hrow,
        (hlaid.exists_stop_at_root _ row name).mp ⟨stop, hstop, hat⟩⟩
    · rintro ⟨hrows, hshows⟩
      obtain ⟨row, hrow⟩ := List.exists_mem_of_ne_nil _ hrows
      obtain ⟨stop, hstop, hat⟩ :=
        (hlaid.exists_stop_at_root source.1.countColumn row name).mpr hshows
      exact ⟨stop, ⟨row, hrow, hstop⟩, hat⟩
  have hnames : search.response.Names name ↔ ∃ source ∈ search.sources,
      source.1.settleRows search.settings source.2 ≠ [] ∧ source.1.Shows name := by
    rw [Response.names_iff_output, search.gains_root.2.output, hroot]
    simp only [Option.isSome_none, Bool.false_eq_true, false_or, parts, List.mem_flatMap,
      List.mem_map]
    constructor
    · rintro ⟨stop, ⟨part, ⟨source, hmem, rfl⟩, hstop⟩, hat⟩
      exact ⟨source, hmem, (hsource hmem).mp ⟨stop, hstop, hat⟩⟩
    · rintro ⟨source, hmem, hboth⟩
      obtain ⟨stop, hstop, hat⟩ := (hsource hmem).mpr hboth
      exact ⟨stop, ⟨_, ⟨source, hmem, rfl⟩, hstop⟩, hat⟩
  rw [hnames]
  unfold sources
  constructor
  · rintro ⟨source, hmem, hrows, hshows⟩
    rcases List.mem_append.mp hmem with hanswer | hshape
    · obtain ⟨answer, hof, rfl⟩ := List.mem_map.mp hanswer
      exact Or.inl ⟨answer, hof, hrows, hshows⟩
    · split at hshape
      · cases hshape
      · rename_i hany
        obtain rfl := List.mem_singleton.mp hshape
        refine Or.inr ⟨fun answer hanswer hleaves => hany ?_, hshows⟩
        exact search.anyRows_iff.mpr ⟨answer, hanswer, hleaves⟩
  · rintro (⟨answer, hanswer, hleaves, hshows⟩ | ⟨hnone, hshows⟩)
    · exact ⟨_, List.mem_append_left _ (List.mem_map_of_mem hanswer), hleaves, hshows⟩
    · have hany : ¬ search.state.anyRows = true := by
        rw [search.anyRows_iff]
        rintro ⟨answer, hanswer, hleaves⟩
        exact hnone answer hanswer hleaves
      rw [if_neg hany]
      exact ⟨_, List.mem_append_right _ (List.mem_singleton.mpr rfl),
        TablePlan.settleRows_emptyRow_ne_nil _ _, hshows⟩

/-! ## Two tables without rows -/

def largestBody : Json := .object [("field", .string "x")]

def sizesBody : Json :=
  .object [("field", .string "bytes"), ("ranges", .array [.object [("to", .ofInt 10)]])]

/-- A request for a metric of one attribute, and for a range of another. -/
def shapeRequest : Json :=
  .object [("aggs", .object [("m", .object [("max", largestBody)]),
    ("r", .object [("range", sizesBody)])])]

def largestMetric : Metric := ⟨.max, "x"⟩

def sizesRanges : Ranges := ⟨"bytes", [⟨"*-10.0", none, some 10⟩], false, false⟩

/-- The aggregations as they are read. -/
def shapeForest : Forest :=
  [Node.new "m" none 0 false (.metric largestMetric),
    Node.new "r" none 0 false (.ranges sizesRanges)]

theorem ofJson_shapeRequest : Forest.ofJson default shapeRequest = .ok shapeForest := by
  have hsizes : Ranges.ofJson "r" sizesBody = .ok sizesRanges :=
    Request.eq_ok_of_toOption (by decide +kernel)
  have hkind : Aggregation.ofKind default "r" "range" sizesBody = .ok (.ranges sizesRanges) := by
    simp only [Aggregation.ofKind, hsizes]
    rfl
  have hbranch : Request.readBranch default "r" (.object [("range", sizesBody)]) =
      .ok (.node "r" [.ranges sizesRanges] []) := Request.readBranch_alone rfl (by decide) hkind
  have hmetric : Request.readBranch default "m" (.object [("max", largestBody)]) =
      .ok (.node "m" [.metric largestMetric] []) := rfl
  have hblocks : Request.readBlocks default
      [("aggs", .object [("m", .object [("max", largestBody)]),
        ("r", .object [("range", sizesBody)])])] =
      [("aggs", [("m", .ok (.node "m" [.metric largestMetric] [])),
        ("r", .ok (.node "r" [.ranges sizesRanges] []))])] := by
    rw [← hbranch, ← hmetric]
    rfl
  unfold Forest.ofJson shapeRequest Request.ofJson
  dsimp only
  rw [hblocks]
  rfl

def onlyLargest : Table := ⟨"t", [("x", true)]⟩

def largestAndSizes : Table := ⟨"u", [("x", true), ("bytes", true)]⟩

/-- The plan for one of the two tables. -/
def shapePlanFor (table : Table) : TablePlan :=
  TablePlan.ofForest shapeForest table true ["x", "x", "bytes"] .standard

/-- A search of both tables that brings back no row. -/
def shapeSearch : AnsweredSearch where
  now := default
  request := shapeRequest
  tables := [onlyLargest, largestAndSizes]
  settings := .standard
  forest := shapeForest
  answers := [(shapePlanFor onlyLargest, ⟨[], 0⟩), (shapePlanFor largestAndSizes, ⟨[], 0⟩)]
  isAccepted := ofJson_shapeRequest
  hasDistinctKeys := by decide +kernel
  isComplete := rfl

/-- The second table shows the range, and the response does not name it: the first table gives the
response its shape. -/
theorem shapeSearch_loses_name :
    (∃ answer ∈ shapeSearch.answers, answer.1.Shows "r") ∧ ¬ shapeSearch.response.Names "r" := by
  have hnames : (shapeSearch.response.root.outputOn? [] "r").isSome = false := by decide +kernel
  constructor
  · refine ⟨(shapePlanFor largestAndSizes, ⟨[], 0⟩), by simp [shapeSearch], ?_⟩
    unfold TablePlan.Shows
    decide +kernel
  · rw [Response.names_iff_output, hnames]
    simp

end AnsweredSearch
end Rollup
