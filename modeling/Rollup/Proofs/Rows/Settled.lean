/-
# Settled rows

Settling the order, the rows that miss filters, those that match several and the empty intervals,
and emptying the cells of blanked metrics: after all passes the rows tell every place of the
response what they told before, in some order, and no row matches two legs of one aggregation.
-/

import Rollup.Proofs.Rows.Missed

namespace Rollup.Rows

variable {forest : Forest} {countColumn : String}

/-! ## Order -/

theorem length_sortCells (countColumn : String) (rows : List Row) (key : SortKey) :
    (sortCells countColumn rows key).length = rows.length := by
  cases key <;> simp [sortCells]

theorem length_withSortCells (countColumn : String) (levels : List SortLevel) (rows : List Row) :
    (levels.foldr (fun level cells =>
      List.zipWith List.cons (sortCells countColumn rows level.key) cells)
      (rows.map fun _ => [])).length = rows.length := by
  induction levels with
  | nil => simp
  | cons level rest ih =>
      rw [List.foldr_cons, List.length_zipWith, ih, length_sortCells, Nat.min_self]

/-- Settling the order only rearranges the rows. -/
theorem sort_perm (forest : Forest) (countColumn : String) (rows : List Row) :
    (sort forest countColumn rows).Perm rows := by
  have hrows : (withSortCells countColumn (sortLevels forest) rows).map Prod.snd = rows := by
    unfold withSortCells
    apply List.map_snd_zip
    exact Nat.le_of_eq (length_withSortCells countColumn _ rows).symm
  have hperm := (Order.sortBy_perm (fun a b => compareCells (sortLevels forest) a.1 b.1)
    (withSortCells countColumn (sortLevels forest) rows)).map Prod.snd
  rwa [hrows] at hperm

/-! ## Groups -/

/-- Items class by class are the items rearranged. -/
theorem flatMap_filter_perm {α κ : Type} [DecidableEq κ] (f : α → κ) {keys : List κ}
    (hnodup : keys.Nodup) (items : List α) (hkeys : ∀ item ∈ items, f item ∈ keys) :
    (keys.flatMap fun key => items.filter fun item => f item = key).Perm items := by
  induction keys generalizing items with
  | nil =>
      obtain rfl : items = [] := List.eq_nil_iff_forall_not_mem.mpr fun item hitem => by
        cases hkeys item hitem
      rfl
  | cons key rest ih =>
      rw [List.nodup_cons] at hnodup
      rw [List.flatMap_cons]
      have hrest := ih hnodup.2 (items.filter fun item => !decide (f item = key)) (by
        intro item hitem
        obtain ⟨hmem, hne⟩ := List.mem_filter.mp hitem
        exact (List.mem_cons.mp (hkeys item hmem)).resolve_left (by simpa using hne))
      have hsame : (rest.flatMap fun other =>
            (items.filter fun item => !decide (f item = key)).filter fun item => f item = other) =
          rest.flatMap fun other => items.filter fun item => f item = other := by
        apply List.flatMap_congr
        intro other hother
        rw [List.filter_filter]
        apply List.filter_congr
        intro item _
        by_cases heq : f item = other
        · have hne : other ≠ key := by
            rintro rfl
            exact hnodup.1 hother
          simp [heq, hne]
        · simp [heq]
      rw [hsame] at hrest
      exact (hrest.append_left _).trans (List.filter_append_perm _ items)

/-- The rows of all groups are the rows. -/
theorem flatMap_groups_perm (columns : List String) (rows : List Row) :
    ((groups columns rows).flatMap Prod.snd).Perm rows := by
  unfold groups
  dsimp only
  have hperm := flatMap_filter_perm Prod.fst (nodup_eraseDups
    ((rows.map fun row => (row.groupKey columns, row)).map Prod.fst))
    (rows.map fun row => (row.groupKey columns, row))
    fun entry hentry => List.mem_eraseDups.mpr (List.mem_map_of_mem hentry)
  have hrows := hperm.map Prod.snd
  rw [List.map_flatMap] at hrows
  rw [List.flatMap_map]
  simpa [Function.comp_def] using hrows

theorem mem_of_mem_groups {columns : List String} {rows : List Row}
    {group : String × List Row} (hgroup : group ∈ groups columns rows) :
    ∀ row ∈ group.2, row ∈ rows :=
  fun _ hrow => (flatMap_groups_perm columns rows).mem_iff.mp
    (List.mem_flatMap.mpr ⟨group, hgroup, hrow⟩)

/-! ## Empty intervals -/

/-- The histogram to fill in is a node of the forest. -/
theorem gapTarget_spec {target : GapTarget} (h : gapTarget? forest = some target) :
    ∃ node, forest[target.index]? = some node ∧ node.isActive = true ∧
      node.aggregation.showsEmpty = true ∧ isBehindTerms forest target.index = true ∧
      node.decisions.column = some target.column ∧
      node.aggregation.grid? = some (target.grid, target.bounds) := by
  have hmem := List.mem_of_getLast? h
  obtain ⟨⟨node, index⟩, hentry, hsome⟩ := List.mem_filterMap.mp hmem
  have hnode : forest[index]? = some node := List.mem_zipIdx_iff_getElem?.mp hentry
  dsimp only at hsome
  unfold gapTargetAt? at hsome
  split at hsome
  · rename_i hguard
    rw [Bool.and_eq_true, Bool.and_eq_true] at hguard
    split at hsome
    · rename_i column grid bounds hcolumn hgrid
      obtain rfl := Option.some.inj hsome
      exact ⟨node, hnode, hguard.1.1, hguard.1.2, hguard.2, hcolumn, hgrid⟩
    · cases hsome
  · cases hsome

/-- The histogram to fill in reads its column, and is no leg. -/
theorem readColumn?_of_gapTarget {node : Node} {target : GapTarget}
    (hactive : node.isActive = true) (hempty : node.aggregation.showsEmpty = true)
    (hcolumn : node.decisions.column = some target.column) :
    node.readColumn? = some target.column ∧ node.isShown = true ∧ node.isLeg = false := by
  cases haggregation : node.aggregation <;>
    simp_all [Aggregation.showsEmpty, Node.readColumn?, Node.isShown, Node.isQuery,
      Aggregation.isQuery, Aggregation.query?, Node.isLeg, Aggregation.isLeg, Aggregation.leg?]

theorem get?_map_cells (cells : Fields) (isKept : String → Bool) (c : String) :
    (Fields.get? (cells.map fun cell => (cell.1, if isKept cell.1 then cell.2 else .null)) c) =
      (cells.get? c).map fun value => if isKept c then value else .null := by
  unfold Fields.get?
  induction cells with
  | nil => rfl
  | cons cell rest ih =>
      obtain ⟨name, value⟩ := cell
      rw [List.map_cons, List.lookup_cons, List.lookup_cons, ih]
      by_cases h : c = name
      · subst h
        simp
      · have hne : (c == name) = false := by simpa using h
        simp [hne]

/-- A row of which some cells are kept. -/
theorem get?_keptCells (row : Row) (isKept : String → Bool) (origin : Origin) (c : String) :
    (Row.ofCells (row.cells.map fun cell => (cell.1, if isKept cell.1 then cell.2 else .null))
      origin).get? c = if isKept c then row.get? c else none := by
  unfold Row.get? Row.ofCells
  dsimp only
  rw [get?_map_cells]
  cases row.cells.get? c with
  | none => simp
  | some value =>
      rw [Option.map_some]
      split
      · rfl
      · rfl

section

variable {target : GapTarget} {outer : List String} {template : Row} {index : Int}

/-- An empty interval keeps the cells of the levels above. -/
theorem get?_gapRow {c : String} (htarget : c ≠ target.column) (hcount : c ≠ countColumn) :
    (gapRow target outer countColumn template index).get? c =
      if outer.contains c then template.get? c else none := by
  have hset : gapRow target outer countColumn template index =
      ((Row.ofCells (template.cells.map fun cell =>
          (cell.1, if outer.contains cell.1 then cell.2 else .null)) .gapFill).set target.column
        (target.grid.valueAt index)).set countColumn (.ofInt 0) := rfl
  rw [hset, Row.get?_set_of_ne _ hcount, Row.get?_set_of_ne _ htarget,
    get?_keptCells template outer.contains]

theorem count_gapRow : (gapRow target outer countColumn template index).count countColumn = 0 :=
  Row.count_set_zero (Row.ofCells _ .gapFill) countColumn

/-- An empty interval matches no leg that the row before it does not match. -/
theorem flag_of_flag_gapRow {c : String} (htarget : c ≠ target.column) (hcount : c ≠ countColumn)
    (hflag : (gapRow target outer countColumn template index).flag c = true) :
    template.flag c = true := by
  have hget : (gapRow target outer countColumn template index).get? c = _ :=
    get?_gapRow htarget hcount
  split at hget
  · rwa [Row.flag_congr hget] at hflag
  · rw [Row.flag, Row.number?, hget] at hflag
    cases hflag

end

/-- The columns of legs are not those of the histogram or the count. -/
theorem ne_of_mem_legColumns (hmarked : forest.IsMarked) (hapart : forest.ReadsApart countColumn)
    {target : GapTarget} (htarget : gapTarget? forest = some target) {a : Nat} {c : String}
    (hc : c ∈ legColumns forest (forest.runOf a)) : c ≠ target.column ∧ c ≠ countColumn := by
  obtain ⟨node, hnode, hactive, hempty, -, hcolumn, -⟩ := gapTarget_spec htarget
  obtain ⟨hread, hshown, hnotLeg⟩ := readColumn?_of_gapTarget hactive hempty hcolumn
  constructor
  · rintro rfl
    have hrun := mem_runOf_of_readColumn? hmarked hapart hnode hshown hread hc
    obtain ⟨-, hleg, -⟩ := readColumn?_of_mem_runOf hmarked hrun hnode
    rw [hnotLeg] at hleg
    cases hleg
  · rintro rfl
    exact countColumn_not_mem_legColumns hmarked hapart a hc

theorem matchesOneOf_fillGaps (hmarked : forest.IsMarked) (hapart : forest.ReadsApart countColumn)
    (limit : Nat) {rows : List Row} {a : Nat} (hone : ∀ row ∈ rows, MatchesOneOf forest a row) :
    ∀ row ∈ fillGaps forest countColumn limit rows, MatchesOneOf forest a row := by
  unfold fillGaps
  split
  · exact hone
  · rename_i target htarget
    intro row hrow
    obtain ⟨⟨key, group⟩, hgroup, hfilled⟩ := List.mem_flatMap.mp hrow
    have hrows := mem_of_mem_groups hgroup
    unfold fillGroup at hfilled
    split at hfilled
    · cases hfilled
    · rename_i template rest heq
      rcases List.mem_append.mp hfilled with hmem | hmissing
      · exact hone row (hrows row hmem)
      · obtain ⟨index, -, rfl⟩ := List.mem_map.mp hmissing
        have htemplate := hrows template (by rw [heq]; simp)
        refine matchesOneOf_congr hmarked (hone template htemplate) ?_
        intro c hc hflag
        obtain ⟨hne, hcount⟩ := ne_of_mem_legColumns hmarked hapart htarget hc
        exact flag_of_flag_gapRow hne hcount hflag

/-! ## Blanked metrics -/

theorem get?_blank {columns : List String} {c : String} (hc : c ∉ columns) (row : Row) :
    (columns.foldl (fun row column => row.set column .null) row).get? c = row.get? c := by
  induction columns generalizing row with
  | nil => rfl
  | cons column rest ih =>
      rw [List.mem_cons, not_or] at hc
      rw [List.foldl_cons, ih hc.2, Row.get?_set_of_ne _ hc.1]

theorem get?_blanked {columns : List String} {c : String} (hc : c ∈ columns) (row : Row) :
    (columns.foldl (fun row column => row.set column .null) row).get? c = none := by
  induction columns generalizing row with
  | nil => cases hc
  | cons column rest ih =>
      rw [List.foldl_cons]
      by_cases hrest : c ∈ rest
      · exact ih hrest _
      · obtain rfl : c = column := (List.mem_cons.mp hc).resolve_right hrest
        rw [get?_blank hrest, Row.get?_set_self]
        rfl

theorem isSilenced_blank (columns : List String) (row : Row) (index : Nat) :
    forest.isSilenced (columns.foldl (fun row column => row.set column .null) row) index =
      forest.isSilenced row index := by
  induction columns generalizing row with
  | nil => rfl
  | cons column rest ih => rw [List.foldl_cons, ih]; rfl

theorem mem_blankedColumns {c : String} :
    c ∈ blankedColumns forest ↔
      ∃ x ∈ forest, isBlanked x = true ∧ x.decisions.column = some c := by
  simp [blankedColumns, and_assoc]

/-- No active node reads the column of a blanked metric, and none is the count. -/
theorem not_mem_blankedColumns (hapart : forest.ReadsApart countColumn) {y : Node}
    (hy : y ∈ forest) (hactive : y.isActive = true) {c : String}
    (hread : y.readColumn? = some c) : c ∉ blankedColumns forest := by
  intro hmem
  obtain ⟨x, hx, hblanked, hcolumn⟩ := mem_blankedColumns.mp hmem
  exact hapart.blanked x hx hblanked y hy hactive c hcolumn hread

theorem countColumn_not_mem_blankedColumns (hapart : forest.ReadsApart countColumn) :
    countColumn ∉ blankedColumns forest := by
  intro hmem
  obtain ⟨x, hx, hblanked, hcolumn⟩ := mem_blankedColumns.mp hmem
  rw [isBlanked, Bool.and_eq_true] at hblanked
  obtain ⟨m, hmetric⟩ := Node.exists_metric hblanked.1
  refine hapart.count x hx ?_ ?_
  · simp [Node.isShown, hblanked.2, Node.isQuery, Aggregation.isQuery, Aggregation.query?, hmetric]
  · simp [Node.readColumn?, hmetric, hcolumn]

theorem matchesOneOf_blank (hmarked : forest.IsMarked) (hapart : forest.ReadsApart countColumn)
    {rows : List Row} {a : Nat} (hone : ∀ row ∈ rows, MatchesOneOf forest a row) :
    ∀ row ∈ blank forest rows, MatchesOneOf forest a row := by
  intro row' hrow'
  unfold blank at hrow'
  obtain ⟨row, hrow, rfl⟩ := List.mem_map.mp hrow'
  refine matchesOneOf_congr hmarked (hone row hrow) ?_
  intro c hc hflag
  obtain ⟨i, y, hi, hy, hcolumn⟩ := (mem_legColumns hmarked).mp hc
  obtain ⟨hread, -, hactive, -⟩ := readColumn?_of_mem_runOf hmarked hi hy
  have hnot := not_mem_blankedColumns hapart (List.mem_of_getElem? hy) hactive
    (hread.trans hcolumn)
  rwa [Row.flag_congr (get?_blank hnot row)] at hflag

/-! ## What settled rows tell -/

namespace Question

variable {α : Type} (q : Question forest countColumn α)

theorem answers_flatMap_eq {β : Type} (f : β → List Row) (items : List β) :
    q.answers (items.flatMap f) = items.flatMap fun item => q.answers (f item) := by
  induction items with
  | nil => rfl
  | cons item rest ih => rw [List.flatMap_cons, List.flatMap_cons, answers_append, ih]

/-- The rows of empty intervals tell nothing. -/
theorem answers_fillGroup (target : GapTarget) (outer : List String) (limit : Nat)
    (group : List Row) :
    q.answers (fillGroup target outer countColumn limit group) = q.answers group := by
  unfold fillGroup
  split
  · rfl
  · rename_i template rest
    have hnil : q.answers ((missingIndices target limit (template :: rest)).map
        (gapRow target outer countColumn template)) = [] := by
      apply q.answers_eq_nil
      intro row hrow
      obtain ⟨index, -, rfl⟩ := List.mem_map.mp hrow
      exact q.answers_eq_nil_of_count count_gapRow
    rw [answers_append, hnil, List.append_nil]

theorem answers_fillGaps (limit : Nat) (rows : List Row) :
    (q.answers (fillGaps forest countColumn limit rows)).Perm (q.answers rows) := by
  unfold fillGaps
  split
  · rfl
  · rename_i target _
    dsimp only
    rw [answers_flatMap_eq]
    simp only [answers_fillGroup]
    rw [← answers_flatMap_eq q Prod.snd]
    exact q.answers_perm (flatMap_groups_perm _ rows)

theorem answers_blank (hmarked : forest.IsMarked) (hapart : forest.ReadsApart countColumn)
    (rows : List Row) : q.answers (blank forest rows) = q.answers rows := by
  unfold blank
  dsimp only
  apply q.answers_map
  intro row _
  refine q.answers_of_get? (· ∈ blankedColumns forest)
    (fun c hc => get?_blank hc row) (countColumn_not_mem_blankedColumns hapart) ?_
    (isSilenced_blank _ row q.index)
  intro j y hj hshown hread c hc
  have hmem := List.mem_of_getElem? hj
  refine not_mem_blankedColumns hapart hmem ?_ hc
  rcases hread with hway | ⟨hactive, -⟩
  · exact hmarked.isActive_of_onWay hway
  · exact hactive

end Question

end Rollup.Rows

/-! ## All passes -/

namespace Rollup

open Rows

variable {forest : Forest}

theorem Rows.splitConcurrent_of_alone (halone : ∀ run ∈ forest.concurrentRuns, run.length < 2)
    (rows : List Row) : splitConcurrent forest rows = rows := by
  unfold splitConcurrent
  generalize forest.concurrentRuns = runs at halone
  induction runs generalizing rows with
  | nil => rfl
  | cons run rest ih =>
      have hstep : splitRun forest rows run = rows := by
        unfold splitRun
        split
        · rfl
        · rename_i first others
          have hlength := List.length_filterMap_le
            (fun index => forest[index]?.bind Node.groupColumn?) (first :: others)
          have hrun := halone (first :: others) (by simp)
          dsimp only
          rw [if_pos (by omega)]
      rw [List.foldl_cons, hstep, ih rows fun other hother => halone other (by simp [hother])]

namespace RowPass

/-- Run those of some passes that have anything to do. -/
def runOf (passes : List RowPass) (forest : Forest) (context : RowContext) (rows : List Row) :
    List Row :=
  (passes.filter fun pass => pass.isAvailable forest context).foldl
    (fun rows pass => pass.apply forest context rows) rows

/-- What a pass does to rows, whether it is left out or not. -/
def effect (pass : RowPass) (forest : Forest) (context : RowContext) (rows : List Row) :
    List Row :=
  match pass with
  | sorting => if context.complexOrder then sort forest context.countColumn rows else rows
  | unmatched => settleUnmatched forest rows
  | concurrent => splitConcurrent forest rows
  | gapFill => fillGaps forest context.countColumn context.maxGapBuckets rows
  | blanking => blank forest rows

/-- A pass that is left out would have nothing to do, the order apart. -/
theorem apply_eq_effect (pass : RowPass) (forest : Forest) (context : RowContext)
    (rows : List Row) :
    (if pass.isAvailable forest context then pass.apply forest context rows else rows) =
      pass.effect forest context rows := by
  cases pass with
  | sorting => rfl
  | unmatched =>
      split
      · rfl
      · rename_i hnone
        simp only [isAvailable, Bool.not_eq_true', Bool.not_eq_false, List.isEmpty_iff] at hnone
        rw [effect, settleUnmatched, hnone]
        rfl
  | concurrent =>
      split
      · rfl
      · rename_i hnone
        simp only [isAvailable, List.any_eq_true, not_exists, not_and, decide_eq_true_eq,
          Nat.not_lt] at hnone
        exact (splitConcurrent_of_alone
          (fun run hrun => Nat.lt_succ_of_le (hnone run hrun)) rows).symm
  | gapFill =>
      split
      · rfl
      · rename_i hnone
        simp only [isAvailable, Bool.not_eq_true, Option.isSome_eq_false_iff,
          Option.isNone_iff_eq_none] at hnone
        rw [effect, fillGaps, hnone]
  | blanking =>
      split
      · rfl
      · rename_i hnone
        have hempty : blankedColumns forest = [] := by
          rw [List.eq_nil_iff_forall_not_mem]
          intro c hc
          obtain ⟨x, hx, hblanked, -⟩ := mem_blankedColumns.mp hc
          exact hnone (List.any_eq_true.mpr ⟨x, hx, hblanked⟩)
        simp [effect, blank, hempty]

theorem runOf_eq (passes : List RowPass) (forest : Forest) (context : RowContext)
    (rows : List Row) :
    runOf passes forest context rows =
      passes.foldl (fun rows pass => pass.effect forest context rows) rows := by
  unfold runOf
  induction passes generalizing rows with
  | nil => rfl
  | cons pass rest ih =>
      rw [List.foldl_cons, ← apply_eq_effect, List.filter_cons]
      split
      · rw [List.foldl_cons, ih]
      · rw [ih]

theorem sorting_perm (forest : Forest) (context : RowContext) (rows : List Row) :
    (sorting.effect forest context rows).Perm rows := by
  show (if context.complexOrder then sort forest context.countColumn rows else rows).Perm rows
  split
  · exact sort_perm forest context.countColumn rows
  · exact .refl rows

theorem run_eq (forest : Forest) (context : RowContext) (rows : List Row) :
    run forest context rows =
      blank forest (fillGaps forest context.countColumn context.maxGapBuckets
        (splitConcurrent forest (settleUnmatched forest
          (if context.complexOrder then sort forest context.countColumn rows else rows)))) :=
  runOf_eq all forest context rows

end RowPass

/-- After all passes the rows tell what they told before. -/
theorem Rows.Question.answers_run {context : RowContext} {α : Type}
    (q : Question forest context.countColumn α) (h : forest.IsLaidOut) (hmarked : forest.IsMarked)
    (hapart : forest.ReadsApart context.countColumn) (rows : List Row) :
    (q.answers (RowPass.run forest context rows)).Perm (q.answers rows) := by
  rw [RowPass.run_eq, q.answers_blank hmarked hapart]
  refine (q.answers_fillGaps _ _).trans ?_
  rw [q.answers_splitConcurrent h hmarked hapart, q.answers_settleUnmatched h hmarked]
  split
  · exact q.answers_perm (sort_perm forest context.countColumn rows)
  · rfl

/-- After all passes no row matches two legs of one aggregation. -/
theorem matchesOne_of_mem_run {context : RowContext} (h : forest.IsLaidOut)
    (hmarked : forest.IsMarked) (hapart : forest.ReadsApart context.countColumn)
    {rows : List Row} : ∀ row ∈ RowPass.run forest context rows, forest.MatchesOne row := by
  intro row hrow
  apply matchesOne_of_matchesOneOf h hmarked
  intro a
  rw [RowPass.run_eq] at hrow
  exact matchesOneOf_blank hmarked hapart (matchesOneOf_fillGaps hmarked hapart _
    (matchesOneOf_splitConcurrent hmarked hapart _ a)) row hrow

/-- After all passes the cells of blanked metrics are empty. -/
theorem get?_of_mem_run {context : RowContext} {rows : List Row} {x : Node} (hx : x ∈ forest)
    (hblanked : isBlanked x = true) {c : String} (hcolumn : x.decisions.column = some c) :
    ∀ row ∈ RowPass.run forest context rows, row.get? c = none := by
  intro row hrow
  rw [RowPass.run_eq] at hrow
  obtain ⟨before, -, rfl⟩ := List.mem_map.mp hrow
  exact get?_blanked (mem_blankedColumns.mpr ⟨x, hx, hblanked, hcolumn⟩) before

end Rollup
