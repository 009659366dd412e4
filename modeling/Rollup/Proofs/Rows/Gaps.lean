/-
# The rows of empty intervals

Within each group of the levels above it, the histogram to fill in gets a row for every interval
that lies between two others of the group or its declared bounds. Such a row goes the way of the
first row of its group, as long as no node on the way reads the column of the histogram.
-/

import Mathlib.Data.List.Perm.Basic
import Rollup.Proofs.Response.Way
import Rollup.Proofs.Rows.Settled

namespace Rollup

namespace Rows

/-! ## Missing intervals -/

/-- Only intervals that are not there are filled in. -/
theorem of_mem_missingFrom {present : List Int} {steps limit : Nat} {index k : Int}
    (h : k ∈ missingFrom present steps limit index) :
    index ≤ k ∧ k < index + steps ∧ k ∉ present := by
  induction steps generalizing limit index with
  | zero => simp [missingFrom] at h
  | succ steps ih =>
      unfold missingFrom at h
      split at h
      · obtain ⟨hlow, hhigh, hnot⟩ := ih h
        exact ⟨by omega, by omega, hnot⟩
      · rename_i hmissing
        cases limit with
        | zero => cases h
        | succ limit =>
            rcases List.mem_cons.mp h with rfl | hlater
            · exact ⟨Int.le_refl k, by omega, by simpa using hmissing⟩
            · obtain ⟨hlow, hhigh, hnot⟩ := ih hlater
              exact ⟨by omega, by omega, hnot⟩

/-- All of them are filled in before the limit is reached. -/
theorem mem_missingFrom {present : List Int} {steps limit : Nat} {index k : Int}
    (hlimit : (missingFrom present steps limit index).length < limit) (hlow : index ≤ k)
    (hhigh : k < index + steps) (hnot : k ∉ present) :
    k ∈ missingFrom present steps limit index := by
  induction steps generalizing limit index with
  | zero => omega
  | succ steps ih =>
      unfold missingFrom at hlimit ⊢
      split at hlimit
      · rename_i hpresent
        rw [if_pos hpresent]
        have hne : index ≠ k := by
          rintro rfl
          exact hnot (by simpa using hpresent)
        exact ih hlimit (by omega) (by omega)
      · rename_i hmissing
        rw [if_neg hmissing]
        cases limit with
        | zero => simp at hlimit
        | succ limit =>
            by_cases hk : k = index
            · exact hk ▸ List.mem_cons_self
            · refine List.mem_cons_of_mem _ (ih ?_ (by omega) (by omega))
              simpa using hlimit

namespace GapTarget

/-- Whether an interval lies between two that a group has or that are declared. -/
def Spans (target : GapTarget) (group : List Row) (k : Int) : Prop :=
  (∃ low ∈ presentIndices target group ++ (target.bounds.map Prod.fst).toList, low ≤ k) ∧
    ∃ high ∈ presentIndices target group ++ (target.bounds.map Prod.snd).toList, k ≤ high

instance (target : GapTarget) (group : List Row) (k : Int) : Decidable (target.Spans group k) :=
  inferInstanceAs (Decidable (_ ∧ _))

/-- What lies between two intervals that a group spans is spanned. -/
theorem Spans.between {target : GapTarget} {group : List Row} {i k j : Int}
    (hi : target.Spans group i) (hj : target.Spans group j) (hik : i ≤ k) (hkj : k ≤ j) :
    target.Spans group k := by
  obtain ⟨⟨low, hlow, hle⟩, -⟩ := hi
  obtain ⟨-, high, hhigh, hge⟩ := hj
  exact ⟨⟨low, hlow, Int.le_trans hle hik⟩, high, hhigh, Int.le_trans hkj hge⟩

end GapTarget

theorem mem_presentIndices {target : GapTarget} {group : List Row} {k : Int} :
    k ∈ presentIndices target group ↔
      ∃ row ∈ group, ∃ raw, row.number? target.column = some raw ∧ target.grid.indexOf raw = k := by
  simp [presentIndices, List.mem_eraseDups]

/-- What is present is spanned. -/
theorem spans_of_mem_presentIndices {target : GapTarget} {group : List Row} {k : Int}
    (h : k ∈ presentIndices target group) : target.Spans group k :=
  ⟨⟨k, List.mem_append_left _ h, Int.le_refl k⟩, k, List.mem_append_left _ h, Int.le_refl k⟩

theorem spans_of_mem_missingIndices {target : GapTarget} {limit : Nat} {group : List Row}
    {k : Int} (h : k ∈ missingIndices target limit group) :
    target.Spans group k ∧ k ∉ presentIndices target group := by
  unfold missingIndices at h
  dsimp only at h
  split at h
  · rename_i low high hlow hhigh
    obtain ⟨hge, hlt, hnot⟩ := of_mem_missingFrom h
    exact ⟨⟨⟨low, List.min?_mem hlow, hge⟩, high, List.max?_mem hhigh, by omega⟩, hnot⟩
  · cases h

/-- What is spanned and not present is filled in, unless there is too much of it. -/
theorem mem_missingIndices {target : GapTarget} {limit : Nat} {group : List Row} {k : Int}
    (hlimit : (missingIndices target limit group).length < limit) (hspans : target.Spans group k)
    (hnot : k ∉ presentIndices target group) : k ∈ missingIndices target limit group := by
  obtain ⟨⟨first, hfirst, hle⟩, last, hlast, hge⟩ := hspans
  obtain ⟨low, hlow⟩ := Option.isSome_iff_exists.mp (List.isSome_min?_of_mem hfirst)
  obtain ⟨high, hhigh⟩ := Option.isSome_iff_exists.mp (List.isSome_max?_of_mem hlast)
  have hlowest := (List.min?_eq_some_iff.mp hlow).2 first hfirst
  have hhighest := (List.max?_eq_some_iff.mp hhigh).2 last hlast
  unfold missingIndices at hlimit ⊢
  dsimp only at hlimit ⊢
  rw [hlow, hhigh] at hlimit ⊢
  exact mem_missingFrom hlimit (by omega) (by omega) hnot

/-- A group is filled in by rows after its own, each made after one of them. -/
theorem exists_gaps_fillGroup (target : GapTarget) (outer : List String) (countColumn : String)
    (limit : Nat) (group : List Row) :
    ∃ gaps, fillGroup target outer countColumn limit group = group ++ gaps ∧
      ∀ gap ∈ gaps, ∃ template ∈ group, ∃ index,
        gap = gapRow target outer countColumn template index := by
  cases group with
  | nil => exact ⟨[], rfl, by simp⟩
  | cons template rest =>
      refine ⟨_, rfl, ?_⟩
      intro gap hgap
      obtain ⟨index, -, rfl⟩ := List.mem_map.mp hgap
      exact ⟨template, List.mem_cons_self, index, rfl⟩

/-- Filling in puts rows of empty intervals, each made after another row, beside the rows. -/
theorem exists_gaps_perm (forest : Forest) (countColumn : String) (limit : Nat) (rows : List Row) :
    ∃ gaps, (fillGaps forest countColumn limit rows).Perm (rows ++ gaps) ∧
      ∀ gap ∈ gaps, ∃ target, gapTarget? forest = some target ∧ ∃ template ∈ rows, ∃ index, gap =
        gapRow target (forest.groupColumnsBefore target.index) countColumn template index := by
  unfold fillGaps
  cases htarget : gapTarget? forest with
  | none => exact ⟨[], by simp, by simp⟩
  | some target =>
      dsimp only
      choose gapsOf hfill hgaps using
        exists_gaps_fillGroup target (forest.groupColumnsBefore target.index) countColumn limit
      refine ⟨(groups (forest.groupColumnsBefore target.index) rows).flatMap
        fun entry => gapsOf entry.2, ?_, ?_⟩
      · simp only [hfill]
        exact (List.flatMap_append_perm _ _ _).symm.trans
          ((flatMap_groups_perm (forest.groupColumnsBefore target.index) rows).append_right _)
      · intro gap hgap
        obtain ⟨entry, hentry, hmem⟩ := List.mem_flatMap.mp hgap
        obtain ⟨template, htemplate, index, rfl⟩ := hgaps entry.2 gap hmem
        exact ⟨target, rfl, template, mem_of_mem_groups hentry template htemplate, index, rfl⟩

/-! ## Rows before the intervals are filled in -/

/-- The rows when all passes are done that come before the empty intervals are filled in. -/
def unfilled (forest : Forest) (context : RowContext) (rows : List Row) : List Row :=
  splitConcurrent forest (settleUnmatched forest
    (if context.complexOrder then sort forest context.countColumn rows else rows))

theorem run_eq_unfilled (forest : Forest) (context : RowContext) (rows : List Row) :
    RowPass.run forest context rows =
      blank forest (fillGaps forest context.countColumn context.maxGapBuckets
        (unfilled forest context rows)) := RowPass.run_eq forest context rows

variable {forest : Forest} {countColumn : String}

theorem mem_of_mem_dropUnread {unit : FilterUnit} {outer : List String} {rows : List Row}
    {row : Row} (h : row ∈ (dropUnread unit outer rows).1) : row ∈ rows := by
  induction rows with
  | nil => simp [dropUnread] at h
  | cons first rest ih =>
      rw [dropUnread] at h
      generalize dropUnread unit outer rest = result at h ih
      obtain ⟨kept, matched⟩ := result
      dsimp only at h ih
      have hcons (hmem : row ∈ first :: kept) : row ∈ first :: rest := by
        rcases List.mem_cons.mp hmem with rfl | hkept
        · exact List.mem_cons_self
        · exact List.mem_cons_of_mem _ (ih hkept)
      split at h
      · exact hcons h
      · split at h
        · exact hcons h
        · split at h
          · exact hcons h
          · exact List.mem_cons_of_mem _ (ih h)

/-- Rows that are replaced come from rows with the same cells. -/
theorem exists_of_mem_settleUnmatched {rows : List Row} {row : Row}
    (h : row ∈ settleUnmatched forest rows) : ∃ before ∈ rows, row.cells = before.cells := by
  unfold settleUnmatched at h
  generalize filterUnits forest = units at h
  induction units generalizing rows with
  | nil => exact ⟨row, h, rfl⟩
  | cons unit rest ih =>
      obtain ⟨middle, hmiddle, hcells⟩ := ih h
      unfold settleUnit at hmiddle
      obtain ⟨before, hbefore, rfl⟩ := List.mem_map.mp hmiddle
      refine ⟨before, ?_, ?_⟩
      · split at hbefore
        · exact hbefore
        · exact mem_of_mem_dropUnread hbefore
      · rw [hcells]
        split <;> rfl

/-- A split leaves all cells but those of legs as they are. -/
theorem exists_of_mem_splitConcurrent {c : String}
    (hc : ∀ a, c ∉ legColumns forest (forest.runOf a)) {rows : List Row} {row : Row}
    (h : row ∈ splitConcurrent forest rows) : ∃ before ∈ rows, row.get? c = before.get? c := by
  unfold splitConcurrent at h
  have hruns : ∀ run ∈ forest.concurrentRuns, ∃ a, run = forest.runOf a := by
    intro run hrun
    obtain ⟨i, -, heq⟩ := Forest.mem_concurrentRuns.mp hrun
    exact ⟨_, heq⟩
  generalize forest.concurrentRuns = runs at h hruns
  induction runs generalizing rows with
  | nil => exact ⟨row, h, rfl⟩
  | cons run rest ih =>
      obtain ⟨middle, hmiddle, hget⟩ := ih h fun other hother => hruns other (by simp [hother])
      obtain ⟨a, rfl⟩ := hruns run (by simp)
      unfold splitRun at hmiddle
      split at hmiddle
      · exact ⟨middle, hmiddle, hget⟩
      · dsimp only at hmiddle
        split at hmiddle
        · exact ⟨middle, hmiddle, hget⟩
        · obtain ⟨before, hbefore, hsplit⟩ := List.mem_flatMap.mp hmiddle
          refine ⟨before, hbefore, hget.trans ?_⟩
          unfold splitRow at hsplit
          split at hsplit
          · rcases List.mem_cons.mp hsplit with rfl | hothers
            · exact get?_matchingOnly (hc a) _ before
            · obtain ⟨leg, -, rfl⟩ := List.mem_map.mp hothers
              exact get?_matchingOnly (hc a) leg before
          · rw [List.mem_singleton.mp hsplit]

/-- Before the empty intervals are filled in, the column of the histogram is as it came back. -/
theorem exists_of_mem_unfilled {context : RowContext} (hmarked : forest.IsMarked)
    (hapart : forest.ReadsApart context.countColumn) {target : GapTarget}
    (htarget : gapTarget? forest = some target) {rows : List Row} {row : Row}
    (h : row ∈ unfilled forest context rows) :
    ∃ before ∈ rows, row.get? target.column = before.get? target.column := by
  obtain ⟨middle, hmiddle, hget⟩ := exists_of_mem_splitConcurrent (c := target.column)
    (fun a hmem => (ne_of_mem_legColumns hmarked hapart htarget hmem).1 rfl) h
  obtain ⟨before, hbefore, hcells⟩ := exists_of_mem_settleUnmatched hmiddle
  refine ⟨before, ?_, ?_⟩
  · split at hbefore
    · exact (sort_perm forest context.countColumn rows).mem_iff.mp hbefore
    · exact hbefore
  · rw [hget, Row.get?, Row.get?, hcells]

/-- The rows after all passes: those of a group, and those of its missing intervals. -/
theorem mem_run_iff {context : RowContext} {target : GapTarget}
    (htarget : gapTarget? forest = some target) {rows : List Row} {row : Row} :
    row ∈ RowPass.run forest context rows ↔
      ∃ group ∈ groups (forest.groupColumnsBefore target.index) (unfilled forest context rows),
      ∃ template rest, group.2 = template :: rest ∧ ∃ filled,
        (filled ∈ group.2 ∨ ∃ k ∈ missingIndices target context.maxGapBuckets group.2,
          filled = gapRow target (forest.groupColumnsBefore target.index) context.countColumn
            template k) ∧
        row = (blankedColumns forest).foldl (fun row column => row.set column .null) filled := by
  rw [run_eq_unfilled, blank, List.mem_map, fillGaps, htarget]
  dsimp only
  constructor
  · rintro ⟨filled, hfilled, rfl⟩
    obtain ⟨group, hgroup, hmem⟩ := List.mem_flatMap.mp hfilled
    unfold fillGroup at hmem
    split at hmem
    · cases hmem
    · rename_i template rest heq
      refine ⟨group, hgroup, template, rest, heq, filled, ?_, rfl⟩
      rcases List.mem_append.mp hmem with hpresent | hmissing
      · exact Or.inl hpresent
      · obtain ⟨k, hk, rfl⟩ := List.mem_map.mp hmissing
        exact Or.inr ⟨k, hk, rfl⟩
  · rintro ⟨group, hgroup, template, rest, heq, filled, hfilled, rfl⟩
    refine ⟨filled, List.mem_flatMap.mpr ⟨group, hgroup, ?_⟩, rfl⟩
    unfold fillGroup
    rw [heq] at hfilled ⊢
    dsimp only
    rcases hfilled with hpresent | ⟨k, hk, rfl⟩
    · exact List.mem_append_left _ hpresent
    · exact List.mem_append_right _ (List.mem_map_of_mem hk)

end Rows

/-! ## The way of a filled in row -/

namespace Forest

variable {forest : Forest}

/-- The nodes on the way to a node come before it. -/
theorem IsLaidOut.lt_of_onWay (h : forest.IsLaidOut) {path : Path} {i j : Nat} {x y : Node}
    (hj : forest[j]? = some y) (hpath : forest.parentAt? none path = some y.parent)
    (hx : forest.OnWay path i x) : i < j := by
  obtain ⟨hi, hshown, base, step, rest, rfl, hbase, hname, -⟩ := hx
  have hquery := Node.isQuery_of_isShown hshown
  induction rest using List.reverseRecOn generalizing j y with
  | nil =>
      have hparent : y.parent = some (forest.anchor i) := by
        rw [parentAt?_concat, hbase, Option.bind_some, hname, h.first?_eq hi hquery] at hpath
        exact (Option.some.inj hpath).symm
      obtain ⟨-, -, -, -, -, hbefore⟩ := h.parent_spec hj hparent
      exact hbefore i x hi hquery rfl
  | append_singleton front last ih =>
      have hsplit : base ++ step :: (front ++ [last]) = (base ++ step :: front) ++ [last] := by simp
      rw [hsplit, parentAt?_concat] at hpath
      obtain ⟨parent, hparent, hmap⟩ := Option.bind_eq_some_iff.mp hpath
      obtain ⟨a, ha, hsame⟩ := Option.map_eq_some_iff.mp hmap
      obtain ⟨z, hz, -, rfl, -⟩ := first?_spec ha
      obtain ⟨-, -, -, -, hlt, -⟩ := h.parent_spec hj hsame.symm
      exact Nat.lt_trans (ih hz hparent) hlt

/-- The statement groups by what is read on the way. -/
theorem IsMarked.groupColumn?_of_onWay (hmarked : forest.IsMarked) {path : Path} {i : Nat}
    {x : Node} (hx : forest.OnWay path i x) {c : String} (hread : x.readColumn? = some c) :
    x.groupColumn? = some c := by
  have hactive := hmarked.isActive_of_onWay hx
  have hcolumn := hmarked.column x (List.mem_of_getElem? hx.1)
  obtain ⟨-, -, base, step, rest, -, -, -, row, id, hhits⟩ := hx
  have hnamed (hneeds : x.aggregation.needsColumn = true)
      (hexpression : x.aggregation.expression? ≠ none)
      (hread : some (x.decisions.column.getD "") = some c) : x.decisions.column = some c := by
    obtain ⟨name, hname⟩ := Option.ne_none_iff_exists'.mp (hcolumn hneeds hexpression)
    rw [hname] at hread ⊢
    exact hread
  unfold Node.readColumn? at hread
  unfold Node.groupColumn? Node.outputColumn?
  rw [hactive]
  cases haggregation : x.aggregation with
  | terms t => simpa [haggregation] using hread
  | histogram g =>
      rw [haggregation] at hread hnamed
      simpa using hnamed rfl (by simp [Aggregation.expression?]) hread
  | dateHistogram g =>
      rw [haggregation] at hread hnamed
      simpa using hnamed rfl (by simp [Aggregation.expression?]) hread
  | ranges r =>
      rw [haggregation] at hread hnamed
      simpa using hnamed rfl (by simp [Aggregation.expression?]) hread
  | leg l =>
      rw [haggregation] at hread
      cases hdirect : x.decisions.direct <;> simp_all
  | metric m => simp [Node.hits, haggregation] at hhits
  | query q => simp [haggregation] at hread

theorem mem_groupColumnsBefore {i count : Nat} {x : Node} (hx : forest[i]? = some x)
    (hi : i < count) {c : String} (hc : x.groupColumn? = some c) :
    c ∈ forest.groupColumnsBefore count := by
  rw [groupColumnsBefore, List.mem_eraseDups, List.mem_filterMap]
  exact ⟨x, List.mem_of_getElem? (by rw [List.getElem?_take_of_lt hi, hx]), hc⟩

variable {countColumn : String}

/-- The row of an empty interval goes the way of the first row of its group. -/
theorem IsLaidOut.follow?_gapRow (h : forest.IsLaidOut) (hmarked : forest.IsMarked)
    (hapart : forest.ReadsApart countColumn) {target : Rows.GapTarget}
    (halone : ∀ i x, i < target.index → forest[i]? = some x → x.isShown = true →
      x.readColumn? ≠ some target.column) {path : Path} {y : Node}
    (hy : forest[target.index]? = some y) (hpath : forest.parentAt? none path = some y.parent)
    (root : Level) (template : Row) (k : Int) :
    forest.follow? (Rows.gapRow target (forest.groupColumnsBefore target.index) countColumn
      template k) none root path = forest.follow? template none root path := by
  apply follow?_congr
  intro i x hx
  apply Node.seesAlike_of_get?
  intro c hread
  have hlt := h.lt_of_onWay hy hpath hx
  have hmem := mem_groupColumnsBefore hx.1 hlt (hmarked.groupColumn?_of_onWay hx hread)
  rw [Rows.get?_gapRow, if_pos (by simpa using hmem)]
  · rintro rfl
    exact halone i x hlt hx.1 hx.2.1 hread
  · rintro rfl
    exact hapart.count x (List.mem_of_getElem? hx.1) hx.2.1 hread

/-- Rows of a group with the same cells go the same way. -/
theorem IsLaidOut.follow?_of_group (h : forest.IsLaidOut) (hmarked : forest.IsMarked)
    {path : Path} {j : Nat} {y : Node} (hy : forest[j]? = some y)
    (hpath : forest.parentAt? none path = some y.parent) (root : Level) {row row' : Row}
    (hget : ∀ c ∈ forest.groupColumnsBefore j, row.get? c = row'.get? c) :
    forest.follow? row none root path = forest.follow? row' none root path := by
  apply follow?_congr
  intro i x hx
  apply Node.seesAlike_of_get?
  intro c hread
  exact hget c (mem_groupColumnsBefore hx.1 (h.lt_of_onWay hy hpath hx)
    (hmarked.groupColumn?_of_onWay hx hread))

/-- Emptying the cells of blanked metrics changes nothing on the way. -/
theorem IsMarked.follow?_blanked (hmarked : forest.IsMarked)
    (hapart : forest.ReadsApart countColumn) (root : Level) (path : Path) (row : Row) :
    forest.follow? ((Rows.blankedColumns forest).foldl (fun row column => row.set column .null) row)
      none root path = forest.follow? row none root path := by
  apply follow?_congr
  intro i x hx
  apply Node.seesAlike_of_get?
  intro c hread
  exact Rows.get?_blank (Rows.not_mem_blankedColumns hapart (List.mem_of_getElem? hx.1)
    (hmarked.isActive_of_onWay hx) hread) row

end Forest
end Rollup
