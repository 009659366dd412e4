/-
# What a histogram is filled up with

The histogram to fill in gets its rows group by group. The walk over the indices finds those that
are missing in ascending order, up to the limit; it looks at no more indices than there are rows
and rows to make, and one more, however far apart the declared bounds are.
-/

import Mathlib.Data.List.Perm.Subperm
import Rollup.Engine.Search
import Rollup.Proofs.Plan.Naming
import Rollup.Proofs.Rows.Reordered

namespace Rollup

namespace Rows

/-! ## The walk over the indices -/

/-- Some successive indices, in ascending order. -/
def indicesFrom (index : Int) (steps : Nat) : List Int :=
  (List.range steps).map fun step : Nat => index + step

theorem indicesFrom_succ (index : Int) (steps : Nat) :
    indicesFrom index (steps + 1) = index :: indicesFrom (index + 1) steps := by
  unfold indicesFrom
  rw [List.range_succ_eq_map, List.map_cons, List.map_map, Int.natCast_zero, Int.add_zero]
  refine congrArg (index :: ·) (List.map_congr_left fun step _ => ?_)
  rw [Function.comp_apply, Nat.cast_succ]
  omega

theorem mem_indicesFrom {index k : Int} {steps : Nat} :
    k ∈ indicesFrom index steps ↔ index ≤ k ∧ k < index + steps := by
  simp only [indicesFrom, List.mem_map, List.mem_range]
  constructor
  · rintro ⟨step, hstep, rfl⟩
    omega
  · rintro ⟨hlow, hhigh⟩
    exact ⟨(k - index).toNat, by omega, by omega⟩

theorem pairwise_indicesFrom (index : Int) (steps : Nat) :
    (indicesFrom index steps).Pairwise (· < ·) := by
  unfold indicesFrom
  rw [List.pairwise_map]
  exact List.pairwise_lt_range.imp fun h => by omega

/-- One step of the walk. -/
theorem missingFrom_succ (present : List Int) (steps limit : Nat) (index : Int) :
    missingFrom present (steps + 1) limit index =
      if present.contains index then missingFrom present steps limit (index + 1)
      else
        match limit with
        | 0 => []
        | limit + 1 => index :: missingFrom present steps limit (index + 1) :=
  rfl

/-- The walk finds the first indices that are not present. -/
theorem missingFrom_eq_take (present : List Int) (steps limit : Nat) (index : Int) :
    missingFrom present steps limit index =
      ((indicesFrom index steps).filter fun k => !present.contains k).take limit := by
  induction steps generalizing limit index with
  | zero => simp [missingFrom, indicesFrom]
  | succ steps ih =>
      rw [missingFrom_succ, indicesFrom_succ, List.filter_cons]
      by_cases hpresent : present.contains index = true
      · rw [if_pos hpresent, hpresent, if_neg (by simp), ih]
      · rw [if_neg hpresent, Bool.eq_false_iff.mpr hpresent, if_pos (by simp)]
        cases limit with
        | zero => rfl
        | succ limit => rw [List.take_succ_cons, ← ih]

/-- The indices from one on are those behind it and itself. -/
theorem countP_index_le (present : List Int) (index : Int) :
    present.countP (index ≤ ·) = present.countP (index + 1 ≤ ·) + present.count index := by
  induction present with
  | nil => rfl
  | cons k rest ih =>
      rw [List.countP_cons, List.countP_cons, List.count_cons, ih]
      rcases lt_trichotomy k index with hless | rfl | hmore
      · rw [if_neg (by simpa), if_neg (by simp; omega), if_neg (by simp; omega)]
        omega
      · simp
        omega
      · rw [if_pos (by simp; omega), if_pos (by simp; omega), if_neg (by simp; omega)]
        omega

/-- The walk passes over every present index once and stops behind the limit, however far there is
to go. -/
theorem missingFrom_eq_of_le {present : List Int} {steps more limit : Nat} {index : Int}
    (hsteps : present.countP (index ≤ ·) + limit < steps) (hmore : steps ≤ more) :
    missingFrom present more limit index = missingFrom present steps limit index := by
  induction steps generalizing more limit index with
  | zero => omega
  | succ steps ih =>
      obtain ⟨more, rfl⟩ : ∃ n, more = n + 1 := ⟨more - 1, by omega⟩
      have hcount := countP_index_le present index
      rw [missingFrom_succ, missingFrom_succ]
      split
      · rename_i hpresent
        have hpos := List.count_pos_iff.mpr (List.contains_iff_mem.mp hpresent)
        exact ih (by omega) (by omega)
      · cases limit with
        | zero => rfl
        | succ limit => exact congrArg (index :: ·) (ih (by omega) (by omega))

namespace GapTarget

variable {target : GapTarget} {outer : List String} {countColumn : String} {limit : Nat}
  {group : List Row}

/-! ## What a group is filled up with -/

/-- Whether a row of a group stands at an index. -/
def IsTaken (target : GapTarget) (group : List Row) (k : Int) : Prop :=
  ∃ row ∈ group, ∃ raw, row.number? target.column = some raw ∧ target.grid.indexOf raw = k

/-- Whether an index is missing: no row stands there, and it lies between the lowest and the highest
index that a row has or that is declared. -/
def IsMissing (target : GapTarget) (group : List Row) (k : Int) : Prop :=
  ¬target.IsTaken group k ∧
    (∃ low ≤ k, target.IsTaken group low ∨ ∃ bounds ∈ target.bounds, bounds.1 = low) ∧
    ∃ high ≥ k, target.IsTaken group high ∨ ∃ bounds ∈ target.bounds, bounds.2 = high

/-- A row without documents for an index, made after the first row of a group. -/
structure IsGap (target : GapTarget) (outer : List String) (countColumn : String) (first : Row)
    (k : Int) (row : Row) : Prop where
  synthetic : row.origin = .gapFill ∧ row.countScopes = [] ∧ row.mutedScopes = []
  count : row.cells.get? countColumn = some (.ofInt 0) ∧ row.count countColumn = 0
  value : row.cells.get? target.column = some (target.grid.valueAt k)
  others : ∀ c, c ≠ target.column → c ≠ countColumn →
    row.cells.get? c = (first.cells.get? c).map fun value => if c ∈ outer then value else .null

/-- Whether some rows are those of the missing indices of a group, in ascending order and up to a
limit. -/
def Fills (target : GapTarget) (outer : List String) (countColumn : String) (limit : Nat)
    (group gaps : List Row) : Prop :=
  ∃ missing : List Int, missing.Pairwise (· < ·) ∧ (∀ k, k ∈ missing ↔ target.IsMissing group k) ∧
    ∃ first, group.head? = some first ∧
      List.Forall₂ (target.IsGap outer countColumn first) (missing.take limit) gaps

theorem isGap_gapRow (hcolumn : target.column ≠ countColumn) (first : Row) (k : Int) :
    target.IsGap outer countColumn first k (gapRow target outer countColumn first k) where
  synthetic := ⟨rfl, rfl, rfl⟩
  count := ⟨Fields.get?_insert_self _ _ _, count_gapRow⟩
  value := (Fields.get?_insert_of_ne _ hcolumn _).trans (Fields.get?_insert_self _ _ _)
  others c htarget hcount := by
    have hkept : Fields.get? (first.cells.map fun cell =>
          (cell.1, if outer.contains cell.1 then cell.2 else .null)) c =
        (first.cells.get? c).map fun value => if c ∈ outer then value else .null := by
      simpa only [List.contains_iff_mem] using get?_map_cells first.cells outer.contains c
    exact (Fields.get?_insert_of_ne _ hcount _).trans
      ((Fields.get?_insert_of_ne _ htarget _).trans hkept)

/-- The missing indices are those that a group spans and that are not present. -/
theorem isMissing_iff {k : Int} :
    target.IsMissing group k ↔ k ∉ presentIndices target group ∧ target.Spans group k := by
  have htaken (i : Int) : target.IsTaken group i ↔ i ∈ presentIndices target group :=
    mem_presentIndices.symm
  have hdeclared (bound : Int × Int → Int) (i : Int) :
      (∃ bounds ∈ target.bounds, bound bounds = i) ↔ i ∈ (target.bounds.map bound).toList := by
    rw [Option.mem_toList, Option.map_eq_some_iff]
    rfl
  simp only [IsMissing, Spans, htaken, hdeclared Prod.fst, hdeclared Prod.snd, List.mem_append,
    ge_iff_le, and_comm (a := _ ≤ _)]

/-- The walk finds the first missing indices, however many there are. -/
theorem exists_missing (target : GapTarget) (group : List Row) : ∃ missing : List Int,
    missing.Pairwise (· < ·) ∧
      (∀ k, k ∈ missing ↔ k ∉ presentIndices target group ∧ target.Spans group k) ∧
      ∀ limit, missingIndices target limit group = missing.take limit := by
  unfold missingIndices Spans
  dsimp only
  generalize presentIndices target group = present
  cases hlow : (present ++ (target.bounds.map Prod.fst).toList).min? with
  | none =>
      rw [List.min?_eq_none_iff] at hlow
      exact ⟨[], List.Pairwise.nil, by simp [hlow], by simp⟩
  | some low =>
      cases hhigh : (present ++ (target.bounds.map Prod.snd).toList).max? with
      | none =>
          rw [List.max?_eq_none_iff] at hhigh
          exact ⟨[], List.Pairwise.nil, by simp [hhigh], by simp⟩
      | some high =>
          refine ⟨(indicesFrom low (high + 1 - low).toNat).filter fun k => !present.contains k,
            (pairwise_indicesFrom _ _).filter _, fun k => ?_,
            fun limit => missingFrom_eq_take _ _ _ _⟩
          obtain ⟨hlowMem, hlowest⟩ := List.min?_eq_some_iff.mp hlow
          obtain ⟨hhighMem, hhighest⟩ := List.max?_eq_some_iff.mp hhigh
          have hends : (low ≤ k ∧ k < low + (high + 1 - low).toNat) ↔
              (∃ i ∈ present ++ (target.bounds.map Prod.fst).toList, i ≤ k) ∧
                ∃ j ∈ present ++ (target.bounds.map Prod.snd).toList, k ≤ j := by
            constructor
            · intro h
              exact ⟨⟨low, hlowMem, h.1⟩, high, hhighMem, by omega⟩
            · rintro ⟨⟨i, hi, hle⟩, j, hj, hle'⟩
              have := hlowest i hi
              have := hhighest j hj
              omega
          rw [List.mem_filter, mem_indicesFrom, hends, and_comm]
          simp

/-- A group is filled up with its missing indices. -/
theorem exists_fills (hcolumn : target.column ≠ countColumn) (outer : List String) (limit : Nat)
    (hgroup : group ≠ []) : ∃ gaps,
    fillGroup target outer countColumn limit group = group ++ gaps ∧
      target.Fills outer countColumn limit group gaps := by
  cases group with
  | nil => exact absurd rfl hgroup
  | cons first rest =>
      obtain ⟨missing, hpairwise, hmem, htake⟩ := exists_missing target (first :: rest)
      refine ⟨_, rfl, missing, hpairwise, fun k => ?_, first, rfl, ?_⟩
      · rw [hmem, isMissing_iff]
      · rw [htake, List.forall₂_map_right_iff]
        exact List.forall₂_same.mpr fun k _ => isGap_gapRow hcolumn first k

/-- The walk over the indices of a group looks at no more of them than there are rows and rows to
make, and one more. -/
theorem missingBetween_presentIndices (target : GapTarget) (group : List Row) (low high : Int)
    (limit : Nat) :
    missingBetween (presentIndices target group) low high limit =
      missingFrom (presentIndices target group)
        (min (high + 1 - low).toNat (group.length + limit + 1)) limit low := by
  have hpresent : (presentIndices target group).length ≤ group.length :=
    (List.Nodup.subperm (nodup_eraseDups _) fun _ h => List.mem_eraseDups.mp h).length_le.trans
      (List.length_filterMap_le _ _)
  have hcount := List.countP_le_length (l := presentIndices target group) (p := (low ≤ ·))
  unfold missingBetween
  rcases Nat.le_total (high + 1 - low).toNat (group.length + limit + 1) with hless | hmore
  · rw [Nat.min_eq_left hless]
  · rw [Nat.min_eq_right hmore]
    exact missingFrom_eq_of_le (by omega) hmore

end GapTarget

end Rows

/-! ## The rows of a table -/

namespace TablePlan

open Rows

variable {now : Calendar.Instant} {json : Json} {forest : Forest} {tables : List Table}
  {settings : Settings} {plan : TablePlan} {target : GapTarget}

/-- Nothing has a column where the table is left out. -/
theorem isUnnamed_of_isSkipped (hforest : forest.IsUnnamed)
    (hplan : plan ∈ forTables forest tables settings) (hskipped : plan.isSkipped = true) :
    plan.forest.IsUnnamed := by
  obtain ⟨table, -, rfl⟩ := List.mem_map.mp hplan
  unfold ofForest at hskipped ⊢
  dsimp only at hskipped ⊢
  generalize PlanContext.new _ _ _ _ = context at hskipped ⊢
  simp only [PlanPass.run, PlanPass.all, PlanPass.runEach, PlanPass.isAvailable, PlanPass.apply,
    if_true] at hskipped ⊢
  split at hskipped
  · cases hskipped
  · rename_i draft reason hrun
    split at hrun
    · -- only the check of the attributes leaves a table out
      cases houtcome : (Plan.checkAttributes context.table forest).2 with
      | goOn =>
          rw [houtcome] at hrun
          cases hrun
      | skip =>
          rw [houtcome] at hrun
          cases hrun
          exact Plan.isUnnamed_checkAttributes hforest
    · cases hrun

/-- The column of the histogram to fill in is not that of the count. -/
theorem ne_countColumn_of_gapTarget (hforest : Forest.ofJson now json = .ok forest)
    (hplan : plan ∈ forTables forest tables settings)
    (htarget : gapTarget? plan.forest = some target) : target.column ≠ plan.countColumn := by
  obtain ⟨node, hnode, hactive, hempty, -, hcolumn, -⟩ := gapTarget_spec htarget
  have hmem := List.mem_of_getElem? hnode
  have hunnamed := isUnnamed_of_ofJson hforest
  cases hskipped : plan.isSkipped with
  | true =>
      rw [isUnnamed_of_isSkipped hunnamed hplan hskipped node hmem] at hcolumn
      cases hcolumn
  | false =>
      obtain ⟨record, -, hfree, hrecorded⟩ :=
        exists_record_of_mem_forTables hunnamed hplan hskipped
      have hneeds : node.aggregation.needsColumn = true := by
        cases haggregation : node.aggregation <;>
          simp_all [Aggregation.showsEmpty, Aggregation.needsColumn]
      obtain ⟨e, column, -, hsame, hentry⟩ := hrecorded node hmem hactive hneeds
      obtain rfl := Option.some.inj (hcolumn.symm.trans hsame)
      exact (hfree _ hentry).uncounted

/-- Filling in is exact. The rows come group by group, in the order in which the groups first appear
and with the rows of each as they are; behind them come the rows of its missing intervals, in
ascending order and up to the limit. The walk over the intervals ends soon, however far apart the
declared bounds are. -/
theorem apply_gapFill (hforest : Forest.ofJson now json = .ok forest)
    (hplan : plan ∈ forTables forest tables settings)
    (htarget : gapTarget? plan.forest = some target) (rows : List Row) :
    let outer := plan.forest.groupColumnsBefore target.index
    let keys := rows.map fun row => row.groupKey outer
    let group := fun key => rows.filter fun row => row.groupKey outer = key
    ∃ gaps : String → List Row,
      RowPass.gapFill.apply plan.forest (plan.rowContext settings) rows =
          keys.eraseDups.flatMap (fun key => group key ++ gaps key) ∧
        ∀ key ∈ keys,
          target.Fills outer plan.countColumn settings.maxGapBuckets (group key) (gaps key) ∧
            ∀ low high,
              missingBetween (presentIndices target (group key)) low high settings.maxGapBuckets =
                missingFrom (presentIndices target (group key))
                  (min (high + 1 - low).toNat ((group key).length + settings.maxGapBuckets + 1))
                  settings.maxGapBuckets low := by
  intro outer keys group
  have hcolumn := ne_countColumn_of_gapTarget hforest hplan htarget
  have hgroup : ∀ key, key ∈ keys → group key ≠ [] := by
    intro key hkey
    obtain ⟨row, hrow, rfl⟩ := List.mem_map.mp hkey
    exact List.ne_nil_of_mem (List.mem_filter.mpr ⟨hrow, by simp⟩)
  have hexists : ∀ key, ∃ gaps, key ∈ keys →
      fillGroup target outer plan.countColumn settings.maxGapBuckets (group key) =
          group key ++ gaps ∧
        target.Fills outer plan.countColumn settings.maxGapBuckets (group key) gaps := by
    intro key
    by_cases hkey : key ∈ keys
    · obtain ⟨gaps, hgaps⟩ := GapTarget.exists_fills hcolumn outer settings.maxGapBuckets
        (hgroup key hkey)
      exact ⟨gaps, fun _ => hgaps⟩
    · exact ⟨[], fun h => absurd h hkey⟩
  choose gaps hgaps using hexists
  refine ⟨gaps, ?_, fun key hkey => ⟨(hgaps key hkey).2,
    fun low high => GapTarget.missingBetween_presentIndices target _ low high _⟩⟩
  have hfilled : RowPass.gapFill.apply plan.forest (plan.rowContext settings) rows =
      (groups outer rows).flatMap fun entry =>
        fillGroup target outer plan.countColumn settings.maxGapBuckets entry.2 := by
    rw [RowPass.apply, fillGaps, htarget]
    rfl
  rw [hfilled, groups_eq, List.flatMap_map]
  refine List.flatMap_congr fun key hkey => ?_
  exact (hgaps key (List.mem_eraseDups.mp hkey)).1

end TablePlan

/-! ## A histogram with wide bounds -/

/-- A request for a histogram, and for nothing else. -/
def histogramRequest (body : Json) : Json :=
  .object [("aggs", .object [("h", .object [("histogram", body)])])]

theorem ofJson_histogramRequest {body : Json} {h : Histogram}
    (hbody : Histogram.ofJson "h" body = .ok h) :
    Forest.ofJson default (histogramRequest body) =
      .ok [Node.new "h" none 0 false (.histogram h)] := by
  have hkind : Aggregation.ofKind default "h" "histogram" body = .ok (.histogram h) := by
    simp only [Aggregation.ofKind, hbody]
    rfl
  rw [Forest.ofJson, histogramRequest,
    Request.ofJson_alone (Request.readBranch_alone rfl (by decide) hkind)]
  rfl

namespace TablePlan

open Rows

/-- Bounds that lie too far out to be told apart from the outermost indices. -/
def wideBounds : Json :=
  .object [("min", .number (.floating (.finite (-2 ^ 70)))),
    ("max", .number (.floating (.finite (2 ^ 70))))]

def wideBody : Json :=
  .object [("field", .string "bytes"), ("interval", .ofInt 10), ("extended_bounds", wideBounds)]

def wideHistogram : Histogram :=
  ⟨"bytes", 10, 0, 0, some (.finite (-2 ^ 70), .finite (2 ^ 70))⟩

theorem ofJson_wideBody : Histogram.ofJson "h" wideBody = .ok wideHistogram := by
  have hfield : wideBody.stringField? "field" = some "bytes" := rfl
  have hinterval : wideBody.field? "interval" = some (.ofInt 10) := rfl
  have hpositive : (Cell.number? (.ofInt 10)).filter (Binary64.less 0) = some 10 := by
    decide +kernel
  have hoffset : wideBody.field? "offset" = none := rfl
  have hbounds : wideBody.present? "extended_bounds" = some wideBounds := rfl
  have hread : Histogram.boundsOfJson "h" wideBounds =
      .ok (.finite (-2 ^ 70), .finite (2 ^ 70)) := by
    have hordered : (Binary64.finite (-2 ^ 70)).atMost (.finite (2 ^ 70)) = true := by
      decide +kernel
    have hmin : (wideBounds.field? "min").bind Cell.number? = some (.finite (-2 ^ 70)) := rfl
    have hmax : (wideBounds.field? "max").bind Cell.number? = some (.finite (2 ^ 70)) := rfl
    unfold Histogram.boundsOfJson
    simp only [hmin, hmax, hordered, if_true]
  have hleast : minDocCountOfJson wideBody = 0 := rfl
  unfold Histogram.ofJson
  rw [hfield, hinterval, hoffset, hbounds, hleast]
  simp only [Except.bind, bind, hpositive, hread]
  rfl

def wideForest : Forest := [Node.new "h" none 0 false (.histogram wideHistogram)]

def wideSettings : Settings := { Settings.standard with maxGapBuckets := 3 }

def widePlan : TablePlan :=
  ofForest wideForest ⟨"t", [("bytes", true)]⟩ false ["bytes"] wideSettings

/-- The histogram, whose bounds are the outermost indices. -/
def wideTarget : GapTarget := ⟨0, "al1", .linear 10 0, some (-2 ^ 63, 2 ^ 63 - 1)⟩

/-- Two rows, one of which stands at the first of all indices. -/
def wideRows : List Row :=
  [Row.ofCells [("al1", .ofInt 20), ("cnt", .ofInt 5)] .engine,
    Row.ofCells [("al1", .number (.floating (.finite (-2 ^ 63 * 10)))), ("cnt", .ofInt 1)] .engine]

/-- With a row at the first index, the three that follow are filled in. -/
theorem widePlan_apply_gapFill : ∃ gaps,
    RowPass.gapFill.apply widePlan.forest (widePlan.rowContext wideSettings) wideRows =
        wideRows ++ gaps ∧
      wideTarget.Fills [] "cnt" 3 wideRows gaps ∧
      missingIndices wideTarget 3 wideRows = [-2 ^ 63 + 1, -2 ^ 63 + 2, -2 ^ 63 + 3] ∧
      missingBetween (presentIndices wideTarget wideRows) (-2 ^ 63) (2 ^ 63 - 1) 3 =
        missingFrom (presentIndices wideTarget wideRows) 6 3 (-2 ^ 63) := by
  have hforest : Forest.ofJson default (histogramRequest wideBody) = .ok wideForest :=
    ofJson_histogramRequest ofJson_wideBody
  have hplan : widePlan ∈ forTables wideForest [⟨"t", [("bytes", true)]⟩] wideSettings :=
    List.mem_singleton.mpr rfl
  have hbounds : wideHistogram.boundIndices? = some (-2 ^ 63, 2 ^ 63 - 1) := by decide +kernel
  have htarget : gapTarget? widePlan.forest = some wideTarget :=
    congrArg (fun bounds => some (GapTarget.mk 0 "al1" (.linear 10 0) bounds)) hbounds
  obtain ⟨gaps, hrows, hgroups⟩ := apply_gapFill hforest hplan htarget wideRows
  obtain ⟨hfills, hwalk⟩ := hgroups "" (by decide +kernel)
  refine ⟨gaps "", hrows.trans ?_, hfills, by decide +kernel, hwalk _ _⟩
  exact List.append_nil _

end TablePlan

end Rollup
