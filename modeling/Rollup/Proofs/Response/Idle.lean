/-
# Rows that stop at legs only

Rows are dropped by one filter aggregation at most, since nothing may be read outside of it. A row
that matches none of its legs stops at these legs and nowhere else: it brings no document and makes
no bucket that another row would not make.
-/

import Rollup.Proofs.Plan.Naming
import Rollup.Proofs.Response.Likeness
import Rollup.Proofs.Rows.Reordered

namespace Rollup

open Rows

/-! ## Rows in no bucket -/

/-- Whether a row is in no bucket so far. -/
def Ways.IsNowhere (ways : Ways) : Prop := ∀ i, ways.settled i = none ∧ ways.pending i = none

theorem Ways.IsNowhere.advance {ways : Ways} (h : ways.IsNowhere) (anchor : Nat)
    (lastLeg : Option Bool) : (ways.advance anchor lastLeg none).IsNowhere := by
  intro i
  dsimp only [Ways.advance]
  split
  · dsimp only [Ways.suspend, Ways.settle]
    split
    · exact ⟨(h anchor).2, rfl⟩
    · exact h i
  · exact h i

/-- Whether a stop is at a leg of the request's own level that its row does not match. -/
structure Stop.IsMissedAtRoot (stop : Stop) : Prop where
  trail : stop.trail = []
  parent : stop.node.parent = none
  isLeg : stop.node.isLeg = true
  missed : stop.node.matchesLeg stop.row = false

namespace Stop.IsMissedAtRoot

variable {stop : Stop}

theorem onward?_eq_none (h : stop.IsMissedAtRoot) : stop.onward? = none := by
  obtain ⟨l, hl⟩ := Node.exists_leg h.isLeg
  simp [Stop.onward?, Node.goesTo?, hl, h.missed]

theorem docsFor_eq_zero (h : stop.IsMissedAtRoot) (trail : Trail) (turn : Turn) :
    stop.docsFor trail turn = 0 := by
  obtain ⟨l, hl⟩ := Node.exists_leg h.isLeg
  have hgives : stop.node.gives stop.row turn.mark = false := by
    cases turn.mark <;> simp [Node.gives, hl, h.missed, Node.valueBucket?]
  simp [docsFor, hgives]

/-- The buckets of a leg are there from the start, whatever the row is. -/
theorem opens?_eq (h : stop.IsMissedAtRoot) {other : Stop} (htrail : other.trail = [])
    (hnode : other.node = stop.node) (trail : Trail) (turn : Turn) :
    other.opens? trail turn = stop.opens? trail turn := by
  obtain ⟨l, hl⟩ := Node.exists_leg h.isLeg
  have hfresh : other.node.freshAt? other.row turn.mark =
      stop.node.freshAt? stop.row turn.mark := by
    rw [hnode]
    cases turn.mark <;> simp [Node.freshAt?, Node.valueBucket?, hl]
  have hat : other.IsAt trail turn.aggregation ↔ stop.IsAt trail turn.aggregation := by
    rw [IsAt, IsAt, h.trail, htrail, hnode]
  simp only [opens?, hat, hfresh]

end Stop.IsMissedAtRoot

namespace Forest

variable {forest : Forest}

/-! ## The unit that drops rows -/

/-- The units of one aggregation are one. -/
theorem columns_eq_of_anchor_eq {unit other : FilterUnit} (hunit : unit ∈ filterUnits forest)
    (hother : other ∈ filterUnits forest)
    (hanchor : forest.anchor unit.first = forest.anchor other.first) :
    unit.columns = other.columns := by
  obtain ⟨legs, first, rest, hlegs, hindirect, -, hcolumns, -⟩ := filterUnit_spec hunit
  obtain ⟨legs', first', rest', hlegs', hindirect', -, hcolumns', -⟩ := filterUnit_spec hother
  rw [hcolumns, hcolumns', ← hindirect, ← hindirect', hlegs, hlegs', hanchor]

/-- The columns of the unit outside of which nothing is read, if there is one. -/
def soleColumns (forest : Forest) : List String :=
  match (filterUnits forest).find? fun unit =>
      !isReadOutside forest (forest.anchor unit.first) with
  | some unit => unit.columns
  | none => []

/-- No other unit drops rows. -/
theorem IsLaidOut.columns_eq_soleColumns (h : forest.IsLaidOut) {unit : FilterUnit}
    (hunit : unit ∈ filterUnits forest)
    (houtside : isReadOutside forest (forest.anchor unit.first) = false) :
    unit.columns = forest.soleColumns := by
  unfold soleColumns
  cases hfind : (filterUnits forest).find? fun unit =>
      !isReadOutside forest (forest.anchor unit.first) with
  | none =>
      rw [List.find?_eq_none] at hfind
      exact absurd houtside (by simpa using hfind unit hunit)
  | some other =>
      have hother := List.mem_of_find?_eq_some hfind
      have houtside' : isReadOutside forest (forest.anchor other.first) = false := by
        simpa using List.find?_some hfind
      obtain ⟨x, hx, hxleg, hxactive⟩ := exists_first_of_mem_filterUnits hunit
      obtain ⟨y, hy, hyleg, hyactive⟩ := exists_first_of_mem_filterUnits hother
      have hxquery := Node.isQuery_of_isLeg hxleg
      have hyquery := Node.isQuery_of_isLeg hyleg
      have hxshown : x.isShown = true := by simp [Node.isShown, hxquery, hxactive]
      have hyshown : y.isShown = true := by simp [Node.isShown, hyquery, hyactive]
      apply columns_eq_of_anchor_eq hunit hother
      -- neither can lie below the other, as what is below comes later
      have hwithin := isWithin_of_isReadOutside houtside hy hyshown
      have hwithin' := isWithin_of_isReadOutside houtside' hx hxshown
      simp only [isWithin, Bool.or_eq_true, beq_iff_eq] at hwithin hwithin'
      rcases hwithin with heq | hbelow
      · exact heq.symm
      · rcases hwithin' with heq | hbelow'
        · exact heq
        · have hlt := h.lt_of_isBelow hbelow hx hxquery (h.anchor_anchor hx hxquery).symm
          have hlt' := h.lt_of_isBelow hbelow' hy hyquery (h.anchor_anchor hy hyquery).symm
          omega

/-- The unit that the columns come from, when there are any. -/
theorem exists_unit_of_mem_soleColumns {c : String} (hc : c ∈ forest.soleColumns) :
    ∃ unit ∈ filterUnits forest, unit.columns = forest.soleColumns ∧
      isReadOutside forest (forest.anchor unit.first) = false := by
  unfold soleColumns at hc ⊢
  split at hc
  · rename_i unit hfind
    exact ⟨unit, List.mem_of_find?_eq_some hfind, rfl, by simpa using List.find?_some hfind⟩
  · cases hc

/-! ## Idle rows -/

/-- A row that matches none of some columns matches none when it is muted. -/
theorem any_flag_sourceAt {columns : List String} {row : Row}
    (hmissed : columns.any row.flag = false) (countColumn : String) (index : Nat) :
    columns.any (forest.sourceAt countColumn row index).flag = false := by
  rw [List.any_eq_false] at hmissed ⊢
  intro c hc
  have hflag := hmissed c hc
  unfold sourceAt
  split
  · by_cases heq : c = countColumn
    · subst heq
      rw [Row.muted, Row.flag_set_zero]
      exact Bool.false_ne_true
    · rwa [Row.muted, Row.flag_congr (Row.get?_set_of_ne row heq _)]
  · exact hflag

/-- What is shown at the request's own level, when nothing is read outside of an aggregation, are
its legs. -/
theorem anchor_eq_of_root {unit : FilterUnit}
    (houtside : isReadOutside forest (forest.anchor unit.first) = false) {i : Nat} {y : Node}
    (hy : forest[i]? = some y) (hshown : y.isShown = true) (hparent : y.parent = none) :
    forest.anchor i = forest.anchor unit.first := by
  have hwithin := isWithin_of_isReadOutside houtside hy hshown
  simp only [isWithin, Bool.or_eq_true, beq_iff_eq] at hwithin
  exact hwithin.resolve_right (by simp [isBelow_of_root hy hparent])

/-- A row that misses an aggregation matches none of its legs, muted or not. -/
theorem matchesLeg_sourceAt_of_missed (hmarked : forest.IsMarked) {unit : FilterUnit}
    (hunit : unit ∈ filterUnits forest) {i : Nat} {y : Node} (hy : forest[i]? = some y)
    (hshown : y.isShown = true) (hanchor : forest.anchor i = forest.anchor unit.first)
    {row : Row} (hmissed : unit.isMatchedBy row = false) (countColumn : String) :
    y.matchesLeg (forest.sourceAt countColumn row i) = false := by
  cases hmatches : y.matchesLeg (forest.sourceAt countColumn row i) with
  | false => rfl
  | true =>
      have hmatched := isMatchedBy_of_matchesLeg hmarked hunit hy hshown hanchor hmatches
      rw [FilterUnit.isMatchedBy, any_flag_sourceAt hmissed] at hmatched
      cases hmatched

/-- Where rows are idle, there is a unit that they miss. -/
theorem exists_unit_of_idle {row : Row} (hidle : isKept forest.soleColumns row = false) :
    ∃ unit ∈ filterUnits forest, unit.isMatchedBy row = false ∧
      isReadOutside forest (forest.anchor unit.first) = false := by
  rw [isKept, Bool.or_eq_false_iff, List.isEmpty_eq_false_iff] at hidle
  obtain ⟨c, hc⟩ := List.exists_mem_of_ne_nil _ hidle.1
  obtain ⟨unit, hunit, hcolumns, houtside⟩ := exists_unit_of_mem_soleColumns hc
  exact ⟨unit, hunit, by rw [FilterUnit.isMatchedBy, hcolumns, hidle.2], houtside⟩

/-- Where a row that matches no leg of the aggregation is in no bucket yet, it stops at a leg of the
request's own level that it does not match. -/
theorem IsLaidOut.stopAt?_of_idle (h : forest.IsLaidOut) (hmarked : forest.IsMarked)
    {countColumn : String} {row : Row} (hidle : isKept forest.soleColumns row = false)
    {entry : Node × Nat} (hentry : forest[entry.2]? = some entry.1) {ways : Ways}
    (hways : ways.IsNowhere) {stop : Stop}
    (hstop : forest.stopAt? countColumn row ways entry = some stop) : stop.IsMissedAtRoot := by
  obtain ⟨unit, hunit, hunmatched, houtside⟩ := exists_unit_of_idle hidle
  obtain ⟨hshown, hbase, hnode, -, -, hrow⟩ := stopAt?_spec hstop
  have hparent : entry.1.parent = none := by
    cases hsome : entry.1.parent with
    | none => rfl
    | some p =>
        rw [hsome, Ways.base?, (hways p).1] at hbase
        cases hbase
  have htrail : stop.trail = [] := by
    rw [hparent] at hbase
    exact (Option.some.inj hbase).symm
  have hanchor := anchor_eq_of_root houtside hentry hshown hparent
  obtain ⟨l, hl⟩ := h.exists_leg_of_anchor hentry (Node.isQuery_of_isShown hshown)
    (hanchor ▸ legsOf_ne_nil_of_mem_filterUnits hunit)
  have hmissed : entry.1.matchesLeg stop.row = false :=
    hrow ▸ matchesLeg_sourceAt_of_missed hmarked hunit hentry hshown hanchor hunmatched countColumn
  rw [← hnode] at hparent hl hmissed
  exact ⟨htrail, hparent, Node.isLeg_of_eq hl, hmissed⟩

/-- Such a row never gets into a bucket, so all its stops are of this kind. -/
theorem IsLaidOut.isMissedAtRoot_of_mem_stopsFrom (h : forest.IsLaidOut)
    (hmarked : forest.IsMarked) {countColumn : String} {row : Row}
    (hidle : isKept forest.soleColumns row = false) {entries : List (Node × Nat)}
    (hentries : ∀ entry ∈ entries, forest[entry.2]? = some entry.1) {ways : Ways}
    (hways : ways.IsNowhere) {stop : Stop}
    (hstop : stop ∈ forest.stopsFrom countColumn row ways entries) : stop.IsMissedAtRoot := by
  induction entries generalizing ways with
  | nil => cases hstop
  | cons entry rest ih =>
      have hentry := hentries entry (by simp)
      have hrest := fun other hother => hentries other (List.mem_cons_of_mem entry hother)
      rw [stopsFrom, List.mem_append, Option.mem_toList] at hstop
      rcases hstop with hnow | hlater
      · exact h.stopAt?_of_idle hmarked hidle hentry hways hnow
      · refine ih hrest ?_ hlater
        unfold moveOn
        split
        · exact hways
        · rename_i first hfirst
          rw [(h.stopAt?_of_idle hmarked hidle hentry hways hfirst).onward?_eq_none]
          exact hways.advance _ _

section

variable {countColumn : String} {row : Row}

theorem IsLaidOut.isMissedAtRoot_of_mem_stops (h : forest.IsLaidOut) (hmarked : forest.IsMarked)
    (hidle : isKept forest.soleColumns row = false) {stop : Stop}
    (hstop : stop ∈ forest.stops countColumn row) : stop.IsMissedAtRoot :=
  h.isMissedAtRoot_of_mem_stopsFrom hmarked hidle
    (fun _ hentry => List.mem_zipIdx_iff_getElem?.mp hentry) (fun _ => ⟨rfl, rfl⟩) hstop

/-- An idle row brings no documents. -/
theorem IsLaidOut.docsOf_of_idle (h : forest.IsLaidOut) (hmarked : forest.IsMarked)
    (hidle : isKept forest.soleColumns row = false) (trail : Trail) (turn : Turn) :
    forest.docsOf countColumn row trail turn = 0 := by
  unfold docsOf
  refine List.sum_eq_zero fun docs hdocs => ?_
  obtain ⟨stop, hstop, rfl⟩ := List.mem_map.mp hdocs
  exact (h.isMissedAtRoot_of_mem_stops hmarked hidle hstop).docsFor_eq_zero trail turn

/-- An idle row makes no bucket that another row would not make. -/
theorem IsLaidOut.makesBucket_of_idle (h : forest.IsLaidOut) (hmarked : forest.IsMarked)
    (hidle : isKept forest.soleColumns row = false) {trail : Trail} {turn : Turn}
    (hmakes : forest.makesBucket countColumn row trail turn = true) (other : Row) :
    forest.makesBucket countColumn other trail turn = true := by
  obtain ⟨stop, hstop, hopens⟩ := List.any_eq_true.mp hmakes
  have hmissed := h.isMissedAtRoot_of_mem_stops hmarked hidle hstop
  obtain ⟨i, hi, hshown, -⟩ := mem_stops hstop
  obtain ⟨stop', hstop', htrail', hnode'⟩ :=
    exists_stop_of_root countColumn other hi hshown hmissed.parent
  exact List.any_eq_true.mpr ⟨stop', hstop', by rwa [hmissed.opens?_eq htrail' hnode']⟩

end

end Forest

/-! ## Plans for one table -/

section

variable {now : Calendar.Instant} {json : Json} {forest : Forest} {tables : List Table}
  {settings : Settings} {plan : TablePlan} {target : GapTarget} {c : String}

/-- The columns of the unit come before the histogram to fill in. -/
theorem Forest.IsLaidOut.mem_groupColumnsBefore_of_mem_soleColumns (hlaid : forest.IsLaidOut)
    (htarget : gapTarget? forest = some target) (hc : c ∈ forest.soleColumns) :
    c ∈ forest.groupColumnsBefore target.index := by
  obtain ⟨unit, hunit, hcolumns, houtside⟩ := Forest.exists_unit_of_mem_soleColumns hc
  obtain ⟨node, hnode, hactive, hempty, -, hcolumn, -⟩ := gapTarget_spec htarget
  obtain ⟨-, hshown, hnotLeg⟩ := readColumn?_of_gapTarget hactive hempty hcolumn
  obtain ⟨i, x, hx, hxleg, -, hanchor, hgroups⟩ := (mem_columns_iff hunit).mp (hcolumns ▸ hc)
  refine Forest.mem_groupColumnsBefore hx ?_ hgroups
  have hwithin := isWithin_of_isReadOutside houtside hnode hshown
  simp only [Forest.isWithin, Bool.or_eq_true, beq_iff_eq] at hwithin
  rcases hwithin with hsame | hbelow
  · obtain ⟨l', hl'⟩ := hlaid.exists_leg_of_anchor hnode (Node.isQuery_of_isShown hshown)
      (hsame ▸ legsOf_ne_nil_of_mem_filterUnits hunit)
    rw [Node.isLeg_of_eq hl'] at hnotLeg
    cases hnotLeg
  · refine hlaid.lt_of_isBelow hbelow hx (Node.isQuery_of_isLeg hxleg) ?_
    rw [anchor_anchor_of_mem_filterUnits hlaid hunit, hanchor]

/-- The columns of a unit are of active nodes that need a column. -/
theorem Rows.exists_node_of_mem_columns {unit : FilterUnit} (hunit : unit ∈ filterUnits forest)
    (hc : c ∈ unit.columns) : ∃ x ∈ forest, x.isActive = true ∧ x.decisions.column = some c ∧
      ∃ l, x.aggregation = .leg l := by
  obtain ⟨i, x, hx, hleg, hactive, -, hgroups⟩ := (mem_columns_iff hunit).mp hc
  obtain ⟨l, hl⟩ := Node.exists_leg hleg
  refine ⟨x, List.mem_of_getElem? hx, hactive, ?_, l, hl⟩
  cases hdirect : x.decisions.direct with
  | false => simpa [Node.groupColumn?, Node.outputColumn?, hl, hactive, hdirect] using hgroups
  | true => simp [Node.groupColumn?, hl, hactive, hdirect] at hgroups

/-- The column of a filter is not that of the histogram to fill in. -/
theorem TablePlan.ne_target_of_mem_columns (hforest : Forest.ofJson now json = .ok forest)
    (hplan : plan ∈ forTables forest tables settings) (hskipped : plan.isSkipped = false)
    (htarget : gapTarget? plan.forest = some target) {unit : FilterUnit}
    (hunit : unit ∈ filterUnits plan.forest) (hc : c ∈ unit.columns) : c ≠ target.column := by
  obtain ⟨node, hnode, hactive, hempty, -, hcolumn, -⟩ := gapTarget_spec htarget
  obtain ⟨x, hx, hxactive, hxcolumn, l, hl⟩ := exists_node_of_mem_columns hunit hc
  rintro rfl
  have hhistogram : node.aggregation.isHistogram = true := by
    cases haggregation : node.aggregation <;>
      simp_all [Aggregation.showsEmpty, Aggregation.isHistogram]
  have hneeds : node.aggregation.needsColumn = true := by
    cases haggregation : node.aggregation <;>
      simp_all [Aggregation.showsEmpty, Aggregation.needsColumn]
  have hsame := expression_eq_of_column hforest hplan hskipped hx (List.mem_of_getElem? hnode)
    hxactive hactive (by rw [hl]; rfl) hneeds hxcolumn hcolumn
  obtain ⟨e, he⟩ : ∃ e, node.aggregation.expression? = some e := by
    cases haggregation : node.aggregation <;>
      simp_all [Aggregation.isHistogram, Aggregation.expression?]
  rw [hl, he] at hsame
  exact Aggregation.expression_ne_of_leg hhistogram hsame he

/-- The columns of the unit come before the histogram to fill in, and are not its column. -/
theorem TablePlan.of_mem_soleColumns {table : Table}
    (hforest : Forest.ofJson now json = .ok forest) (hkeys : json.hasDistinctKeys = true)
    (hplan : plan ∈ forTables forest [table] settings)
    (htarget : gapTarget? plan.forest = some target) (hc : c ∈ plan.forest.soleColumns) :
    c ∈ plan.forest.groupColumnsBefore target.index ∧ c ≠ target.column := by
  have hskipped := (forest_of_mem_forTables hplan).1
  obtain ⟨hlaid, -⟩ := isLaidOut_of_mem_forTables hforest hkeys hplan hskipped
  obtain ⟨unit, hunit, hcolumns, -⟩ := Forest.exists_unit_of_mem_soleColumns hc
  exact ⟨hlaid.mem_groupColumnsBefore_of_mem_soleColumns htarget hc,
    ne_target_of_mem_columns hforest hplan hskipped htarget hunit (hcolumns ▸ hc)⟩

end

end Rollup
