/-
# Values of a terms aggregation

The list of a terms aggregation has one bucket for each value that its attribute takes in the rows,
with the documents of the rows that have the value. Buckets are told apart by the identity of a
cell, which takes an integer through a binary number, so this holds as long as the integers are
small enough to come back as they are. Beyond that two values may share a bucket.
-/

import Rollup.Proofs.Number.ReadBack
import Rollup.Proofs.Response.Exact
import Rollup.Proofs.Response.Itinerary
import Rollup.Proofs.Rows.Gaps

namespace Rollup

/-! ## Identity and text of a cell -/

/-- Whether a cell is null, a text, or an integer that a binary number holds, as it does all those
below it. -/
def Cell.IsPlain : Json → Prop
  | .null => True
  | .string _ => True
  | .number (.integer n) => n.natAbs ≤ 2 ^ 53
  | _ => False

/-- A cell that is plain is told from others by its text. -/
theorem Cell.key_eq_text {value : Json} (hplain : IsPlain value) (hsome : value.isNull = false) :
    key value = text value := by
  cases value with
  | number n =>
      cases n with
      | integer n => exact Binary64.text_ofInt hplain
      | floating x => exact hplain.elim
  | string s => rfl
  | null => cases hsome
  | bool b => exact hplain.elim
  | array items => exact hplain.elim
  | object fields => exact hplain.elim

/-- The text of a cell that is not null. -/
def Row.textAt? (row : Row) (column : String) : Option String := (row.get? column).map Cell.text

/-- Whether some buckets are those of the values of a terms aggregation in some rows, integers being
values by their digits. -/
structure Terms.ListsValues (t : Terms) (countColumn : String) (rows : List Row)
    (entries : List (Bucket Output)) : Prop where
  /-- Two rows share a bucket just when they have one value. -/
  shared : ∀ row ∈ rows, ∀ other ∈ rows, ∀ b c, t.bucket? row = some b → t.bucket? other = some c →
    (b.id = c.id ↔ row.textAt? t.field = other.textAt? t.field)
  /-- No value has two buckets. -/
  distinct : (entries.map Bucket.id).Nodup
  /-- Just the values of the rows have a bucket. -/
  mem_iff : ∀ value, value ∈ entries.map Bucket.id ↔
    ∃ row ∈ rows, row.textAt? t.field = some value
  /-- A bucket counts the documents of the rows with its value. -/
  docs : ∀ b ∈ entries, b.docCount =
    Rows.documents countColumn (rows.filter fun row => row.textAt? t.field == some b.id)

/-- The bucket of a row is that of its value. -/
theorem Terms.map_id_bucket? {t : Terms} {row : Row}
    (hplain : ∀ value, row.get? t.field = some value → Cell.IsPlain value) :
    (t.bucket? row).map Bucket.id = row.textAt? t.field := by
  unfold Terms.bucket? Row.textAt?
  rw [Option.map_map]
  cases hvalue : row.get? t.field with
  | none => rfl
  | some value =>
      have hsome : value.isNull = false := by
        simpa using (Option.filter_eq_some_iff.mp hvalue).2
      exact congrArg some (Cell.key_eq_text (hplain value hvalue) hsome)

theorem Terms.any_bucket? {t : Terms} {row : Row}
    (hplain : ∀ value, row.get? t.field = some value → Cell.IsPlain value) (id : String) :
    ((t.bucket? row).any fun b => b.id == id) = (row.textAt? t.field == some id) := by
  rw [← map_id_bucket? hplain]
  cases t.bucket? row with
  | none => rfl
  | some b => simp

/-- A node of values is no leg. -/
theorem Node.isLeg_of_isValueGroup {n : Node} (h : n.aggregation.isValueGroup = true) :
    n.isLeg = false := by
  cases hkind : n.aggregation with
  | leg l =>
      simp [hkind, Aggregation.isValueGroup, Aggregation.isHistogram, Aggregation.terms?] at h
  | _ => simp [Node.isLeg, hkind, Aggregation.isLeg, Aggregation.leg?]

/-! ## The stop of a row at an aggregation of the request's own level -/

namespace Forest

variable {forest : Forest} {countColumn : String}

/-- A node that is no leg has no other node beside it under its name. -/
theorem IsLaidOut.index_eq_of_akin (h : forest.IsLaidOut) {i j : Nat} {node other : Node}
    (hi : forest[i]? = some node) (hleg : node.isLeg = false) (hj : forest[j]? = some other)
    (hakin : node.IsAkin other) : j = i := by
  have hnotLegs {first second : Node} (hnode : first = node ∨ second = node)
      (hshares : first.SharesLegs second) : False := by
    obtain ⟨l, l', hl, hl', -⟩ := hshares
    rcases hnode with rfl | rfl
    · rw [Node.isLeg_of_eq hl] at hleg
      cases hleg
    · rw [Node.isLeg_of_eq hl'] at hleg
      cases hleg
  rcases Nat.lt_trichotomy j i with hlt | heq | hgt
  · exact (hnotLegs (Or.inr rfl) (h.neighbours _ _ _ _ hlt hj hi hakin.symm).1).elim
  · exact heq
  · exact (hnotLegs (Or.inl rfl) (h.neighbours _ _ _ _ hgt hi hj hakin).1).elim

section

variable {row : Row} {i : Nat} {node : Node}

/-- The stop of a row at a node of the request's own level. -/
def stopAtRoot (forest : Forest) (countColumn : String) (row : Row) (index : Nat) (node : Node) :
    Stop :=
  ⟨[], node, forest.orderMetricName? node, countColumn, forest.sourceAt countColumn row index⟩

/-- Among some nodes, just the one that stands at the root under a name gives a stop there. -/
theorem IsLaidOut.filter_stopsFrom_of_root (h : forest.IsLaidOut) (hi : forest[i]? = some node)
    (hshown : node.isShown = true) (hparent : node.parent = none) (hleg : node.isLeg = false)
    {ways : Ways} (hguides : forest.Guides ways) {entries : List (Node × Nat)}
    (hentries : ∀ entry ∈ entries, forest[entry.2]? = some entry.1)
    (hnodup : (entries.map Prod.snd).Nodup) :
    ((forest.stopsFrom countColumn row ways entries).filter fun stop => stop.IsAt [] node.name) =
      if i ∈ entries.map Prod.snd then [forest.stopAtRoot countColumn row i node] else [] := by
  induction entries generalizing ways with
  | nil => simp [stopsFrom]
  | cons entry rest ih =>
      have hentry := hentries entry (by simp)
      rw [List.map_cons, List.nodup_cons] at hnodup
      rw [stopsFrom, List.filter_append, ih (hguides.moveOn h hentry)
        (fun other hother => hentries other (by simp [hother])) hnodup.2]
      by_cases hindex : entry.2 = i
      · have hnode : entry.1 = node := by
          rw [hindex, hi] at hentry
          exact (Option.some.inj hentry).symm
        rw [if_neg (hindex ▸ hnodup.1), List.append_nil, List.map_cons, hindex,
          if_pos List.mem_cons_self]
        simp [stopAt?, stopAtRoot, hnode, hshown, hparent, Ways.base?, Stop.IsAt, hindex]
      · have hnone : ((forest.stopAt? countColumn row ways entry).toList.filter
            fun stop => stop.IsAt [] node.name) = [] := by
          cases hstop : forest.stopAt? countColumn row ways entry with
          | none => rfl
          | some stop =>
              obtain ⟨hentryShown, -, hnode, -⟩ := stopAt?_spec hstop
              have hguided := hguides.parentOn?_of_stopAt? hstop
              have hnot : ¬ stop.IsAt [] node.name := by
                rintro ⟨htrail, hname⟩
                rw [htrail, hnode] at hguided
                refine hindex (h.index_eq_of_akin hi hleg hentry ⟨Node.isQuery_of_isShown hshown,
                  Node.isQuery_of_isShown hentryShown, ?_, ?_⟩)
                · rw [← hname, hnode]
                · exact hparent.trans (Option.some.inj hguided)
              simp [hnot]
        have hmem : i ∈ (entry :: rest).map Prod.snd ↔ i ∈ rest.map Prod.snd := by
          rw [List.map_cons, List.mem_cons, or_iff_right fun h => hindex h.symm]
        simp only [hnone, hmem, List.nil_append]

/-- A row stops once at a node of the request's own level that has no legs beside it. -/
theorem IsLaidOut.filter_stops_of_root (h : forest.IsLaidOut) (hi : forest[i]? = some node)
    (hshown : node.isShown = true) (hparent : node.parent = none) (hleg : node.isLeg = false) :
    ((forest.stops countColumn row).filter fun stop => stop.IsAt [] node.name) =
      [forest.stopAtRoot countColumn row i node] := by
  have hmem : i ∈ forest.zipIdx.map Prod.snd :=
    List.mem_map_of_mem (List.mem_zipIdx_iff_getElem?.mpr hi : (node, i) ∈ forest.zipIdx)
  rw [stops, h.filter_stopsFrom_of_root hi hshown hparent hleg (guides_nowhere forest)
    (fun entry hentry => List.mem_zipIdx_iff_getElem?.mp hentry)
    (by rw [List.zipIdx_map_snd]; exact List.nodup_range'), if_pos hmem]

/-- The documents that the stops of a row bring into a bucket of the request's own level. -/
theorem IsLaidOut.sum_docsFor_of_root (h : forest.IsLaidOut) (hi : forest[i]? = some node)
    (hshown : node.isShown = true) (hparent : node.parent = none) (hleg : node.isLeg = false)
    (mark : Mark) :
    ((forest.stops countColumn row).map fun stop => stop.docsFor [] ⟨node.name, mark⟩).sum =
      if node.gives (forest.sourceAt countColumn row i) mark = true then
        (forest.sourceAt countColumn row i).count countColumn
      else 0 := by
  have hfilter (stops : List Stop) : (stops.map fun stop => stop.docsFor [] ⟨node.name, mark⟩).sum =
      ((stops.filter fun stop => stop.IsAt [] node.name).map
        fun stop => stop.docsFor [] ⟨node.name, mark⟩).sum := by
    induction stops with
    | nil => rfl
    | cons stop rest ih =>
        rw [List.map_cons, List.sum_cons, ih, List.filter_cons]
        by_cases hat : stop.IsAt [] node.name
        · simp [hat]
        · simp [hat, Stop.docsFor]
  rw [hfilter, h.filter_stops_of_root hi hshown hparent hleg]
  simp [Stop.docsFor, Stop.IsAt, stopAtRoot]

/-- The stops of a row open the bucket of the request's own level that the node makes for it. -/
theorem IsLaidOut.exists_opens_of_root (h : forest.IsLaidOut) (hi : forest[i]? = some node)
    (hshown : node.isShown = true) (hparent : node.parent = none) (hleg : node.isLeg = false)
    (mark : Mark) :
    (∃ stop ∈ forest.stops countColumn row, (stop.opens? [] ⟨node.name, mark⟩).isSome = true) ↔
      (node.freshAt? (forest.sourceAt countColumn row i) mark).isSome = true := by
  have hstops : ((forest.stops countColumn row).filter fun stop => stop.IsAt [] node.name) =
      [forest.stopAtRoot countColumn row i node] :=
    h.filter_stops_of_root hi hshown hparent hleg
  constructor
  · rintro ⟨stop, hstop, hopens⟩
    unfold Stop.opens? at hopens
    split at hopens
    · rename_i hat
      have hmem : stop ∈ (forest.stops countColumn row).filter fun stop =>
          stop.IsAt [] node.name := List.mem_filter.mpr ⟨hstop, by simpa using hat⟩
      rw [hstops, List.mem_singleton] at hmem
      rwa [hmem] at hopens
    · cases hopens
  · intro hfresh
    have hmem : forest.stopAtRoot countColumn row i node ∈ (forest.stops countColumn row).filter
        fun stop => stop.IsAt [] node.name := by rw [hstops]; exact List.mem_singleton.mpr rfl
    exact ⟨_, (List.mem_filter.mp hmem).1,
      by simpa [Stop.opens?, Stop.IsAt, stopAtRoot] using hfresh⟩

end

end Forest

/-! ## Plans without filters -/

/-- Whether no node is left out or shown without a value. -/
def Forest.IsWhole (forest : Forest) : Prop :=
  ∀ n ∈ forest, n.isActive = true ∧ n.decisions.blanked = false

theorem Forest.legGroups_of_no_legs {forest : Forest} (hlegs : ∀ n ∈ forest, n.isLeg = false) :
    forest.legGroups = [] := by
  refine List.eq_nil_iff_forall_not_mem.mpr fun group hgroup => ?_
  obtain ⟨i, hi, -⟩ := mem_legGroups.mp hgroup
  obtain ⟨n, hn, hleg⟩ := mem_legIndices.mp hi
  rw [hlegs n (List.mem_of_getElem? hn)] at hleg
  cases hleg

namespace Plan

variable {forest : Forest}

theorem isWhole_nameNodes (context : PlanContext) (naming : Naming) (h : forest.IsWhole) :
    Forest.IsWhole (nameNodes context naming forest) := by
  induction forest generalizing naming with
  | nil => exact h
  | cons node rest ih =>
      have hnode : (nameNode context naming node).1.isActive = node.isActive ∧
          (nameNode context naming node).1.decisions.blanked = node.decisions.blanked := by
        unfold nameNode
        split
        · split <;> exact ⟨rfl, rfl⟩
        · exact ⟨rfl, rfl⟩
      intro n hn
      rcases List.mem_cons.mp hn with hfirst | hrest
      · rw [hfirst]
        exact ⟨hnode.1.trans (h node (by simp)).1, hnode.2.trans (h node (by simp)).2⟩
      · exact ih _ (fun n hn => h n (by simp [hn])) n hrest

/-- Without legs there is nothing to decide about filters. -/
theorem classifyFilters_of_no_legs (hlegs : ∀ n ∈ forest, n.isLeg = false) :
    classifyFilters forest = forest := by
  have hleg {n : Node} (hn : n ∈ forest) : n.aggregation.leg? = none := by
    have hnot := hlegs n hn
    simpa [Node.isLeg, Aggregation.isLeg] using hnot
  have hreadable : (List.range forest.length).foldl dropUnreadable forest = forest := by
    induction List.range forest.length with
    | nil => rfl
    | cons index rest ih =>
        have hkept : dropUnreadable forest index = forest := by
          unfold dropUnreadable
          split
          · rename_i node hnode
            rw [hleg (List.mem_of_getElem? hnode)]
            rfl
          · rfl
        rw [List.foldl_cons, hkept, ih]
  have hmarked : markDirect (markConcurrent forest) = forest := by
    rw [markConcurrent, Forest.legGroups_of_no_legs hlegs, List.foldl_nil, markDirect]
    calc forest.zipIdx.map _ = forest.zipIdx.map Prod.fst := by
          apply List.map_congr_left
          rintro ⟨node, index⟩ hentry
          dsimp only
          rw [hleg (List.mem_of_getElem? (List.mem_zipIdx_iff_getElem?.mp hentry))]
      _ = forest := List.zipIdx_map_fst 0 forest
  have hselectable : unselectable forest = [] := by
    unfold unselectable
    rw [List.filter_eq_nil_iff.mpr, List.map_nil]
    rintro ⟨node, index⟩ hentry
    dsimp only
    rw [hleg (List.mem_of_getElem? (List.mem_zipIdx_iff_getElem?.mp hentry))]
    simp
  rw [classifyFilters, hreadable]
  cases forest.length with
  | zero => exact hmarked
  | succ fuel =>
      rw [settleFilters, hmarked, hselectable]

theorem isWhole_orderNodes (context : PlanContext) (h : forest.IsWhole) :
    Forest.IsWhole (orderNodes context forest).1 := by
  intro n hn
  obtain ⟨⟨before, index⟩, hbefore, rfl⟩ := List.mem_map.mp hn
  have hmem := List.mem_of_getElem? (List.mem_zipIdx_iff_getElem?.mp hbefore)
  dsimp only
  split
  · split <;> exact h before hmem
  · exact h before hmem

end Plan

/-- A single table takes a request without filters as it is. -/
theorem TablePlan.isWhole_of_mem_forTables {now : Calendar.Instant} {json : Json} {forest : Forest}
    {table : Table} {settings : Settings} {plan : TablePlan}
    (hforest : Forest.ofJson now json = .ok forest)
    (hplan : plan ∈ forTables forest [table] settings) (hlegs : ∀ n ∈ forest, n.isLeg = false) :
    plan.isSkipped = false ∧ plan.forest.IsWhole := by
  obtain rfl := List.mem_singleton.mp hplan
  let context := PlanContext.new table false ([table].flatMap Table.fieldNames) settings.countColumn
  have hnamed := Plan.isRevision_nameNodes context (Plan.Naming.ofForest forest) forest
  have hnamedLegs : ∀ n ∈ Plan.nameColumns context forest, n.isLeg = false := by
    intro n hn
    obtain ⟨i, hi⟩ := List.getElem?_of_mem hn
    obtain ⟨before, hbefore, hnode⟩ := hnamed.node hi
    rw [Node.isLeg, hnode.aggregation]
    exact hlegs before (List.mem_of_getElem? hbefore)
  have hwhole : forest.IsWhole := by
    intro n hn
    rw [Node.isActive, Forest.decisions_of_ofJson hforest n hn]
    exact ⟨rfl, rfl⟩
  have hplanned : (ofForest forest table false ([table].flatMap Table.fieldNames) settings).forest =
      (Plan.orderNodes context (Plan.classifyFilters (Plan.nameColumns context forest))).1 := rfl
  refine ⟨rfl, ?_⟩
  change Forest.IsWhole (ofForest forest table false _ settings).forest
  rw [hplanned, Plan.classifyFilters_of_no_legs hnamedLegs]
  exact Plan.isWhole_orderNodes context (Plan.isWhole_nameNodes context _ hwhole)

/-! ## Rows without filters -/

namespace Rows

variable {forest : Forest} {countColumn : String}

/-- Without legs the passes order the rows and fill in empty intervals. -/
theorem run_of_no_legs {context : RowContext} (hlegs : ∀ n ∈ forest, n.isLeg = false)
    (hwhole : forest.IsWhole) (rows : List Row) :
    RowPass.run forest context rows = fillGaps forest context.countColumn context.maxGapBuckets
      (if context.complexOrder then sort forest context.countColumn rows else rows) := by
  have hgroups := Forest.legGroups_of_no_legs hlegs
  have hcolumns : blankedColumns forest = [] := by
    unfold blankedColumns
    rw [List.filter_eq_nil_iff.mpr fun n hn => by simp [isBlanked, (hwhole n hn).2]]
    rfl
  have hunits : filterUnits forest = [] := by rw [filterUnits, hgroups]; rfl
  have hruns : forest.concurrentRuns = [] := by
    unfold Forest.concurrentRuns
    rw [hgroups]
    rfl
  rw [RowPass.run_eq, blank, hcolumns, settleUnmatched, hunits, splitConcurrent, hruns]
  exact List.map_id _

/-- So the settled rows are the rows and those of empty intervals, each made after one of them. -/
theorem exists_gaps_run (context : RowContext) (hlegs : ∀ n ∈ forest, n.isLeg = false)
    (hwhole : forest.IsWhole) (rows : List Row) :
    ∃ gaps, (RowPass.run forest context rows).Perm (rows ++ gaps) ∧
      ∀ gap ∈ gaps, ∃ target, gapTarget? forest = some target ∧ ∃ template ∈ rows, ∃ index,
        gap = gapRow target (forest.groupColumnsBefore target.index) context.countColumn template
          index := by
  have hsorted : (if context.complexOrder then sort forest context.countColumn rows
      else rows).Perm rows := by
    split
    · exact sort_perm _ _ _
    · exact List.Perm.refl rows
  obtain ⟨gaps, hfilled, hgaps⟩ := exists_gaps_perm forest context.countColumn
    context.maxGapBuckets (if context.complexOrder then sort forest context.countColumn rows
      else rows)
  refine ⟨gaps, run_of_no_legs hlegs hwhole rows ▸ hfilled.trans (hsorted.append_right gaps),
    fun gap hgap => ?_⟩
  obtain ⟨target, htarget, template, htemplate, index, hmade⟩ := hgaps gap hgap
  exact ⟨target, htarget, template, hsorted.mem_iff.mp htemplate, index, hmade⟩

/-- The histogram that is filled in stands behind everything that groups by terms. -/
theorem lt_index_of_terms {target : GapTarget} (htarget : gapTarget? forest = some target)
    {i : Nat} {x : Node} {t : Terms} (hx : forest[i]? = some x) (hactive : x.isActive = true)
    (ht : x.aggregation = .terms t) : i < target.index := by
  obtain ⟨-, -, -, -, hbehind, -⟩ := gapTarget_spec htarget
  by_contra hge
  have hdrop : (forest.drop target.index)[i - target.index]? = some x := by
    rw [List.getElem?_drop, Nat.add_sub_cancel' (by omega), hx]
  have hlast := List.all_eq_true.mp hbehind x (List.mem_of_getElem? hdrop)
  simp [hactive, ht, Aggregation.terms?] at hlast

end Rows

/-! ## The list of a node of values -/

namespace Forest

section

variable {forest : Forest} {countColumn : String} {root : Level} {i : Nat} {node : Node}

/-- The list of a node of values of the request's own level, as trails find it. -/
theorem Hosts.bucketOn?_of_root (h : forest.Hosts root) (hnode : node ∈ forest)
    (hparent : node.parent = none) (hvalue : node.aggregation.isValueGroup = true) :
    ((Output.entriesOf (root.outputAt? [] node.name)).map Bucket.id).Nodup ∧
      ∀ id, root.bucketOn? [] ⟨node.name, .named id⟩ =
        (Output.entriesOf (root.outputAt? [] node.name)).find? fun b => b.id == id := by
  have houtput : root.outputOn? [] node.name = root.outputAt? [] node.name := rfl
  have hquery : node.isQuery = false := by
    cases haggregation : node.aggregation <;>
      simp_all [Node.isQuery, Aggregation.isQuery, Aggregation.query?, Aggregation.isValueGroup,
        Aggregation.isHistogram, Aggregation.terms?]
  simp only [Level.bucketOn?, houtput]
  cases hat : root.outputAt? [] node.name with
  | none => exact ⟨List.nodup_nil, fun _ => rfl⟩
  | some output =>
      have hsuits := h.suits [] node output hnode hquery (congrArg some hparent.symm) hat
      obtain ⟨list, rfl⟩ := Node.exists_buckets_of_fits hvalue hsuits.fits
      have hordered : list.finish.order.isSome = true := hsuits.ordered.trans hvalue
      exact ⟨hsuits.hasDistinctIds hordered, fun id => by
        simp [Output.bucketOf?, Output.entriesOf, hordered]⟩

variable {rows : List Row}

/-- Just the values that rows have are in the list of a node of the request's own level. -/
theorem IsLaidOut.mem_ids_iff (h : forest.IsLaidOut) (hhosts : forest.Hosts root)
    (hgains : Level.Gains [] root (rows.flatMap (forest.stops countColumn)))
    (hi : forest[i]? = some node) (hshown : node.isShown = true) (hparent : node.parent = none)
    (hvalue : node.aggregation.isValueGroup = true) (id : String) :
    id ∈ (Output.entriesOf (root.outputAt? [] node.name)).map Bucket.id ↔
      ∃ row ∈ rows, (node.valueBucket? (forest.sourceAt countColumn row i)).any
        (fun b => b.id == id) = true := by
  have hleg := Node.isLeg_of_isValueGroup hvalue
  have hfind := (hhosts.bucketOn?_of_root (List.mem_of_getElem? hi) hparent hvalue).2 id
  have hfresh (row : Row) : (node.freshAt? row (.named id)).isSome =
      (node.valueBucket? row).any fun b => b.id == id := by
    rw [Node.freshAt?, Option.isSome_filter]
  calc id ∈ (Output.entriesOf (root.outputAt? [] node.name)).map Bucket.id
      ↔ (root.bucketOn? [] ⟨node.name, .named id⟩).isSome = true := by
        rw [hfind, List.find?_isSome, List.mem_map]
        simp
    _ ↔ ∃ stop ∈ rows.flatMap (forest.stops countColumn),
          (stop.opens? [] ⟨node.name, .named id⟩).isSome = true := by
        rw [hgains.bucket]
        exact or_iff_right (by simp [Level.bucketOn?, Level.outputOn?, Level.levelOn?, Level.get?])
    _ ↔ _ := by
        simp only [List.mem_flatMap, ← hfresh]
        constructor
        · rintro ⟨stop, ⟨row, hrow, hstop⟩, hopens⟩
          exact ⟨row, hrow, (h.exists_opens_of_root hi hshown hparent hleg _).mp
            ⟨stop, hstop, hopens⟩⟩
        · rintro ⟨row, hrow, hany⟩
          obtain ⟨stop, hstop, hopens⟩ :=
            (h.exists_opens_of_root hi hshown hparent hleg _).mpr hany
          exact ⟨stop, ⟨row, hrow, hstop⟩, hopens⟩

/-- A bucket in the list of a node of the request's own level counts the documents of the rows with
its value. -/
theorem IsLaidOut.docCount_of_mem_entries (h : forest.IsLaidOut) (hhosts : forest.Hosts root)
    (hgains : Level.Gains [] root (rows.flatMap (forest.stops countColumn)))
    (hi : forest[i]? = some node) (hshown : node.isShown = true) (hparent : node.parent = none)
    (hvalue : node.aggregation.isValueGroup = true) {b : Bucket Output}
    (hb : b ∈ Output.entriesOf (root.outputAt? [] node.name)) :
    b.docCount = (rows.map fun row =>
      if (node.valueBucket? (forest.sourceAt countColumn row i)).any (fun c => c.id == b.id) = true
      then (forest.sourceAt countColumn row i).count countColumn else 0).sum := by
  have hleg := Node.isLeg_of_isValueGroup hvalue
  obtain ⟨hdistinct, hfind⟩ :=
    hhosts.bucketOn?_of_root (List.mem_of_getElem? hi) hparent hvalue
  obtain ⟨k, hk⟩ := List.getElem?_of_mem hb
  have hdocs : root.docsOn [] ⟨node.name, .named b.id⟩ = b.docCount := by
    rw [Level.docsOn, hfind, (Output.find?_id_eq_some_iff hdistinct).mpr ⟨k, hk, rfl⟩]
    rfl
  have hempty : Level.docsOn [] [] ⟨node.name, .named b.id⟩ = 0 := rfl
  have hgives (row : Row) : node.gives row (.named b.id) =
      (node.valueBucket? row).any fun c => c.id == b.id := by
    unfold Node.gives
    cases haggregation : node.aggregation <;> rfl
  rw [← hdocs, hgains.docs, hempty, Nat.zero_add]
  clear hgains hdocs hempty
  induction rows with
  | nil => rfl
  | cons row rest ih =>
      rw [List.flatMap_cons, List.map_append, List.sum_append, ih, List.map_cons, List.sum_cons,
        h.sum_docsFor_of_root hi hshown hparent hleg, hgives]

end

end Forest

/-! ## The list of a terms aggregation -/

/-- What a response shows that is made of rows and of rows of empty intervals. -/
theorem Forest.IsLaidOut.listsValues_of_gains {forest : Forest} (h : forest.IsLaidOut)
    {countColumn : String} {root : Level} {rows settled gaps : List Row} {i : Nat} {node : Node}
    {t : Terms} (hi : forest[i]? = some node) (hshown : node.isShown = true)
    (hparent : node.parent = none) (ht : node.aggregation = .terms t)
    (hhosts : forest.Hosts root)
    (hgains : Level.Gains [] root (settled.flatMap (forest.stops countColumn)))
    (hperm : settled.Perm (rows ++ gaps))
    (hloud : ∀ row ∈ settled, forest.isSilenced row i = false)
    (hgaps : ∀ gap ∈ gaps, gap.count countColumn = 0 ∧
      ∃ row ∈ rows, gap.get? t.field = row.get? t.field)
    (hplain : ∀ row ∈ rows, ∀ value, row.get? t.field = some value → Cell.IsPlain value) :
    t.ListsValues countColumn rows (Output.entriesOf (root.outputAt? [] node.name)) := by
  have hvalue : node.aggregation.isValueGroup = true := by rw [ht]; rfl
  have hplainAll {row : Row} (hrow : row ∈ settled) (value : Json)
      (hget : row.get? t.field = some value) : Cell.IsPlain value := by
    rcases List.mem_append.mp (hperm.mem_iff.mp hrow) with hmem | hgap
    · exact hplain row hmem value hget
    · obtain ⟨-, before, hbefore, heq⟩ := hgaps row hgap
      exact hplain before hbefore value (heq ▸ hget)
  have hsource {row : Row} (hrow : row ∈ settled) : forest.sourceAt countColumn row i = row := by
    rw [sourceAt, hloud row hrow]
    rfl
  have hany {row : Row} (hrow : row ∈ settled) (id : String) :
      ((node.valueBucket? (forest.sourceAt countColumn row i)).any fun b => b.id == id) =
        (row.textAt? t.field == some id) := by
    rw [hsource hrow, Node.valueBucket?, ht]
    exact Terms.any_bucket? (hplainAll hrow) id
  refine ⟨?_, (hhosts.bucketOn?_of_root (List.mem_of_getElem? hi) hparent hvalue).1,
    fun id => ?_, fun b hb => ?_⟩
  · intro row hrow other hother b c hb hc
    have hrowId := Terms.map_id_bucket? (hplain row hrow)
    have hotherId := Terms.map_id_bucket? (hplain other hother)
    rw [hb, Option.map_some] at hrowId
    rw [hc, Option.map_some] at hotherId
    rw [← hrowId, ← hotherId, Option.some.injEq]
  · rw [h.mem_ids_iff hhosts hgains hi hshown hparent hvalue]
    constructor
    · rintro ⟨row, hrow, htext⟩
      rw [hany hrow, beq_iff_eq] at htext
      rcases List.mem_append.mp (hperm.mem_iff.mp hrow) with hmem | hgap
      · exact ⟨row, hmem, htext⟩
      · obtain ⟨-, before, hbefore, heq⟩ := hgaps row hgap
        exact ⟨before, hbefore, by rw [← htext, Row.textAt?, Row.textAt?, heq]⟩
    · rintro ⟨row, hrow, htext⟩
      have hmem := hperm.mem_iff.mpr (List.mem_append_left gaps hrow)
      exact ⟨row, hmem, by rw [hany hmem, htext, beq_self_eq_true]⟩
  · have hnone : (gaps.map fun row =>
        if (row.textAt? t.field == some b.id) = true then row.count countColumn
        else 0).sum = 0 := by
      refine List.sum_eq_zero fun docs hmem => ?_
      obtain ⟨gap, hgap, rfl⟩ := List.mem_map.mp hmem
      rw [(hgaps gap hgap).1, ite_self]
    rw [h.docCount_of_mem_entries hhosts hgains hi hshown hparent hvalue hb, Rows.documents_filter]
    calc _ = (settled.map fun row => if (row.textAt? t.field == some b.id) = true
            then row.count countColumn else 0).sum := by
          congr 1
          apply List.map_congr_left
          intro row hrow
          rw [hany hrow, hsource hrow]
      _ = ((rows ++ gaps).map fun row => if (row.textAt? t.field == some b.id) = true
            then row.count countColumn else 0).sum := (hperm.map _).sum_nat
      _ = _ := by rw [List.map_append, List.sum_append, hnone, Nat.add_zero]

namespace TablePlan

/-- The list of a terms aggregation of a request without filters, before it is put in order and cut,
is that of the values of its attribute, as long as the integers among them are plain. A histogram
that is filled in must read a column of its own. -/
theorem listsValues_respond {now : Calendar.Instant} {json : Json} {forest : Forest} {table : Table}
    {settings : Settings} {plan : TablePlan} {node : Node} {t : Terms}
    (hforest : Forest.ofJson now json = .ok forest) (hkeys : json.hasDistinctKeys = true)
    (hplan : plan ∈ forTables forest [table] settings) (hlegs : ∀ n ∈ forest, n.isLeg = false)
    (hnode : node ∈ forest) (hparent : node.parent = none) (ht : node.aggregation = .terms t)
    (hapart : ∀ target, Rows.gapTarget? plan.forest = some target →
      t.field ≠ target.column ∧ t.field ≠ plan.countColumn)
    {results : List Fields}
    (hplain : ∀ cells ∈ results, ∀ value, cells.get? t.field = some value → Cell.IsPlain value) :
    t.ListsValues plan.countColumn (results.map fun cells => Row.ofCells cells .engine)
      (Output.entriesOf ((plan.respond settings results).outputAt? [] node.name)) := by
  obtain ⟨hskipped, hwhole⟩ := isWhole_of_mem_forTables hforest hplan hlegs
  obtain ⟨hlaid, -⟩ := isLaidOut_of_mem_forTables hforest hkeys hplan hskipped
  have hrevision := isRevision_of_mem_forTables hplan
  obtain ⟨i, hi⟩ := List.getElem?_of_mem hnode
  obtain ⟨shown, hshown, hrevised⟩ := hrevision.node_after hi
  have hmem := List.mem_of_getElem? hshown
  have htShown : shown.aggregation = .terms t := hrevised.aggregation.trans ht
  have hactive := (hwhole shown hmem).1
  have hisShown : shown.isShown = true := by
    simp [Node.isShown, Node.isQuery, Aggregation.isQuery, Aggregation.query?, htShown, hactive]
  have hplanLegs : ∀ n ∈ plan.forest, n.isLeg = false := by
    intro n hn
    obtain ⟨j, hj⟩ := List.getElem?_of_mem hn
    obtain ⟨before, hbefore, hnode⟩ := hrevision.node hj
    rw [Node.isLeg, hnode.aggregation]
    exact hlegs before (List.mem_of_getElem? hbefore)
  -- the settled rows are the rows and those of empty intervals
  let rows := results.map fun cells => Row.ofCells cells .engine
  let context := plan.rowContext settings
  obtain ⟨gaps, hperm, hgapRows⟩ := Rows.exists_gaps_run context hplanLegs hwhole rows
  obtain ⟨hhosts, hgains⟩ := hlaid.gains_foldRows plan.countColumn (plan.settleRows settings rows)
    (plan.forest.hosts_nil)
  rw [← hrevised.name]
  refine hlaid.listsValues_of_gains hshown hisShown (hrevised.parent.trans hparent) htShown hhosts
    hgains hperm ?_ ?_ ?_
  · intro row hrow
    rcases List.mem_append.mp (hperm.mem_iff.mp hrow) with hmem | hgap
    · obtain ⟨cells, -, rfl⟩ := List.mem_map.mp hmem
      rfl
    · obtain ⟨target, -, template, -, index, rfl⟩ := hgapRows row hgap
      rfl
  · intro gap hgap
    obtain ⟨target, htarget, template, htemplate, index, rfl⟩ := hgapRows gap hgap
    refine ⟨Rows.count_gapRow, template, htemplate, ?_⟩
    have hbefore := Rows.lt_index_of_terms htarget hshown hactive htShown
    have houter : t.field ∈ plan.forest.groupColumnsBefore target.index :=
      Forest.mem_groupColumnsBefore hshown hbefore
        (by simp [Node.groupColumn?, hactive, htShown, Node.outputColumn?])
    obtain ⟨hcolumn, hcount⟩ := hapart target htarget
    have hcountContext : t.field ≠ context.countColumn := hcount
    rw [Rows.get?_gapRow hcolumn hcountContext, if_pos (by simpa using houter)]
  · intro row hrow value hvalue
    obtain ⟨cells, hcells, rfl⟩ := List.mem_map.mp hrow
    exact hplain cells hcells value (Option.filter_eq_some_iff.mp hvalue).1

/-! ### Values beyond the small integers -/

/-- A request for the values of one attribute. -/
def valuesRequest : Json :=
  .object [("aggs", .object [("a", .object [("terms", .object [("field", .string "f")])])])]

/-- The forest of that request. -/
def valuesForest : Forest :=
  [Node.new "a" none 0 false (.terms ⟨"f", Terms.defaultSize, 1, Terms.defaultOrder⟩)]

/-- The plan of that request for a table with the attribute. -/
def valuesPlan : TablePlan := ofForest valuesForest ⟨"t", [("f", true)]⟩ false ["f"] .standard

/-- A row for one document with the first value and two documents with the second. -/
def valuesRows (first second : Json) : List Fields :=
  [[("f", first), ("cnt", .ofInt 1)], [("f", second), ("cnt", .ofInt 2)]]

/-- The buckets of the two rows. -/
def valuesEntries (first second : Json) : List (Bucket Output) :=
  Output.entriesOf ((valuesPlan.respond .standard (valuesRows first second)).outputAt? [] "a")

/-- An integer and the text of its digits are one value. -/
theorem valuesEntries_digits_share :
    Terms.ListsValues ⟨"f", Terms.defaultSize, 1, Terms.defaultOrder⟩ "cnt"
      ((valuesRows (.ofInt 7) (.string "7")).map fun cells => Row.ofCells cells .engine)
      (valuesEntries (.ofInt 7) (.string "7")) := by
  have hforest : Forest.ofJson default valuesRequest = .ok valuesForest := rfl
  have hplan : valuesPlan ∈ forTables valuesForest [⟨"t", [("f", true)]⟩] .standard :=
    List.mem_singleton.mpr rfl
  have hplain : ∀ cells ∈ valuesRows (.ofInt 7) (.string "7"), ∀ value,
      cells.get? "f" = some value → Cell.IsPlain value := by
    intro cells hcells value hvalue
    rcases List.mem_cons.mp hcells with rfl | hrest
    · obtain rfl := Option.some.inj hvalue
      exact (by decide : (7 : Int).natAbs ≤ 2 ^ 53)
    · obtain rfl := List.mem_singleton.mp hrest
      obtain rfl := Option.some.inj hvalue
      trivial
  exact listsValues_respond hforest (by decide +kernel) hplan (by decide +kernel)
    (List.mem_singleton.mpr rfl) rfl rfl (fun _ htarget => nomatch htarget) hplain

/-- The first integer that a binary number cannot hold shares the bucket of its neighbour. -/
theorem valuesEntries_neighbours_share :
    Forest.ofJson default valuesRequest = .ok valuesForest ∧
      valuesPlan ∈ forTables valuesForest [⟨"t", [("f", true)]⟩] .standard ∧
      ¬ Terms.ListsValues ⟨"f", Terms.defaultSize, 1, Terms.defaultOrder⟩ valuesPlan.countColumn
        ((valuesRows (.ofInt 9007199254740993) (.ofInt 9007199254740992)).map
          fun cells => Row.ofCells cells .engine)
        (valuesEntries (.ofInt 9007199254740993) (.ofInt 9007199254740992)) := by
  refine ⟨rfl, List.mem_singleton.mpr rfl, ?_⟩
  intro hvalues
  have hmem := (hvalues.mem_iff "9007199254740993").mpr
    ⟨_, List.mem_map_of_mem List.mem_cons_self, by decide +kernel⟩
  exact absurd hmem (by decide +kernel)

end TablePlan
end Rollup
