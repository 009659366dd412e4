/-
# Metrics that only some tables compute

Of several tables some may lack what a metric is about. The rows of such a table take nothing to
the metric and still get to it, so the response shows the metric in every bucket that rows get to,
as the rows of the other tables alone make it. Where no row of another table gets to it, it is shown
as it is over no rows: a mean, a least and a greatest value are null then, and a sum is zero.
-/

import Rollup.Proofs.Plan.Blanked
import Rollup.Proofs.Response.Tables

namespace Rollup

/-- Whether the table of a plan can compute a metric. -/
def TablePlan.canCompute (plan : TablePlan) (m : Metric) : Bool :=
  plan.draft.context.table.isAggregatable m.field

/-- Whether a plan blanks the node at an index. -/
def TablePlan.blanksAt (plan : TablePlan) (i : Nat) : Bool :=
  plan.forest[i]?.any fun n => n.decisions.blanked

theorem Node.isUsable_metric_iff {n : Node} {m : Metric} (hm : n.aggregation = .metric m)
    (table : Table) : n.IsUsable table ↔ table.isAggregatable m.field = true := by
  simp [Node.IsUsable, Node.isMetric_of_eq hm, hm, Aggregation.attributes]

/-- Whether rows of a table get to the end of a trail. -/
def Part.GetsTo (part : Part) (trail : Trail) : Prop := ∃ stop ∈ part.stops, stop.trail = trail

instance (part : Part) (trail : Trail) : Decidable (part.GetsTo trail) :=
  inferInstanceAs (Decidable (∃ stop ∈ part.stops, stop.trail = trail))

/-- A metric over no rows is null, unless it is a sum. -/
theorem Output.toJson_metric_empty_iff (function : MetricFunction) :
    (Output.metric (Tally.empty function)).toJson = .object [("value", .null)] ↔
      function ≠ .sum := by
  cases function with
  | sum =>
      have hzero : (((Output.metric (Tally.empty .sum)).toJson.field? "value").map Json.isNull) =
          some false := by decide +kernel
      refine ⟨fun hnull => ?_, fun hne => absurd rfl hne⟩
      rw [hnull] at hzero
      cases hzero
  | _ => exact ⟨fun _ => by decide, fun _ => rfl⟩

/-! ## Tallies at one place -/

section

variable {root : Level} {parts : List Part} {trail : Trail} {name : String}
  {function : MetricFunction}

/-- The tally at a place to which no tally was shown before. -/
theorem Level.Gains.tallyOn?_eq {stops : List Stop} (h : Gains [] root stops) (trail : Trail)
    (name : String) : root.tallyOn? trail name =
      stops.foldl (fun tally stop => stop.addTo trail name tally) none := by
  rw [h.tally, tallyOn?, outputOn?]
  cases trail <;> rfl

/-- Where only metrics of one function stand, there is a tally if a row gets there, and it has the
values of all rows. -/
theorem Level.Gains.tallyOn?_spec (h : Gains [] root (parts.flatMap Part.stops))
    (hmetric : ∀ stop ∈ parts.flatMap Part.stops, stop.IsAt trail name →
      stop.IsMetricAt trail name function) :
    ((∃ stop ∈ parts.flatMap Part.stops, stop.IsAt trail name) →
      root.tallyOn? trail name = some (Tally.merged function (Part.measures parts trail name))) ∧
    (root.tallyOn? trail name).getD (Tally.empty function) =
      Tally.merged function (Part.measures parts trail name) := by
  have hfunction : ∀ stop ∈ parts.flatMap Part.stops, stop.IsAt trail name →
      ∀ m, stop.node.aggregation = .metric m → m.function = function := by
    intro stop hstop hat m hm
    obtain ⟨-, m', hm', rfl⟩ := hmetric stop hstop hat
    rw [hm] at hm'
    rw [Aggregation.metric.inj hm']
  have hfold := Stop.foldl_addTo_none hfunction
  rw [h.tallyOn?_eq]
  refine ⟨fun ⟨stop, hstop, hat⟩ => hfold.1 ⟨stop, hstop, hmetric stop hstop hat⟩, ?_⟩
  by_cases hsome : ∃ stop ∈ parts.flatMap Part.stops, stop.IsMetricAt trail name function
  · rw [hfold.1 hsome]
    rfl
  · have hnone : Part.measures parts trail name = [] := by
      rw [Part.measures, List.filterMap_eq_nil_iff]
      intro stop hstop
      exact if_neg fun hat => hsome ⟨stop, hstop, hmetric stop hstop hat⟩
    rw [hfold.2 hsome, hnone]
    rfl

/-- Tables whose rows take no values to a place can be left out there. -/
theorem TablePlan.measures_partsOf_filter {settings : Settings}
    {sources : List (TablePlan × List Row)} {keep : TablePlan × List Row → Bool}
    (h : ∀ source ∈ sources, keep source = false →
      ∀ stop ∈ (AnsweredSearch.partOf settings source).stops, stop.measure? trail name = none) :
    Part.measures (partsOf settings (sources.filter keep)) trail name =
      Part.measures (partsOf settings sources) trail name := by
  induction sources with
  | nil => rfl
  | cons source rest ih =>
      have hrest := ih fun other hother => h other (List.mem_cons_of_mem source hother)
      unfold Part.measures partsOf at hrest ⊢
      rw [List.map_cons, List.flatMap_cons, List.filterMap_append, ← hrest]
      cases hkeep : keep source with
      | true =>
          rw [List.filter_cons_of_pos hkeep, List.map_cons, List.flatMap_cons,
            List.filterMap_append]
      | false =>
          have hnone := List.filterMap_eq_nil_iff.mpr (h source List.mem_cons_self hkeep)
          rw [List.filter_cons_of_neg (by simp [hkeep]), hnone, List.nil_append]

end

namespace AnsweredSearch

variable {search : AnsweredSearch} {source : TablePlan × List Row}

/-! ## What a table takes to a metric -/

/-- Whether a node of the request is a metric whose place is at the end of a trail. -/
structure HasMetric (search : AnsweredSearch) (trail : Trail) (i : Nat) (node : Node)
    (m : Metric) : Prop where
  stands : search.forest[i]? = some node
  aggregation : node.aggregation = .metric m
  parent : search.forest.parentOn? trail = some node.parent

/-- The plans of a request for several tables blank the metrics that the tables cannot compute. -/
theorem blanksFor_of_mem_sources (hmany : 1 < search.tables.length) (hsome : search.answers ≠ [])
    (h : source ∈ search.sources) :
    source.1.forest.BlanksFor source.1.draft.context.table := by
  obtain ⟨answer, hanswer, heq, -⟩ := exists_answer_of_mem_sources hsome h
  obtain ⟨hplan, hskipped⟩ := mem_plans_of_mem_answers hanswer
  rw [heq]
  exact TablePlan.blanksFor_of_mem_forTables search.isAccepted search.hasDistinctKeys hmany hplan
    hskipped

variable {trail : Trail} {i : Nat} {node : Node} {m : Metric}

namespace HasMetric

variable (hmetric : search.HasMetric trail i node m) (h : source ∈ search.sources)
include hmetric h

/-- The node of a table's plan that revises a metric. -/
theorem exists_revised : ∃ x, source.1.forest[i]? = some x ∧ node.IsRevision x ∧
    x.aggregation = .metric m := by
  obtain ⟨x, hx, hxr⟩ := (search.isRevision_of_mem_sources h).node_after hmetric.stands
  exact ⟨x, hx, hxr, hxr.aggregation.trans hmetric.aggregation⟩

/-- Where a metric stands a row stops at no other node. -/
theorem node_of_isAt {stop : Stop} (hstop : stop ∈ (partOf search.settings source).stops)
    (hat : stop.IsAt trail node.name) : source.1.forest[i]? = some stop.node ∧
      stop.node.isShown = true ∧ stop.node.aggregation = .metric m := by
  have hrevision := search.isRevision_of_mem_sources h
  obtain ⟨row, -, hrowStop⟩ := List.mem_flatMap.mp hstop
  obtain ⟨j, hj, hshown, -⟩ := Forest.mem_stops hrowStop
  obtain ⟨x, hx, hxr, hkind⟩ := hmetric.exists_revised h
  have hlaid := hrevision.isLaidOut search.isLaidOut_forest
  have hparent := hlaid.parentOn?_of_mem_stops hrowStop
  rw [Forest.parentOn?, hrevision.parentAt?_eq, hat.1] at hparent
  have hakin : x.IsAkin stop.node :=
    ⟨Node.isQuery_of_metric hkind, Node.isQuery_of_isShown hshown, hxr.name.trans hat.2.symm,
      hxr.parent.trans (Option.some.inj (hmetric.parent.symm.trans hparent))⟩
  obtain rfl : i = j := by
    by_contra hne
    obtain ⟨l, -, hl, -⟩ := hlaid.sharesLegs hne hx hj hakin
    rw [hkind] at hl
    cases hl
  obtain rfl := Option.some.inj (hx.symm.trans hj)
  exact ⟨hx, hshown, hkind⟩

/-- A metric at which rows stop is blanked just when the table cannot compute it. -/
theorem blanked_iff_of_isAt (hmany : 1 < search.tables.length) (hsome : search.answers ≠ [])
    {stop : Stop} (hstop : stop ∈ (partOf search.settings source).stops)
    (hat : stop.IsAt trail node.name) :
    stop.node.decisions.blanked = true ↔ source.1.canCompute m = false := by
  obtain ⟨hx, hshown, hkind⟩ := hmetric.node_of_isAt h hstop hat
  have hmem := List.mem_of_getElem? hx
  have hblanks := blanksFor_of_mem_sources hmany hsome h
  have husable : stop.node.IsUsable source.1.draft.context.table ↔
      source.1.canCompute m = true := Node.isUsable_metric_iff hkind _
  rw [← Bool.not_eq_true, ← husable]
  refine ⟨fun hblanked => (hblanks.blanked stop.node hmem hblanked).2, fun hlacks => ?_⟩
  apply Node.blanked_of_isShown hshown
  by_contra hactive
  exact hlacks (hblanks.active stop.node hmem (Node.isMetric_of_eq hkind) (by simpa using hactive))

/-- A table that cannot compute a metric takes no value to it. -/
theorem measure?_eq_none (hmany : 1 < search.tables.length) (hsome : search.answers ≠ [])
    (hlacks : source.1.canCompute m = false) {stop : Stop}
    (hstop : stop ∈ (partOf search.settings source).stops) :
    stop.measure? trail node.name = none := by
  by_cases hat : stop.IsAt trail node.name
  · obtain ⟨hx, -, hkind⟩ := hmetric.node_of_isAt h hstop hat
    have hmem := List.mem_of_getElem? hx
    have hblanked : Rows.isBlanked stop.node = true := by
      rw [Rows.isBlanked, Node.isMetric_of_eq hkind,
        (hmetric.blanked_iff_of_isAt h hmany hsome hstop hat).mpr hlacks, Bool.and_self]
    obtain ⟨-, -, hmarked⟩ := source_spec hsome h
    obtain ⟨c, hc⟩ := Option.ne_none_iff_exists'.mp (hmarked.column stop.node hmem
      (by simp [hkind, Aggregation.needsColumn]) (by simp [hkind, Aggregation.expression?]))
    obtain ⟨row, hrow, hrowStop⟩ := List.mem_flatMap.mp hstop
    obtain ⟨j, -, -, -, hcount, hsource⟩ := Forest.mem_stops hrowStop
    have hnone : stop.row.measure? c stop.countColumn = none := by
      rw [hcount, hsource, Forest.sourceAt]
      split
      · rw [Row.measure?, if_pos (Row.count_muted row _)]
      · have hcell : row.number? c = none := by
          rw [Row.number?, get?_of_mem_run hmem hblanked hc row hrow]
          rfl
        rw [Row.measure?, hcell, ite_self]
    simp [Stop.measure?, hat, hkind, hc, hnone]
  · exact if_neg hat

/-- Rows that get to the place of a metric get to the metric. -/
theorem exists_stop (hmany : 1 < search.tables.length) (hsome : search.answers ≠ [])
    (hgets : (partOf search.settings source).GetsTo trail) :
    ∃ stop ∈ (partOf search.settings source).stops, stop.IsAt trail node.name := by
  obtain ⟨stop, hstop, htrail⟩ := hgets
  obtain ⟨row, hrow, hrowStop⟩ := List.mem_flatMap.mp hstop
  have hrevision := search.isRevision_of_mem_sources h
  have hlaid := hrevision.isLaidOut search.isLaidOut_forest
  obtain ⟨x, hx, hxr, hkind⟩ := hmetric.exists_revised h
  have hparent : x.parent = stop.node.parent := by
    have hat := hlaid.parentOn?_of_mem_stops hrowStop
    rw [Forest.parentOn?, hrevision.parentAt?_eq, htrail] at hat
    exact hxr.parent.trans (Option.some.inj (hmetric.parent.symm.trans hat))
  have hblanks := blanksFor_of_mem_sources hmany hsome h
  have hshown : x.isShown = true := by
    by_contra hhidden
    -- the metric would be left out with all of an aggregation that has taken the row in
    obtain ⟨p, hp, hemptied⟩ := hblanks.hidden i x hx (Node.isMetric_of_eq hkind)
      (by simpa using hhidden)
    obtain ⟨y, hy, hyparent⟩ := Forest.parent?_eq_some.mp hp
    obtain rfl := Option.some.inj (hx.symm.trans hy)
    obtain ⟨j, z, hz, hzshown, hzmetric, hanchor⟩ :=
      Forest.exists_shown_of_mem_stops hrowStop (hparent.symm.trans hyparent)
    have hout := (Forest.isOut_iff hz).mp
      (hemptied j z hz (Node.isQuery_of_isShown hzshown) hanchor)
    obtain ⟨hmetricLeg, -⟩ := hblanks.blanked z (List.mem_of_getElem? hz)
      (Node.blanked_of_isShown hzshown hout)
    exact Bool.false_ne_true (hzmetric.symm.trans hmetricLeg)
  obtain ⟨other, hother, hotherTrail, rfl⟩ := hlaid.exists_stop_beside hrowStop hx hshown hparent
  exact ⟨other, List.mem_flatMap.mpr ⟨row, hrow, hother⟩, hotherTrail.trans htrail, hxr.name⟩

end HasMetric

/-! ## What is shown of a metric -/

/-- The response that the rows of those tables make that can compute a metric. -/
def computing (search : AnsweredSearch) (m : Metric) : Level :=
  (TablePlan.foldTables search.settings
    (search.sources.filter fun source => source.1.canCompute m)).root

theorem gains_computing (search : AnsweredSearch) (m : Metric) :
    Level.Gains [] (search.computing m) ((TablePlan.partsOf search.settings
      (search.sources.filter fun source => source.1.canCompute m)).flatMap Part.stops) := by
  rw [computing, TablePlan.root_foldTables]
  refine (Part.gains_foldl search.isLaidOut_forest ?_ search.forest.hosts_nil).2
  intro part hpart
  obtain ⟨source, hsource, rfl⟩ := List.mem_map.mp hpart
  exact search.isRevision_of_mem_sources (List.mem_of_mem_filter hsource)

/-- No list of a response that is not put in order loses a bucket when it is finished. -/
theorem keepsUnordered_root (search : AnsweredSearch) : search.response.root.KeepsUnordered := by
  intro trail name list hlist horder
  obtain ⟨stop, -, -, hframes⟩ := search.gains_root.2.exists_frame hlist
  have hfinish := Node.finish_of_frames hframes
  rw [hfinish] at horder ⊢
  exact Node.valueFinish_eq_plain horder

/-- To a metric that is blanked for all tables whose rows get there no value is taken. -/
theorem HasMetric.tallyOn?_computing_eq_none (hmetric : search.HasMetric trail i node m)
    (hmany : 1 < search.tables.length) (hsome : search.answers ≠ [])
    (hblanked : ∀ source ∈ search.sources, (partOf search.settings source).GetsTo trail →
      source.1.blanksAt i = true) :
    (search.computing m).tallyOn? trail node.name = none := by
  have hnone : (search.computing m).outputOn? trail node.name = none := by
    rw [← Option.not_isSome_iff_eq_none, (search.gains_computing m).output]
    rintro (hempty | ⟨stop, hstop, hat⟩)
    · cases trail <;> cases hempty
    · obtain ⟨part, hpart, hmem⟩ := List.mem_flatMap.mp hstop
      obtain ⟨source, hsource, rfl⟩ := List.mem_map.mp hpart
      obtain ⟨hsource, hcan⟩ := List.mem_filter.mp hsource
      have hblanks := hblanked source hsource ⟨stop, hmem, hat.1⟩
      rw [TablePlan.blanksAt, (hmetric.node_of_isAt hsource hmem hat).1, Option.any_some,
        hmetric.blanked_iff_of_isAt hsource hmany hsome hmem hat] at hblanks
      exact Bool.false_ne_true (hblanks.symm.trans hcan)
  rw [Level.tallyOn?, hnone, Option.bind_none]

/-- The stops of some of the tables at the place of a metric are at the metric. -/
theorem HasMetric.isMetricAt_of_mem_partsOf (hmetric : search.HasMetric trail i node m)
    {sources : List (TablePlan × List Row)} (hsub : sources ⊆ search.sources) :
    ∀ stop ∈ (TablePlan.partsOf search.settings sources).flatMap Part.stops,
      stop.IsAt trail node.name → stop.IsMetricAt trail node.name m.function := by
  intro stop hstop hat
  obtain ⟨part, hpart, hmem⟩ := List.mem_flatMap.mp hstop
  obtain ⟨source, hsource, rfl⟩ := List.mem_map.mp hpart
  exact ⟨hat, m, (hmetric.node_of_isAt (hsub hsource) hmem hat).2.2, rfl⟩

/-- The tally of a metric that these tables make at a place. -/
def computed (search : AnsweredSearch) (trail : Trail) (name : String) (m : Metric) : Tally :=
  ((search.computing m).tallyOn? trail name).getD (Tally.empty m.function)

/-- The tables that cannot compute a metric have no part in its tally. -/
theorem HasMetric.computed_eq (hmetric : search.HasMetric trail i node m)
    (hmany : 1 < search.tables.length) (hsome : search.answers ≠ []) :
    search.computed trail node.name m =
      Tally.merged m.function (Part.measures search.parts trail node.name) := by
  rw [computed, ((search.gains_computing m).tallyOn?_spec
      (hmetric.isMetricAt_of_mem_partsOf (List.filter_subset_self _))).2,
    TablePlan.measures_partsOf_filter fun source hsource hlacks stop =>
      hmetric.measure?_eq_none hsource hmany hsome hlacks]
  rfl

/-- The response has a metric where rows get to, with the tally of all rows. -/
theorem HasMetric.outputOn?_root (hmetric : search.HasMetric trail i node m)
    (hmany : 1 < search.tables.length) (hsome : search.answers ≠ []) :
    search.response.root.outputOn? trail node.name =
      if ∃ source ∈ search.sources, (partOf search.settings source).GetsTo trail then
        some (.metric (Tally.merged m.function (Part.measures search.parts trail node.name)))
      else none := by
  have hgains := search.gains_root.2
  have hat := hmetric.isMetricAt_of_mem_partsOf fun _ => id
  split
  · rename_i hgets
    obtain ⟨source, hsource, hgetsTo⟩ := hgets
    obtain ⟨stop, hstop, hplace⟩ := hmetric.exists_stop hsource hmany hsome hgetsTo
    have htally := (hgains.tallyOn?_spec hat).1
      ⟨stop, List.mem_flatMap.mpr ⟨_, List.mem_map_of_mem hsource, hstop⟩, hplace⟩
    obtain ⟨output, houtput, hof⟩ := Option.bind_eq_some_iff.mp htally
    cases output with
    | metric tally => rw [houtput, Option.some.inj hof]
    | buckets list => cases hof
    | single b => cases hof
  · rename_i hgets
    rw [← Option.not_isSome_iff_eq_none, hgains.output]
    rintro (hempty | ⟨stop, hstop, hplace⟩)
    · cases trail <;> cases hempty
    · obtain ⟨part, hpart, hmem⟩ := List.mem_flatMap.mp hstop
      obtain ⟨source, hsource, rfl⟩ := List.mem_map.mp hpart
      exact hgets ⟨source, hsource, stop, hmem, hplace.1⟩

/-- In every bucket the response shows a metric if rows get there, as the rows of those tables alone
make it that can compute it. Where it is blanked for all tables whose rows get there, the metric is
null just when it is no sum. -/
theorem shows_metric (hmany : 1 < search.tables.length) (hsome : search.answers ≠ [])
    (hmetric : search.HasMetric trail i node m) {level : Level}
    (hlevel : Level.levelOn? trail (finishedLevel search.response.root) = some level) :
    level.get? node.name =
        (if ∃ source ∈ search.sources, (partOf search.settings source).GetsTo trail then
          some (.metric (search.computed trail node.name m)) else none) ∧
      ((∀ source ∈ search.sources, (partOf search.settings source).GetsTo trail →
          source.1.blanksAt i = true) →
        ((Output.metric (search.computed trail node.name m)).toJson =
          .object [("value", .null)] ↔ m.function ≠ .sum)) := by
  refine ⟨?_, fun hblanked => ?_⟩
  · obtain ⟨inner, hinner, rfl⟩ := Level.levelOn?_finishedLevel search.gains_root.1.distinct
      search.keepsUnordered_root hlevel
    have hshown := hmetric.outputOn?_root hmany hsome
    rw [Level.outputOn?, hinner, Option.bind_some] at hshown
    rw [Level.get?_finishedLevel, hshown, hmetric.computed_eq hmany hsome]
    split <;> rfl
  · rw [computed, hmetric.tallyOn?_computing_eq_none hmany hsome hblanked, Option.getD_none]
    exact Output.toJson_metric_empty_iff m.function

/-! ### Hosts of two tables, one of which has no sizes -/

/-- A request for the hosts, with a metric of the sizes of each. -/
def hostSizes (function : MetricFunction) : Json :=
  .object [("aggs", .object [("h", .object [("terms", .object [("field", .string "host")]),
    ("aggs", .object [("m", .object [(function.name, .object [("field", .string "bytes")])])])])])]

/-- The aggregations as they are read. -/
def hostSizesForest (function : MetricFunction) : Forest :=
  [Node.new "h" none 0 true (.terms ⟨"host", 10, 1, ⟨.count, .descending, false⟩⟩),
    Node.new "m" (some 0) 1 false (.metric ⟨function, "bytes"⟩)]

def sizedTable : Table := ⟨"t", [("host", true), ("bytes", true)]⟩

def unsizedTable : Table := ⟨"u", [("host", true)]⟩

/-- The plan for one of the two tables. -/
def hostSizesPlan (function : MetricFunction) (table : Table) : TablePlan :=
  TablePlan.ofForest (hostSizesForest function) table true ["host", "bytes", "host"] .standard

/-- A search of both tables: a host in the first one and two in the second, which has no sizes. -/
def hostSizesSearch (function : MetricFunction) : AnsweredSearch where
  now := default
  request := hostSizes function
  tables := [sizedTable, unsizedTable]
  settings := .standard
  forest := hostSizesForest function
  answers :=
    [(hostSizesPlan function sizedTable,
      ⟨[[("host", .string "a"), ("al1", .ofInt 10), ("cnt", .ofInt 2)]], 1⟩),
      (hostSizesPlan function unsizedTable,
        ⟨[[("host", .string "a"), ("cnt", .ofInt 3)], [("host", .string "b"), ("cnt", .ofInt 1)]],
          2⟩)]
  isAccepted := by cases function <;> rfl
  hasDistinctKeys := by cases function <;> decide +kernel
  isComplete := by cases function <;> rfl

/-- The bucket of a host. -/
def hostTrail (host : String) : Trail := [⟨"h", .named host⟩]

/-- The mean size of a host of which only the table without sizes knows is null. -/
theorem hostSizesSearch_mean_is_null : ∃ level tally,
    Level.levelOn? (hostTrail "b") (finishedLevel (hostSizesSearch .avg).response.root) =
      some level ∧
    level.get? "m" = some (.metric tally) ∧
    (Output.metric tally).toJson = .object [("value", .null)] := by
  have hmetric : (hostSizesSearch .avg).HasMetric (hostTrail "b") 1
      (Node.new "m" (some 0) 1 false (.metric ⟨.avg, "bytes"⟩)) ⟨.avg, "bytes"⟩ :=
    ⟨rfl, rfl, by decide +kernel⟩
  have hlevel : (Level.levelOn? (hostTrail "b")
      (finishedLevel (hostSizesSearch .avg).response.root)).isSome = true := by decide +kernel
  obtain ⟨level, hlevel⟩ := Option.isSome_iff_exists.mp hlevel
  obtain ⟨hshown, hnull⟩ := shows_metric (by decide) (by simp [hostSizesSearch]) hmetric hlevel
  rw [if_pos (by decide +kernel)] at hshown
  exact ⟨level, _, hlevel, hshown, (hnull (by decide +kernel)).mpr (by decide)⟩

/-- The sum of sizes of such a host is zero, though it is blanked for the only table whose rows get
to the host. -/
theorem hostSizesSearch_sum_is_zero :
    (∃ source ∈ (hostSizesSearch .sum).sources,
      (partOf .standard source).GetsTo (hostTrail "b")) ∧
    (∀ source ∈ (hostSizesSearch .sum).sources,
      (partOf .standard source).GetsTo (hostTrail "b") → source.1.blanksAt 1 = true) ∧
    Level.tallyOn? (finishedLevel (hostSizesSearch .sum).response.root) (hostTrail "b") "m" =
      some (Tally.empty .sum) ∧
    (Output.metric (Tally.empty .sum)).toJson = .object [("value", .ofBinary64 0)] ∧
    (Output.metric (Tally.empty .sum)).toJson ≠ .object [("value", .null)] := by
  refine ⟨by decide +kernel, by decide +kernel, by decide +kernel, rfl, ?_⟩
  exact fun hnull => (Output.toJson_metric_empty_iff .sum).mp hnull rfl

end AnsweredSearch
end Rollup
