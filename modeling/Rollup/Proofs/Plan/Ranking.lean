/-
# One ranking for statement, rows and buckets

What the buckets of a terms aggregation are ordered by is found out three times: for the statement,
for the rows that have come back, and for the buckets of the response. Each time it is the key, the
count or a metric below the node, which gives way to the count just when it was left out. The three
look at different parts of a plan, and all of them find the same.
-/

import Rollup.Proofs.Plan.Disabling
import Rollup.Proofs.Plan.Selection
import Rollup.Rows.Sorting

namespace Rollup

/-- What buckets are ordered by: their keys, their documents, or a metric with its name in the
buckets, its function and its column in the rows. -/
inductive Ranking where
  | key (field : String)
  | count
  | metric (name : String) (function : MetricFunction) (column : String)

namespace Ranking

/-- What a statement orders by. -/
def target (countColumn : String) : Ranking → String
  | key field => Statement.quoteName field
  | count => countColumn
  | metric _ _ column => column

/-- What rows are ordered by, with the columns that tell the buckets apart. -/
def sortKey (group : List String) : Ranking → Rows.SortKey
  | key field => .column field
  | count => .count group
  | metric _ function column => .metric group function column

def bucketOrder (direction : Direction) : Ranking → BucketOrder
  | key _ => .key direction
  | count => .count direction
  | metric name _ _ => .metric name direction

end Ranking

namespace Forest

/-- Whether a node is the metric of some name below another node, where no other node has the
name. -/
structure IsMetricBelow (forest : Forest) (index : Nat) (name : String) (k : Nat) (x : Node)
    (m : Metric) : Prop where
  at_index : forest[k]? = some x
  parent : x.parent = some index
  name_eq : x.name = name
  metric : x.aggregation = .metric m
  only : ∀ j y, forest[j]? = some y → y.parent = some index → y.name = name → j = k

/-- What a terms node asks for. A metric gives way to the count when it is not active. -/
inductive Ranks (forest : Forest) (index : Nat) (t : Terms) : Ranking → Prop where
  | key (h : t.order.target = .key) : Ranks forest index t (.key t.field)
  | count (h : t.order.target = .count) : Ranks forest index t .count
  | metric {name column : String} {k : Nat} {x : Node} {m : Metric}
      (h : t.order.target = .metric name) (hmetric : forest.IsMetricBelow index name k x m)
      (hactive : x.isActive = true) (hcolumn : x.decisions.column = some column) :
      Ranks forest index t (.metric name m.function column)
  | fallback {name : String} {k : Nat} {x : Node} {m : Metric}
      (h : t.order.target = .metric name) (hmetric : forest.IsMetricBelow index name k x m)
      (hinactive : x.isActive = false) : Ranks forest index t .count

/-- Whether the metric that is decided on for a node is the one of a ranking. -/
def Decides (forest : Forest) (n : Node) : Ranking → Prop
  | .metric name function column => ∃ x m,
      (n.decisions.orderMetric.bind fun k => forest[k]?) = some x ∧ x.name = name ∧
        x.aggregation = .metric m ∧ m.function = function ∧ x.decisions.column = some column
  | _ => (n.decisions.orderMetric.bind fun k => forest[k]?) = none

namespace IsMetricBelow

variable {forest revised : Forest} {index k : Nat} {name : String} {x : Node} {m : Metric}

/-- Planning leaves a metric where it is. -/
theorem of_isRevision (h : forest.IsMetricBelow index name k x m)
    (hrevision : forest.IsRevision revised) :
    ∃ y, revised.IsMetricBelow index name k y m := by
  obtain ⟨y, hy, hxy⟩ := hrevision.node_after h.at_index
  refine ⟨y, hy, hxy.parent.trans h.parent, hxy.name.trans h.name_eq,
    hxy.aggregation.trans h.metric, fun j z hz hparent hname => ?_⟩
  obtain ⟨before, hbefore, hnode⟩ := hrevision.node hz
  exact h.only j before hbefore (hnode.parent ▸ hparent) (hnode.name ▸ hname)

theorem isMetric (h : forest.IsMetricBelow index name k x m) : x.isMetric = true := by
  rw [Node.isMetric, h.metric]
  rfl

end IsMetricBelow

/-! ## The metric of an order -/

theorem ok_of_forM {α ε : Type} {f : α → Except ε Unit} {items : List α}
    (h : items.forM f = .ok ()) : ∀ item ∈ items, f item = .ok () := by
  induction items with
  | nil => simp
  | cons item rest ih =>
      unfold List.forM at h
      cases hitem : f item with
      | error e => simp [hitem, bind, Except.bind] at h
      | ok u =>
          rw [hitem] at h
          exact List.forall_mem_cons.mpr ⟨hitem, ih h⟩

/-- All orders of a forest that is read were checked. -/
theorem checkOrder_of_ofJson {now : Calendar.Instant} {json : Json} {forest : Forest}
    (h : ofJson now json = .ok forest) {i : Nat} {n : Node} (hi : forest[i]? = some n) :
    forest.checkOrder i n = .ok () := by
  obtain ⟨request, hrequest, rfl⟩ := ofJson_spec h
  cases hchecked : checkOrders (ofRequest request) with
  | error e => simp [ofJson, hrequest, hchecked, bind, Except.bind] at h
  | ok u => exact ok_of_forM hchecked (n, i) (List.mem_zipIdx_iff_getElem?.mpr hi)

/-- A metric that an order names is there, and only one. -/
theorem exists_isMetricBelow {now : Calendar.Instant} {json : Json} {forest : Forest}
    (h : ofJson now json = .ok forest) (hkeys : json.hasDistinctKeys = true) {i : Nat} {n : Node}
    {t : Terms} (hi : forest[i]? = some n) (ht : n.aggregation = .terms t) {name : String}
    (hname : t.order.target = .metric name) : ∃ k x m, forest.IsMetricBelow i name k x m := by
  have hchecked := checkOrder_of_ofJson h hi
  have hsome : (forest.metricBelow? i name).isSome = true := by
    by_contra hnone
    simp [checkOrder, ht, hname, hnone] at hchecked
  obtain ⟨k, hk⟩ := Option.isSome_iff_exists.mp hsome
  obtain ⟨hlt, hfound, -⟩ := List.findIdx?_eq_some_iff_getElem.mp hk
  simp only [Bool.and_eq_true, beq_iff_eq] at hfound
  obtain ⟨⟨hparent, hmetric⟩, hnamed⟩ := hfound
  obtain ⟨m, hm⟩ := Node.exists_metric hmetric
  have hx := List.getElem?_eq_getElem hlt
  refine ⟨k, forest[k], m, hx, hparent, hnamed, hm, fun j y hy hyparent hyname => ?_⟩
  -- nodes of one name below one node are legs
  have hheaded := isHeaded_of_ofJson h hkeys
  have hquery : y.isQuery = false := by
    by_contra hquery
    obtain ⟨-, hroot⟩ := hheaded.query j y hy (by simpa using hquery)
    rw [hroot] at hyparent
    cases hyparent
  have hakin : y.IsAkin forest[k] := ⟨hquery, Node.isQuery_of_metric hm, hyname.trans hnamed.symm,
    hyparent.trans hparent.symm⟩
  rcases Nat.lt_trichotomy j k with hlt | heq | hgt
  · obtain ⟨⟨l, l', -, hleg, -⟩, -⟩ := hheaded.laidOut.neighbours j k y _ hlt hy hx hakin
    rw [hm] at hleg
    cases hleg
  · exact heq
  · obtain ⟨⟨l, l', hleg, -⟩, -⟩ := hheaded.laidOut.neighbours k j _ y hgt hx hy hakin.symm
    rw [hm] at hleg
    cases hleg

/-- A terms node asks for something where a metric that it names is there, with a column if it is
active. -/
theorem exists_ranks {forest : Forest} {i : Nat} {t : Terms}
    (hnamed : ∀ name, t.order.target = .metric name → ∃ k x m, forest.IsMetricBelow i name k x m)
    (hcolumns : ∀ x ∈ forest, x.isMetric = true → x.isActive = true →
      ∃ column, x.decisions.column = some column) : ∃ ranking, forest.Ranks i t ranking := by
  cases htarget : t.order.target with
  | key => exact ⟨_, .key htarget⟩
  | count => exact ⟨_, .count htarget⟩
  | metric name =>
      obtain ⟨k, x, m, hmetric⟩ := hnamed name htarget
      cases hactive : x.isActive with
      | false => exact ⟨_, .fallback htarget hmetric hactive⟩
      | true =>
          obtain ⟨column, hcolumn⟩ := hcolumns x (List.mem_of_getElem? hmetric.at_index)
            hmetric.isMetric hactive
          exact ⟨_, .metric htarget hmetric hactive hcolumn⟩

end Forest

namespace Plan

variable {forest : Forest} {i k : Nat} {t : Terms} {name : String} {x : Node} {m : Metric}

/-- The metric that an order names orders the buckets when it is active. -/
theorem orderMetric?_eq (hname : t.order.target = .metric name)
    (h : forest.IsMetricBelow i name k x m) :
    orderMetric? forest i t = if x.isActive = true then some k else none := by
  have honly {j : Nat} {y : Node} (hy : forest[j]? = some y) (hfound : (y.parent == some i &&
      y.isMetric && y.isActive && y.name == name) = true) : j = k ∧ x.isActive = true := by
    simp only [Bool.and_eq_true, beq_iff_eq] at hfound
    obtain ⟨⟨⟨hparent, -⟩, hactive⟩, hnamed⟩ := hfound
    obtain rfl := h.only j y hy hparent hnamed
    obtain rfl := Option.some.inj (hy.symm.trans h.at_index)
    exact ⟨rfl, hactive⟩
  rw [orderMetric?, hname]
  dsimp only
  split
  · rename_i hactive
    obtain ⟨hlt, hget⟩ := List.getElem?_eq_some_iff.mp h.at_index
    refine List.findIdx?_eq_some_iff_getElem.mpr ⟨hlt, ?_, fun j hj => ?_⟩
    · rw [hget]
      simp [h.parent, h.isMetric, hactive, h.name_eq]
    · intro hfound
      obtain ⟨rfl, -⟩ := honly (List.getElem?_eq_getElem (Nat.lt_trans hj hlt)) hfound
      exact Nat.lt_irrefl _ hj
  · rename_i hinactive
    refine List.findIdx?_eq_none_iff.mpr fun y hy => ?_
    obtain ⟨j, hj⟩ := List.getElem?_of_mem hy
    exact Bool.eq_false_iff.mpr fun hfound => hinactive (honly hj hfound).2

/-- The statement orders by what a terms node asks for. -/
theorem statementOrder_of_ranks {ranking : Ranking} (h : forest.Ranks i t ranking)
    (countColumn : String) :
    statementOrder forest countColumn false t (orderMetric? forest i t) =
      (ranking.target countColumn, t.order.direction) := by
  unfold statementOrder
  cases h with
  | key htarget => simp [htarget, Ranking.target]
  | count htarget => simp [htarget, Ranking.target]
  | metric htarget hmetric hactive hcolumn =>
      rw [orderMetric?_eq htarget hmetric, if_pos hactive]
      simp [htarget, columnAt?, hmetric.at_index, hcolumn, Ranking.target]
  | fallback htarget hmetric hinactive =>
      rw [orderMetric?_eq htarget hmetric]
      simp [htarget, hinactive, Ranking.target]

/-- Deciding about orders leaves a metric below a node as it is. -/
theorem isMetricBelow_orderNodes (context : PlanContext)
    (h : forest.IsMetricBelow i name k x m) :
    Forest.IsMetricBelow (orderNodes context forest).1 i name k x m := by
  obtain ⟨y, hy⟩ := h.of_isRevision (isRevision_orderNodes context forest)
  have hx : (orderNodes context forest).1[k]? = some x :=
    (getElem?_orderNodes_iff (Node.terms?_of_isMetric h.isMetric)).mpr h.at_index
  obtain rfl : y = x := Option.some.inj (hy.at_index.symm.trans hx)
  exact hy

theorem ranks_orderNodes (context : PlanContext) {ranking : Ranking}
    (h : forest.Ranks i t ranking) : Forest.Ranks (orderNodes context forest).1 i t ranking := by
  cases h with
  | key htarget => exact .key htarget
  | count htarget => exact .count htarget
  | metric htarget hmetric hactive hcolumn =>
      exact .metric htarget (isMetricBelow_orderNodes context hmetric) hactive hcolumn
  | fallback htarget hmetric hinactive =>
      exact .fallback htarget (isMetricBelow_orderNodes context hmetric) hinactive

/-- The metric that is decided on is the one that the ranking is by. -/
theorem decides_orderNodes {context : PlanContext} {n : Node} {ranking : Ranking}
    (hi : (orderNodes context forest).1[i]? = some n) (ht : n.aggregation = .terms t)
    (hactive : n.isActive = true) (h : forest.Ranks i t ranking) :
    Forest.Decides (orderNodes context forest).1 n ranking := by
  unfold Forest.Decides
  rw [(decisions_of_orderNodes hi ht hactive).1]
  cases h with
  | key htarget => simp [orderMetric?, htarget]
  | count htarget => simp [orderMetric?, htarget]
  | metric htarget hmetric hactive hcolumn =>
      rw [orderMetric?_eq htarget hmetric, if_pos hactive]
      exact ⟨_, _, (isMetricBelow_orderNodes context hmetric).at_index, hmetric.name_eq,
        hmetric.metric, rfl, hcolumn⟩
  | fallback htarget hmetric hinactive =>
      rw [orderMetric?_eq htarget hmetric]
      simp [hinactive]

end Plan

/-! ## Rows and buckets -/

namespace Forest

variable {forest : Forest} {i : Nat} {n : Node} {t : Terms} {ranking : Ranking}

/-- The rows are ordered by what a terms node asks for. -/
theorem Decides.sortLevel? (hdecides : forest.Decides n ranking) (h : forest.Ranks i t ranking)
    (ht : n.aggregation = .terms t) : Rows.sortLevel? forest i n =
      some ⟨ranking.sortKey (forest.groupColumnsThrough i), t.order.direction⟩ := by
  unfold Rows.sortLevel? Rows.orderedMetric?
  cases h with
  | key htarget => simp [ht, htarget, Aggregation.terms?, Ranking.sortKey]
  | count htarget => simp [ht, htarget, Aggregation.terms?, Ranking.sortKey]
  | metric htarget =>
      obtain ⟨x, m, hx, -, hmetric, hfunction, hcolumn⟩ := hdecides
      simp [ht, htarget, hx, hmetric, hfunction, hcolumn, Aggregation.terms?, Aggregation.metric?,
        Ranking.sortKey]
  | fallback htarget =>
      have hnone : (n.decisions.orderMetric.bind fun k => forest[k]?) = none := hdecides
      simp [ht, htarget, hnone, Aggregation.terms?, Ranking.sortKey]

/-- The buckets are ordered by what a terms node asks for. -/
theorem Decides.bucketOrder (hdecides : forest.Decides n ranking)
    (h : forest.Ranks i t ranking) : t.bucketOrder (forest.orderMetricName? n) =
      ranking.bucketOrder t.order.direction := by
  unfold Terms.bucketOrder orderMetricName?
  cases h with
  | key htarget => simp [htarget, Ranking.bucketOrder]
  | count htarget => simp [htarget, Ranking.bucketOrder]
  | metric htarget =>
      obtain ⟨x, m, hx, rfl, -⟩ := hdecides
      simp [htarget, hx, Ranking.bucketOrder]
  | fallback htarget =>
      have hnone : (n.decisions.orderMetric.bind fun k => forest[k]?) = none := hdecides
      simp [htarget, hnone, Ranking.bucketOrder]

end Forest

/-! ## Plans -/

namespace TablePlan

open Plan

/-- In a plan with a statement, rows and buckets are ordered by what an active terms node asks for,
in its direction, and so is the statement unless the order is settled afterwards. -/
theorem exists_ranks_of_mem_forTables {now : Calendar.Instant} {json : Json} {forest : Forest}
    {tables : List Table} {settings : Settings} {plan : TablePlan}
    (hforest : Forest.ofJson now json = .ok forest) (hkeys : json.hasDistinctKeys = true)
    (hplan : plan ∈ forTables forest tables settings) (hskipped : plan.isSkipped = false)
    {i : Nat} {n : Node} {t : Terms} (hi : plan.forest[i]? = some n) (ht : n.aggregation = .terms t)
    (hactive : n.isActive = true) :
    ∃ ranking, plan.forest.Ranks i t ranking ∧
      Rows.sortLevel? plan.forest i n =
        some ⟨ranking.sortKey (plan.forest.groupColumnsThrough i), t.order.direction⟩ ∧
      t.bucketOrder (plan.forest.orderMetricName? n) = ranking.bucketOrder t.order.direction ∧
      (plan.draft.context.complexOrder = false →
        n.decisions.statementOrder =
          some (ranking.target plan.countColumn, t.order.direction)) := by
  obtain ⟨record, -, -, hrecorded⟩ :=
    exists_record_of_mem_forTables (isUnnamed_of_ofJson hforest) hplan hskipped
  obtain ⟨before, hbefore, hnode⟩ := (isRevision_of_mem_forTables hplan).node hi
  simp only [forTables, List.mem_map] at hplan
  obtain ⟨table, -, rfl⟩ := hplan
  obtain ⟨checked, hchecked, -, hdraft⟩ := draft_eq_of_isSkipped hskipped
  unfold TablePlan.countColumn
  unfold TablePlan.forest at hi hrecorded ⊢
  rw [hdraft] at hi hrecorded ⊢
  generalize PlanContext.new table _ _ settings.countColumn = context at hi hrecorded ⊢
  have hclassified : forest.IsRevision (classifyFilters (nameColumns context checked)) :=
    hchecked.trans ((isRevision_nameNodes context _ checked).trans (isRevision_classifyFilters _))
  generalize classifyFilters (nameColumns context checked) = settled at hclassified hi hrecorded ⊢
  obtain ⟨ranking, hranks⟩ : ∃ ranking, settled.Ranks i t ranking := by
    refine Forest.exists_ranks (fun name hname => ?_) fun x hx hmetric hxactive => ?_
    · obtain ⟨k, x, m, hmetric⟩ := Forest.exists_isMetricBelow hforest hkeys hbefore
        (hnode.aggregation ▸ ht) hname
      obtain ⟨y, hy⟩ := hmetric.of_isRevision hclassified
      exact ⟨k, y, m, hy⟩
    · obtain ⟨k, hk⟩ := List.getElem?_of_mem hx
      have hordered : (orderNodes context settled).1[k]? = some x :=
        (getElem?_orderNodes_iff (Node.terms?_of_isMetric hmetric)).mpr hk
      obtain ⟨m, hm⟩ := Node.exists_metric hmetric
      obtain ⟨e, column, -, hcolumn, -⟩ := hrecorded x (List.mem_of_getElem? hordered) hxactive
        (by rw [hm]; rfl)
      exact ⟨column, hcolumn⟩
  have hordered := ranks_orderNodes context hranks
  have hdecides := decides_orderNodes hi ht hactive hranks
  refine ⟨ranking, hordered, hdecides.sortLevel? hordered ht, hdecides.bucketOrder hordered,
    fun hsimple => ?_⟩
  have hcomplex : isComplexOrder settled = false := hsimple
  rw [(decisions_of_orderNodes hi ht hactive).2, hcomplex,
    statementOrder_of_ranks hranks context.countColumn]
  rfl

/-- A table without the attribute that hosts are ordered by. -/
def plainTable : Table := ⟨"u", [("host name", true)]⟩

/-- The plan of the request for hosts by their greatest sizes, where there are no sizes. -/
def plainPlan : TablePlan :=
  ofForest rankedForest plainTable true
    ([rankedTable, plainTable].flatMap Table.fieldNames) .standard

def rankedHosts : Terms := ⟨"host name", 10, 1, ⟨.metric "size", .descending, true⟩⟩

/-- Where there are no sizes, all agree on the count. -/
theorem plainPlan_ranks_by_count :
    Forest.ofJson default rankedRequest = .ok rankedForest ∧
      rankedRequest.hasDistinctKeys = true ∧
      plainPlan ∈ forTables rankedForest [rankedTable, plainTable] .standard ∧
      plainPlan.isSkipped = false ∧ plainPlan.draft.context.complexOrder = false ∧
      ∃ n, plainPlan.forest[0]? = some n ∧ n.aggregation = .terms rankedHosts ∧
        n.isActive = true ∧ plainPlan.forest.Ranks 0 rankedHosts .count ∧
        Rows.sortLevel? plainPlan.forest 0 n = some ⟨.count ["host name"], .descending⟩ ∧
        rankedHosts.bucketOrder (plainPlan.forest.orderMetricName? n) = .count .descending ∧
        n.decisions.statementOrder = some ("cnt", .descending) := by
  have hforest : Forest.ofJson default rankedRequest = .ok rankedForest := rfl
  have hkeys : rankedRequest.hasDistinctKeys = true := by decide +kernel
  have hplan : plainPlan ∈ forTables rankedForest [rankedTable, plainTable] .standard :=
    List.mem_cons_of_mem _ (List.mem_singleton.mpr rfl)
  have hskipped : plainPlan.isSkipped = false := rfl
  have hsimple : plainPlan.draft.context.complexOrder = false := rfl
  obtain ⟨n, hn, ht, hactive, horder⟩ : ∃ n, plainPlan.forest[0]? = some n ∧
      n.aggregation = .terms rankedHosts ∧ n.isActive = true ∧
      rankedHosts.bucketOrder (plainPlan.forest.orderMetricName? n) = .count .descending :=
    ⟨_, rfl, rfl, rfl, rfl⟩
  obtain ⟨ranking, hranks, hlevel, hbuckets, hstatement⟩ :=
    exists_ranks_of_mem_forTables hforest hkeys hplan hskipped hn ht hactive
  cases ranking with
  | key field => cases horder.symm.trans hbuckets
  | metric name function column => cases horder.symm.trans hbuckets
  | count =>
      exact ⟨hforest, hkeys, hplan, hskipped, hsimple, n, hn, ht, hactive, hranks, hlevel, hbuckets,
        hstatement hsimple⟩

end TablePlan
end Rollup
