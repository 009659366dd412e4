/-
# Tables in any order

The rows of several tables make one response, each table with a plan of its own. A list of values
ends as the table asks for that created it. Where the tables that leave rows ask for the same order,
where keys and ordering metrics do not tie, the finished response lists the same whatever order the
tables came in, and every list is in the order that its tables ask for.
-/

import Rollup.Proofs.Response.Listing
import Rollup.Proofs.Response.Names
import Rollup.Proofs.Response.Steady

namespace Rollup

/-! ## What a metric takes from stops -/

namespace Stop

/-- The value that a metric takes at a stop, with the size of its group. -/
def measure? (stop : Stop) (trail : Trail) (name : String) : Option (Binary64 × Nat) :=
  if stop.IsAt trail name then
    match stop.node.aggregation with
    | .metric _ =>
        (stop.row.measure? (stop.node.decisions.column.getD "") stop.countColumn).map fun value =>
          (value, stop.row.count stop.countColumn)
    | _ => none
  else none

/-- Whether a metric takes the row of a stop. -/
def IsMetricAt (stop : Stop) (trail : Trail) (name : String) (function : MetricFunction) : Prop :=
  stop.IsAt trail name ∧ ∃ m, stop.node.aggregation = .metric m ∧ m.function = function

variable {trail : Trail} {name : String} {function : MetricFunction}

/-- A metric adds the value of a stop, if there is one. -/
theorem addTo_some (stop : Stop) (trail : Trail) (name : String) (tally : Tally) :
    stop.addTo trail name (some tally) = some
      ((stop.measure? trail name).elim tally fun measure => tally.add measure.1 measure.2) := by
  unfold addTo measure?
  split
  · cases stop.node.aggregation with
    | metric m =>
        simp only [Option.getD_some, Tally.addRow]
        cases stop.row.measure? (stop.node.decisions.column.getD "") stop.countColumn <;> rfl
    | _ => rfl
  · rfl

theorem foldl_addTo_some (stops : List Stop) (tally : Tally) :
    stops.foldl (fun tally stop => stop.addTo trail name tally) (some tally) =
      some ((stops.filterMap fun stop => stop.measure? trail name).foldl
        (fun tally measure => tally.add measure.1 measure.2) tally) := by
  induction stops generalizing tally with
  | nil => rfl
  | cons stop rest ih =>
      rw [List.foldl_cons, addTo_some, ih, List.filterMap_cons]
      cases stop.measure? trail name <;> rfl

/-- A tally is there when some metric takes the row of a stop, and has the values of all stops. -/
theorem foldl_addTo_none {stops : List Stop}
    (hfunction : ∀ stop ∈ stops, stop.IsAt trail name → ∀ m, stop.node.aggregation = .metric m →
      m.function = function) :
    ((∃ stop ∈ stops, stop.IsMetricAt trail name function) →
      stops.foldl (fun tally stop => stop.addTo trail name tally) none =
        some (Tally.merged function (stops.filterMap fun stop => stop.measure? trail name))) ∧
      ((¬∃ stop ∈ stops, stop.IsMetricAt trail name function) →
        stops.foldl (fun tally stop => stop.addTo trail name tally) none = none) := by
  induction stops with
  | nil => simp
  | cons stop rest ih =>
      have hrest := ih fun other hother => hfunction other (List.mem_cons_of_mem stop hother)
      by_cases hmetric : stop.IsMetricAt trail name function
      · obtain ⟨hat, m, hm, rfl⟩ := id hmetric
        refine ⟨fun _ => ?_, fun hnone => absurd ⟨stop, by simp, hmetric⟩ hnone⟩
        have hadd : stop.addTo trail name none =
            stop.addTo trail name (some (Tally.empty m.function)) := by
          simp [addTo, hat, hm]
        rw [List.foldl_cons, hadd, addTo_some, foldl_addTo_some, List.filterMap_cons]
        cases stop.measure? trail name <;> rfl
      · have hother : stop.addTo trail name none = none ∧ stop.measure? trail name = none := by
          unfold addTo measure?
          by_cases hat : stop.IsAt trail name
          · cases haggregation : stop.node.aggregation with
            | metric m =>
                exact absurd ⟨hat, m, haggregation, hfunction stop (by simp) hat m haggregation⟩
                  hmetric
            | _ => simp
          · simp [hat]
        rw [List.foldl_cons, hother.1, List.filterMap_cons, hother.2]
        simpa [hmetric] using hrest

end Stop

namespace Level

variable {root : Level} {trail : Trail}

/-- The value of the metric with a name at the end of a trail. -/
def valueOn? (root : Level) (trail : Trail) (name : String) : Option Binary64 :=
  (root.tallyOn? trail name).bind Tally.result?

/-- A metric inside a bucket stands at the end of the trail into it. -/
theorem metric?_eq_valueOn? {turn : Turn} {b : Bucket Output}
    (hb : root.bucketOn? trail turn = some b) (name : String) :
    b.metric? name = root.valueOn? (trail ++ [turn]) name := by
  rw [valueOn?, tallyOn?, outputOn?, levelOn?_concat, hb]
  unfold Bucket.metric?
  simp only [Option.map_some, Option.bind_some]
  cases Level.get? b.inner name with
  | none => rfl
  | some output => cases output <;> rfl

end Level

/-- Whether a metric at a stop is the least or the greatest of numbers. -/
def Stop.IsExtreme (stop : Stop) : Prop :=
  ∀ m ∈ stop.node.aggregation.metric?, (m.function = .min ∨ m.function = .max) ∧
    ∀ x ∈ stop.row.measure? (stop.node.decisions.column.getD "") stop.countColumn,
      x.isNaN = false

instance (stop : Stop) : Decidable stop.IsExtreme :=
  inferInstanceAs (Decidable (∀ m ∈ stop.node.aggregation.metric?,
    (m.function = .min ∨ m.function = .max) ∧
      ∀ x ∈ stop.row.measure? (stop.node.decisions.column.getD "") stop.countColumn,
        x.isNaN = false))

theorem Stop.IsExtreme.isNaN_of_measure? {stop : Stop} (h : stop.IsExtreme) {trail : Trail}
    {name : String} {measure : Binary64 × Nat}
    (hmeasure : stop.measure? trail name = some measure) : measure.1.isNaN = false := by
  obtain ⟨-, hmeasure⟩ := Option.ite_none_right_eq_some.mp hmeasure
  cases haggregation : stop.node.aggregation with
  | metric m =>
      rw [haggregation] at hmeasure
      obtain ⟨x, hx, rfl⟩ := Option.map_eq_some_iff.mp hmeasure
      exact (h m (by rw [haggregation]; rfl)).2 x hx
  | _ => rw [haggregation] at hmeasure; cases hmeasure

namespace Part

variable {base : Forest} {parts : List Part}

/-! ## Stops of several tables -/

/-- The values that come to a metric, with the sizes of their groups. -/
def measures (parts : List Part) (trail : Trail) (name : String) : List (Binary64 × Nat) :=
  (parts.flatMap stops).filterMap fun stop => stop.measure? trail name

/-- A stop of one of several tables, with the node of the request that its node revises. -/
structure IsFrom (base : Forest) (parts : List Part) (stop : Stop) (part : Part) (i : Nat)
    (before : Node) : Prop where
  mem : part ∈ parts
  rows : part.rows ≠ []
  node : part.forest[i]? = some stop.node
  shown : stop.node.isShown = true
  metricName : stop.metricName = part.forest.orderMetricName? stop.node
  origin : base[i]? = some before
  revision : before.IsRevision stop.node
  parent : base.parentOn? stop.trail = some before.parent

theorem exists_isFrom (h : base.IsLaidOut) (hparts : ∀ part ∈ parts, base.IsRevision part.forest)
    {stop : Stop} (hstop : stop ∈ parts.flatMap stops) :
    ∃ part i before, IsFrom base parts stop part i before := by
  obtain ⟨part, hpart, hmem⟩ := List.mem_flatMap.mp hstop
  obtain ⟨row, hrow, hrowStop⟩ := List.mem_flatMap.mp hmem
  have hrevision := hparts part hpart
  obtain ⟨i, hi, hshown, hmetric, -⟩ := Forest.mem_stops hrowStop
  obtain ⟨before, hbefore, hnode⟩ := hrevision.node hi
  have hparent := (hrevision.isLaidOut h).parentOn?_of_mem_stops hrowStop
  rw [Forest.parentOn?, hrevision.parentAt?_eq, hnode.parent] at hparent
  exact ⟨part, i, before, hpart, List.ne_nil_of_mem hrow, hi, hshown, hmetric, hbefore, hnode,
    hparent⟩

/-- Whether several tables ask for lists in the same order, in which their buckets do not tie. -/
structure IsOrderable (parts : List Part) : Prop where
  /-- The tables that leave rows order the buckets of a node by the same metric, if by any. -/
  orders : ∀ part ∈ parts, ∀ other ∈ parts, part.rows ≠ [] → other.rows ≠ [] →
    ∀ (i : Nat) (n n' : Node), part.forest[i]? = some n → other.forest[i]? = some n' →
    n.isShown = true → n'.isShown = true →
    part.forest.orderMetricName? n = other.forest.orderMetricName? n'
  /-- Keys are numbers, or texts that are no numbers or the plain text of one. -/
  keys : ∀ stop ∈ parts.flatMap stops, ∀ b ∈ stop.node.valueBucket? stop.row,
    Cell.IsOrderly b.keyCell
  /-- Metrics that buckets are ordered by come out at one place however their values are merged. -/
  steady : ∀ stop ∈ parts.flatMap stops, ∀ metric direction,
    (stop.node.valueFinish stop.metricName).order = some (.metric metric direction) →
    ∀ id, ∀ inner ∈ parts.flatMap stops, ∀ function,
    inner.IsMetricAt (stop.trail ++ [⟨stop.node.name, .named id⟩]) metric function →
    function.IsSteady (measures parts (stop.trail ++ [⟨stop.node.name, .named id⟩]) metric)

theorem IsOrderable.of_perm (h : IsOrderable parts) {others : List Part}
    (hperm : parts.Perm others) : IsOrderable others := by
  have hstops : (parts.flatMap stops).Perm (others.flatMap stops) := hperm.flatMap_right stops
  refine ⟨?_, ?_, ?_⟩
  · intro part hpart other hother
    exact h.orders part (hperm.mem_iff.mpr hpart) other (hperm.mem_iff.mpr hother)
  · exact fun stop hstop => h.keys stop (hstops.mem_iff.mpr hstop)
  · intro stop hstop metric direction horder id inner hinner function hmetric
    exact (h.steady stop (hstops.mem_iff.mpr hstop) metric direction horder id inner
      (hstops.mem_iff.mpr hinner) function hmetric).of_perm (hstops.filterMap _)

namespace IsFrom

variable {stop other : Stop} {part part' : Part} {i j : Nat} {before before' : Node}

theorem isQuery (h : IsFrom base parts stop part i before) : before.isQuery = false :=
  h.revision.isQuery.symm.trans (Node.isQuery_of_isShown h.shown)

/-- Stops at one place are at nodes of one aggregation. -/
theorem isAkin (h : IsFrom base parts stop part i before)
    (h' : IsFrom base parts other part' j before') {trail : Trail} {name : String}
    (hat : stop.IsAt trail name) (hat' : other.IsAt trail name) : before.IsAkin before' := by
  have hparent := h.parent
  have hparent' := h'.parent
  rw [hat.1] at hparent
  rw [hat'.1, hparent] at hparent'
  refine ⟨h.isQuery, h'.isQuery, ?_, Option.some.inj hparent'⟩
  rw [← h.revision.name, ← h'.revision.name, hat.2, hat'.2]

/-- Stops at one place are at one node, or at different legs of one aggregation. -/
theorem eq_or_sharesLegs (hbase : base.IsLaidOut) (h : IsFrom base parts stop part i before)
    (h' : IsFrom base parts other part' j before') {trail : Trail} {name : String}
    (hat : stop.IsAt trail name) (hat' : other.IsAt trail name) :
    i = j ∧ before = before' ∨ before.SharesLegs before' := by
  by_cases hij : i = j
  · subst hij
    exact Or.inl ⟨rfl, Option.some.inj (h.origin.symm.trans h'.origin)⟩
  · exact Or.inr (hbase.sharesLegs hij h.origin h'.origin (h.isAkin h' hat hat'))

/-- Stops at one place start alike, but for how their lists end. -/
theorem initial_none_eq (hbase : base.IsLaidOut) (h : IsFrom base parts stop part i before)
    (h' : IsFrom base parts other part' j before') {trail : Trail} {name : String}
    (hat : stop.IsAt trail name) (hat' : other.IsAt trail name) :
    stop.node.initial none = other.node.initial none := by
  rcases h.eq_or_sharesLegs hbase h' hat hat' with ⟨-, rfl⟩ | hlegs
  · exact h.revision.initial_eq h'.revision none
  · exact ((h.revision.sharesLegs h'.revision).mpr hlegs).initial_eq.symm

/-- Stops at one place start alike where the tables agree about the order. -/
theorem initial_eq (hbase : base.IsLaidOut) (horderable : IsOrderable parts)
    (h : IsFrom base parts stop part i before) (h' : IsFrom base parts other part' j before')
    {trail : Trail} {name : String} (hat : stop.IsAt trail name) (hat' : other.IsAt trail name) :
    stop.node.initial stop.metricName = other.node.initial other.metricName := by
  rcases h.eq_or_sharesLegs hbase h' hat hat' with ⟨rfl, rfl⟩ | hlegs
  · rw [h.metricName, h'.metricName, horderable.orders part h.mem part' h'.mem h.rows h'.rows i _ _
      h.node h'.node h.shown h'.shown]
    exact h.revision.initial_eq h'.revision _
  · have hshares := (h.revision.sharesLegs h'.revision).mpr hlegs
    obtain ⟨l, l', hl, hl', -⟩ := id hshares
    rw [Node.initial_other (by rw [hl]; rfl) (Node.isQuery_of_isShown h.shown),
      Node.initial_other (by rw [hl']; rfl) (Node.isQuery_of_isShown h'.shown),
      hshares.initial_eq]

/-- Metrics at one place are one metric. -/
theorem function_eq (hbase : base.IsLaidOut) (h : IsFrom base parts stop part i before)
    (h' : IsFrom base parts other part' j before') {trail : Trail} {name : String}
    {function : MetricFunction} (hmetric : stop.IsMetricAt trail name function)
    (hat' : other.IsAt trail name) {m : Metric} (hm : other.node.aggregation = .metric m) :
    m.function = function := by
  obtain ⟨hat, m', hm', rfl⟩ := hmetric
  rcases h.eq_or_sharesLegs hbase h' hat hat' with ⟨-, rfl⟩ | hlegs
  · rw [h'.revision.aggregation, ← h.revision.aggregation, hm'] at hm
    rw [Aggregation.metric.inj hm]
  · obtain ⟨l, l', hl, -⟩ := (h.revision.sharesLegs h'.revision).mpr hlegs
    rw [hm'] at hl
    cases hl

end IsFrom

/-! ## Responses of several tables -/

section

variable {root : Level}

/-- The value of a metric, where it is steady, is a number at one place, whatever order the tables
came in. -/
theorem valueOn?_spec (hbase : base.IsLaidOut)
    (hparts : ∀ part ∈ parts, base.IsRevision part.forest)
    (hgains : Level.Gains [] root (parts.flatMap stops)) {others : List Part}
    (hperm : parts.Perm others) {root' : Level}
    (hgains' : Level.Gains [] root' (others.flatMap stops)) {trail : Trail} {name : String}
    (hsteady : ∀ inner ∈ parts.flatMap stops, ∀ function, inner.IsMetricAt trail name function →
      function.IsSteady (measures parts trail name)) :
    (∀ x ∈ root'.valueOn? trail name, x.isNaN = false) ∧
      (root'.valueOn? trail name).map Binary64.rank =
        (root.valueOn? trail name).map Binary64.rank := by
  have hstops : (parts.flatMap stops).Perm (others.flatMap stops) := hperm.flatMap_right stops
  have htally : root.tallyOn? trail name =
      (parts.flatMap stops).foldl (fun tally stop => stop.addTo trail name tally) none := by
    rw [hgains.tally, Level.tallyOn?, Level.outputOn?]
    cases trail <;> rfl
  have htally' : root'.tallyOn? trail name =
      (others.flatMap stops).foldl (fun tally stop => stop.addTo trail name tally) none := by
    rw [hgains'.tally, Level.tallyOn?, Level.outputOn?]
    cases trail <;> rfl
  unfold Level.valueOn?
  rw [htally, htally']
  by_cases hmetric : ∃ inner ∈ parts.flatMap stops, ∃ function,
      inner.IsMetricAt trail name function
  · obtain ⟨inner, hinner, function, hat⟩ := hmetric
    obtain ⟨part, i, before, hfrom⟩ := exists_isFrom hbase hparts hinner
    have hfunction (stop : Stop) (hstop : stop ∈ parts.flatMap stops)
        (hstopAt : stop.IsAt trail name) (m : Metric) (hm : stop.node.aggregation = .metric m) :
        m.function = function := by
      obtain ⟨part', j, before', hfrom'⟩ := exists_isFrom hbase hparts hstop
      exact hfrom.function_eq hbase hfrom' hat hstopAt hm
    rw [(Stop.foldl_addTo_none hfunction).1 ⟨inner, hinner, hat⟩,
      (Stop.foldl_addTo_none fun stop hstop => hfunction stop (hstops.mem_iff.mpr hstop)).1
        ⟨inner, hstops.mem_iff.mp hinner, hat⟩]
    exact hsteady inner hinner function hat _ (hstops.filterMap _)
  · have hnone (list : List Stop) (hmem : ∀ stop ∈ list, stop ∈ parts.flatMap stops) :
        list.foldl (fun tally stop => stop.addTo trail name tally) none = none := by
      have hno : ∀ stop ∈ list, stop.IsAt trail name → ∀ m, stop.node.aggregation = .metric m →
          m.function = .sum := fun stop hstop hat m hm =>
        absurd ⟨stop, hmem stop hstop, m.function, hat, m, hm, rfl⟩ hmetric
      refine (Stop.foldl_addTo_none hno).2 ?_
      rintro ⟨stop, hstop, hat⟩
      exact hmetric ⟨stop, hmem stop hstop, .sum, hat⟩
    rw [hnone _ fun _ hstop => hstop, hnone _ fun _ hstop => hstops.mem_iff.mpr hstop]
    exact ⟨by simp, rfl⟩

/-- A list ends as its tables ask for. -/
theorem finish_of_isAt (hbase : base.IsLaidOut)
    (hparts : ∀ part ∈ parts, base.IsRevision part.forest) (horderable : IsOrderable parts)
    (hgains : Level.Gains [] root (parts.flatMap stops)) {trail : Trail} {name : String}
    {list : BucketList Output} (hlist : root.outputOn? trail name = some (.buckets list))
    {stop : Stop} (hstop : stop ∈ parts.flatMap stops) (hat : stop.IsAt trail name) :
    list.finish = stop.node.valueFinish stop.metricName := by
  obtain ⟨other, hother, hat', hframes⟩ := hgains.exists_frame hlist
  obtain ⟨part, i, before, hfrom⟩ := exists_isFrom hbase hparts hstop
  obtain ⟨part', j, before', hfrom'⟩ := exists_isFrom hbase hparts hother
  rw [← hfrom.initial_eq hbase horderable hfrom' hat hat'] at hframes
  exact Node.finish_of_frames hframes

/-- The buckets of a list of values or intervals can be put in order. -/
theorem isSound_bucket (hbase : base.IsLaidOut)
    (hparts : ∀ part ∈ parts, base.IsRevision part.forest) (horderable : IsOrderable parts)
    (hgains : Level.Gains [] root (parts.flatMap stops)) {stop : Stop}
    (hstop : stop ∈ parts.flatMap stops) {order : BucketOrder}
    (horder : (stop.node.valueFinish stop.metricName).order = some order) {id : String}
    {b : Bucket Output}
    (hb : root.bucketOn? stop.trail ⟨stop.node.name, .named id⟩ = some b) : order.IsSound b := by
  obtain ⟨other, hother, fresh, hopens, hid, hkey⟩ := hgains.exists_opens hb
  have hvalue : other.node.valueBucket? other.row = some fresh := by
    obtain ⟨-, hfresh⟩ := Option.ite_none_right_eq_some.mp hopens
    exact (Option.filter_eq_some_iff.mp hfresh).1
  have hcell : fresh.keyCell = b.keyCell := by rw [Bucket.keyCell, hkey, Bucket.keyCell]
  refine ⟨hcell ▸ horderable.keys other hother fresh hvalue, ?_, ?_⟩
  · rw [← hid, ← hcell, Node.id_of_valueBucket? hvalue]
  · intro x hx
    obtain ⟨metric, hmetric, hof⟩ := Option.bind_eq_some_iff.mp hx
    obtain ⟨direction, rfl⟩ : ∃ direction, order = .metric metric direction := by
      cases order with
      | metric name direction => exact ⟨direction, by rw [Option.some.inj hmetric]⟩
      | _ => cases hmetric
    rw [Level.metric?_eq_valueOn? hb] at hof
    exact (valueOn?_spec hbase hparts hgains (List.Perm.refl _) hgains
      (horderable.steady stop hstop metric direction horder id)).1 x hof

/-- All lists can be finished without doubt. -/
theorem isSound_root (hbase : base.IsLaidOut)
    (hparts : ∀ part ∈ parts, base.IsRevision part.forest) (horderable : IsOrderable parts)
    (hdistinct : root.HasDistinctIds) (hgains : Level.Gains [] root (parts.flatMap stops)) :
    root.IsSound := by
  intro trail name list hlist
  obtain ⟨stop, hstop, hat, -⟩ := hgains.exists_frame hlist
  have hfinish := finish_of_isAt hbase hparts horderable hgains hlist hstop hat
  unfold BucketList.IsSound
  cases horder : list.finish.order with
  | none =>
      rw [hfinish] at horder ⊢
      exact Node.valueFinish_eq_plain horder
  | some order =>
      intro b hb
      have hbucket := hdistinct.bucketOn?_of_mem hlist (by rw [horder]; rfl) hb
      obtain ⟨rfl, rfl⟩ := hat
      exact isSound_bucket hbase hparts horderable hgains hstop (hfinish ▸ horder) hbucket

/-- The same stops in another order show the same. -/
theorem showsSame_of_perm (hbase : base.IsLaidOut)
    (hparts : ∀ part ∈ parts, base.IsRevision part.forest)
    (hgains : Level.Gains [] root (parts.flatMap stops)) {others : List Part}
    (hperm : parts.Perm others) {root' : Level}
    (hgains' : Level.Gains [] root' (others.flatMap stops)) : root.ShowsSame root' := by
  have hstops : (parts.flatMap stops).Perm (others.flatMap stops) := hperm.flatMap_right stops
  refine Level.showsSame_of_docsOn ?_ ?_ ?_
  · intro trail turn
    rw [Bool.eq_iff_iff, hgains.bucket, hgains'.bucket]
    simp only [hstops.mem_iff]
  · intro trail turn
    rw [hgains.docs, hgains'.docs, (hstops.map fun stop => stop.docsFor trail turn).sum_eq]
  · intro trail turn b b' hb hb'
    obtain ⟨stop, hstop, fresh, hopens, hid, -⟩ := hgains.exists_opens hb
    obtain ⟨stop', hstop', fresh', hopens', hid', -⟩ := hgains'.exists_opens hb'
    obtain ⟨part, i, before, hfrom⟩ := exists_isFrom hbase hparts hstop
    obtain ⟨part', j, before', hfrom'⟩ :=
      exists_isFrom hbase hparts (hstops.mem_iff.mpr hstop')
    have hat := (Option.ite_none_right_eq_some.mp hopens).1
    have hat' := (Option.ite_none_right_eq_some.mp hopens').1
    rw [← hid, ← hid', Stop.id_eq_of_opens? (hfrom.initial_none_eq hbase hfrom' hat hat') hopens
      hopens']

/-- Buckets with one identity have one rank in the order of their lists. -/
theorem rank_eq_of_perm (hbase : base.IsLaidOut)
    (hparts : ∀ part ∈ parts, base.IsRevision part.forest) (horderable : IsOrderable parts)
    (hgains : Level.Gains [] root (parts.flatMap stops)) {others : List Part}
    (hperm : parts.Perm others) {root' : Level}
    (hgains' : Level.Gains [] root' (others.flatMap stops)) {stop : Stop}
    (hstop : stop ∈ parts.flatMap stops) {order : BucketOrder}
    (horder : (stop.node.valueFinish stop.metricName).order = some order) {b b' : Bucket Output}
    (hb : root.bucketOn? stop.trail ⟨stop.node.name, .named b.id⟩ = some b)
    (hb' : root'.bucketOn? stop.trail ⟨stop.node.name, .named b.id⟩ = some b')
    (hid : b.id = b'.id) : order.rank b = order.rank b' := by
  have hsound := isSound_bucket hbase hparts horderable hgains hstop horder hb
  have hsound' := isSound_bucket hbase (fun part hpart => hparts part (hperm.mem_iff.mpr hpart))
    (horderable.of_perm hperm) hgains' ((hperm.flatMap_right stops).mem_iff.mp hstop) horder hb'
  have hdocs : b.docCount = b'.docCount := by
    have hshows := showsSame_of_perm hbase hparts hgains hperm hgains' stop.trail
      ⟨stop.node.name, .named b.id⟩
    rw [hb, hb', Option.map_some, Option.map_some, Option.some.injEq, Prod.mk.injEq] at hshows
    exact hshows.2
  have hkey : Cell.rank b.keyCell = Cell.rank b'.keyCell := by
    rw [Cell.rank_eq_iff hsound.orderly hsound'.orderly, ← hsound.id, ← hsound'.id, hid]
  have hvalue : (order.metricName?.bind b.metric?).map Binary64.rank =
      (order.metricName?.bind b'.metric?).map Binary64.rank := by
    cases order with
    | metric metric direction =>
        have hspec := valueOn?_spec hbase hparts hgains hperm hgains'
          (horderable.steady stop hstop metric direction horder b.id)
        rw [← Level.metric?_eq_valueOn? hb, ← Level.metric?_eq_valueOn? hb'] at hspec
        exact hspec.2.symm
    | _ => rfl
  have hnone := congrArg Option.isNone hvalue
  rw [Option.isNone_map, Option.isNone_map] at hnone
  unfold BucketOrder.rank
  dsimp only
  rw [hid, hdocs, hkey, hvalue, hnone]

/-- Responses made of the rows of the same tables match, whatever order the tables came in. -/
theorem matches_of_perm (hbase : base.IsLaidOut)
    (hparts : ∀ part ∈ parts, base.IsRevision part.forest) (horderable : IsOrderable parts)
    (hdistinct : root.HasDistinctIds) (hgains : Level.Gains [] root (parts.flatMap stops))
    {others : List Part} (hperm : parts.Perm others) {root' : Level}
    (hdistinct' : root'.HasDistinctIds)
    (hgains' : Level.Gains [] root' (others.flatMap stops)) : root.Matches root' := by
  have hstops : (parts.flatMap stops).Perm (others.flatMap stops) := hperm.flatMap_right stops
  have hshows := showsSame_of_perm hbase hparts hgains hperm hgains'
  have hothers : ∀ part ∈ others, base.IsRevision part.forest :=
    fun part hpart => hparts part (hperm.mem_iff.mpr hpart)
  refine ⟨hshows, hdistinct, hdistinct', isSound_root hbase hparts horderable hdistinct hgains,
    isSound_root hbase hothers (horderable.of_perm hperm) hdistinct' hgains', ?_, ?_⟩
  · intro trail name
    have hsome : (root.outputOn? trail name).isSome = (root'.outputOn? trail name).isSome := by
      rw [Bool.eq_iff_iff, hgains.output, hgains'.output]
      simp only [hstops.mem_iff]
    cases houtput : root.outputOn? trail name with
    | none =>
        rw [houtput] at hsome
        have hnone : root'.outputOn? trail name = none := by simpa using hsome.symm
        rw [hnone]
    | some output =>
        rw [houtput] at hsome
        obtain ⟨output', houtput'⟩ := Option.isSome_iff_exists.mp hsome.symm
        obtain ⟨stop, hstop, hat, hframes⟩ := hgains.exists_frame houtput
        obtain ⟨stop', hstop', hat', hframes'⟩ := hgains'.exists_frame houtput'
        obtain ⟨part, i, before, hfrom⟩ := exists_isFrom hbase hparts hstop
        obtain ⟨part', j, before', hfrom'⟩ :=
          exists_isFrom hbase hparts (hstops.mem_iff.mpr hstop')
        rw [houtput', Option.map_some, Option.map_some, hframes.header?_eq, hframes'.header?_eq,
          hfrom.initial_eq hbase horderable hfrom' hat hat']
  · intro trail name list list' hlist hlist' order horder b hb b' hb' hid
    obtain ⟨stop, hstop, hat, -⟩ := hgains.exists_frame hlist
    have hfinish := finish_of_isAt hbase hparts horderable hgains hlist hstop hat
    have hfinish' := finish_of_isAt hbase hothers (horderable.of_perm hperm) hgains' hlist'
      (hstops.mem_iff.mp hstop) hat
    have hordered : list.finish.order.isSome = true := by rw [horder]; rfl
    have hordered' : list'.finish.order.isSome = true := by rw [hfinish', ← hfinish, horder]; rfl
    have hbucket := hdistinct.bucketOn?_of_mem hlist hordered hb
    have hbucket' := hdistinct'.bucketOn?_of_mem hlist' hordered' hb'
    rw [← hid] at hbucket'
    obtain ⟨rfl, rfl⟩ := hat
    exact rank_eq_of_perm hbase hparts horderable hgains hperm hgains' hstop (hfinish ▸ horder)
      hbucket hbucket' hid

end

/-! ## Metrics that are steady -/

/-- Where all metrics are the least or the greatest of numbers, they are steady. -/
theorem isSteady_of_isExtreme (h : ∀ stop ∈ parts.flatMap stops, stop.IsExtreme) {stop : Stop}
    (hstop : stop ∈ parts.flatMap stops) {trail : Trail} {name : String}
    {function : MetricFunction} (hmetric : stop.IsMetricAt trail name function) :
    function.IsSteady (measures parts trail name) := by
  apply MetricFunction.isSteady_of_extreme
  · obtain ⟨-, m, hm, rfl⟩ := hmetric
    exact (h stop hstop m (by rw [hm]; rfl)).1
  · intro measure hmeasure
    obtain ⟨other, hother, htaken⟩ := List.mem_filterMap.mp hmeasure
    exact (h other hother).isNaN_of_measure? htaken

end Part

/-! ## Plans for several tables -/

namespace TablePlan

/-- Fold the rows of several tables in, each settled by its own plan. -/
def foldTables (settings : Settings) (sources : List (TablePlan × List Row)) : Response :=
  sources.foldl (fun response source => response.addRows source.1.forest source.1.countColumn
    (source.1.settleRows settings source.2)) .empty

/-- The settled rows of several tables. -/
def partsOf (settings : Settings) (sources : List (TablePlan × List Row)) : List Part :=
  sources.map (AnsweredSearch.partOf settings)

theorem root_foldTables (settings : Settings) (sources : List (TablePlan × List Row)) :
    (foldTables settings sources).root = (partsOf settings sources).foldl Part.fold [] := by
  have hfold (response : Response) :
      (sources.foldl (fun response source => response.addRows source.1.forest
        source.1.countColumn (source.1.settleRows settings source.2)) response).root =
        (partsOf settings sources).foldl Part.fold response.root := by
    unfold partsOf
    induction sources generalizing response with
    | nil => rfl
    | cons source rest ih => exact ih _
  exact hfold .empty

/-- Tables in any order give responses that list the same everywhere when they are finished, and
every list is in the order that each of its tables asks for, and cut to its size. -/
theorem listing_foldTables {now : Calendar.Instant} {json : Json} {forest : Forest}
    {tables : List Table} {settings : Settings} (hforest : Forest.ofJson now json = .ok forest)
    (hkeys : json.hasDistinctKeys = true) {sources others : List (TablePlan × List Row)}
    (hplans : ∀ source ∈ sources, source.1 ∈ forTables forest tables settings)
    (hperm : sources.Perm others) (horderable : Part.IsOrderable (partsOf settings sources)) :
    (∀ trail name,
      (Level.outputOn? (finishedLevel (foldTables settings sources).root) trail name).map
        Output.listing =
      (Level.outputOn? (finishedLevel (foldTables settings others).root) trail name).map
        Output.listing) ∧
      ∀ stop ∈ (partsOf settings sources).flatMap Part.stops, ∀ order,
        (stop.node.valueFinish stop.metricName).order = some order → ∀ list,
        Level.outputOn? (finishedLevel (foldTables settings sources).root) stop.trail
          stop.node.name = some (.buckets list) →
        list.entries.Pairwise (fun a b => (order.compare a b).isLE = true) ∧
          ∀ size, (stop.node.valueFinish stop.metricName).size = some size →
            list.entries.length ≤ size := by
  have hbase := Forest.isLaidOut_of_ofJson hforest hkeys
  have hparts : ∀ part ∈ partsOf settings sources, forest.IsRevision part.forest := by
    intro part hpart
    obtain ⟨source, hsource, rfl⟩ := List.mem_map.mp hpart
    exact isRevision_of_mem_forTables (hplans source hsource)
  have hpermParts : (partsOf settings sources).Perm (partsOf settings others) := hperm.map _
  obtain ⟨hhosts, hgains⟩ := Part.gains_foldl hbase hparts forest.hosts_nil
  obtain ⟨hhosts', hgains'⟩ := Part.gains_foldl hbase
    (fun part hpart => hparts part (hpermParts.mem_iff.mpr hpart)) forest.hosts_nil
  rw [root_foldTables, root_foldTables]
  refine ⟨(Part.matches_of_perm hbase hparts horderable hhosts.distinct hgains hpermParts
    hhosts'.distinct hgains').listing_eq, ?_⟩
  intro stop hstop order horder shown hshown
  have hsound := Part.isSound_root hbase hparts horderable hhosts.distinct hgains
  obtain ⟨output, houtput, hfinished⟩ :=
    Level.outputOn?_finishedLevel hhosts.distinct hsound hshown
  cases output with
  | single b => cases hfinished
  | metric tally => cases hfinished
  | buckets list =>
      have hfinish := Part.finish_of_isAt hbase hparts horderable hgains houtput hstop ⟨rfl, rfl⟩
      rw [Output.finished_buckets, Output.buckets.injEq] at hfinished
      rw [← hfinish] at horder ⊢
      obtain ⟨-, hpairs, hsize⟩ := (hsound _ _ list houtput).finished.close horder
      rw [hfinished]
      exact ⟨hpairs, hsize⟩

/-! ### Hosts by their largest value -/

def hostsBody : Json :=
  .object [("field", .string "host"), ("order", .object [("m", .string "desc")])]

def largestInside : Json := .object [("m", .object [("max", .object [("field", .string "bytes")])])]

/-- A request for the hosts, those with the largest value first. -/
def hostsRequest : Json :=
  .object [("aggs", .object [("h", .object [("terms", hostsBody), ("aggs", largestInside)])])]

/-- The aggregations as they are read. -/
def hostsForest : Forest :=
  [Node.new "h" none 0 true (.terms ⟨"host", 10, 1, ⟨.metric "m", .descending, true⟩⟩),
    Node.new "m" (some 0) 1 false (.metric ⟨.max, "bytes"⟩)]

def hostsOnly : Table := ⟨"t", [("host", true)]⟩

def hostsAndBytes (name : String) : Table := ⟨name, [("host", true), ("bytes", true)]⟩

/-- The plan for one of two tables. -/
def hostsPlan (first second table : Table) : TablePlan :=
  ofForest hostsForest table true ([first, second].flatMap Table.fieldNames) .standard

/-- The rows of two tables: a host with five documents in the first one, which may say the largest
value, and a host with one document in the second one. -/
def hostSources (first second : Table) (largest : Fields) : List (TablePlan × List Row) :=
  [(hostsPlan first second first,
      [Row.ofCells ([("host", .string "a")] ++ largest ++ [("cnt", .ofInt 5)]) .engine]),
    (hostsPlan first second second,
      [Row.ofCells [("host", .string "b"), ("al1", .ofInt 9), ("cnt", .ofInt 1)] .engine])]

/-- Both tables say the largest value. -/
def bothSources : List (TablePlan × List Row) :=
  hostSources (hostsAndBytes "t") (hostsAndBytes "u") [("al1", .ofInt 3)]

/-- What the finished response lists of the hosts. -/
def hostsListing (sources : List (TablePlan × List Row)) : Option Listing :=
  (Level.outputOn? (finishedLevel (foldTables .standard sources).root) [] "h").map Output.listing

theorem mem_forTables_of_mem_hostSources (first second : Table) (largest : Fields) :
    ∀ source ∈ hostSources first second largest,
      source.1 ∈ forTables hostsForest [first, second] .standard := by
  intro source hsource
  simp only [hostSources, List.mem_cons, List.not_mem_nil, or_false] at hsource
  rcases hsource with rfl | rfl
  · exact List.mem_cons_self
  · exact List.mem_cons_of_mem _ List.mem_cons_self

theorem isOrderable_bothSources : Part.IsOrderable (partsOf .standard bothSources) := by
  have hextreme : ∀ stop ∈ (partsOf .standard bothSources).flatMap Part.stops,
      stop.IsExtreme := by decide +kernel
  have hsame : ∀ part ∈ partsOf .standard bothSources, part.forest =
      (hostsPlan (hostsAndBytes "t") (hostsAndBytes "u") (hostsAndBytes "t")).forest := by
    intro part hpart
    simp only [partsOf, bothSources, hostSources, List.map_cons, List.map_nil, List.mem_cons,
      List.not_mem_nil, or_false] at hpart
    rcases hpart with rfl | rfl
    · rfl
    · rfl
  refine ⟨?_, by decide +kernel, fun _ _ _ _ _ _ inner hinner _ hmetric =>
    Part.isSteady_of_isExtreme hextreme hinner hmetric⟩
  intro part hpart other hother _ _ i n n' hn hn' _ _
  rw [hsame part hpart] at hn ⊢
  rw [hsame other hother, hn] at hn'
  rw [hsame other hother, Option.some.inj hn']

/-- Where both tables have the values, the host with the largest one comes first in either order. -/
theorem listing_hosts_swapped :
    hostsListing bothSources.reverse = some ⟨0, [("b", 1), ("a", 5)]⟩ := by
  have hforest : Forest.ofJson default hostsRequest = .ok hostsForest := rfl
  have hlisting : hostsListing bothSources = hostsListing bothSources.reverse :=
    (listing_foldTables hforest (by decide +kernel) (mem_forTables_of_mem_hostSources _ _ _)
      (List.reverse_perm bothSources).symm isOrderable_bothSources).1 [] "h"
  rw [← hlisting]
  decide +kernel

/-- Where only the second table has the values, the order of the tables decides about the order of
the hosts: the first table makes the list, and cannot order it by the values. -/
theorem listing_hosts_depends :
    Forest.ofJson default hostsRequest = .ok hostsForest ∧
      (∀ source ∈ hostSources hostsOnly (hostsAndBytes "u") [],
        source.1 ∈ forTables hostsForest [hostsOnly, hostsAndBytes "u"] .standard) ∧
      hostsListing (hostSources hostsOnly (hostsAndBytes "u") []) =
        some ⟨0, [("a", 5), ("b", 1)]⟩ ∧
      hostsListing (hostSources hostsOnly (hostsAndBytes "u") []).reverse =
        some ⟨0, [("b", 1), ("a", 5)]⟩ :=
  ⟨rfl, mem_forTables_of_mem_hostSources _ _ _, by decide +kernel, by decide +kernel⟩

end TablePlan
end Rollup
