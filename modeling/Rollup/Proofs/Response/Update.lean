/-
# Outputs made in advance

A node changes the output under its name and no other, and makes it first if it is not there. What
is there stays where it is, so making the outputs of the request's own level in advance, in the
order of the nodes, changes nothing in what a row leaves.
-/

import Rollup.Proofs.Response.Marks

namespace Rollup

namespace Level

/-! ## Making outputs -/

theorem set_eq_self {level : Level} {name : String} {output : Output}
    (h : level.get? name = some output) : level.set name output = level := by
  induction level with
  | nil => rfl
  | cons entry rest ih =>
      obtain ⟨key, old⟩ := entry
      rw [get?, List.lookup_cons] at h
      rw [set]
      by_cases hkey : key = name
      · subst hkey
        simp_all
      · rw [beq_false_of_ne (Ne.symm hkey)] at h
        rw [if_neg hkey, ih h]

theorem set_append {level : Level} {name : String} (h : (level.get? name).isSome = true)
    (output : Output) (rest : Level) : (level ++ rest).set name output =
      level.set name output ++ rest := by
  induction level with
  | nil => cases h
  | cons entry others ih =>
      obtain ⟨key, old⟩ := entry
      rw [get?, List.lookup_cons] at h
      rw [List.cons_append, set, set]
      by_cases hkey : key = name
      · rw [if_pos hkey, if_pos hkey, List.cons_append]
      · rw [beq_false_of_ne (Ne.symm hkey)] at h
        rw [if_neg hkey, if_neg hkey, ih h, List.cons_append]

theorem ensure_eq_self {level : Level} {name : String} (h : (level.get? name).isSome = true)
    (initial : Output) : level.ensure name initial = level := if_pos h

theorem isSome_get?_set (level : Level) (name : String) (output : Output) (other : String) :
    ((level.set name output).get? other).isSome = (level.get? other).isSome := by
  rw [get?_set]
  split
  · rename_i heq
    rw [heq, Option.isSome_map]
  · rfl

theorem isSome_get?_ensure {level : Level} {other : String}
    (h : (level.get? other).isSome = true) (name : String) (initial : Output) :
    ((level.ensure name initial).get? other).isSome = true := by
  rw [get?_ensure]
  split
  · rfl
  · exact h

/-- Making an output does not matter to those that are there. -/
theorem get?_ensure_of_isSome {level : Level} {other : String}
    (h : (level.get? other).isSome = true) (name : String) (initial : Output) :
    (level.ensure name initial).get? other = level.get? other := by
  rw [get?_ensure]
  split
  · rename_i heq
    subst heq
    obtain ⟨output, houtput⟩ := Option.isSome_iff_exists.mp h
    rw [houtput]
    rfl
  · rfl

theorem set_ensure {level : Level} {name : String} (h : (level.get? name).isSome = true)
    (output : Output) (other : String) (initial : Output) :
    (level.ensure other initial).set name output =
      (level.set name output).ensure other initial := by
  rw [ensure, ensure, isSome_get?_set]
  split
  · rfl
  · exact set_append h output _

/-- Make sure that outputs exist. -/
def ensureAll (level : Level) (outputs : List (String × Output)) : Level :=
  outputs.foldl (fun level output => level.ensure output.1 output.2) level

theorem ensureAll_eq_self {level : Level} {outputs : List (String × Output)}
    (h : ∀ output ∈ outputs, (level.get? output.1).isSome = true) :
    level.ensureAll outputs = level := by
  induction outputs with
  | nil => rfl
  | cons output rest ih =>
      have hrest := ih fun other hother => h other (List.mem_cons_of_mem _ hother)
      rw [ensureAll] at hrest ⊢
      rw [List.foldl_cons, ensure_eq_self (h output List.mem_cons_self), hrest]

/-! ## Changing an output -/

/-- Change the output with a name, which is made if it is not there. -/
def update {β : Type} (level : Level) (name : String) (initial : Output)
    (act : Output → β × Output) : β × Level :=
  let result := act ((level.get? name).getD initial)
  (result.1, (level.ensure name initial).set name result.2)

variable {β : Type} {level : Level} {name : String} {initial : Output} {act : Output → β × Output}

theorem update_ensure_self :
    (level.ensure name initial).update name initial act = level.update name initial act := by
  have hsome : ((level.ensure name initial).get? name).isSome = true := by
    rw [get?_ensure, if_pos rfl]
    rfl
  unfold update
  rw [ensure_eq_self hsome, get?_ensure, if_pos rfl]
  rfl

theorem get?_update (level : Level) (name : String) (initial : Output) (act : Output → β × Output)
    (other : String) :
    (level.update name initial act).2.get? other =
      if other = name then some (act ((level.get? name).getD initial)).2
      else level.get? other := by
  rw [update, get?_set, get?_ensure, get?_ensure, if_pos rfl]
  by_cases hother : other = name <;> simp [hother]

theorem isSome_get?_update (other : String) :
    (((level.update name initial act).2).get? other).isSome =
      (decide (other = name) || (level.get? other).isSome) := by
  rw [update, isSome_get?_set, get?_ensure]
  by_cases heq : other = name <;> simp [heq]

/-- Outputs may be made before one that is there is changed or afterwards. -/
theorem update_ensure (h : (level.get? name).isSome = true) (other : String) (output : Output) :
    (level.ensure other output).update name initial act =
      (level.update name initial act).map id fun level => level.ensure other output := by
  have hensured := isSome_get?_ensure h other output
  unfold update
  dsimp only
  rw [get?_ensure_of_isSome h, ensure_eq_self hensured, ensure_eq_self h, set_ensure h]
  rfl

theorem atPath_ensure {act : Level → β × Level} {segment : Segment} {path : Path}
    (h : (level.get? segment.name).isSome = true) (other : String) (output : Output) :
    atPath act (segment :: path) (level.ensure other output) =
      (atPath act (segment :: path) level).map
        (Prod.map id fun level => level.ensure other output) := by
  rw [atPath_cons, atPath_cons, get?_ensure_of_isSome h]
  obtain ⟨found, hfound⟩ := Option.isSome_iff_exists.mp h
  rw [hfound, Option.bind_some, Option.bind_some]
  cases found.bucketAt? segment with
  | none => rfl
  | some b =>
      rw [Option.bind_some, Option.bind_some, Option.map_map]
      congr 1
      funext result
      exact Prod.ext rfl (set_ensure h _ other output)

theorem isSome_get?_atPath {act : Level → β × Level} {segment : Segment} {path : Path}
    {result : β × Level} (h : atPath act (segment :: path) level = some result) (other : String) :
    (result.2.get? other).isSome = (level.get? other).isSome := by
  rw [atPath_cons] at h
  obtain ⟨found, hfound, h⟩ := Option.bind_eq_some_iff.mp h
  obtain ⟨b, hb, h⟩ := Option.bind_eq_some_iff.mp h
  obtain ⟨inner, hinner, rfl⟩ := Option.map_eq_some_iff.mp h
  exact isSome_get?_set _ _ _ _

theorem update_ensureAll (h : (level.get? name).isSome = true)
    (outputs : List (String × Output)) :
    (level.ensureAll outputs).update name initial act =
      (level.update name initial act).map id fun level => level.ensureAll outputs := by
  induction outputs generalizing level with
  | nil => rfl
  | cons output rest ih =>
      have hrest := ih (isSome_get?_ensure h output.1 output.2)
      rw [update_ensure h] at hrest
      exact hrest

theorem atPath_ensureAll {act : Level → β × Level} {segment : Segment} {path : Path}
    (h : (level.get? segment.name).isSome = true) (outputs : List (String × Output)) :
    atPath act (segment :: path) (level.ensureAll outputs) =
      (atPath act (segment :: path) level).map
        (Prod.map id fun level => level.ensureAll outputs) := by
  induction outputs generalizing level with
  | nil => exact Option.map_id'.symm
  | cons output rest ih =>
      have hrest := ih (isSome_get?_ensure h output.1 output.2)
      rw [atPath_ensure h, Option.map_map] at hrest
      exact hrest

/-! ## Outputs of one kind -/

/-- Act on a list of buckets; nothing when the output is of another kind. -/
def onBucketsOf (act : BucketList Output → β × BucketList Output) : Output → Option β × Output
  | .buckets list => (some (act list).1, .buckets (act list).2)
  | other => (none, other)

/-- Act on a single bucket; nothing when the output is of another kind. -/
def onSingleOf (act : Bucket Output → β × Bucket Output) : Output → Option β × Output
  | .single bucket => (some (act bucket).1, .single (act bucket).2)
  | other => (none, other)

/-- Act on a tally; nothing when the output is of another kind. -/
def onMetricOf (act : Tally → β × Tally) : Output → Option β × Output
  | .metric tally => (some (act tally).1, .metric (act tally).2)
  | other => (none, other)

theorem get?_ensure_self (level : Level) (name : String) (initial : Output) :
    (level.ensure name initial).get? name = some ((level.get? name).getD initial) := by
  rw [get?_ensure, if_pos rfl]

theorem onBuckets_eq_update (level : Level) (name : String) (initial : BucketList Output)
    (act : BucketList Output → β × BucketList Output) :
    level.onBuckets name initial act = level.update name (.buckets initial) (onBucketsOf act) := by
  have hget := level.get?_ensure_self name (.buckets initial)
  unfold onBuckets update
  dsimp only
  generalize (level.get? name).getD (.buckets initial) = output at hget
  rw [hget]
  cases output with
  | buckets list => rfl
  | single bucket => exact Prod.ext rfl (set_eq_self hget).symm
  | metric tally => exact Prod.ext rfl (set_eq_self hget).symm

theorem onSingle_eq_update (level : Level) (name : String)
    (act : Bucket Output → β × Bucket Output) :
    level.onSingle name act =
      level.update name (.single (Bucket.empty name none [])) (onSingleOf act) := by
  have hget := level.get?_ensure_self name (.single (Bucket.empty name none []))
  unfold onSingle update
  dsimp only
  generalize (level.get? name).getD (.single (Bucket.empty name none [])) = output at hget
  rw [hget]
  cases output with
  | single bucket => rfl
  | buckets list => exact Prod.ext rfl (set_eq_self hget).symm
  | metric tally => exact Prod.ext rfl (set_eq_self hget).symm

theorem onMetric_eq_update (level : Level) (name : String) (function : MetricFunction)
    (act : Tally → β × Tally) :
    level.onMetric name function act =
      level.update name (.metric (Tally.empty function)) (onMetricOf act) := by
  have hget := level.get?_ensure_self name (.metric (Tally.empty function))
  unfold onMetric update
  dsimp only
  generalize (level.get? name).getD (.metric (Tally.empty function)) = output at hget
  rw [hget]
  cases output with
  | metric tally => rfl
  | buckets list => exact Prod.ext rfl (set_eq_self hget).symm
  | single bucket => exact Prod.ext rfl (set_eq_self hget).symm

/-- Nothing changes but that the output is made. -/
theorem update_eq_ensure (h : ∀ output, (act output).2 = output) :
    (level.update name initial act).2 = level.ensure name initial := by
  rw [update, h]
  exact set_eq_self (level.get?_ensure_self name initial)

end Level

/-! ## Nodes -/

namespace Node

variable {n : Node} {countColumn : String} {metricName : Option String} {row other : Row}

/-- What a node does with its output: one change, and a step inside it if there is one. -/
def IsUpdate (n : Node) (initial : Output) (place : Level → Step × Level) : Prop :=
  ∃ act : Output → Step × Output,
    (∀ level, place level = level.update n.name initial act) ∧
    ∀ output segment, (act output).1 = .descend segment → segment.name = n.name

theorem isUpdate_onBuckets {initial : BucketList Output}
    {act : BucketList Output → Step × BucketList Output}
    (h : ∀ list segment, (act list).1 = .descend segment → segment.name = n.name) :
    n.IsUpdate (.buckets initial) fun level =>
      ((level.onBuckets n.name initial act).1.getD .skip,
        (level.onBuckets n.name initial act).2) := by
  refine ⟨fun output => ((Level.onBucketsOf act output).1.getD .skip,
    (Level.onBucketsOf act output).2), fun level => ?_, fun output segment hstep => ?_⟩
  · dsimp only
    rw [Level.onBuckets_eq_update]
    rfl
  · cases output with
    | buckets list => exact h list segment hstep
    | _ => cases hstep

theorem isUpdate_placeIn (finish : Finish) (bucket? : Option (Bucket Output)) (docs : Nat) :
    n.IsUpdate (.buckets (.new .array finish)) (placeIn n.name finish bucket? docs) := by
  refine isUpdate_onBuckets fun list segment hstep => ?_
  cases bucket? with
  | none => cases hstep
  | some b =>
      obtain rfl := Step.descend.inj hstep
      rfl

theorem isUpdate_ranges (r : Ranges) (column countColumn : String) (row : Row) :
    n.IsUpdate (.buckets (.preset (if r.keyed then .keyed else .array) r.buckets))
      (r.place n.name column countColumn row) := by
  refine isUpdate_onBuckets fun list segment hstep => ?_
  dsimp only at hstep
  split at hstep
  · split at hstep
    · obtain rfl := Step.descend.inj hstep
      rfl
    · cases hstep
  · cases hstep

theorem isUpdate_listed (l : Leg) (shape : ListShape) (docs : Nat) {inside : Segment → Step}
    (h : ∀ index segment, inside (.bucket n.name index) = .descend segment →
      segment.name = n.name) :
    n.IsUpdate (.buckets (.preset shape l.buckets))
      (Leg.place.listed l n.name shape docs inside) := by
  let act (list : BucketList Output) : Step × BucketList Output :=
    (inside (.bucket n.name l.index), list.modify l.index fun b => b.addDocs docs)
  have hact : ∀ list segment, (act list).1 = .descend segment → segment.name = n.name :=
    fun _ segment => h l.index segment
  exact isUpdate_onBuckets hact

theorem initial_ranges {r : Ranges} (h : n.aggregation = .ranges r) (metricName : Option String) :
    n.initial metricName = .buckets (.preset (if r.keyed then .keyed else .array) r.buckets) := by
  simp only [initial, h]

theorem initial_leg {l : Leg} (h : n.aggregation = .leg l) (metricName : Option String) :
    n.initial metricName = match l.shape with
      | .single => .single (Bucket.empty n.name none [])
      | .named => .buckets (.preset .keyed l.buckets)
      | .anonymous => .buckets (.preset .array l.buckets) := by
  cases hshape : l.shape <;> simp only [initial, h, hshape]

theorem isUpdate_leg {l : Leg} (h : n.aggregation = .leg l) (metricName : Option String)
    (isMatched : Bool) (docs : Nat) :
    n.IsUpdate (n.initial metricName) (l.place n.name isMatched docs) := by
  have hinside (own segment : Segment) (hown : own.name = n.name)
      (hstep : (if isMatched then Step.descend own else .skip) = .descend segment) :
      segment.name = n.name := by
    cases isMatched with
    | false => cases hstep
    | true =>
        obtain rfl := Step.descend.inj hstep
        exact hown
  rw [initial_leg h]
  unfold Leg.place
  cases l.shape with
  | named => exact isUpdate_listed l .keyed _ fun index segment => hinside _ segment rfl
  | anonymous => exact isUpdate_listed l .array _ fun index segment => hinside _ segment rfl
  | single =>
      refine ⟨fun output => ((Level.onSingleOf (fun bucket =>
        ((if isMatched then Step.descend (.single n.name) else .skip),
          bucket.addDocs (if isMatched then docs else 0))) output).1.getD .skip,
        (Level.onSingleOf (fun bucket =>
          ((if isMatched then Step.descend (.single n.name) else .skip),
            bucket.addDocs (if isMatched then docs else 0))) output).2), fun level => ?_,
        fun output segment hstep => ?_⟩
      · dsimp only
        rw [Level.onSingle_eq_update]
        rfl
      · cases output with
        | single bucket => exact hinside _ segment rfl hstep
        | _ => cases hstep

theorem isUpdate_metric (m : Metric) (column countColumn : String) (row : Row) :
    n.IsUpdate (.metric (Tally.empty m.function)) (m.place n.name column countColumn row) := by
  refine ⟨fun output => (.stay, (Level.onMetricOf (fun tally =>
    ((), tally.addRow column countColumn row)) output).2), fun level => ?_,
    fun output segment hstep => ?_⟩
  · unfold Metric.place
    rw [Level.onMetric_eq_update]
    rfl
  · cases hstep

/-- A node changes the output under its name only, and goes on inside it if at all. -/
theorem isUpdate_place (hquery : n.isQuery = false) (countColumn : String)
    (metricName : Option String) (row : Row) :
    n.IsUpdate (n.initial metricName) (n.place countColumn metricName row) := by
  by_cases hvalue : n.aggregation.isValueGroup = true
  · rw [initial_value hvalue, funext (place_value hvalue countColumn metricName row)]
    exact isUpdate_placeIn _ _ _
  · rcases kind_of_other (by simpa using hvalue) hquery with ⟨m, h⟩ | ⟨r, h⟩ | ⟨l, h⟩
    · unfold initial place
      rw [h]
      exact isUpdate_metric m _ _ row
    · unfold initial place
      rw [h]
      exact isUpdate_ranges r _ _ row
    · unfold place
      rw [h]
      exact isUpdate_leg h metricName _ _

/-- A leg that a row misses makes its output and nothing else. -/
theorem place_leg_of_missed {l : Leg} (h : n.aggregation = .leg l) (metricName : Option String)
    (docs : Nat) (level : Level) : l.place n.name false docs level =
      (.skip, level.ensure n.name (n.initial metricName)) := by
  have hlisted (shape : ListShape) :
      Leg.place.listed l n.name shape 0 (fun _ => Step.skip) level =
        (.skip, level.ensure n.name (.buckets (.preset shape l.buckets))) := by
    have hstep (output : Output) :
        (Level.onBucketsOf (fun list => (Step.skip, list)) output).1.getD .skip = .skip := by
      cases output <;> rfl
    unfold Leg.place.listed
    simp only [modify_addDocs_zero]
    rw [Level.onBuckets_eq_update]
    refine Prod.ext (hstep _) (Level.update_eq_ensure fun output => ?_)
    cases output <;> rfl
  rw [initial_leg h]
  unfold Leg.place
  cases l.shape with
  | named => exact hlisted .keyed
  | anonymous => exact hlisted .array
  | single =>
      have hstep (output : Output) :
          (Level.onSingleOf (fun bucket => (Step.skip, bucket.addDocs 0)) output).1.getD .skip =
            .skip := by
        cases output <;> rfl
      dsimp only
      rw [Level.onSingle_eq_update]
      refine Prod.ext (hstep _) (Level.update_eq_ensure fun output => ?_)
      cases output <;> rfl

/-- A metric that a row has no value for makes its output and nothing else. -/
theorem place_metric_of_none {m : Metric} (h : n.aggregation = .metric m)
    (metricName : Option String) {column : String} (hnone : row.measure? column countColumn = none)
    (level : Level) : m.place n.name column countColumn row level =
      (.stay, level.ensure n.name (n.initial metricName)) := by
  have hsame (tally : Tally) : tally.addRow column countColumn row = tally := by
    rw [Tally.addRow, hnone]
  unfold Metric.place initial
  rw [h]
  simp only [hsame]
  rw [Level.onMetric_eq_update]
  refine Prod.ext rfl (Level.update_eq_ensure fun output => ?_)
  cases output <;> rfl

/-- Rows that say the same in the column of a node, and have the same documents, are placed
alike. -/
theorem place_congr (hget : ∀ c, n.readColumn? = some c → row.get? c = other.get? c)
    (hcount : row.count countColumn = other.count countColumn) :
    n.place countColumn metricName row = n.place countColumn metricName other := by
  funext level
  have hmatches := matchesLeg_congr hget
  have hcell (hread : n.readColumn? = some (n.decisions.column.getD "")) :
      row.number? (n.decisions.column.getD "") = other.number? (n.decisions.column.getD "") :=
    Row.number?_congr (hget _ hread)
  unfold place
  rw [hcount]
  unfold matchesLeg readColumn? at *
  cases haggregation : n.aggregation with
  | metric m =>
      rw [haggregation] at hcell
      simp only [Metric.place, Tally.addRow, Row.measure?, hcount, hcell]
  | terms t =>
      rw [haggregation] at hget
      simp only [Terms.bucket?, hget]
  | histogram g =>
      rw [haggregation] at hcell
      simp only [Histogram.bucket?, hcell]
  | dateHistogram g =>
      rw [haggregation] at hcell
      simp only [DateHistogram.bucket?, hcell]
  | ranges r =>
      rw [haggregation] at hcell
      simp only [Ranges.place, Ranges.segment?, hcount, hcell]
  | leg l =>
      rw [haggregation] at hmatches
      simp only [hmatches]
  | query q => rfl

end Node

/-! ## A row through outputs made in advance -/

/-- Whether the first step of a path goes into an output that is there. -/
def Level.HasStart (root : Level) : Path → Prop
  | [] => False
  | segment :: _ => (root.get? segment.name).isSome = true

theorem Level.HasStart.mono {root after : Level} {path : Path} (h : root.HasStart path)
    (hkeeps : ∀ name, (root.get? name).isSome = true → (after.get? name).isSome = true) :
    after.HasStart path := by
  cases path with
  | nil => exact h
  | cons segment rest => exact hkeeps segment.name h

theorem Level.HasStart.append {root : Level} {path : Path} (h : root.HasStart path)
    (rest : Path) : root.HasStart (path ++ rest) := by
  cases path with
  | nil => exact h.elim
  | cons segment path => exact h

/-- Whether all that is remembered of a row goes into outputs that are there. -/
structure Places.StartIn (places : Places) (root : Level) : Prop where
  settled : ∀ anchor path, places.settled anchor = some path → root.HasStart path
  pending : ∀ anchor path, places.pending anchor = some path → root.HasStart path

namespace Places.StartIn

variable {places : Places} {root : Level}

theorem nowhere (root : Level) : Places.nowhere.StartIn root where
  settled := fun _ _ h => by cases h
  pending := fun _ _ h => by cases h

theorem mono {after : Level} (h : places.StartIn root)
    (hkeeps : ∀ name, (root.get? name).isSome = true → (after.get? name).isSome = true) :
    places.StartIn after where
  settled := fun anchor path hpath => (h.settled anchor path hpath).mono hkeeps
  pending := fun anchor path hpath => (h.pending anchor path hpath).mono hkeeps

theorem settle (h : places.StartIn root) (anchor : Nat) {found : Option Path}
    (hfound : ∀ path, found = some path → root.HasStart path) :
    (places.settle anchor found).StartIn root where
  settled := by
    intro other path hpath
    unfold Places.settle at hpath
    dsimp only at hpath
    split at hpath
    · exact hfound path hpath
    · exact h.settled other path hpath
  pending := h.pending

theorem suspend (h : places.StartIn root) (anchor : Nat) {found : Option Path}
    (hfound : ∀ path, found = some path → root.HasStart path) :
    (places.suspend anchor found).StartIn root where
  settled := h.settled
  pending := by
    intro other path hpath
    unfold Places.suspend at hpath
    dsimp only at hpath
    split at hpath
    · exact hfound path hpath
    · exact h.pending other path hpath

theorem remember (h : places.StartIn root) (anchor : Nat) (lastLeg : Option Bool) {base : Path}
    {step : Step} (hstep : ∀ segment, step = .descend segment → root.HasStart (base ++ [segment])) :
    (Forest.remember places anchor lastLeg base step).StartIn root := by
  unfold Forest.remember
  cases step with
  | descend segment =>
      have hpath : ∀ path, some (base ++ [segment]) = some path → root.HasStart path :=
        fun path heq => Option.some.inj heq ▸ hstep segment rfl
      dsimp only
      split
      · exact h.suspend anchor hpath
      · exact h.settle anchor hpath
  | skip =>
      dsimp only
      split
      · exact (h.settle anchor (h.pending anchor)).suspend anchor fun _ hnone => by cases hnone
      · exact h
  | stay => exact h

end Places.StartIn

namespace Forest

variable {forest : Forest} {runs : List (List Nat)} {countColumn : String} {row : Row}
  {places : Places} {root : Level}

/-- The output that a node of the request's own level makes. -/
def opening? (forest : Forest) (n : Node) : Option (String × Output) :=
  if n.isShown && n.parent.isNone then some (n.name, n.initial (forest.orderMetricName? n))
  else none

theorem opening?_of_root {n : Node} (hshown : n.isShown = true) (hparent : n.parent = none) :
    forest.opening? n = some (n.name, n.initial (forest.orderMetricName? n)) := by
  rw [opening?, hshown, hparent]
  rfl

/-- The outputs that nodes of the request's own level make, in their order. -/
def openings (forest : Forest) (entries : List (Node × Nat)) : List (String × Output) :=
  entries.filterMap fun entry => forest.opening? entry.1

/-- What a node does with a response. -/
def placeAt (forest : Forest) (countColumn : String) (row : Row) (entry : Node × Nat) :
    Level → Step × Level :=
  entry.1.place countColumn (forest.orderMetricName? entry.1)
    (forest.sourceAt countColumn row entry.2)

/-- A node that a row does not get to leaves all as it is. A node of the request's own level changes
the output that it makes, and another one does so inside an output that is there. -/
theorem visit_cases (hstart : places.StartIn root) (runs : List (List Nat)) (countColumn : String)
    (row : Row) (entry : Node × Nat) :
    (forest.opening? entry.1 = none ∧ ∀ level,
      forest.visit runs countColumn row (places, level) entry = (places, level)) ∨
    (∃ initial, forest.opening? entry.1 = some (entry.1.name, initial) ∧
      entry.1.IsUpdate initial (forest.placeAt countColumn row entry) ∧ ∀ level,
        forest.visit runs countColumn row (places, level) entry =
          (remember places (forest.anchor entry.2) (lastLeg? runs entry.2) []
            (forest.placeAt countColumn row entry level).1,
            (forest.placeAt countColumn row entry level).2)) ∨
    (forest.opening? entry.1 = none ∧ ∃ segment path, root.HasStart (segment :: path) ∧ ∀ level,
      forest.visit runs countColumn row (places, level) entry =
        match Level.atPath (forest.placeAt countColumn row entry) (segment :: path) level with
        | none => (places, level)
        | some (step, after) =>
            (remember places (forest.anchor entry.2) (lastLeg? runs entry.2) (segment :: path)
              step, after)) := by
  obtain ⟨n, i⟩ := entry
  unfold visit opening?
  dsimp only
  cases hshown : n.isShown with
  | false => exact Or.inl ⟨rfl, fun _ => rfl⟩
  | true =>
      cases hparent : n.parent with
      | none =>
          exact Or.inr (Or.inl ⟨n.initial (forest.orderMetricName? n), rfl,
            Node.isUpdate_place (Node.isQuery_of_isShown hshown) countColumn _ _, fun _ => rfl⟩)
      | some parent =>
          simp only [Places.base?]
          cases hbase : places.settled parent with
          | none => exact Or.inl ⟨rfl, fun _ => rfl⟩
          | some base =>
              have hhas := hstart.settled parent base hbase
              cases base with
              | nil => exact hhas.elim
              | cons segment path =>
                  exact Or.inr (Or.inr ⟨rfl, segment, path, hhas, fun level => rfl⟩)

/-- A row keeps the outputs that are there. -/
theorem isSome_get?_visit (hstart : places.StartIn root) (entry : Node × Nat) {name : String}
    (h : (root.get? name).isSome = true) :
    ((forest.visit runs countColumn row (places, root) entry).2.get? name).isSome = true := by
  rcases visit_cases hstart runs countColumn row entry with
    ⟨-, hvisit⟩ | ⟨initial, -, ⟨act, hact, -⟩, hvisit⟩ | ⟨-, segment, path, -, hvisit⟩
  · rwa [hvisit]
  · rw [hvisit, hact, Level.isSome_get?_update, h, Bool.or_true]
  · rw [hvisit]
    split
    · exact h
    · rename_i hresult
      have hsame := Level.isSome_get?_atPath hresult name
      dsimp only at hsame ⊢
      rwa [hsame]

/-- A node of the request's own level makes its output. -/
theorem isSome_get?_visit_of_opening (hstart : places.StartIn root) {entry : Node × Nat}
    {output : String × Output} (h : forest.opening? entry.1 = some output) :
    ((forest.visit runs countColumn row (places, root) entry).2.get? output.1).isSome = true := by
  rcases visit_cases hstart runs countColumn row entry with
    ⟨hnone, -⟩ | ⟨initial, hsome, ⟨act, hact, -⟩, hvisit⟩ | ⟨hnone, -⟩
  · rw [hnone] at h
    cases h
  · obtain rfl := Option.some.inj (hsome.symm.trans h)
    rw [hvisit, hact, Level.isSome_get?_update, decide_eq_true rfl, Bool.true_or]
  · rw [hnone] at h
    cases h

/-- Whatever a row goes on inside is there. -/
theorem startIn_visit (hstart : places.StartIn root) (entry : Node × Nat) :
    (forest.visit runs countColumn row (places, root) entry).1.StartIn
      (forest.visit runs countColumn row (places, root) entry).2 := by
  have hafter : places.StartIn (forest.visit runs countColumn row (places, root) entry).2 :=
    hstart.mono fun name h => isSome_get?_visit hstart entry h
  rcases visit_cases hstart runs countColumn row entry with
    ⟨-, hvisit⟩ | ⟨initial, hsome, ⟨act, hact, hname⟩, hvisit⟩ | ⟨-, segment, path, hhas, hvisit⟩
  · rw [hvisit]
    exact hstart
  · have hopened : ((forest.visit runs countColumn row (places, root) entry).2.get?
        entry.1.name).isSome = true := isSome_get?_visit_of_opening hstart hsome
    rw [hvisit] at hafter hopened ⊢
    refine hafter.remember _ _ fun segment hstep => ?_
    rw [hact] at hstep
    rw [List.nil_append, Level.HasStart, hname _ segment hstep]
    exact hopened
  · have hhasAfter : (forest.visit runs countColumn row (places, root) entry).2.HasStart
        (segment :: path) := hhas.mono fun name h => isSome_get?_visit hstart entry h
    rw [hvisit] at hafter hhasAfter ⊢
    cases hresult : Level.atPath (forest.placeAt countColumn row entry) (segment :: path) root with
    | none => exact hstart
    | some result =>
        rw [hresult] at hafter hhasAfter
        exact hafter.remember _ _ fun other _ => hhasAfter.append [other]

/-- Outputs that later nodes make may be made in advance. -/
theorem visit_ensureAll (hstart : places.StartIn root) (entry : Node × Nat)
    (outputs : List (String × Output)) :
    forest.visit runs countColumn row
        (places, (root.ensureAll (forest.opening? entry.1).toList).ensureAll outputs) entry =
      (forest.visit runs countColumn row (places, root) entry).map id
        fun level => level.ensureAll outputs := by
  rcases visit_cases hstart runs countColumn row entry with
    ⟨hnone, hvisit⟩ | ⟨initial, hsome, ⟨act, hact, -⟩, hvisit⟩ |
      ⟨hnone, segment, path, hhas, hvisit⟩
  · rw [hvisit, hvisit, hnone]
    rfl
  · have hhas : ((root.ensure entry.1.name initial).get? entry.1.name).isSome = true := by
      rw [Level.get?_ensure_self]
      rfl
    have hensured : forest.placeAt countColumn row entry
        ((root.ensure entry.1.name initial).ensureAll outputs) =
          (forest.placeAt countColumn row entry root).map id
            fun level => level.ensureAll outputs := by
      rw [hact, hact, Level.update_ensureAll hhas, Level.update_ensure_self]
    have hmade : (root.ensureAll (some (entry.1.name, initial)).toList) =
        root.ensure entry.1.name initial := rfl
    rw [hvisit, hvisit, hsome, hmade, hensured]
    rfl
  · have hnothing : root.ensureAll (none : Option (String × Output)).toList = root := rfl
    rw [hvisit, hvisit, hnone, hnothing, Level.atPath_ensureAll hhas]
    cases Level.atPath (forest.placeAt countColumn row entry) (segment :: path) root <;> rfl

/-- What the nodes of the request's own level make may be made in advance. -/
theorem foldl_visit_ensureAll (hstart : places.StartIn root) (entries : List (Node × Nat)) :
    entries.foldl (forest.visit runs countColumn row)
        (places, root.ensureAll (forest.openings entries)) =
      entries.foldl (forest.visit runs countColumn row) (places, root) := by
  induction entries generalizing places root with
  | nil => rfl
  | cons entry rest ih =>
      have hfirst : root.ensureAll (forest.openings (entry :: rest)) =
          (root.ensureAll (forest.opening? entry.1).toList).ensureAll (forest.openings rest) := by
        unfold openings Level.ensureAll
        rw [List.filterMap_cons, ← List.foldl_append]
        cases forest.opening? entry.1 <;> rfl
      rw [List.foldl_cons, List.foldl_cons, hfirst, visit_ensureAll hstart]
      exact ih (startIn_visit hstart entry)

/-- After a row all outputs of the nodes of the request's own level are there. -/
theorem isSome_get?_foldl_visit (hstart : places.StartIn root) {entries : List (Node × Nat)}
    {name : String} (h : (root.get? name).isSome = true ∨
      ∃ output ∈ forest.openings entries, output.1 = name) :
    ((entries.foldl (forest.visit runs countColumn row) (places, root)).2.get? name).isSome =
      true := by
  induction entries generalizing places root with
  | nil =>
      rcases h with hsome | ⟨output, houtput, -⟩
      · exact hsome
      · cases houtput
  | cons entry rest ih =>
      rw [List.foldl_cons]
      refine ih (startIn_visit hstart entry) ?_
      rcases h with hsome | ⟨output, houtput, rfl⟩
      · exact Or.inl (isSome_get?_visit hstart entry hsome)
      · obtain ⟨other, hother, hopening⟩ := List.mem_filterMap.mp houtput
        rcases List.mem_cons.mp hother with rfl | hlater
        · exact Or.inl (isSome_get?_visit_of_opening hstart hopening)
        · exact Or.inr ⟨output, List.mem_filterMap.mpr ⟨other, hlater, hopening⟩, rfl⟩

/-- A row leaves the same whether the outputs of the request's own level are made before it or not.
They are there after it. -/
theorem foldRow_ensureAll (forest : Forest) (runs : List (List Nat)) (countColumn : String)
    (root : Level) (row : Row) :
    forest.foldRow runs countColumn (root.ensureAll (forest.openings forest.zipIdx)) row =
        forest.foldRow runs countColumn root row ∧
      (forest.foldRow runs countColumn root row).ensureAll (forest.openings forest.zipIdx) =
        forest.foldRow runs countColumn root row := by
  constructor
  · exact congrArg Prod.snd (foldl_visit_ensureAll (.nowhere root) forest.zipIdx)
  · exact Level.ensureAll_eq_self fun output houtput =>
      isSome_get?_foldl_visit (.nowhere root) (Or.inr ⟨output, houtput, rfl⟩)

end Forest

end Rollup
