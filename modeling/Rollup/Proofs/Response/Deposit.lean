/-
# Placing a row

A node that places a row changes one output of a level. It creates what is missing, keeps the
identities and the inside of all buckets that are there, and counts the documents of the row in
the buckets that the row is in, which its own columns tell. The row goes on inside one of these.
-/

import Rollup.Proofs.Forest.Layout
import Rollup.Proofs.Response.Lookup
import Rollup.Proofs.Response.Path
import Rollup.Response.Place

namespace Rollup

/-! ## Buckets of a list -/

namespace BucketList

/-- Buckets after some were added at the end and documents were counted in. -/
structure Grown (before after : List (Bucket Output)) (deposit : Nat → Nat) : Prop where
  length_le : before.length ≤ after.length
  kept : ∀ i (b : Bucket Output), before[i]? = some b → after[i]? = some (b.addDocs (deposit i))
  fresh : ∀ i (b : Bucket Output), before[i]? = none → after[i]? = some b →
    b.inner = [] ∧ b.docCount = deposit i

theorem Grown.refl (entries : List (Bucket Output)) : Grown entries entries fun _ => 0 where
  length_le := Nat.le_refl _
  kept := fun _ _ hb => hb
  fresh := by
    intro i b hnone hsome
    rw [hnone] at hsome
    cases hsome

/-- New buckets have nothing inside and no documents. -/
theorem Grown.append (entries fresh : List (Bucket Output))
    (hfresh : ∀ b ∈ fresh, b.inner = [] ∧ b.docCount = 0) :
    Grown entries (entries ++ fresh) fun _ => 0 where
  length_le := by simp
  kept := by
    intro i b hb
    rw [List.getElem?_append_left (List.getElem?_eq_some_iff.mp hb).1]
    exact hb
  fresh := by
    intro i b hnone hsome
    rw [List.getElem?_append_right (List.getElem?_eq_none_iff.mp hnone)] at hsome
    exact hfresh b (List.mem_of_getElem? hsome)

/-- Counting documents in at one position. -/
theorem Grown.modify {before after : List (Bucket Output)} {deposit : Nat → Nat}
    (h : Grown before after deposit) (position docs : Nat) :
    Grown before (after.modify position fun b => b.addDocs docs)
      fun i => deposit i + if i = position then docs else 0 where
  length_le := by simpa using h.length_le
  kept := by
    intro i b hb
    rw [List.getElem?_modify, h.kept i b hb]
    by_cases hi : position = i
    · simp [hi, Bucket.addDocs, Nat.add_assoc]
    · have hne : i ≠ position := fun heq => hi heq.symm
      simp [hi, hne]
  fresh := by
    intro i b hnone hsome
    rw [List.getElem?_modify] at hsome
    obtain ⟨old, hold, rfl⟩ := Option.map_eq_some_iff.mp hsome
    obtain ⟨hinner, hdocs⟩ := h.fresh i old hnone hold
    by_cases hi : position = i
    · simp [hi, Bucket.addDocs, hinner, hdocs]
    · have hne : i ≠ position := fun heq => hi heq.symm
      simp [hi, hne, hinner, hdocs]

/-- Counting documents in at several positions, each once. -/
theorem Grown.foldl_modify {before after : List (Bucket Output)} {deposit : Nat → Nat}
    (h : Grown before after deposit) (positions : List Nat) (docs : Nat)
    (hnodup : positions.Nodup) :
    Grown before
      (positions.foldl (fun entries position => entries.modify position fun b => b.addDocs docs)
        after)
      fun i => deposit i + if i ∈ positions then docs else 0 := by
  induction positions generalizing after deposit with
  | nil => simpa using h
  | cons position rest ih =>
      rw [List.nodup_cons] at hnodup
      have hrest := ih (h.modify position docs) hnodup.2
      have hequal : (fun i => deposit i + (if i = position then docs else 0) +
          if i ∈ rest then docs else 0) =
          fun i => deposit i + if i ∈ position :: rest then docs else 0 := by
        funext i
        by_cases hi : i = position
        · subst hi
          simp [hnodup.1]
        · simp [hi]
      rw [hequal] at hrest
      exact hrest

/-- Counting documents in at a position keeps the identities. -/
theorem map_id_addDocs (list : BucketList Output) (position docs : Nat) :
    (list.modify position fun b => b.addDocs docs).entries.map Bucket.id =
      list.entries.map Bucket.id := by
  apply List.ext_getElem?
  intro i
  rw [modify, List.getElem?_map, List.getElem?_map, List.getElem?_modify]
  cases list.entries[i]? with
  | none => rfl
  | some b => by_cases hi : position = i <;> simp [hi, Bucket.addDocs]

/-- What is left of a list in which a bucket was found or created and documents were counted in. -/
structure HasCounted (list : BucketList Output) (bucket : Bucket Output) (docs index : Nat)
    (after : BucketList Output) : Prop where
  grown : Grown list.entries after.entries fun i => if i = index then docs else 0
  counted : ∃ b, after.entries[index]? = some b ∧ b.id = bucket.id
  distinct : (after.entries.map Bucket.id).Nodup
  finish : after.finish = list.finish
  /-- Every bucket was there before, or it is the one that was created. -/
  origin : ∀ (i : Nat) (b : Bucket Output), after.entries[i]? = some b →
    (∃ b' : Bucket Output, list.entries[i]? = some b' ∧ b'.id = b.id ∧ b'.key = b.key) ∨
      bucket.id = b.id ∧ bucket.key = b.key

/-- The buckets of a list after one was found, or created at the end. -/
theorem findOrInsert_spec (list : BucketList Output) (bucket : Bucket Output)
    (hinner : bucket.inner = []) (hdocs : bucket.docCount = 0) :
    Grown list.entries (list.findOrInsert bucket).2.entries (fun _ => 0) ∧
      (list.findOrInsert bucket).2.finish = list.finish ∧
      ∀ (i : Nat) (b : Bucket Output), (list.findOrInsert bucket).2.entries[i]? = some b →
        list.entries[i]? = some b ∨ b = bucket := by
  rcases list.findOrInsert_cases bucket with ⟨i, -, heq⟩ | ⟨-, heq⟩ <;> rw [heq]
  · exact ⟨Grown.refl _, rfl, fun _ _ => Or.inl⟩
  · refine ⟨Grown.append _ _ (by simp [hinner, hdocs]), rfl, fun i b hb => ?_⟩
    by_cases hi : i < list.entries.length
    · rw [List.getElem?_append_left hi] at hb
      exact Or.inl hb
    · rw [List.getElem?_append_right (by omega)] at hb
      exact Or.inr (List.mem_singleton.mp (List.mem_of_getElem? hb))

/-- Documents are counted in the bucket that is found or created. -/
theorem hasCounted_findOrInsert {list : BucketList Output} {bucket : Bucket Output}
    (hinner : bucket.inner = []) (hdocs : bucket.docCount = 0)
    (hnodup : (list.entries.map Bucket.id).Nodup) (docs : Nat) :
    list.HasCounted bucket docs (list.findOrInsert bucket).1
      ((list.findOrInsert bucket).2.modify (list.findOrInsert bucket).1 fun b =>
        b.addDocs docs) := by
  obtain ⟨hgrown, hfinish, horigin⟩ := list.findOrInsert_spec bucket hinner hdocs
  exact
    { grown := by simpa [modify] using hgrown.modify (list.findOrInsert bucket).1 docs
      counted := by
        obtain ⟨b, hb, hid⟩ := exists_of_positionOf? (list.positionOf?_findOrInsert_self bucket)
        rw [modify, List.getElem?_modify, hb]
        exact ⟨b.addDocs docs, by simp, hid⟩
      distinct := by
        rw [map_id_addDocs]
        exact nodup_findOrInsert hnodup bucket
      finish := hfinish
      origin := by
        intro i b hb
        rw [modify, List.getElem?_modify] at hb
        obtain ⟨b', hb', hsame⟩ := Option.map_eq_some_iff.mp hb
        have hkept : b'.id = b.id ∧ b'.key = b.key := by
          rw [← hsame]
          split <;> exact ⟨rfl, rfl⟩
        rcases horigin i b' hb' with hbefore | rfl
        · exact Or.inl ⟨b', hbefore, hkept⟩
        · exact Or.inr hkept }

/-- No other bucket has the identity of the one that documents were counted in. -/
theorem HasCounted.id_eq_iff {list after : BucketList Output} {bucket : Bucket Output}
    {docs index : Nat} (h : list.HasCounted bucket docs index after) {i : Nat} {b : Bucket Output}
    (hb : after.entries[i]? = some b) : bucket.id = b.id ↔ i = index := by
  obtain ⟨found, hfound, hid⟩ := h.counted
  constructor
  · intro hsame
    exact eq_of_getElem?_id h.distinct hb hfound (hsame.symm.trans hid.symm)
  · rintro rfl
    rw [← hid, Option.some.inj (hfound.symm.trans hb)]

end BucketList

/-! ## Outputs of a level -/

namespace Output

/-- The buckets of a list, none when there is no list. -/
def entriesOf : Option Output → List (Bucket Output)
  | some (buckets list) => list.entries
  | _ => []

/-- The documents of the bucket that a step goes into. -/
def docsAt (output : Option Output) (segment : Segment) : Nat :=
  ((output.bind fun o => o.bucketAt? segment).map Bucket.docCount).getD 0

/-- Buckets keep their places and identities. -/
def KeepsIds (before : Option Output) (after : Output) : Prop :=
  ∀ segment b, (before.bind fun o => o.bucketAt? segment) = some b →
    ∃ b', after.bucketAt? segment = some b' ∧ b'.id = b.id

theorem bucketAt?_bucket (output : Option Output) (name : String) (i : Nat) :
    (output.bind fun o => o.bucketAt? (.bucket name i)) = (entriesOf output)[i]? := by
  cases output with
  | none => rfl
  | some o => cases o <;> rfl

/-- What a list of buckets grows into keeps what is inside, and the identities. -/
theorem keepsInner_of_grown {before : Option Output} {after : BucketList Output}
    {deposit : Nat → Nat} (h : BucketList.Grown (entriesOf before) after.entries deposit)
    (hsingle : ∀ b, before ≠ some (.single b)) :
    Level.KeepsInner before (.buckets after) ∧ KeepsIds before (.buckets after) := by
  have hnone (name : String) : (before.bind fun o => o.bucketAt? (.single name)) = none := by
    cases before with
    | none => rfl
    | some o =>
        cases o with
        | single b => exact absurd rfl (hsingle b)
        | buckets list => rfl
        | metric tally => rfl
  refine ⟨⟨?_, ?_⟩, ?_⟩
  · intro segment b hb
    cases segment with
    | bucket name i =>
        rw [bucketAt?_bucket] at hb
        exact ⟨_, h.kept i b hb, rfl⟩
    | single name => rw [hnone] at hb; cases hb
  · intro segment b hb hafter
    cases segment with
    | bucket name i =>
        rw [bucketAt?_bucket] at hb
        exact (h.fresh i b hb hafter).1
    | single name => simp [bucketAt?] at hafter
  · intro segment b hb
    cases segment with
    | bucket name i =>
        rw [bucketAt?_bucket] at hb
        exact ⟨_, h.kept i b hb, rfl⟩
    | single name => rw [hnone] at hb; cases hb

/-- The documents that are counted in at every position. -/
theorem docCount_of_grown {before : Option Output} {after : List (Bucket Output)}
    {deposit : Nat → Nat} (h : BucketList.Grown (entriesOf before) after deposit)
    {name : String} {i : Nat} {b : Bucket Output} (hb : after[i]? = some b) :
    b.docCount = docsAt before (.bucket name i) + deposit i := by
  rw [docsAt, bucketAt?_bucket]
  cases hbefore : (entriesOf before)[i]? with
  | none => simpa using (h.fresh i b hbefore hb).2
  | some old =>
      have hkept := h.kept i old hbefore
      rw [hb] at hkept
      rw [Option.some.inj hkept]
      rfl

end Output

namespace Level

/-- Acting on a list of buckets that is there or created. -/
theorem onBuckets_spec {β : Type} (level : Level) (name : String) (initial : BucketList Output)
    (act : BucketList Output → β × BucketList Output) {list : BucketList Output}
    (h : (level.get? name).getD (.buckets initial) = .buckets list) :
    (level.onBuckets name initial act).1 = some (act list).1 ∧
      ∀ other, (level.onBuckets name initial act).2.get? other =
        if other = name then some (.buckets (act list).2) else level.get? other := by
  have hensured : (level.ensure name (.buckets initial)).get? name = some (.buckets list) := by
    rw [get?_ensure, if_pos rfl, h]
  simp only [onBuckets, hensured, true_and]
  intro other
  rw [get?_set, hensured, get?_ensure]
  by_cases hother : other = name <;> simp [hother]

/-- Acting on a single bucket that is there or created. -/
theorem onSingle_spec {β : Type} (level : Level) (name : String)
    (act : Bucket Output → β × Bucket Output) {b : Bucket Output}
    (h : (level.get? name).getD (.single (Bucket.empty name none [])) = .single b) :
    (level.onSingle name act).1 = some (act b).1 ∧
      ∀ other, (level.onSingle name act).2.get? other =
        if other = name then some (.single (act b).2) else level.get? other := by
  have hensured : (level.ensure name (.single (Bucket.empty name none []))).get? name =
      some (.single b) := by
    rw [get?_ensure, if_pos rfl, h]
  simp only [onSingle, hensured, true_and]
  intro other
  rw [get?_set, hensured, get?_ensure]
  by_cases hother : other = name <;> simp [hother]

/-- Acting on a tally that is there or created. -/
theorem onMetric_spec {β : Type} (level : Level) (name : String) (function : MetricFunction)
    (act : Tally → β × Tally) {tally : Tally}
    (h : (level.get? name).getD (.metric (Tally.empty function)) = .metric tally) :
    ∀ other, (level.onMetric name function act).2.get? other =
      if other = name then some (.metric (act tally).2) else level.get? other := by
  have hensured : (level.ensure name (.metric (Tally.empty function))).get? name =
      some (.metric tally) := by
    rw [get?_ensure, if_pos rfl, h]
  simp only [onMetric, hensured]
  intro other
  rw [get?_set, hensured, get?_ensure]
  by_cases hother : other = name <;> simp [hother]

end Level

/-! ## What a node does -/

namespace Node

/-- The bucket of a value or an interval that a row is in. -/
def valueBucket? (n : Node) (row : Row) : Option (Bucket Output) :=
  let column := n.decisions.column.getD ""
  match n.aggregation with
  | .terms t => t.bucket? row
  | .histogram _ => Histogram.bucket? column row
  | .dateHistogram h => h.bucket? column row
  | _ => none

/-- The positions of the ranges that the segment of a row lies in. -/
def rangesOf (n : Node) (row : Row) : List Nat :=
  match n.aggregation with
  | .ranges r =>
      match Ranges.segment? (n.decisions.column.getD "") row with
      | some segment => r.containing segment
      | none => []
  | _ => []

/-- Whether a row matches the leg of a node. -/
def matchesLeg (n : Node) (row : Row) : Bool :=
  match n.aggregation with
  | .leg l => l.isMatchedBy n.decisions.direct n.decisions.column row
  | _ => false

/-- Whether the documents of a row belong into the bucket that a step goes into: the bucket with
the identity of its value, a range that contains its segment, or a leg that it matches. -/
def hits (n : Node) (row : Row) (segment : Segment) (id : String) : Bool :=
  match n.aggregation, segment with
  | .terms _, .bucket _ _ => (n.valueBucket? row).any fun b => b.id == id
  | .histogram _, .bucket _ _ => (n.valueBucket? row).any fun b => b.id == id
  | .dateHistogram _, .bucket _ _ => (n.valueBucket? row).any fun b => b.id == id
  | .ranges _, .bucket _ i => (n.rangesOf row).contains i
  | .leg l, .bucket _ i => l.shape != .single && n.matchesLeg row && i == l.index
  | .leg l, .single _ => l.shape == .single && n.matchesLeg row
  | _, _ => false

/-- Whether a row goes on inside the bucket that a step goes into: of several ranges it is the
first one. -/
def enters (n : Node) (row : Row) (segment : Segment) (id : String) : Bool :=
  match n.aggregation, segment with
  | .ranges _, .bucket _ i => (n.rangesOf row).head? == some i
  | _, _ => n.hits row segment id

/-- Whether an output is one that a node makes. -/
def Fits (n : Node) (output : Output) : Prop :=
  match n.aggregation, output with
  | .metric _, .metric _ => True
  | .terms _, .buckets list => (list.entries.map Bucket.id).Nodup
  | .histogram h, .buckets list =>
      (list.entries.map Bucket.id).Nodup ∧ list.finish = intervalFinish h.minDocCount
  | .dateHistogram h, .buckets list =>
      (list.entries.map Bucket.id).Nodup ∧ list.finish = intervalFinish h.minDocCount
  | .ranges r, .buckets list => list.entries.length = r.specs.length
  | .leg l, .buckets list => l.shape ≠ .single ∧ list.entries.length = l.labels.length
  | .leg l, .single _ => l.shape = .single
  | _, _ => False

/-- The tally of a metric so far. -/
def tallyOf (m : Metric) : Option Output → Tally
  | some (.metric tally) => tally
  | _ => Tally.empty m.function

/-- Whether a bucket is the one that a node of values or intervals makes for a row. -/
def Makes (n : Node) (row : Row) (b : Bucket Output) : Prop :=
  ∃ fresh, n.valueBucket? row = some fresh ∧ fresh.id = b.id ∧ fresh.key = b.key

/-- What placing a row makes of the output of a node, and where the row goes on. -/
structure Placed (n : Node) (countColumn : String) (row : Row) (before : Option Output)
    (after : Output) (step : Step) : Prop where
  fits : n.Fits after
  inner : Level.KeepsInner before after
  ids : Output.KeepsIds before after
  docs : ∀ segment b, segment.name = n.name → after.bucketAt? segment = some b →
    b.docCount = Output.docsAt before segment +
      if n.hits row segment b.id then row.count countColumn else 0
  stay : step = .stay → n.isLeg = false
  goesOn : ∀ segment id, n.hits row segment id = true → ∃ next, step = .descend next
  origin : n.aggregation.isValueGroup = true → ∀ segment b, after.bucketAt? segment = some b →
    (∃ b', (before.bind fun output => output.bucketAt? segment) = some b' ∧ b'.id = b.id ∧
      b'.key = b.key) ∨ n.Makes row b
  step : ∀ segment, step = .descend segment ↔ segment.name = n.name ∧
    ∃ b, after.bucketAt? segment = some b ∧ n.enters row segment b.id = true
  complete : ∀ later, n.Fits later → Output.KeepsIds (some after) later →
    ∀ segment b, later.bucketAt? segment = some b → n.hits row segment b.id = true →
      ∃ b', after.bucketAt? segment = some b' ∧ b'.id = b.id
  tally : ∀ m, n.aggregation = .metric m → after =
    .metric ((tallyOf m before).addRow (n.decisions.column.getD "") countColumn row)

section

variable {n : Node} {countColumn : String} {row : Row}

/-- A list of buckets that has grown by the documents of a row. -/
theorem placed_of_grown {before : Option Output} {after : BucketList Output}
    {deposit : Nat → Nat} {step : Step}
    (hgrown : BucketList.Grown (Output.entriesOf before) after.entries deposit)
    (hsingle : ∀ b, before ≠ some (.single b)) (hfits : n.Fits (.buckets after))
    (hdeposit : ∀ name i b, after.entries[i]? = some b →
      deposit i = if n.hits row (.bucket name i) b.id then row.count countColumn else 0)
    (hstep : ∀ segment, step = .descend segment ↔ segment.name = n.name ∧
      ∃ b, (Output.buckets after).bucketAt? segment = some b ∧
        n.enters row segment b.id = true)
    (hstay : step ≠ Step.stay)
    (hcomplete : ∀ later : BucketList Output, n.Fits (.buckets later) →
      Output.KeepsIds (some (.buckets after)) (.buckets later) →
      ∀ name i b, later.entries[i]? = some b → n.hits row (.bucket name i) b.id = true →
        ∃ b', after.entries[i]? = some b' ∧ b'.id = b.id)
    (hgoesOn : ∀ name i id, n.hits row (.bucket name i) id = true → ∃ next, step = .descend next)
    (horigin : n.aggregation.isValueGroup = true → ∀ (i : Nat) (b : Bucket Output),
      after.entries[i]? = some b → (∃ b' : Bucket Output, (Output.entriesOf before)[i]? = some b' ∧
        b'.id = b.id ∧ b'.key = b.key) ∨ n.Makes row b) :
    n.Placed countColumn row before (.buckets after) step where
  fits := hfits
  inner := (Output.keepsInner_of_grown hgrown hsingle).1
  ids := (Output.keepsInner_of_grown hgrown hsingle).2
  docs := by
    intro segment b hname hb
    cases segment with
    | bucket name i =>
        rw [← hdeposit name i b hb]
        exact Output.docCount_of_grown hgrown hb
    | single name => cases hb
  step := hstep
  stay := fun h => absurd h hstay
  complete := by
    intro later hlater hids segment b hb hhits
    cases later with
    | buckets list =>
        cases segment with
        | bucket name i => exact hcomplete list hlater hids name i b hb hhits
        | single name => cases hb
    | single bucket =>
        unfold Fits at hlater hfits
        cases haggregation : n.aggregation <;> simp_all
    | metric tally => cases hb
  goesOn := by
    intro segment id hhits
    cases segment with
    | bucket name i => exact hgoesOn name i id hhits
    | single name =>
        unfold Fits at hfits
        unfold hits at hhits
        cases haggregation : n.aggregation <;> simp_all
  origin := by
    intro hvalue segment b hb
    cases segment with
    | bucket name i =>
        rw [Output.bucketAt?_bucket]
        exact horigin hvalue i b hb
    | single name => cases hb
  tally := by
    intro m hm
    unfold Fits at hfits
    simp [hm] at hfits

/-! ### Values and intervals -/

/-- What happens in the end to the list that a node of values or intervals creates. -/
def valueFinish (n : Node) (metricName : Option String) : Finish :=
  match n.aggregation with
  | .terms t => t.finish metricName
  | .histogram h => intervalFinish h.minDocCount
  | .dateHistogram h => intervalFinish h.minDocCount
  | _ => .plain

/-- Intervals stay in the order of their keys, and none is cut off. -/
def KeepsFinish (n : Node) (finish : Finish) : Prop :=
  n.aggregation.isHistogram = true → finish = n.valueFinish none

theorem fits_value (hvalue : n.aggregation.isValueGroup = true) (list : BucketList Output) :
    n.Fits (.buckets list) ↔ (list.entries.map Bucket.id).Nodup ∧ n.KeepsFinish list.finish := by
  unfold Fits KeepsFinish valueFinish
  cases haggregation : n.aggregation <;>
    simp_all [Aggregation.isValueGroup, Aggregation.isHistogram, Aggregation.terms?]

theorem hits_value (hvalue : n.aggregation.isValueGroup = true) (row : Row) (name : String)
    (i : Nat) (id : String) :
    n.hits row (.bucket name i) id = (n.valueBucket? row).any fun b => b.id == id := by
  unfold hits
  cases haggregation : n.aggregation <;>
    simp_all [Aggregation.isValueGroup, Aggregation.isHistogram, Aggregation.terms?]

theorem enters_value (hvalue : n.aggregation.isValueGroup = true) (row : Row)
    (segment : Segment) (id : String) :
    n.enters row segment id = n.hits row segment id := by
  unfold enters
  cases haggregation : n.aggregation <;>
    simp_all [Aggregation.isValueGroup, Aggregation.isHistogram, Aggregation.terms?]

theorem place_value (hvalue : n.aggregation.isValueGroup = true) (countColumn : String)
    (metricName : Option String) (row : Row) (level : Level) :
    n.place countColumn metricName row level =
      placeIn n.name (n.valueFinish metricName) (n.valueBucket? row) (row.count countColumn)
        level := by
  unfold place valueFinish valueBucket?
  cases haggregation : n.aggregation <;>
    simp_all [Aggregation.isValueGroup, Aggregation.isHistogram, Aggregation.terms?]

/-- The bucket of a value is created without documents. -/
theorem valueBucket?_spec {b : Bucket Output} (h : n.valueBucket? row = some b) :
    b.inner = [] ∧ b.docCount = 0 := by
  have hempty {α : Type} {value : Option α} {make : α → Bucket Output}
      (hmake : ∀ x, (make x).inner = [] ∧ (make x).docCount = 0)
      (hb : value.map make = some b) : b.inner = [] ∧ b.docCount = 0 := by
    obtain ⟨x, -, rfl⟩ := Option.map_eq_some_iff.mp hb
    exact hmake x
  unfold valueBucket? at h
  cases haggregation : n.aggregation with
  | terms t => exact hempty (fun _ => ⟨rfl, rfl⟩) (by simpa [haggregation, Terms.bucket?] using h)
  | histogram g =>
      simp only [haggregation, Histogram.bucket?] at h
      exact hempty (fun _ => ⟨rfl, rfl⟩) h
  | dateHistogram g =>
      simp only [haggregation, DateHistogram.bucket?] at h
      exact hempty (fun _ => ⟨rfl, rfl⟩) h
  | metric m => simp [haggregation] at h
  | ranges r => simp [haggregation] at h
  | leg l => simp [haggregation] at h
  | query q => simp [haggregation] at h

/-- The list that a node of values or intervals acts on: the one that is there, or a new one. -/
theorem exists_valueList (hvalue : n.aggregation.isValueGroup = true)
    (metricName : Option String) {before : Option Output}
    (hfits : ∀ output, before = some output → n.Fits output) :
    ∃ list : BucketList Output,
      before.getD (.buckets (.new .array (n.valueFinish metricName))) = .buckets list ∧
      Output.entriesOf before = list.entries ∧ (∀ b, before ≠ some (.single b)) ∧
      n.Fits (.buckets list) := by
  cases before with
  | none =>
      refine ⟨_, rfl, rfl, by simp, (fits_value hvalue _).mpr ⟨List.nodup_nil, ?_⟩⟩
      intro hhistogram
      unfold BucketList.new valueFinish
      cases haggregation : n.aggregation <;> simp_all [Aggregation.isHistogram]
  | some output =>
      have houtput := hfits output rfl
      cases output with
      | buckets list => exact ⟨list, rfl, rfl, by simp, houtput⟩
      | single b =>
          unfold Fits at houtput
          cases haggregation : n.aggregation <;>
            simp_all [Aggregation.isValueGroup, Aggregation.isHistogram, Aggregation.terms?]
      | metric tally =>
          unfold Fits at houtput
          cases haggregation : n.aggregation <;>
            simp_all [Aggregation.isValueGroup, Aggregation.isHistogram, Aggregation.terms?]

/-- What a node of values or intervals does to its list. -/
def findAndCount (name : String) (bucket? : Option (Bucket Output)) (docs : Nat)
    (list : BucketList Output) : Step × BucketList Output :=
  match bucket? with
  | some bucket =>
      let (index, list) := list.findOrInsert bucket
      (.descend (.bucket name index), list.modify index fun b => b.addDocs docs)
  | none => (.skip, list)

/-- A row without a value leaves the list as it is. -/
theorem placed_of_no_value (hvalue : n.aggregation.isValueGroup = true) {before : Option Output}
    {list : BucketList Output} (hentries : Output.entriesOf before = list.entries)
    (hsingle : ∀ b, before ≠ some (.single b)) (hfits : n.Fits (.buckets list))
    (hbucket : n.valueBucket? row = none) :
    n.Placed countColumn row before (.buckets list) .skip := by
  have hhits (name : String) (i : Nat) (id : String) :
      n.hits row (.bucket name i) id = false := by
    rw [hits_value hvalue, hbucket]
    rfl
  have hgrown : BucketList.Grown (Output.entriesOf before) list.entries fun _ => 0 := by
    rw [hentries]
    exact BucketList.Grown.refl _
  refine placed_of_grown hgrown hsingle hfits (by simp [hhits]) ?_ (by simp) (by simp [hhits])
    (by simp [hhits]) ?_
  · intro segment
    refine ⟨fun h => (nomatch h), ?_⟩
    rintro ⟨-, b, hb, henters⟩
    cases segment with
    | bucket name i => simp [enters_value hvalue, hhits] at henters
    | single name => cases hb
  · intro _ i b hb
    exact Or.inl ⟨b, hentries ▸ hb, rfl, rfl⟩

/-- A row with a value goes on in the bucket that its documents were counted in. -/
theorem placed_of_hasCounted (hvalue : n.aggregation.isValueGroup = true) {before : Option Output}
    {list after : BucketList Output} (hentries : Output.entriesOf before = list.entries)
    (hsingle : ∀ b, before ≠ some (.single b)) (hfits : n.Fits (.buckets list))
    {bucket : Bucket Output} (hbucket : n.valueBucket? row = some bucket) {index : Nat}
    (hcounted : list.HasCounted bucket (row.count countColumn) index after) :
    n.Placed countColumn row before (.buckets after) (.descend (.bucket n.name index)) := by
  have hhits (name : String) (i : Nat) (id : String) :
      n.hits row (.bucket name i) id = (bucket.id == id) := by
    rw [hits_value hvalue, hbucket]
    rfl
  obtain ⟨found, hfound, hid⟩ := hcounted.counted
  have hafter : n.Fits (.buckets after) := by
    refine (fits_value hvalue after).mpr ⟨hcounted.distinct, ?_⟩
    rw [hcounted.finish]
    exact ((fits_value hvalue list).mp hfits).2
  refine placed_of_grown (by rw [hentries]; exact hcounted.grown) hsingle hafter ?_ ?_ (by simp)
    ?_ (fun _ _ _ _ => ⟨_, rfl⟩) ?_
  · intro name i b hb
    simp only [hhits, beq_iff_eq, hcounted.id_eq_iff hb]
  · intro segment
    constructor
    · intro h
      obtain rfl := Step.descend.inj h
      refine ⟨rfl, found, hfound, ?_⟩
      rw [enters_value hvalue, hhits, hid]
      exact beq_self_eq_true _
    · rintro ⟨hname, b, hb, henters⟩
      cases segment with
      | bucket name i =>
          rw [enters_value hvalue, hhits, beq_iff_eq, hcounted.id_eq_iff hb] at henters
          rw [henters, show name = n.name from hname]
      | single name => cases hb
  · intro later hlater hids name i b hb hhit
    rw [hhits, beq_iff_eq] at hhit
    -- the bucket has stayed at its place, and identities still differ
    obtain ⟨b', hb', hsame⟩ := hids (.bucket name index) found hfound
    obtain rfl : i = index := BucketList.eq_of_getElem?_id ((fits_value hvalue later).mp hlater).1
      hb hb' (hhit.symm.trans (hid.symm.trans hsame.symm))
    exact ⟨found, hfound, hid.trans hhit⟩
  · intro _ i b hb
    rw [hentries]
    exact (hcounted.origin i b hb).imp_right fun hsame => ⟨bucket, hbucket, hsame⟩

theorem placed_findAndCount (hvalue : n.aggregation.isValueGroup = true) {before : Option Output}
    {list : BucketList Output} (hentries : Output.entriesOf before = list.entries)
    (hsingle : ∀ b, before ≠ some (.single b)) (hfits : n.Fits (.buckets list)) :
    let result := findAndCount n.name (n.valueBucket? row) (row.count countColumn) list
    n.Placed countColumn row before (.buckets result.2) result.1 := by
  cases hbucket : n.valueBucket? row with
  | none => exact placed_of_no_value hvalue hentries hsingle hfits hbucket
  | some bucket =>
      obtain ⟨hinner, hdocs⟩ := valueBucket?_spec hbucket
      exact placed_of_hasCounted hvalue hentries hsingle hfits hbucket
        (BucketList.hasCounted_findOrInsert hinner hdocs ((fits_value hvalue list).mp hfits).1 _)

/-- Whether the output under the name of a node is changed only, to what placing a row makes of
it. -/
abbrev PlacesInto (n : Node) (countColumn : String) (row : Row) (level : Level)
    (result : Step × Level) : Prop :=
  ∃ after, (∀ other, result.2.get? other = if other = n.name then some after else level.get? other) ∧
    n.Placed countColumn row (level.get? n.name) after result.1

theorem place_spec_value (hvalue : n.aggregation.isValueGroup = true)
    (metricName : Option String) (level : Level)
    (hfits : ∀ output, level.get? n.name = some output → n.Fits output) :
    n.PlacesInto countColumn row level (n.place countColumn metricName row level) := by
  obtain ⟨list, hlist, hentries, hsingle, hlistFits⟩ := exists_valueList hvalue metricName hfits
  obtain ⟨hresult, hget⟩ := level.onBuckets_spec n.name _
    (findAndCount n.name (n.valueBucket? row) (row.count countColumn)) hlist
  have hplace : n.place countColumn metricName row level =
      let result := level.onBuckets n.name (.new .array (n.valueFinish metricName))
        (findAndCount n.name (n.valueBucket? row) (row.count countColumn))
      (result.1.getD .skip, result.2) := place_value hvalue countColumn metricName row level
  rw [hplace]
  dsimp only
  rw [hresult]
  exact ⟨_, hget, placed_findAndCount hvalue hentries hsingle hlistFits⟩

/-! ### Buckets that exist from the start -/

/-- Count the documents of a row at several positions; the row goes on at the first one. -/
def countAt (name : String) (positions : List Nat) (docs : Nat) (list : BucketList Output) :
    Step × BucketList Output :=
  (match positions with
    | first :: _ => .descend (.bucket name first)
    | [] => .skip,
    positions.foldl (fun list index => list.modify index fun b => b.addDocs docs) list)

theorem entries_countAt (name : String) (positions : List Nat) (docs : Nat)
    (list : BucketList Output) :
    (countAt name positions docs list).2.entries =
      positions.foldl (fun entries index => entries.modify index fun b => b.addDocs docs)
        list.entries := by
  unfold countAt
  dsimp only
  induction positions generalizing list with
  | nil => rfl
  | cons index rest ih => exact ih _

theorem length_countAt (name : String) (positions : List Nat) (docs : Nat)
    (list : BucketList Output) :
    (countAt name positions docs list).2.entries.length = list.entries.length := by
  rw [entries_countAt]
  generalize list.entries = entries
  induction positions generalizing entries with
  | nil => rfl
  | cons index rest ih => rw [List.foldl_cons, ih, List.length_modify]

/-- The list that a node with preset buckets acts on: the one that is there, or a new one without
documents. -/
theorem exists_presetList (shape : ListShape) {initial : List (Bucket Output)}
    (hinitial : ∀ b ∈ initial, b.inner = [] ∧ b.docCount = 0)
    (hfits : ∀ list : BucketList Output,
      n.Fits (.buckets list) ↔ list.entries.length = initial.length)
    (hlist : ∀ b, ¬ n.Fits (.single b)) (hmetric : ∀ tally, ¬ n.Fits (.metric tally))
    {before : Option Output} (hbefore : ∀ output, before = some output → n.Fits output) :
    ∃ list : BucketList Output,
      before.getD (.buckets (.preset shape initial)) = .buckets list ∧
      BucketList.Grown (Output.entriesOf before) list.entries (fun _ => 0) ∧
      (∀ b, before ≠ some (.single b)) ∧ list.entries.length = initial.length := by
  cases before with
  | none => exact ⟨_, rfl, BucketList.Grown.append [] initial hinitial, by simp, rfl⟩
  | some output =>
      have houtput := hbefore output rfl
      cases output with
      | buckets list =>
          exact ⟨list, rfl, BucketList.Grown.refl _, by simp, (hfits list).mp houtput⟩
      | single b => exact absurd houtput (hlist b)
      | metric tally => exact absurd houtput (hmetric tally)

/-- Counting a row at the positions of a preset list that its own columns tell. -/
theorem placed_countAt {before : Option Output} {list : BucketList Output} {size : Nat}
    {positions : List Nat} (hnodup : positions.Nodup) (hbound : ∀ i ∈ positions, i < size)
    (hgrown : BucketList.Grown (Output.entriesOf before) list.entries fun _ => 0)
    (hsingle : ∀ b, before ≠ some (.single b))
    (hfits : ∀ list : BucketList Output, n.Fits (.buckets list) ↔ list.entries.length = size)
    (hlength : list.entries.length = size)
    (hhits : ∀ name i id, n.hits row (.bucket name i) id = positions.contains i)
    (henters : ∀ name i id, n.enters row (.bucket name i) id = (positions.head? == some i))
    (hvalue : n.aggregation.isValueGroup = false) :
    let result := countAt n.name positions (row.count countColumn) list
    n.Placed countColumn row before (.buckets result.2) result.1 := by
  dsimp only
  have hafter := length_countAt n.name positions (row.count countColumn) list
  have hcounted := hgrown.foldl_modify positions (row.count countColumn) hnodup
  rw [← entries_countAt n.name] at hcounted
  refine placed_of_grown hcounted hsingle ((hfits _).mpr (hafter.trans hlength)) ?_ ?_
    (by unfold countAt; cases positions <;> simp) ?_ ?_ (by simp [hvalue])
  · intro name i b hb
    simp [hhits]
  · intro segment
    constructor
    · intro h
      cases hpositions : positions with
      | nil => simp [countAt, hpositions] at h
      | cons first rest =>
          simp only [countAt, hpositions, Step.descend.injEq] at h
          subst h
          have hlt : first < (countAt n.name positions (row.count countColumn)
              list).2.entries.length := by
            rw [hafter, hlength]
            exact hbound first (by simp [hpositions])
          rw [← hpositions]
          exact ⟨rfl, _, List.getElem?_eq_getElem hlt, by simp [henters, hpositions]⟩
    · rintro ⟨hname, b, hb, hentered⟩
      cases segment with
      | bucket name i =>
          rw [henters, beq_iff_eq] at hentered
          cases hpositions : positions with
          | nil => simp [hpositions] at hentered
          | cons first rest =>
              obtain rfl : first = i := by simpa [hpositions] using hentered
              rw [countAt, show name = n.name from hname]
      | single name => cases hb
  · intro later hlater hids name i b hb h
    have hlt : i < (countAt n.name positions (row.count countColumn) list).2.entries.length := by
      rw [hafter, hlength, ← (hfits later).mp hlater]
      exact (List.getElem?_eq_some_iff.mp hb).1
    obtain ⟨b', hb', hsame⟩ := hids (.bucket name i) _ (List.getElem?_eq_getElem hlt)
    obtain rfl : b = b' := Option.some.inj (hb.symm.trans hb')
    exact ⟨_, List.getElem?_eq_getElem hlt, hsame.symm⟩
  · intro name i id h
    rw [hhits] at h
    cases hpositions : positions with
    | nil => simp [hpositions] at h
    | cons first rest => exact ⟨_, rfl⟩

/-! ### Ranges -/

theorem nodup_containing (r : Ranges) (segment : Nat) : (r.containing segment).Nodup := by
  unfold Ranges.containing
  dsimp only
  have hsublist := (List.filter_sublist
    (p := fun entry : RangeSpec × Nat => Ranges.isInside r.boundaries entry.1 segment)
    (l := r.specs.zipIdx)).map Prod.snd
  refine hsublist.nodup ?_
  rw [List.zipIdx_map_snd]
  exact List.nodup_range'

theorem lt_of_mem_containing {r : Ranges} {segment i : Nat} (h : i ∈ r.containing segment) :
    i < r.specs.length := by
  unfold Ranges.containing at h
  obtain ⟨⟨spec, place⟩, hmem, rfl⟩ := List.mem_map.mp h
  have hspec := List.mem_zipIdx_iff_getElem?.mp (List.mem_filter.mp hmem).1
  exact (List.getElem?_eq_some_iff.mp hspec).1

theorem nodup_rangesOf (n : Node) (row : Row) : (n.rangesOf row).Nodup := by
  unfold rangesOf
  split
  · split
    · exact nodup_containing _ _
    · exact List.nodup_nil
  · exact List.nodup_nil

theorem lt_of_mem_rangesOf {r : Ranges} (hranges : n.aggregation = .ranges r) {i : Nat}
    (h : i ∈ n.rangesOf row) : i < r.specs.length := by
  simp only [rangesOf, hranges] at h
  split at h
  · exact lt_of_mem_containing h
  · cases h

theorem place_ranges {r : Ranges} (hranges : n.aggregation = .ranges r) (countColumn : String)
    (metricName : Option String) (row : Row) (level : Level) :
    n.place countColumn metricName row level =
      let result := level.onBuckets n.name
        (.preset (if r.keyed then .keyed else .array) r.buckets)
        (countAt n.name (n.rangesOf row) (row.count countColumn))
      (result.1.getD .skip, result.2) := by
  have hact : (fun list : BucketList Output =>
      match Ranges.segment? (n.decisions.column.getD "") row with
      | some segment =>
          let containing := r.containing segment
          let docs := row.count countColumn
          let list := containing.foldl
            (fun list index => list.modify index fun b => b.addDocs docs) list
          match containing with
          | first :: _ => (Step.descend (.bucket n.name first), list)
          | [] => (Step.skip, list)
      | none => (Step.skip, list)) = countAt n.name (n.rangesOf row) (row.count countColumn) := by
    funext list
    simp only [rangesOf, hranges]
    cases Ranges.segment? (n.decisions.column.getD "") row with
    | none => rfl
    | some segment =>
        dsimp only [countAt]
        cases r.containing segment <;> rfl
  rw [← hact]
  unfold place
  rw [hranges]
  rfl

theorem place_spec_ranges {r : Ranges} (hranges : n.aggregation = .ranges r)
    (metricName : Option String) (level : Level)
    (hfits : ∀ output, level.get? n.name = some output → n.Fits output) :
    n.PlacesInto countColumn row level (n.place countColumn metricName row level) := by
  have hfitsBuckets (list : BucketList Output) :
      n.Fits (.buckets list) ↔ list.entries.length = r.buckets.length := by
    simp [Fits, hranges, Ranges.buckets]
  obtain ⟨list, hlist, hgrown, hsingle, hlength⟩ := exists_presetList
    (if r.keyed then .keyed else .array) (by simp [Ranges.buckets, Bucket.empty])
    hfitsBuckets (by simp [Fits, hranges]) (by simp [Fits, hranges]) hfits
  obtain ⟨hresult, hget⟩ := level.onBuckets_spec n.name _
    (countAt n.name (n.rangesOf row) (row.count countColumn)) hlist
  rw [place_ranges hranges]
  dsimp only
  rw [hresult]
  refine ⟨_, hget, placed_countAt (n.nodup_rangesOf row) ?_ hgrown hsingle hfitsBuckets hlength
    ?_ ?_ (by rw [hranges]; rfl)⟩
  · intro i hi
    simpa [Ranges.buckets] using lt_of_mem_rangesOf hranges hi
  · intro name i id
    simp [hits, hranges]
  · intro name i id
    simp [enters, hranges]

/-! ### Legs -/

theorem addDocs_zero (b : Bucket Output) : b.addDocs 0 = b := rfl

theorem modify_addDocs_zero (list : BucketList Output) (index : Nat) :
    (list.modify index fun b => b.addDocs 0) = list := by
  have hid : (fun b : Bucket Output => b.addDocs 0) = id := funext addDocs_zero
  rw [hid, BucketList.modify, List.modify_id]

/-- The positions in the list of its buckets at which a leg counts a row. -/
def legPositions (n : Node) (l : Leg) (row : Row) : List Nat :=
  if n.matchesLeg row then [l.index] else []

theorem mem_legPositions {l : Leg} {i : Nat} :
    i ∈ n.legPositions l row ↔ n.matchesLeg row = true ∧ i = l.index := by
  cases hmatches : n.matchesLeg row <;> simp [legPositions, hmatches]

theorem isMatchedBy_leg {l : Leg} (hleg : n.aggregation = .leg l) :
    l.isMatchedBy n.decisions.direct n.decisions.column row = n.matchesLeg row := by
  simp [matchesLeg, hleg]

theorem place_listed {l : Leg} (hleg : n.aggregation = .leg l) (hshape : l.shape ≠ .single)
    (countColumn : String) (metricName : Option String) (row : Row) (level : Level) :
    n.place countColumn metricName row level =
      let result := level.onBuckets n.name
        (.preset (if l.shape = .named then .keyed else .array) l.buckets)
        (countAt n.name (n.legPositions l row) (row.count countColumn))
      (result.1.getD .skip, result.2) := by
  have hact : (fun list : BucketList Output =>
      (if n.matchesLeg row then Step.descend (.bucket n.name l.index) else .skip,
        list.modify l.index fun b =>
          b.addDocs (if n.matchesLeg row then row.count countColumn else 0))) =
      countAt n.name (n.legPositions l row) (row.count countColumn) := by
    funext list
    cases hmatches : n.matchesLeg row with
    | true => simp [countAt, legPositions, hmatches]
    | false => simp [countAt, legPositions, hmatches, modify_addDocs_zero]
  rw [← hact]
  simp only [place, hleg, Leg.place, isMatchedBy_leg hleg]
  cases hkind : l.shape with
  | named => simp [Leg.place.listed]
  | anonymous => simp [Leg.place.listed]
  | single => exact absurd hkind hshape

theorem place_spec_listed {l : Leg} (hleg : n.aggregation = .leg l) (hshape : l.shape ≠ .single)
    (hindex : l.index < l.labels.length) (metricName : Option String) (level : Level)
    (hfits : ∀ output, level.get? n.name = some output → n.Fits output) :
    n.PlacesInto countColumn row level (n.place countColumn metricName row level) := by
  have hfitsBuckets (list : BucketList Output) :
      n.Fits (.buckets list) ↔ list.entries.length = l.buckets.length := by
    simp [Fits, hleg, Leg.buckets, hshape]
  obtain ⟨list, hlist, hgrown, hsingle, hlength⟩ := exists_presetList
    (if l.shape = .named then .keyed else .array) (by simp [Leg.buckets, Bucket.empty])
    hfitsBuckets (by simp [Fits, hleg, hshape]) (by simp [Fits, hleg]) hfits
  obtain ⟨hresult, hget⟩ := level.onBuckets_spec n.name _
    (countAt n.name (n.legPositions l row) (row.count countColumn)) hlist
  rw [place_listed hleg hshape]
  dsimp only
  rw [hresult]
  refine ⟨_, hget, placed_countAt ?_ ?_ hgrown hsingle hfitsBuckets hlength ?_ ?_
    (by rw [hleg]; rfl)⟩
  · cases hmatches : n.matchesLeg row <;> simp [legPositions, hmatches]
  · intro i hi
    rw [(mem_legPositions.mp hi).2]
    simpa [Leg.buckets] using hindex
  · intro name i id
    rw [Bool.eq_iff_iff, List.contains_iff_mem, mem_legPositions]
    simp [hits, hleg, hshape]
  · intro name i id
    cases hmatches : n.matchesLeg row with
    | true =>
        rw [Bool.eq_iff_iff]
        simp only [enters, hits, hleg, legPositions, hmatches, if_true, List.head?_cons,
          Bool.and_true, Bool.and_eq_true, bne_iff_ne, ne_eq, hshape, not_false_eq_true, true_and,
          beq_iff_eq, Option.some.injEq]
        exact eq_comm
    | false => simp [enters, hits, hleg, legPositions, hmatches]

theorem place_single {l : Leg} (hleg : n.aggregation = .leg l) (hshape : l.shape = .single)
    (countColumn : String) (metricName : Option String) (row : Row) (level : Level) :
    n.place countColumn metricName row level =
      let result := level.onSingle n.name fun bucket =>
        (if n.matchesLeg row then Step.descend (.single n.name) else .skip,
          bucket.addDocs (if n.matchesLeg row then row.count countColumn else 0))
      (result.1.getD .skip, result.2) := by
  simp [place, hleg, Leg.place, hshape, isMatchedBy_leg hleg]

/-- The bucket that a leg alone acts on: the one that is there, or a new one. -/
theorem exists_singleBucket {l : Leg} (hleg : n.aggregation = .leg l) (hshape : l.shape = .single)
    {before : Option Output} (hfits : ∀ output, before = some output → n.Fits output) :
    ∃ b, before.getD (.single (Bucket.empty n.name none [])) = .single b ∧
      (∀ segment other, (before.bind fun output => output.bucketAt? segment) = some other →
        (∃ name, segment = .single name) ∧ other = b) ∧
      (∀ name, (before.bind fun output => output.bucketAt? (.single name)) = none →
        b.inner = []) ∧
      ∀ name, Output.docsAt before (.single name) = b.docCount := by
  cases before with
  | none => exact ⟨_, rfl, by simp, fun _ _ => rfl, fun _ => rfl⟩
  | some output =>
      have houtput := hfits output rfl
      cases output with
      | single b =>
          refine ⟨b, rfl, fun segment other hother => ?_, by simp [Output.bucketAt?], fun _ => rfl⟩
          cases segment with
          | bucket name i => cases hother
          | single name => exact ⟨⟨name, rfl⟩, (Option.some.inj hother).symm⟩
      | buckets list => simp [Fits, hleg, hshape] at houtput
      | metric tally => simp [Fits, hleg] at houtput

/-- Counting a row in the one bucket of a leg, if the row matches. -/
theorem placed_single {l : Leg} (hleg : n.aggregation = .leg l) (hshape : l.shape = .single)
    {before : Option Output} {b : Bucket Output}
    (hkept : ∀ segment other, (before.bind fun output => output.bucketAt? segment) = some other →
      (∃ name, segment = .single name) ∧ other = b)
    (hfresh : ∀ name, (before.bind fun output => output.bucketAt? (.single name)) = none →
      b.inner = [])
    (hdocs : ∀ name, Output.docsAt before (.single name) = b.docCount) :
    n.Placed countColumn row before
      (.single (b.addDocs (if n.matchesLeg row then row.count countColumn else 0)))
      (if n.matchesLeg row then .descend (.single n.name) else .skip) := by
  have hhits (name : String) (id : String) :
      n.hits row (.single name) id = n.matchesLeg row := by simp [hits, hleg, hshape]
  have hmisses (name : String) (i : Nat) (id : String) :
      n.hits row (.bucket name i) id = false := by simp [hits, hleg, hshape]
  have henters (segment : Segment) (id : String) :
      n.enters row segment id = n.hits row segment id := by simp [enters, hleg]
  exact
    { fits := by simp [Fits, hleg, hshape]
      inner := by
        constructor
        · intro segment other hother
          obtain ⟨⟨name, rfl⟩, rfl⟩ := hkept segment other hother
          exact ⟨_, rfl, rfl⟩
        · intro segment other hother hafter
          cases segment with
          | bucket name i => cases hafter
          | single name =>
              obtain rfl := Option.some.inj hafter
              exact hfresh name hother
      ids := by
        intro segment other hother
        obtain ⟨⟨name, rfl⟩, rfl⟩ := hkept segment other hother
        exact ⟨_, rfl, rfl⟩
      docs := by
        intro segment other hname hafter
        cases segment with
        | bucket name i => cases hafter
        | single name =>
            obtain rfl := Option.some.inj hafter
            rw [hhits, hdocs]
            rfl
      step := by
        intro segment
        cases segment with
        | bucket name i =>
            cases hmatches : n.matchesLeg row <;> simp [Output.bucketAt?]
        | single name =>
            cases hmatches : n.matchesLeg row <;>
              simp [hmatches, Output.bucketAt?, henters, hhits, Segment.name, eq_comm]
      stay := by cases n.matchesLeg row <;> simp
      goesOn := by
        intro segment id hhit
        cases segment with
        | bucket name i => simp [hmisses] at hhit
        | single name =>
            rw [hhits] at hhit
            exact ⟨.single n.name, by simp [hhit]⟩
      origin := by
        intro hvalue
        simp [hleg, Aggregation.isValueGroup, Aggregation.terms?, Aggregation.isHistogram] at hvalue
      complete := by
        intro later hlater hids segment other hother hhit
        cases segment with
        | bucket name i => simp [hmisses] at hhit
        | single name =>
            obtain ⟨b', hb', hsame⟩ := hids (.single name) _ rfl
            obtain rfl : other = b' := Option.some.inj (hother.symm.trans hb')
            exact ⟨_, rfl, hsame.symm⟩
      tally := by
        intro m hm
        simp [hleg] at hm }

theorem place_spec_single {l : Leg} (hleg : n.aggregation = .leg l) (hshape : l.shape = .single)
    (metricName : Option String) (level : Level)
    (hfits : ∀ output, level.get? n.name = some output → n.Fits output) :
    n.PlacesInto countColumn row level (n.place countColumn metricName row level) := by
  obtain ⟨b, hb, hkept, hfresh, hdocs⟩ := exists_singleBucket hleg hshape hfits
  obtain ⟨hresult, hget⟩ := level.onSingle_spec n.name
    (fun bucket => (if n.matchesLeg row then Step.descend (.single n.name) else .skip,
      bucket.addDocs (if n.matchesLeg row then row.count countColumn else 0))) hb
  rw [place_single hleg hshape]
  dsimp only
  rw [hresult]
  exact ⟨_, hget, placed_single hleg hshape hkept hfresh hdocs⟩

/-! ### Metrics -/

theorem place_metric {m : Metric} (hmetric : n.aggregation = .metric m) (countColumn : String)
    (metricName : Option String) (row : Row) (level : Level) :
    n.place countColumn metricName row level =
      (.stay, (level.onMetric n.name m.function fun tally =>
        ((), tally.addRow (n.decisions.column.getD "") countColumn row)).2) := by
  simp [place, hmetric, Metric.place]

theorem place_spec_metric {m : Metric} (hmetric : n.aggregation = .metric m)
    (metricName : Option String) (level : Level)
    (hfits : ∀ output, level.get? n.name = some output → n.Fits output) :
    n.PlacesInto countColumn row level (n.place countColumn metricName row level) := by
  have htally : (level.get? n.name).getD (.metric (Tally.empty m.function)) =
      .metric (tallyOf m (level.get? n.name)) := by
    cases hget : level.get? n.name with
    | none => rfl
    | some output =>
        have houtput := hfits output hget
        cases output with
        | metric tally => rfl
        | buckets list => simp [Fits, hmetric] at houtput
        | single b => simp [Fits, hmetric] at houtput
  have hbefore (segment : Segment) :
      ((level.get? n.name).bind fun output => output.bucketAt? segment) = none := by
    cases hget : level.get? n.name with
    | none => rfl
    | some output =>
        have houtput := hfits output hget
        cases output with
        | metric tally => cases segment <;> rfl
        | buckets list => simp [Fits, hmetric] at houtput
        | single b => simp [Fits, hmetric] at houtput
  have hget := level.onMetric_spec n.name m.function
    (fun tally => ((), tally.addRow (n.decisions.column.getD "") countColumn row)) htally
  rw [place_metric hmetric]
  refine ⟨_, hget, ?_⟩
  have hafter (tally : Tally) (segment : Segment) :
      (Output.metric tally).bucketAt? segment = none := by cases segment <;> rfl
  exact
    { fits := by simp [Fits, hmetric]
      inner := ⟨by simp [hbefore], by simp [hafter]⟩
      ids := by simp [Output.KeepsIds, hbefore]
      docs := by simp [hafter]
      step := by simp [hafter]
      stay := by simp [isLeg, Aggregation.isLeg, Aggregation.leg?, hmetric]
      goesOn := by simp [hits, hmetric]
      origin := by simp [hafter]
      complete := by
        intro later hlater hids segment other hother hhit
        cases later with
        | metric tally => simp [hafter] at hother
        | buckets list => simp [Fits, hmetric] at hlater
        | single b => simp [Fits, hmetric] at hlater
      tally := by
        intro other hother
        obtain rfl : m = other := by simpa [hmetric] using hother
        rfl }

/-! ### All kinds together -/

/-- A node changes the output under its name only, and what it makes of this output, and where the
row goes on, its own columns tell. -/
theorem place_spec (hquery : n.isQuery = false) (hlabelled : n.IsLabelled)
    (countColumn : String) (row : Row) (metricName : Option String) (level : Level)
    (hfits : ∀ output, level.get? n.name = some output → n.Fits output) :
    n.PlacesInto countColumn row level (n.place countColumn metricName row level) := by
  cases haggregation : n.aggregation with
  | metric m => exact place_spec_metric haggregation metricName level hfits
  | terms t => exact place_spec_value (by rw [haggregation]; rfl) metricName level hfits
  | histogram h => exact place_spec_value (by rw [haggregation]; rfl) metricName level hfits
  | dateHistogram h => exact place_spec_value (by rw [haggregation]; rfl) metricName level hfits
  | ranges r => exact place_spec_ranges haggregation metricName level hfits
  | leg l =>
      by_cases hshape : l.shape = .single
      · exact place_spec_single haggregation hshape metricName level hfits
      · exact place_spec_listed haggregation hshape (hlabelled l haggregation) metricName level
          hfits
  | query q => simp [isQuery, Aggregation.isQuery, Aggregation.query?, haggregation] at hquery

end

end Node
end Rollup
