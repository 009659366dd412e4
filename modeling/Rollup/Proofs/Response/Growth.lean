/-
# Responses only grow

A node that places a row makes its output if it is not there, makes room in it for the bucket of the
row, and counts documents or a value in. Nothing of this moves, drops or replaces what is there: a
bucket keeps its position, its identity and what it shows of itself, and its documents become no
fewer. So after any rows that any nodes have placed at any paths, a path leads to the bucket that it
led to before.
-/

import Mathlib.Logic.Relation
import Rollup.Proofs.Response.Update

namespace Rollup

/-! ## What grows -/

/-- Whether a bucket is still the same one, with no fewer documents. What is inside is looked at by
itself. -/
structure Bucket.Grows (b later : Bucket Output) : Prop where
  id : later.id = b.id
  key : later.key = b.key
  attributes : later.attributes = b.attributes
  docCount_le : b.docCount ≤ later.docCount

namespace Bucket

theorem Grows.refl (b : Bucket Output) : b.Grows b := ⟨rfl, rfl, rfl, Nat.le_refl _⟩

theorem Grows.trans {b later last : Bucket Output} (h : b.Grows later) (h' : later.Grows last) :
    b.Grows last :=
  ⟨h'.id.trans h.id, h'.key.trans h.key, h'.attributes.trans h.attributes,
    Nat.le_trans h.docCount_le h'.docCount_le⟩

theorem grows_addDocs (b : Bucket Output) (docs : Nat) : b.Grows (b.addDocs docs) :=
  ⟨rfl, rfl, rfl, Nat.le_add_right _ _⟩

theorem grows_of_bare_eq {b later : Bucket Output} (h : b.bare = later.bare) : b.Grows later := by
  simp only [bare, Bucket.mk.injEq] at h
  exact ⟨h.1.symm, h.2.1.symm, h.2.2.1.symm, Nat.le_of_eq h.2.2.2.1⟩

end Bucket

/-- Whether a list has kept all its buckets at their positions, and finds what it found. -/
structure BucketList.Grows (list later : BucketList Output) : Prop where
  header : later.header = list.header
  kept : ∀ (i : Nat) (b : Bucket Output), list.entries[i]? = some b →
    ∃ b', later.entries[i]? = some b' ∧ b.Grows b'
  found : ∀ id i, list.positionOf? id = some i → later.positionOf? id = some i

namespace BucketList

theorem Grows.refl (list : BucketList Output) : list.Grows list :=
  ⟨rfl, fun _ b hb => ⟨b, hb, .refl b⟩, fun _ _ h => h⟩

theorem Grows.trans {list later last : BucketList Output} (h : list.Grows later)
    (h' : later.Grows last) : list.Grows last where
  header := h'.header.trans h.header
  kept := by
    intro i b hb
    obtain ⟨b', hb', hgrows⟩ := h.kept i b hb
    obtain ⟨b'', hb'', hgrows'⟩ := h'.kept i b' hb'
    exact ⟨b'', hb'', hgrows.trans hgrows'⟩
  found := fun id i hi => h'.found id i (h.found id i hi)

theorem grows_findOrInsert (list : BucketList Output) (bucket : Bucket Output) :
    list.Grows (list.findOrInsert bucket).2 where
  header := list.header_findOrInsert bucket
  kept := by
    intro i b hb
    rcases list.findOrInsert_cases bucket with ⟨j, -, heq⟩ | ⟨-, heq⟩
    · exact ⟨b, by rw [heq]; exact hb, .refl b⟩
    · refine ⟨b, ?_, .refl b⟩
      rw [heq, List.getElem?_append_left (List.getElem?_eq_some_iff.mp hb).1]
      exact hb
  found := fun _ _ h => positionOf?_findOrInsert h bucket

theorem grows_addDocs (list : BucketList Output) (position docs : Nat) :
    list.Grows (list.modify position fun b => b.addDocs docs) where
  header := rfl
  kept := by
    intro i b hb
    rw [modify, List.getElem?_modify, hb]
    refine ⟨_, rfl, ?_⟩
    split
    · exact b.grows_addDocs docs
    · exact .refl b
  found := fun id _ h => (positionOf?_congr (list.map_id_addDocs position docs) id).trans h

theorem grows_of_bare_eq {list later : BucketList Output} (hheader : later.header = list.header)
    (hbare : list.entries.map Bucket.bare = later.entries.map Bucket.bare) :
    list.Grows later where
  header := hheader
  kept := by
    intro i b hb
    have hsame := congrArg (fun entries => entries[i]?) hbare
    simp only [List.getElem?_map, hb, Option.map_some] at hsame
    obtain ⟨b', hb', heq⟩ := Option.map_eq_some_iff.mp hsame.symm
    exact ⟨b', hb', Bucket.grows_of_bare_eq heq.symm⟩
  found := by
    intro id i h
    have hids := congrArg (List.map Bucket.id) hbare
    rw [List.map_map, List.map_map] at hids
    exact (positionOf?_congr hids.symm id).trans h

end BucketList

/-! ## What counting does to an output -/

namespace Output

/-- Whether an output has only grown. A tally has taken in more values. -/
def Grows : Output → Output → Prop
  | buckets list, buckets later => list.Grows later
  | single b, single later => b.Grows later
  | metric tally, metric later => ∃ measures : List (Binary64 × Nat),
      later = measures.foldl (fun tally measure => tally.add measure.1 measure.2) tally
  | _, _ => False

theorem Grows.refl (output : Output) : output.Grows output := by
  cases output with
  | buckets list => exact BucketList.Grows.refl list
  | single b => exact Bucket.Grows.refl b
  | metric tally => exact ⟨[], rfl⟩

theorem Grows.trans {output later last : Output} (h : output.Grows later)
    (h' : later.Grows last) : output.Grows last := by
  cases output <;> cases later <;> cases last <;> simp only [Grows] at h h' ⊢
  · exact h.trans h'
  · exact h.trans h'
  · obtain ⟨measures, rfl⟩ := h
    obtain ⟨more, rfl⟩ := h'
    exact ⟨measures ++ more, (List.foldl_append).symm⟩

theorem grows_of_bare_eq {output later : Output} (h : output.bare = later.bare) :
    output.Grows later := by
  cases output <;> cases later <;> simp only [bare, reduceCtorEq, buckets.injEq, single.injEq,
    metric.injEq, BucketList.mk.injEq] at h
  · obtain ⟨hshape, hfinish, hother, hentries⟩ := h
    refine BucketList.grows_of_bare_eq ?_ hentries
    rw [BucketList.header, BucketList.header, hshape, hfinish, hother]
  · exact Bucket.grows_of_bare_eq h
  · exact ⟨[], h.symm⟩

theorem Grows.exists_buckets {list : BucketList Output} {later : Output}
    (h : (buckets list).Grows later) : ∃ grown, later = buckets grown ∧ list.Grows grown := by
  cases later with
  | buckets grown => exact ⟨grown, rfl, h⟩
  | single b => exact h.elim
  | metric tally => exact h.elim

/-- What has grown into a list was one. -/
theorem Grows.exists_of_buckets {output : Output} {grown : BucketList Output}
    (h : output.Grows (buckets grown)) : ∃ list, output = buckets list := by
  cases output with
  | buckets list => exact ⟨list, rfl⟩
  | single b => exact h.elim
  | metric tally => exact h.elim

/-- A step goes into the same bucket of an output that has grown. -/
theorem Grows.bucketAt? {output later : Output} (h : output.Grows later) {segment : Segment}
    {b : Bucket Output} (hb : output.bucketAt? segment = some b) :
    ∃ b', later.bucketAt? segment = some b' ∧ b.Grows b' := by
  cases output <;> cases later <;> simp only [Grows] at h
  · cases segment with
    | bucket name i => exact h.kept i b hb
    | single name => cases hb
  · cases segment with
    | bucket name i => cases hb
    | single name =>
        obtain rfl := Option.some.inj hb
        exact ⟨_, rfl, h⟩
  · cases segment <;> cases hb

/-- Counting documents or a value in, once. -/
inductive Counts : Output → Output → Prop
  | bucket (list : BucketList Output) (index docs : Nat) :
      Counts (buckets list) (buckets (list.modify index fun b => b.addDocs docs))
  | single (b : Bucket Output) (docs : Nat) : Counts (single b) (single (b.addDocs docs))
  | measure (tally : Tally) (value : Binary64) (size : Nat) :
      Counts (metric tally) (metric (tally.add value size))

/-- An output with room for a bucket: found or inserted in a list, and left out otherwise. -/
def including : Output → Option (Bucket Output) → Output
  | buckets list, some bucket => buckets (list.findOrInsert bucket).2
  | output, _ => output

@[simp] theorem including_none (output : Output) : output.including none = output := by
  cases output <;> rfl

theorem grows_including (output : Output) (bucket? : Option (Bucket Output)) :
    output.Grows (output.including bucket?) := by
  cases output with
  | buckets list =>
      cases bucket? with
      | some bucket => exact list.grows_findOrInsert bucket
      | none => exact .refl _
  | single b => exact .refl _
  | metric tally => exact .refl _

theorem Counts.grows {output later : Output} (h : output.Counts later) : output.Grows later := by
  cases h with
  | bucket list index docs => exact list.grows_addDocs index docs
  | single b docs => exact b.grows_addDocs docs
  | measure tally value size => exact ⟨[(value, size)], rfl⟩

end Output

/-! ## What a node does to its output -/

namespace Node

variable {n : Node} {row : Row} {countColumn : String} {metricName : Option String}

/-- What placing a row makes of the output that is there or created: the bucket of the row is found
or inserted, then documents or a value are counted in. A step goes into a bucket that is there, if
the list is no shorter than the one that the node would create. -/
structure Acts (n : Node) (row : Row) (before after : Output) (step : Step) : Prop where
  counts : Relation.ReflTransGen Output.Counts (before.including (n.valueBucket? row)) after
  finds : ∀ list bucket, before = .buckets list → n.valueBucket? row = some bucket →
    step = .descend (.bucket n.name (list.findOrInsert bucket).1)
  leads : n.IsLabelled →
    (∀ list, before = .buckets list →
      (Output.entriesOf (some (n.initial none))).length ≤ list.entries.length) →
    ∀ segment, step = .descend segment →
      segment.name = n.name ∧ (after.bucketAt? segment).isSome = true

/-- Where no bucket is made for the row, or there is no list to take it in, nothing but counting
happens. -/
theorem acts_of_counts {before after : Output} {step : Step}
    (h : n.valueBucket? row = none ∨ ∀ list, before ≠ .buckets list)
    (hcounts : Relation.ReflTransGen Output.Counts before after)
    (hstep : ∀ segment, step = .descend segment →
      segment.name = n.name ∧ (after.bucketAt? segment).isSome = true) :
    n.Acts row before after step where
  counts := by
    rcases h with hnone | hkind
    · rwa [hnone, Output.including_none]
    · cases before with
      | buckets list => exact absurd rfl (hkind list)
      | single b => exact hcounts
      | metric tally => exact hcounts
  finds := by
    intro list bucket hlist hbucket
    rcases h with hnone | hkind
    · cases hnone.symm.trans hbucket
    · exact absurd hlist (hkind list)
  leads := fun _ _ => hstep

theorem acts_onBucketsOf {act : BucketList Output → Step × BucketList Output}
    (h : ∀ list, n.Acts row (.buckets list) (.buckets (act list).2) (act list).1)
    (output : Output) :
    n.Acts row output (Level.onBucketsOf act output).2
      ((Level.onBucketsOf act output).1.getD .skip) := by
  cases output with
  | buckets list => exact h list
  | single b => exact acts_of_counts (.inr (by simp)) .refl fun _ hstep => nomatch hstep
  | metric tally => exact acts_of_counts (.inr (by simp)) .refl fun _ hstep => nomatch hstep

/-- The bucket of the row is found or inserted before documents are counted in. -/
theorem acts_findAndCount (docs : Nat) (list : BucketList Output) :
    n.Acts row (.buckets list) (.buckets (findAndCount n.name (n.valueBucket? row) docs list).2)
      (findAndCount n.name (n.valueBucket? row) docs list).1 := by
  unfold findAndCount
  cases hbucket : n.valueBucket? row with
  | none =>
      exact
        { counts := by rw [hbucket]; exact .refl
          finds := fun _ _ _ hsome => absurd (hbucket.symm.trans hsome) (by simp)
          leads := fun _ _ _ hstep => nomatch hstep }
  | some bucket =>
      obtain ⟨b, hb, -⟩ :=
        BucketList.exists_of_positionOf? (list.positionOf?_findOrInsert_self bucket)
      exact
        { counts := by
            rw [hbucket]
            exact .single (.bucket (list.findOrInsert bucket).2 _ docs)
          finds := by
            intro other found hother hfound
            obtain rfl := Output.buckets.inj hother
            obtain rfl := Option.some.inj (hbucket.symm.trans hfound)
            rfl
          leads := by
            intro _ _ segment hstep
            obtain rfl := Step.descend.inj hstep
            refine ⟨rfl, ?_⟩
            simp [Output.bucketAt?, BucketList.modify, hb] }

/-- Documents are counted in at several positions, one after the other. -/
theorem counts_countAt (name : String) (positions : List Nat) (docs : Nat)
    (list : BucketList Output) :
    Relation.ReflTransGen Output.Counts (.buckets list)
      (.buckets (countAt name positions docs list).2) := by
  unfold countAt
  dsimp only
  induction positions generalizing list with
  | nil => exact .refl
  | cons i rest ih => exact .head (.bucket list i docs) (ih _)

/-- Buckets that exist from the start are counted in at positions that the row tells. -/
theorem acts_countAt (hnone : n.valueBucket? row = none) {positions : List Nat}
    (hbound : n.IsLabelled → ∀ i ∈ positions,
      i < (Output.entriesOf (some (n.initial none))).length) (docs : Nat)
    (list : BucketList Output) :
    n.Acts row (.buckets list) (.buckets (countAt n.name positions docs list).2)
      (countAt n.name positions docs list).1 where
  counts := by
    rw [hnone, Output.including_none]
    exact counts_countAt n.name positions docs list
  finds := fun _ _ _ hsome => absurd (hnone.symm.trans hsome) (by simp)
  leads := by
    intro hlabelled hlong segment hstep
    cases hpositions : positions with
    | nil => simp [countAt, hpositions] at hstep
    | cons first rest =>
        simp only [countAt, hpositions, Step.descend.injEq] at hstep
        subst hstep
        have hlt : first < (countAt n.name positions docs list).2.entries.length := by
          rw [length_countAt]
          exact Nat.lt_of_lt_of_le (hbound hlabelled first (by simp [hpositions]))
            (hlong list rfl)
        rw [← hpositions, Output.bucketAt?, List.getElem?_eq_getElem hlt]
        exact ⟨rfl, rfl⟩

theorem acts_onMetricOf (hnone : n.valueBucket? row = none) (column countColumn : String)
    (output : Output) :
    n.Acts row output (Level.onMetricOf (fun tally => ((), tally.addRow column countColumn row))
      output).2 .stay := by
  refine acts_of_counts (.inl hnone) ?_ fun _ hstep => nomatch hstep
  cases output with
  | buckets list => exact .refl
  | single b => exact .refl
  | metric tally =>
      dsimp only [Level.onMetricOf]
      unfold Tally.addRow
      split
      · exact .single (.measure tally _ _)
      · exact .refl

theorem acts_onSingleOf (hnone : n.valueBucket? row = none) (isMatched : Bool) (docs : Nat)
    (output : Output) :
    let result := Level.onSingleOf (fun bucket =>
      (if isMatched then Step.descend (.single n.name) else .skip, bucket.addDocs docs)) output
    n.Acts row output result.2 (result.1.getD .skip) := by
  dsimp only
  cases output with
  | single b =>
      refine acts_of_counts (.inl hnone) (.single (.single b docs)) fun segment hstep => ?_
      cases isMatched with
      | false => cases hstep
      | true =>
          obtain rfl := Step.descend.inj hstep
          exact ⟨rfl, rfl⟩
  | buckets list => exact acts_of_counts (.inl hnone) .refl fun _ hstep => nomatch hstep
  | metric tally => exact acts_of_counts (.inl hnone) .refl fun _ hstep => nomatch hstep

/-- A node changes the output under its name only, which is created if it is not there. -/
theorem place_acts (hquery : n.isQuery = false) (countColumn : String)
    (metricName : Option String) (row : Row) (level : Level) :
    ∃ after, (∀ other, (n.place countColumn metricName row level).2.get? other =
        if other = n.name then some after else level.get? other) ∧
      n.Acts row ((level.get? n.name).getD (n.initial metricName)) after
        (n.place countColumn metricName row level).1 := by
  have hlist {initial : BucketList Output} {act : BucketList Output → Step × BucketList Output}
      (hinitial : n.initial metricName = .buckets initial)
      (hplace : n.place countColumn metricName row level =
        ((level.onBuckets n.name initial act).1.getD .skip,
          (level.onBuckets n.name initial act).2))
      (hact : ∀ list, n.Acts row (.buckets list) (.buckets (act list).2) (act list).1) :
      ∃ after, (∀ other, (n.place countColumn metricName row level).2.get? other =
          if other = n.name then some after else level.get? other) ∧
        n.Acts row ((level.get? n.name).getD (n.initial metricName)) after
          (n.place countColumn metricName row level).1 := by
    rw [hplace, hinitial, Level.onBuckets_eq_update]
    exact ⟨_, level.get?_update _ _ _, acts_onBucketsOf hact _⟩
  by_cases hvalue : n.aggregation.isValueGroup = true
  · exact hlist (initial_value hvalue metricName)
      (place_value hvalue countColumn metricName row level)
      (acts_findAndCount (row.count countColumn))
  · have hnone : n.valueBucket? row = none := by
      cases hbucket : n.valueBucket? row with
      | none => rfl
      | some bucket => exact absurd (isValueGroup_of_valueBucket? hbucket) hvalue
    rcases kind_of_other (by simpa using hvalue) hquery with ⟨m, h⟩ | ⟨r, h⟩ | ⟨l, h⟩
    · have hinitial : n.initial metricName = .metric (Tally.empty m.function) := by
        simp only [initial, h]
      rw [place_metric h, Level.onMetric_eq_update, hinitial]
      exact ⟨_, level.get?_update _ _ _, acts_onMetricOf hnone _ countColumn _⟩
    · refine hlist (initial_ranges h metricName)
        (place_ranges h countColumn metricName row level)
        (acts_countAt hnone (fun _ i hi => ?_) (row.count countColumn))
      rw [initial_ranges h]
      simpa [Output.entriesOf, BucketList.preset, Ranges.buckets] using lt_of_mem_rangesOf h hi
    · by_cases hshape : l.shape = .single
      · have hinitial : n.initial metricName = .single (Bucket.empty n.name none []) := by
          simp only [initial_leg h, hshape]
        rw [place_single h hshape, Level.onSingle_eq_update, hinitial]
        exact ⟨_, level.get?_update _ _ _, acts_onSingleOf hnone _ _ _⟩
      · have hinitial (metricName : Option String) : n.initial metricName =
            .buckets (.preset (if l.shape = .named then .keyed else .array) l.buckets) := by
          rw [initial_leg h]
          cases hkind : l.shape <;> simp_all
        refine hlist (hinitial metricName)
          (place_listed h hshape countColumn metricName row level)
          (acts_countAt hnone (fun hlabelled i hi => ?_) (row.count countColumn))
        rw [hinitial, (mem_legPositions.mp hi).2]
        simpa [Output.entriesOf, BucketList.preset, Leg.buckets] using hlabelled l h

/-! ### What is inside the buckets -/

/-- What is made from the start is empty inside. -/
theorem inner_initial {segment : Segment} {b : Bucket Output}
    (h : (n.initial metricName).bucketAt? segment = some b) : b.inner = [] := by
  have hlist {list : BucketList Output} (hentries : ∀ b ∈ list.entries, b.inner = [])
      (hb : (Output.buckets list).bucketAt? segment = some b) : b.inner = [] := by
    cases segment with
    | bucket name i => exact hentries b (List.mem_of_getElem? hb)
    | single name => cases hb
  cases haggregation : n.aggregation with
  | metric m =>
      simp only [initial, haggregation] at h
      cases segment <;> cases h
  | ranges r =>
      rw [initial_ranges haggregation] at h
      exact hlist (by simp [BucketList.preset, Ranges.buckets, Bucket.empty]) h
  | leg l =>
      rw [initial_leg haggregation] at h
      have hlabels : ∀ b ∈ l.buckets, b.inner = [] := by simp [Leg.buckets, Bucket.empty]
      cases hshape : l.shape with
      | single =>
          rw [hshape] at h
          cases segment with
          | bucket name i => cases h
          | single name => rw [← Option.some.inj h]; rfl
      | named => rw [hshape] at h; exact hlist hlabels h
      | anonymous => rw [hshape] at h; exact hlist hlabels h
  | _ =>
      simp only [initial, haggregation] at h
      exact hlist (by simp [BucketList.new]) h

end Node

namespace Level

theorem KeepsInner.trans {before : Option Output} {middle after : Output}
    (h : KeepsInner before middle) (h' : KeepsInner (some middle) after) :
    KeepsInner before after where
  kept := by
    intro segment b hb
    obtain ⟨b', hb', hinner⟩ := h.kept segment b hb
    obtain ⟨b'', hb'', hinner'⟩ := h'.kept segment b' hb'
    exact ⟨b'', hb'', hinner'.trans hinner⟩
  fresh := by
    intro segment b'' hnone hb''
    cases hmiddle : middle.bucketAt? segment with
    | none => exact h'.fresh segment b'' hmiddle hb''
    | some b' =>
        obtain ⟨b, hb, hinner⟩ := h'.kept segment b' hmiddle
        obtain rfl := Option.some.inj (hb.symm.trans hb'')
        rw [hinner]
        exact h.fresh segment b' hnone hmiddle

theorem KeepsInner.refl (output : Output) : KeepsInner (some output) output where
  kept := fun _ b hb => ⟨b, hb, rfl⟩
  fresh := by
    intro segment b hnone hb
    cases hnone.symm.trans hb

end Level

namespace Output

/-- Counting goes on in the buckets that are there, and leaves what is inside them. -/
theorem Counts.keepsInner {output later : Output} (h : output.Counts later) :
    Level.KeepsInner (some output) later := by
  cases h with
  | bucket list index docs =>
      have hgrown : BucketList.Grown (entriesOf (some (buckets list)))
          (list.modify index fun b => b.addDocs docs).entries _ :=
        (BucketList.Grown.refl list.entries).modify index docs
      exact (keepsInner_of_grown hgrown (by simp)).1
  | single b docs =>
      refine ⟨fun segment other hother => ?_, fun segment other hnone hother => ?_⟩
      · cases segment with
        | bucket name i => cases hother
        | single name =>
            obtain rfl := Option.some.inj hother
            exact ⟨_, rfl, rfl⟩
      · cases segment with
        | bucket name i => cases hother
        | single name => cases hnone
  | measure tally value size =>
      have hnone (tally : Tally) (segment : Segment) : (metric tally).bucketAt? segment = none := by
        cases segment <;> rfl
      exact ⟨by simp [hnone], by simp [hnone]⟩

/-- A bucket that is inserted is empty inside. -/
theorem keepsInner_including (output : Output) {bucket? : Option (Bucket Output)}
    (h : ∀ bucket, bucket? = some bucket → bucket.inner = [] ∧ bucket.docCount = 0) :
    Level.KeepsInner (some output) (output.including bucket?) := by
  cases output with
  | buckets list =>
      cases bucket? with
      | none => exact .refl _
      | some bucket =>
          rw [including]
          rcases list.findOrInsert_cases bucket with ⟨i, -, heq⟩ | ⟨-, heq⟩
          · rw [heq]
            exact .refl _
          · have hgrown : BucketList.Grown (entriesOf (some (buckets list)))
                (BucketList.entries { list with entries := list.entries ++ [bucket] }) _ :=
              .append list.entries [bucket] (by simpa using h bucket rfl)
            rw [heq]
            exact (keepsInner_of_grown hgrown (by simp)).1
  | single b => exact .refl _
  | metric tally => exact .refl _

/-- In a list that is put in order identities go on being different. -/
theorem Counts.hasDistinctIds {output later : Output} (h : output.Counts later)
    (hdistinct : output.HasDistinctIds) : later.HasDistinctIds := by
  cases h with
  | bucket list i docs =>
      intro hordered
      rw [list.map_id_addDocs]
      exact hdistinct hordered
  | single b docs => trivial
  | measure tally value size => trivial

theorem HasDistinctIds.including {output : Output} (h : output.HasDistinctIds)
    (bucket? : Option (Bucket Output)) : (output.including bucket?).HasDistinctIds := by
  cases output with
  | buckets list =>
      cases bucket? with
      | none => exact h
      | some bucket =>
          intro hordered
          rw [BucketList.finish_eq_of_header (list.header_findOrInsert bucket)] at hordered
          exact BucketList.nodup_findOrInsert (h hordered) bucket
  | single b => trivial
  | metric tally => trivial

end Output

namespace Node.Acts

variable {n : Node} {row : Row} {before after : Output} {step : Step}

/-- What making room for a bucket gives and counting keeps, placing a row gives. -/
theorem keeps (h : n.Acts row before after step) (p : Output → Prop)
    (hroom : p (before.including (n.valueBucket? row)))
    (hcounts : ∀ output later : Output, output.Counts later → p output → p later) : p after := by
  have hrun := h.counts
  clear h
  induction hrun with
  | refl => exact hroom
  | tail _ hlast ih => exact hcounts _ _ hlast ih

/-- What is inside the buckets that are there stays, and what is created is empty inside. -/
theorem keepsInner {metricName : Option String} {found : Option Output}
    (h : n.Acts row (found.getD (n.initial metricName)) after step) :
    Level.KeepsInner found after := by
  refine h.keeps _ (.trans ?_ (Output.keepsInner_including _ fun _ => valueBucket?_spec))
    fun _ _ hcounts hkeeps => hkeeps.trans hcounts.keepsInner
  cases found with
  | some output => exact .refl output
  | none => exact ⟨fun _ _ hb => (nomatch hb), fun _ _ _ hb => inner_initial hb⟩

theorem grows (h : n.Acts row before after step) : before.Grows after :=
  h.keeps _ (Output.grows_including _ _) fun _ _ hcounts hgrows => hgrows.trans hcounts.grows

theorem hasDistinctIds (h : n.Acts row before after step) (hbefore : before.HasDistinctIds) :
    after.HasDistinctIds :=
  h.keeps _ (hbefore.including _) fun _ _ => Output.Counts.hasDistinctIds

/-- A list has the identities that it had with room for the bucket of the row. -/
theorem exists_list {room : BucketList Output} (h : n.Acts row before after step)
    (hroom : before.including (n.valueBucket? row) = .buckets room) :
    ∃ list, after = .buckets list ∧ list.entries.map Bucket.id = room.entries.map Bucket.id := by
  refine h.keeps (fun output => ∃ list, output = .buckets list ∧
    list.entries.map Bucket.id = room.entries.map Bucket.id) ⟨room, hroom, rfl⟩ ?_
  rintro _ _ hcounts ⟨list, rfl, hids⟩
  cases hcounts with
  | bucket _ i docs => exact ⟨_, rfl, (list.map_id_addDocs i docs).trans hids⟩

end Node.Acts

/-! ## Responses -/

namespace Level

variable {root later last after : Level} {path : Path} {name : String}

/-- Whether every output of a response is still there and has only grown. -/
def Grows (root later : Level) : Prop :=
  ∀ path name output, root.outputAt? path name = some output →
    ∃ output', later.outputAt? path name = some output' ∧ output.Grows output'

theorem Grows.refl (root : Level) : root.Grows root :=
  fun _ _ output houtput => ⟨output, houtput, .refl output⟩

theorem Grows.trans (h : root.Grows later) (h' : later.Grows last) : root.Grows last := by
  intro path name output houtput
  obtain ⟨output', houtput', hgrows⟩ := h path name output houtput
  obtain ⟨output'', houtput'', hgrows'⟩ := h' path name output' houtput'
  exact ⟨output'', houtput'', hgrows.trans hgrows'⟩

/-- A write under which its output grows lets nothing else shrink. -/
theorem IsWrite.grows_of {output : Output} (h : IsWrite root after path name output)
    (hgrows : ∀ before, root.outputAt? path name = some before → before.Grows output) :
    root.Grows after := by
  intro other otherName before hbefore
  by_cases hat : other = path ∧ otherName = name
  · obtain ⟨rfl, rfl⟩ := hat
    exact ⟨output, h.at_path, hgrows before hbefore⟩
  · have hbare := h.elsewhere other otherName hat
    rw [hbefore] at hbare
    obtain ⟨found, hfound, heq⟩ := Option.map_eq_some_iff.mp hbare
    exact ⟨found, hfound, Output.grows_of_bare_eq heq.symm⟩

theorem levelAt?_of_bucketIn? {segment : Segment} {b : Bucket Output}
    (h : root.bucketIn? path segment = some b) :
    levelAt? (path ++ [segment]) root = some b.inner := by
  rw [levelAt?_concat, ← bucketIn?_eq, h]
  rfl

theorem outputAt?_append (root : Level) (path rest : Path) (name : String) :
    root.outputAt? (path ++ rest) name =
      (levelAt? path root).bind fun level => level.outputAt? rest name := by
  simp only [outputAt?, levelAt?_append, Option.bind_assoc]

/-- A step at the end of a path goes into the same bucket of a response that has grown, and so does
every path inside the bucket. -/
theorem Grows.bucketIn? (h : root.Grows later) {segment : Segment} {b : Bucket Output}
    (hb : root.bucketIn? path segment = some b) :
    ∃ b', later.bucketIn? path segment = some b' ∧ b.Grows b' ∧ Grows b.inner b'.inner := by
  obtain ⟨output, houtput, hat⟩ := Option.bind_eq_some_iff.mp ((bucketIn?_eq ..).symm.trans hb)
  obtain ⟨output', houtput', hgrows⟩ := h path segment.name output houtput
  obtain ⟨b', hb', hbucket⟩ := hgrows.bucketAt? hat
  have hlater : later.bucketIn? path segment = some b' := by
    rw [bucketIn?_eq, houtput']
    exact hb'
  refine ⟨b', hlater, hbucket, fun rest name inside hinside => ?_⟩
  obtain ⟨inside', hinside', hinner⟩ := h (path ++ segment :: rest) name inside (by
    rw [List.append_cons, outputAt?_append, levelAt?_of_bucketIn? hb]
    exact hinside)
  refine ⟨inside', ?_, hinner⟩
  rw [List.append_cons, outputAt?_append, levelAt?_of_bucketIn? hlater] at hinside'
  exact hinside'

end Level

end Rollup
