/-
# Marks of a row

Which buckets a node makes for a row, in which of them it counts the documents and in which the row
goes on, the row tells by marks, whatever buckets are there already. What a list of buckets is, how
it ends, and the buckets that exist from the start are settled when the output is created.
-/

import Rollup.Proofs.Response.Trail

namespace Rollup

/-- What a list of buckets is, but for the buckets. -/
def BucketList.header {α : Type} (list : BucketList α) : ListShape × Finish × Nat :=
  (list.shape, list.finish, list.otherDocCount)

theorem BucketList.finish_eq_of_header {α β : Type} {list : BucketList α} {later : BucketList β}
    (h : later.header = list.header) : later.finish = list.finish :=
  congrArg (fun header => header.2.1) h

theorem BucketList.header_findOrInsert {α : Type} (list : BucketList α) (bucket : Bucket α) :
    (list.findOrInsert bucket).2.header = list.header := by
  rcases list.findOrInsert_cases bucket with ⟨i, -, heq⟩ | ⟨-, heq⟩
  · rw [heq]
  · rw [heq]
    rfl

namespace Output

/-- An output after buckets of values or intervals were added, and documents and values were counted
in. -/
def Frames : Output → Output → Prop
  | buckets list, buckets later =>
      later.header = list.header ∧
        (list.finish.order.isSome = false →
          (later.entries.map fun b => (b.id, b.key)) = list.entries.map fun b => (b.id, b.key))
  | single b, single later => later.id = b.id ∧ later.key = b.key
  | metric tally, metric later => later.function = tally.function
  | _, _ => False

theorem Frames.refl (output : Output) : output.Frames output := by
  cases output <;> simp [Frames]

theorem Frames.trans {first second third : Output} (h : first.Frames second)
    (h' : second.Frames third) : first.Frames third := by
  cases first <;> cases second <;> cases third <;> simp only [Frames] at h h' ⊢
  · refine ⟨h'.1.trans h.1, fun hplain => ?_⟩
    exact (h'.2 (BucketList.finish_eq_of_header h.1 ▸ hplain)).trans (h.2 hplain)
  · exact ⟨h'.1.trans h.1, h'.2.trans h.2⟩
  · exact h'.trans h

theorem frames_of_bare_eq {first second : Output} (h : first.bare = second.bare) :
    first.Frames second := by
  cases first <;> cases second <;> simp only [bare, reduceCtorEq, buckets.injEq, single.injEq,
    metric.injEq, BucketList.mk.injEq] at h
  · rename_i list later
    refine ⟨by rw [BucketList.header, BucketList.header, h.1, h.2.1, h.2.2.1], fun _ => ?_⟩
    have hnamed := congrArg (List.map fun b : Bucket Output => (b.id, b.key)) h.2.2.2
    simpa [List.map_map, Function.comp_def, Bucket.bare] using hnamed.symm
  · simp only [Bucket.bare, Bucket.mk.injEq] at h
    exact ⟨h.1.symm, h.2.1.symm⟩
  · rw [h]
    exact Frames.refl _

theorem Frames.isOrdered {before after : Output} (h : before.Frames after) :
    after.isOrdered = before.isOrdered := by
  cases before <;> cases after <;> simp only [Frames] at h
  · rw [Output.isOrdered, Output.isOrdered, BucketList.finish_eq_of_header h.1]
  · rfl
  · rfl

/-- A bucket that existed from the start keeps its identity and its key. -/
theorem Frames.bucketOf?_iff {before after : Output} (h : before.Frames after) {mark : Mark}
    (hmark : ∀ id, mark ≠ .named id) :
    (after.bucketOf? mark).map (fun b => (b.id, b.key)) =
      (before.bucketOf? mark).map fun b => (b.id, b.key) := by
  cases before <;> cases after <;> simp only [Frames] at h
  · rename_i list later
    obtain ⟨hheader, hnamed⟩ := h
    cases mark with
    | named id => exact absurd rfl (hmark id)
    | only => rfl
    | placed i =>
        simp only [bucketOf?, BucketList.finish_eq_of_header hheader]
        split
        · rfl
        · rename_i hplain
          rw [← List.getElem?_map, ← List.getElem?_map, hnamed (by simpa using hplain)]
  · cases mark with
    | named id => exact absurd rfl (hmark id)
    | placed i => rfl
    | only => simp [bucketOf?, h.1, h.2]
  · cases mark <;> rfl

/-- Counting documents in at some positions. -/
theorem frames_foldl_modify (list : BucketList Output) (positions : List Nat) (docs : Nat) :
    (buckets list).Frames (.buckets (positions.foldl
      (fun list index => list.modify index fun b => b.addDocs docs) list)) := by
  induction positions generalizing list with
  | nil => exact Frames.refl _
  | cons i rest ih =>
      refine Frames.trans ?_ (ih _)
      refine ⟨rfl, fun _ => ?_⟩
      apply List.ext_getElem?
      intro j
      simp only [BucketList.modify, List.getElem?_map, List.getElem?_modify]
      cases list.entries[j]? with
      | none => rfl
      | some b => by_cases hi : i = j <;> simp [hi, Bucket.addDocs]

end Output

namespace Node

/-- What a node creates where its output is missing. -/
def initial (n : Node) (metricName : Option String) : Output :=
  match n.aggregation with
  | .metric m => .metric (Tally.empty m.function)
  | .ranges r => .buckets (.preset (if r.keyed then .keyed else .array) r.buckets)
  | .leg l =>
      match l.shape with
      | .single => .single (Bucket.empty n.name none [])
      | .named => .buckets (.preset .keyed l.buckets)
      | .anonymous => .buckets (.preset .array l.buckets)
  | _ => .buckets (.new .array (n.valueFinish metricName))

/-- The bucket with a mark that a node makes for a row, or makes from the start. -/
def freshAt? (n : Node) (row : Row) : Mark → Option (Bucket Output)
  | .named id => (n.valueBucket? row).filter fun b => b.id == id
  | mark => (n.initial none).bucketOf? mark

theorem freshAt?_preset {n : Node} {row : Row} {mark : Mark} (h : ∀ id, mark ≠ .named id) :
    n.freshAt? row mark = (n.initial none).bucketOf? mark := by
  cases mark with
  | named id => exact absurd rfl (h id)
  | placed index => rfl
  | only => rfl

/-- Whether a node counts the documents of a row in the bucket with a mark. -/
def gives (n : Node) (row : Row) (mark : Mark) : Bool :=
  match n.aggregation, mark with
  | .ranges _, .placed index => (n.rangesOf row).contains index
  | .leg l, .placed index => l.shape != .single && n.matchesLeg row && index == l.index
  | .leg l, .only => l.shape == .single && n.matchesLeg row
  | _, .named id => (n.valueBucket? row).any fun b => b.id == id
  | _, _ => false

/-- The mark of the bucket in which a row goes on. -/
def goesTo? (n : Node) (row : Row) : Option Mark :=
  match n.aggregation with
  | .ranges _ => (n.rangesOf row).head?.map Mark.placed
  | .leg l =>
      if n.matchesLeg row then some (if l.shape = .single then .only else .placed l.index)
      else none
  | _ => (n.valueBucket? row).map fun b => .named b.id

/-- Whether an output is one that a node makes, of the kind and with the buckets of its start. -/
structure Suits (n : Node) (output : Output) : Prop where
  fits : n.Fits output
  ordered : output.isOrdered = n.aggregation.isValueGroup
  preset : ∀ mark b, (∀ id, mark ≠ .named id) → output.bucketOf? mark = some b →
    ∃ fresh, (n.initial none).bucketOf? mark = some fresh ∧ fresh.id = b.id ∧ fresh.key = b.key

section

variable {n : Node} {row : Row} {countColumn : String}

/-- A node that groups by no values is a metric, ranges or a leg. -/
theorem kind_of_other (hvalue : n.aggregation.isValueGroup = false) (hquery : n.isQuery = false) :
    (∃ m, n.aggregation = .metric m) ∨ (∃ r, n.aggregation = .ranges r) ∨
      ∃ l, n.aggregation = .leg l := by
  cases haggregation : n.aggregation with
  | metric m => exact Or.inl ⟨m, rfl⟩
  | ranges r => exact Or.inr (Or.inl ⟨r, rfl⟩)
  | leg l => exact Or.inr (Or.inr ⟨l, rfl⟩)
  | query q => simp [isQuery, Aggregation.isQuery, Aggregation.query?, haggregation] at hquery
  | terms t => simp [Aggregation.isValueGroup, Aggregation.terms?, haggregation] at hvalue
  | histogram h => simp [Aggregation.isValueGroup, Aggregation.isHistogram, haggregation] at hvalue
  | dateHistogram h =>
      simp [Aggregation.isValueGroup, Aggregation.isHistogram, haggregation] at hvalue

/-- A node that groups by values makes lists only. -/
theorem exists_buckets_of_fits (hvalue : n.aggregation.isValueGroup = true) {output : Output}
    (h : n.Fits output) : ∃ list, output = .buckets list := by
  unfold Fits at h
  cases output with
  | buckets list => exact ⟨list, rfl⟩
  | single b =>
      cases haggregation : n.aggregation <;>
        simp_all [Aggregation.isValueGroup, Aggregation.isHistogram, Aggregation.terms?]
  | metric tally =>
      cases haggregation : n.aggregation <;>
        simp_all [Aggregation.isValueGroup, Aggregation.isHistogram, Aggregation.terms?]

theorem initial_value (hvalue : n.aggregation.isValueGroup = true) (metricName : Option String) :
    n.initial metricName = .buckets (.new .array (n.valueFinish metricName)) := by
  unfold initial
  cases haggregation : n.aggregation <;>
    simp_all [Aggregation.isValueGroup, Aggregation.isHistogram, Aggregation.terms?]

theorem initial_other (hvalue : n.aggregation.isValueGroup = false) (hquery : n.isQuery = false)
    (metricName : Option String) : n.initial metricName = n.initial none := by
  unfold initial
  rcases kind_of_other hvalue hquery with ⟨m, h⟩ | ⟨r, h⟩ | ⟨l, h⟩ <;> rw [h]

theorem isSome_order_valueFinish (hvalue : n.aggregation.isValueGroup = true)
    (metricName : Option String) : (n.valueFinish metricName).order.isSome = true := by
  unfold valueFinish
  cases haggregation : n.aggregation <;>
    simp_all [Aggregation.isValueGroup, Aggregation.isHistogram, Aggregation.terms?, Terms.finish,
      intervalFinish]

/-- The identity of a bucket of values or intervals is that of its key. -/
theorem id_of_valueBucket? {b : Bucket Output}
    (h : n.valueBucket? row = some b) : b.id = Cell.key b.keyCell := by
  unfold valueBucket? at h
  dsimp only at h
  split at h
  · obtain ⟨value, -, rfl⟩ := Option.map_eq_some_iff.mp h
    rfl
  · obtain ⟨value, -, rfl⟩ := Option.map_eq_some_iff.mp h
    rfl
  · obtain ⟨value, -, rfl⟩ := Option.map_eq_some_iff.mp h
    rfl
  · cases h

/-- A node that makes buckets of values or intervals groups by them. -/
theorem isValueGroup_of_valueBucket? {b : Bucket Output} (h : n.valueBucket? row = some b) :
    n.aggregation.isValueGroup = true := by
  unfold valueBucket? at h
  cases haggregation : n.aggregation <;>
    simp_all [Aggregation.isValueGroup, Aggregation.isHistogram, Aggregation.terms?]

/-- A node that orders no buckets leaves its lists as they are. -/
theorem valueFinish_eq_plain {metricName : Option String}
    (h : (n.valueFinish metricName).order = none) : n.valueFinish metricName = .plain := by
  unfold valueFinish at h ⊢
  split at h
  · cases h
  · cases h
  · cases h
  · rfl

/-- A list ends as the node asks for that created it. -/
theorem finish_of_frames {metricName : Option String} {list : BucketList Output}
    (h : (n.initial metricName).Frames (.buckets list)) :
    list.finish = n.valueFinish metricName := by
  have hfinish {first : BucketList Output}
      (hframes : (Output.buckets first).Frames (.buckets list)) :
      list.finish = first.finish := BucketList.finish_eq_of_header hframes.1
  unfold initial at h
  cases haggregation : n.aggregation with
  | metric m => rw [haggregation] at h; cases h
  | ranges r =>
      rw [haggregation] at h
      rw [valueFinish, haggregation]
      exact hfinish h
  | leg l =>
      rw [haggregation] at h
      rw [valueFinish, haggregation]
      cases hshape : l.shape with
      | single => simp only [hshape] at h; cases h
      | named => simp only [hshape] at h; exact hfinish h
      | anonymous => simp only [hshape] at h; exact hfinish h
  | _ =>
      rw [haggregation] at h
      exact hfinish h

theorem suits_initial (hquery : n.isQuery = false) (metricName : Option String) :
    n.Suits (n.initial metricName) := by
  by_cases hvalue : n.aggregation.isValueGroup = true
  · have hordered := isSome_order_valueFinish hvalue metricName
    rw [initial_value hvalue]
    refine ⟨(fits_value hvalue _).mpr ⟨List.nodup_nil, ?_⟩, ?_, ?_⟩
    · intro hhistogram
      unfold BucketList.new valueFinish
      cases haggregation : n.aggregation <;> simp_all [Aggregation.isHistogram]
    · rw [hvalue]
      exact hordered
    · intro mark b hmark hb
      cases mark with
      | named id => exact absurd rfl (hmark id)
      | placed i => simp [Output.bucketOf?, BucketList.new] at hb
      | only => cases hb
  · have hother : n.aggregation.isValueGroup = false := by simpa using hvalue
    rw [initial_other hother hquery]
    refine ⟨?_, ?_, fun mark b _ hb => ⟨b, hb, rfl, rfl⟩⟩
    · rcases kind_of_other hother hquery with ⟨m, h⟩ | ⟨r, h⟩ | ⟨l, h⟩
      · simp [initial, Fits, h]
      · simp [initial, Fits, h, BucketList.preset, Ranges.buckets]
      · cases hshape : l.shape <;> simp [initial, Fits, h, BucketList.preset, Leg.buckets, hshape]
    · rw [hother]
      rcases kind_of_other hother hquery with ⟨m, h⟩ | ⟨r, h⟩ | ⟨l, h⟩
      · simp [initial, h, Output.isOrdered]
      · simp [initial, h, Output.isOrdered, BucketList.preset, Finish.plain]
      · cases hshape : l.shape <;>
          simp [initial, h, Output.isOrdered, BucketList.preset, Finish.plain, hshape]

theorem Suits.hasDistinctIds {output : Output} (h : n.Suits output) : output.HasDistinctIds := by
  cases output with
  | buckets list =>
      intro hordered
      have hvalue : n.aggregation.isValueGroup = true := h.ordered.symm.trans hordered
      exact ((fits_value hvalue list).mp h.fits).1
  | single b => trivial
  | metric tally => trivial

/-- An output goes on suiting a node while it keeps its frame. -/
theorem Suits.of_frames {before after : Output} (h : n.Suits before) (hfits : n.Fits after)
    (hframes : before.Frames after) : n.Suits after where
  fits := hfits
  ordered := hframes.isOrdered.trans h.ordered
  preset := by
    intro mark b hmark hb
    have hsame := hframes.bucketOf?_iff hmark
    rw [hb] at hsame
    obtain ⟨b', hb', heq⟩ := Option.map_eq_some_iff.mp hsame.symm
    obtain ⟨fresh, hfresh, hid, hkey⟩ := h.preset mark b' hmark hb'
    obtain ⟨hid', hkey'⟩ := Prod.mk.inj heq
    exact ⟨fresh, hfresh, hid.trans hid', hkey.trans hkey'⟩

theorem Suits.congr {first second : Output} (h : n.Suits first)
    (hbare : first.bare = second.bare) : n.Suits second :=
  h.of_frames ((fits_congr hbare).mp h.fits) (Output.frames_of_bare_eq hbare)

/-! ## Placing a row keeps the frame -/

theorem frames_findAndCount (hvalue : n.aggregation.isValueGroup = true) {list : BucketList Output}
    (hsuits : n.Suits (.buckets list)) (bucket? : Option (Bucket Output)) (docs : Nat) :
    (Output.buckets list).Frames (.buckets (findAndCount n.name bucket? docs list).2) := by
  have hordered : list.finish.order.isSome = true := hsuits.ordered.trans hvalue
  unfold findAndCount
  cases bucket? with
  | none => exact Output.Frames.refl _
  | some bucket =>
      unfold BucketList.findOrInsert
      cases hposition : list.positionOf? bucket.id <;>
        simp [Output.Frames, BucketList.header, BucketList.modify, hordered, hposition]

/-- What acting on a list does to the output of a level. -/
theorem exists_onBuckets {β : Type} {level : Level} {name : String} {initial : BucketList Output}
    {act : BucketList Output → β × BucketList Output} {after : Output}
    (hlist : ∃ list, (level.get? name).getD (.buckets initial) = .buckets list)
    (hafter : (level.onBuckets name initial act).2.get? name = some after) :
    ∃ list, (level.get? name).getD (.buckets initial) = .buckets list ∧
      after = .buckets (act list).2 := by
  obtain ⟨list, hlist⟩ := hlist
  obtain ⟨-, hget⟩ := level.onBuckets_spec name initial act hlist
  rw [hget, if_pos rfl] at hafter
  exact ⟨list, hlist, (Option.some.inj hafter).symm⟩

theorem place_frames_metric {m : Metric} (h : n.aggregation = .metric m)
    {metricName : Option String} {level : Level} {after : Output}
    (hafter : (n.place countColumn metricName row level).2.get? n.name = some after)
    (hfits : n.Fits ((level.get? n.name).getD (n.initial metricName))) :
    ((level.get? n.name).getD (n.initial metricName)).Frames after := by
  have hinitial : n.initial metricName = .metric (Tally.empty m.function) := by simp [initial, h]
  rw [hinitial] at hfits ⊢
  obtain ⟨tally, htally⟩ : ∃ tally,
      (level.get? n.name).getD (.metric (Tally.empty m.function)) = .metric tally := by
    cases houtput : (level.get? n.name).getD (.metric (Tally.empty m.function)) with
    | metric tally => exact ⟨tally, rfl⟩
    | buckets list => simp [houtput, Fits, h] at hfits
    | single b => simp [houtput, Fits, h] at hfits
  have hget := level.onMetric_spec n.name m.function
    (fun tally => ((), tally.addRow (n.decisions.column.getD "") countColumn row)) htally
  simp only [place, h, Metric.place, hget, if_true, Option.some.injEq] at hafter
  rw [htally, ← hafter]
  unfold Tally.addRow
  split
  · exact Tally.function_add _ _ _
  · rfl

theorem place_frames_ranges {r : Ranges} (h : n.aggregation = .ranges r)
    {metricName : Option String} {level : Level} {after : Output}
    (hafter : (n.place countColumn metricName row level).2.get? n.name = some after)
    (hfits : n.Fits ((level.get? n.name).getD (n.initial metricName))) :
    ((level.get? n.name).getD (n.initial metricName)).Frames after := by
  have hinitial : n.initial metricName =
      .buckets (.preset (if r.keyed then .keyed else .array) r.buckets) := by simp [initial, h]
  rw [hinitial] at hfits ⊢
  have hkind : ∃ list, (level.get? n.name).getD
      (.buckets (.preset (if r.keyed then .keyed else .array) r.buckets)) = .buckets list := by
    cases houtput : (level.get? n.name).getD
        (.buckets (.preset (if r.keyed then .keyed else .array) r.buckets)) with
    | buckets list => exact ⟨list, rfl⟩
    | single b => simp [houtput, Fits, h] at hfits
    | metric tally => simp [houtput, Fits, h] at hfits
  simp only [place, h, Ranges.place] at hafter
  obtain ⟨list, hlist, rfl⟩ := exists_onBuckets hkind hafter
  rw [hlist]
  split
  · split <;> exact Output.frames_foldl_modify list _ _
  · exact Output.Frames.refl _

theorem place_frames_leg {l : Leg} (h : n.aggregation = .leg l)
    {metricName : Option String} {level : Level} {after : Output}
    (hafter : (n.place countColumn metricName row level).2.get? n.name = some after)
    (hfits : n.Fits ((level.get? n.name).getD (n.initial metricName))) :
    ((level.get? n.name).getD (n.initial metricName)).Frames after := by
  have hlisted (shape : ListShape) (hshape : l.shape ≠ .single)
      (hinitial : n.initial metricName = .buckets (.preset shape l.buckets))
      (docs : Nat) (inside : Segment → Step)
      (hget : (Leg.place.listed l n.name shape docs inside level).2.get? n.name = some after) :
      ((level.get? n.name).getD (n.initial metricName)).Frames after := by
    rw [hinitial] at hfits ⊢
    have hkind : ∃ list, (level.get? n.name).getD (.buckets (.preset shape l.buckets)) =
        .buckets list := by
      cases houtput : (level.get? n.name).getD (.buckets (.preset shape l.buckets)) with
      | buckets list => exact ⟨list, rfl⟩
      | single b => simp [houtput, Fits, h, hshape] at hfits
      | metric tally => simp [houtput, Fits, h] at hfits
    unfold Leg.place.listed at hget
    obtain ⟨list, hlist, rfl⟩ := exists_onBuckets hkind hget
    rw [hlist]
    exact Output.frames_foldl_modify list [l.index] _
  simp only [place, h, Leg.place] at hafter
  cases hshape : l.shape with
  | named =>
      rw [hshape] at hafter
      exact hlisted .keyed (by simp [hshape]) (by simp [initial, h, hshape]) _ _ hafter
  | anonymous =>
      rw [hshape] at hafter
      exact hlisted .array (by simp [hshape]) (by simp [initial, h, hshape]) _ _ hafter
  | single =>
      rw [hshape] at hafter
      have hinitial : n.initial metricName = .single (Bucket.empty n.name none []) := by
        simp [initial, h, hshape]
      rw [hinitial] at hfits ⊢
      obtain ⟨b, hb⟩ : ∃ b,
          (level.get? n.name).getD (.single (Bucket.empty n.name none [])) = .single b := by
        cases houtput : (level.get? n.name).getD (.single (Bucket.empty n.name none [])) with
        | single b => exact ⟨b, rfl⟩
        | buckets list => simp [houtput, Fits, h, hshape] at hfits
        | metric tally => simp [houtput, Fits, h] at hfits
      obtain ⟨-, hget⟩ := level.onSingle_spec n.name
        (fun bucket => (if l.isMatchedBy n.decisions.direct n.decisions.column row then
          Step.descend (.single n.name) else .skip, bucket.addDocs
            (if l.isMatchedBy n.decisions.direct n.decisions.column row then
              row.count countColumn else 0))) hb
      simp only [hget, if_true, Option.some.injEq] at hafter
      rw [hb, ← hafter]
      exact ⟨rfl, rfl⟩

/-- Placing a row keeps the frame of the output that is there or created. -/
theorem place_frames (hquery : n.isQuery = false) (metricName : Option String) {level : Level}
    {after : Output}
    (hafter : (n.place countColumn metricName row level).2.get? n.name = some after)
    (hsuits : n.Suits ((level.get? n.name).getD (n.initial metricName))) :
    ((level.get? n.name).getD (n.initial metricName)).Frames after := by
  have hfits := hsuits.fits
  by_cases hvalue : n.aggregation.isValueGroup = true
  · have hplace : (n.place countColumn metricName row level).2 =
        (level.onBuckets n.name (.new .array (n.valueFinish metricName))
          (findAndCount n.name (n.valueBucket? row) (row.count countColumn))).2 := by
      rw [place_value hvalue]
      rfl
    have hkind := exists_buckets_of_fits hvalue hfits
    rw [initial_value hvalue] at hsuits hkind ⊢
    rw [hplace] at hafter
    obtain ⟨list, hlist, rfl⟩ := exists_onBuckets hkind hafter
    rw [hlist] at hsuits ⊢
    exact frames_findAndCount hvalue hsuits _ _
  · rcases kind_of_other (by simpa using hvalue) hquery with ⟨m, h⟩ | ⟨r, h⟩ | ⟨l, h⟩
    · exact place_frames_metric h hafter hfits
    · exact place_frames_ranges h hafter hfits
    · exact place_frames_leg h hafter hfits

end

/-! ## Placing a row, told by marks -/

section

variable {n : Node} {row : Row} {countColumn : String} {before : Option Output} {after : Output}
  {step : Step}

/-- A step into a bucket of an output that suits a node hits just when the mark is one that the row
gives. -/
theorem hits_eq_gives (hsuits : n.Suits after) {segment : Segment} {b : Bucket Output}
    (hb : after.bucketAt? segment = some b) :
    n.hits row segment b.id = n.gives row (after.markOf segment b) := by
  have hordered := hsuits.ordered
  have hfits := hsuits.fits
  cases segment with
  | bucket name i =>
      unfold Output.markOf
      rw [hordered]
      unfold hits gives
      cases haggregation : n.aggregation <;>
        simp_all [Aggregation.isValueGroup, Aggregation.isHistogram, Aggregation.terms?]
  | single name =>
      unfold Output.markOf
      cases after with
      | single bucket =>
          unfold Fits at hfits
          unfold hits gives
          cases haggregation : n.aggregation <;> simp_all
      | buckets list => cases hb
      | metric tally => cases hb

/-- Where a row goes on is a bucket in which its documents count. -/
theorem gives_of_goesTo? {mark : Mark} (h : n.goesTo? row = some mark) :
    n.gives row mark = true := by
  unfold goesTo? at h
  unfold gives
  cases haggregation : n.aggregation with
  | ranges r =>
      simp only [haggregation] at h ⊢
      obtain ⟨i, hi, rfl⟩ := Option.map_eq_some_iff.mp h
      simpa using List.mem_of_head? hi
  | leg l =>
      simp only [haggregation] at h ⊢
      split at h
      · rename_i hmatches
        obtain rfl := Option.some.inj h
        by_cases hshape : l.shape = .single <;> simp [hshape, hmatches]
      · cases h
  | _ =>
      simp only [haggregation] at h ⊢
      obtain ⟨b, hb, rfl⟩ := Option.map_eq_some_iff.mp h
      simp [hb]

/-- The buckets that exist from the start: one for each range, and one for each leg. -/
theorem isSome_initial_placed {i : Nat} :
    ((n.initial none).bucketOf? (.placed i)).isSome = true ↔
      (∃ r, n.aggregation = .ranges r ∧ i < r.specs.length) ∨
        ∃ l, n.aggregation = .leg l ∧ l.shape ≠ .single ∧ i < l.labels.length := by
  unfold initial
  cases haggregation : n.aggregation with
  | leg l =>
      cases hshape : l.shape <;>
        simp [Output.bucketOf?, BucketList.preset, Finish.plain, Leg.buckets, hshape]
  | ranges r => simp [Output.bucketOf?, BucketList.preset, Finish.plain, Ranges.buckets]
  | _ => simp [Output.bucketOf?, BucketList.new]

theorem isSome_initial_only :
    ((n.initial none).bucketOf? .only).isSome = true ↔
      ∃ l, n.aggregation = .leg l ∧ l.shape = .single := by
  unfold initial
  cases haggregation : n.aggregation with
  | leg l => cases hshape : l.shape <;> simp [Output.bucketOf?, hshape]
  | _ => simp [Output.bucketOf?]

/-- A node makes, or has made from the start, every bucket in which the documents of a row count. -/
theorem isSome_freshAt?_of_gives (hlabelled : n.IsLabelled) {mark : Mark}
    (h : n.gives row mark = true) : (n.freshAt? row mark).isSome = true := by
  cases mark with
  | named id =>
      have hany : ((n.valueBucket? row).any fun b => b.id == id) = true := by
        unfold gives at h
        cases haggregation : n.aggregation <;> simp_all [valueBucket?]
      obtain ⟨b, hb, hid⟩ := (Option.any_eq_true _ _).mp hany
      simp [freshAt?, hb, Option.filter, hid]
  | placed i =>
      refine isSome_initial_placed.mpr ?_
      unfold gives at h
      cases haggregation : n.aggregation with
      | ranges r =>
          simp only [haggregation, List.contains_iff_mem] at h
          unfold rangesOf at h
          simp only [haggregation] at h
          split at h
          · exact Or.inl ⟨r, rfl, lt_of_mem_containing h⟩
          · cases h
      | leg l =>
          simp only [haggregation, Bool.and_eq_true, bne_iff_ne, ne_eq, beq_iff_eq] at h
          exact Or.inr ⟨l, rfl, h.1.1, h.2 ▸ hlabelled l haggregation⟩
      | _ => simp [haggregation] at h
  | only =>
      refine isSome_initial_only.mpr ?_
      unfold gives at h
      cases haggregation : n.aggregation with
      | leg l =>
          simp only [haggregation, Bool.and_eq_true, beq_iff_eq] at h
          exact ⟨l, rfl, h.1⟩
      | _ => simp [haggregation] at h

/-- Documents that count under a mark belong into the bucket of some step. -/
theorem exists_hits_of_gives {mark : Mark} (h : n.gives row mark = true) :
    ∃ segment id, n.hits row segment id = true := by
  cases mark with
  | named id =>
      refine ⟨.bucket n.name 0, id, ?_⟩
      unfold gives at h
      unfold hits
      cases haggregation : n.aggregation <;> simp_all [valueBucket?]
  | placed i =>
      refine ⟨.bucket n.name i, "", ?_⟩
      unfold gives at h
      unfold hits
      cases haggregation : n.aggregation <;> simp_all
  | only =>
      refine ⟨.single n.name, "", ?_⟩
      unfold gives at h
      unfold hits
      cases haggregation : n.aggregation <;> simp_all

/-- The bucket that a row goes into has the mark of where it goes on. -/
theorem goesTo?_of_enters (hsuits : n.Suits after) {segment : Segment} {b : Bucket Output}
    (hb : after.bucketAt? segment = some b) (henters : n.enters row segment b.id = true) :
    n.goesTo? row = some (after.markOf segment b) := by
  have hordered := hsuits.ordered
  have hfits := hsuits.fits
  have hhits := hits_of_enters henters
  cases segment with
  | bucket name i =>
      unfold Output.markOf
      rw [hordered]
      unfold enters hits at henters
      unfold goesTo?
      cases haggregation : n.aggregation with
      | terms t =>
          simp only [haggregation, Option.any_eq_true, beq_iff_eq] at henters
          obtain ⟨fresh, hfresh, hid⟩ := henters
          simp [hfresh, hid, Aggregation.isValueGroup, Aggregation.terms?]
      | histogram h =>
          simp only [haggregation, Option.any_eq_true, beq_iff_eq] at henters
          obtain ⟨fresh, hfresh, hid⟩ := henters
          simp [hfresh, hid, Aggregation.isValueGroup, Aggregation.isHistogram]
      | dateHistogram h =>
          simp only [haggregation, Option.any_eq_true, beq_iff_eq] at henters
          obtain ⟨fresh, hfresh, hid⟩ := henters
          simp [hfresh, hid, Aggregation.isValueGroup, Aggregation.isHistogram]
      | ranges r =>
          simp only [haggregation, beq_iff_eq] at henters
          simp [henters, Aggregation.isValueGroup, Aggregation.isHistogram, Aggregation.terms?]
      | leg l =>
          simp only [haggregation, Bool.and_eq_true, bne_iff_ne, ne_eq, beq_iff_eq] at henters
          simp [henters.1.1, henters.1.2, henters.2, Aggregation.isValueGroup,
            Aggregation.isHistogram, Aggregation.terms?]
      | metric m => simp [haggregation] at henters
      | query q => simp [haggregation] at henters
  | single name =>
      obtain ⟨l, hleg⟩ : ∃ l, n.aggregation = .leg l := by
        unfold hits at hhits
        cases haggregation : n.aggregation <;> simp_all
      simp only [hits, hleg, Bool.and_eq_true, beq_iff_eq] at hhits
      simp [goesTo?, hleg, hhits.1, hhits.2, Output.markOf]

/-- A bucket that a node makes for a row, or from the start, is there afterwards. -/
theorem Placed.isSome_bucketOf?_of_fresh (hplaced : n.Placed countColumn row before after step)
    (hafter : n.Suits after) {mark : Mark} (h : (n.freshAt? row mark).isSome = true) :
    (after.bucketOf? mark).isSome = true := by
  have hfits := hafter.fits
  have hordered := hafter.ordered
  cases mark with
  | named id =>
      obtain ⟨fresh, hfresh⟩ := Option.isSome_iff_exists.mp h
      obtain ⟨hvalueBucket, hid⟩ := Option.filter_eq_some_iff.mp hfresh
      have hid : fresh.id = id := by simpa using hid
      have hvalue := isValueGroup_of_valueBucket? hvalueBucket
      obtain ⟨next, hnext⟩ := hplaced.goesOn (.bucket n.name 0) id (by
        rw [hits_value hvalue, hvalueBucket]
        simp [hid])
      obtain ⟨-, b, hb, henters⟩ := (hplaced.step next).mp hnext
      have hmark := goesTo?_of_enters hafter hb henters
      have hgoes : n.goesTo? row = some (.named id) := by
        unfold goesTo?
        cases haggregation : n.aggregation <;>
          simp_all [Aggregation.isValueGroup, Aggregation.isHistogram, Aggregation.terms?]
      rw [hgoes] at hmark
      rw [Option.isSome_iff_exists]
      exact ⟨b, (Output.bucketOf?_eq_some_iff hafter.hasDistinctIds next.name).mpr
        ⟨next, rfl, hb, (Option.some.inj hmark).symm⟩⟩
  | placed i =>
      rcases isSome_initial_placed.mp h with ⟨r, hr, hlt⟩ | ⟨l, hl, hshape, hlt⟩
      · cases after <;> simp_all [Fits, Output.bucketOf?, Output.isOrdered,
          Aggregation.isValueGroup, Aggregation.isHistogram, Aggregation.terms?]
      · cases after <;> simp_all [Fits, Output.bucketOf?, Output.isOrdered,
          Aggregation.isValueGroup, Aggregation.isHistogram, Aggregation.terms?]
  | only =>
      obtain ⟨l, hl, hshape⟩ := isSome_initial_only.mp h
      cases after <;> simp_all [Fits, Output.bucketOf?]

/-- A bucket keeps its mark. -/
theorem Placed.markOf_eq (hplaced : n.Placed countColumn row before after step)
    (hbefore : ∀ output, before = some output → n.Suits output) (hafter : n.Suits after)
    {output : Output} (houtput : before = some output) {segment : Segment} {b : Bucket Output}
    (hb : output.bucketAt? segment = some b) :
    ∃ b', after.bucketAt? segment = some b' ∧ b'.id = b.id ∧
      after.markOf segment b' = output.markOf segment b := by
  obtain ⟨b', hb', hid⟩ := hplaced.ids segment b (by rw [houtput]; exact hb)
  refine ⟨b', hb', hid, ?_⟩
  cases segment with
  | bucket name i =>
      simp [Output.markOf, hafter.ordered, (hbefore output houtput).ordered, hid]
  | single name => rfl

/-- What had the mark of a bucket before is what the step into it went into before. -/
theorem Placed.bucketOf?_before (hplaced : n.Placed countColumn row before after step)
    (hbefore : ∀ output, before = some output → n.Suits output) (hafter : n.Suits after)
    {segment : Segment} {b : Bucket Output} (hb : after.bucketAt? segment = some b) :
    (before.bind fun output => output.bucketOf? (after.markOf segment b)) =
      before.bind fun output => output.bucketAt? segment := by
  cases before with
  | none => rfl
  | some output =>
      simp only [Option.bind_some]
      have hsuits := hbefore output rfl
      cases hearlier : output.bucketAt? segment with
      | some b₀ =>
          obtain ⟨b', hb', -, hmark⟩ := hplaced.markOf_eq hbefore hafter rfl hearlier
          obtain rfl := Option.some.inj (hb.symm.trans hb')
          exact (Output.bucketOf?_eq_some_iff hsuits.hasDistinctIds segment.name).mpr
            ⟨segment, rfl, hearlier, hmark.symm⟩
      | none =>
          cases hother : output.bucketOf? (after.markOf segment b) with
          | none => rfl
          | some b₀ =>
              obtain ⟨other, hname, hb₀, hmark⟩ :=
                (Output.bucketOf?_eq_some_iff hsuits.hasDistinctIds segment.name).mp hother
              obtain ⟨b', hb', -, hmark'⟩ := hplaced.markOf_eq hbefore hafter rfl hb₀
              obtain rfl := Output.eq_of_markOf_eq hafter.hasDistinctIds hname hb' hb
                (hmark'.trans hmark)
              rw [hb₀] at hearlier
              cases hearlier

/-- A bucket was there before, or the node made it for the row or from the start. -/
theorem Placed.exists_origin (hplaced : n.Placed countColumn row before after step)
    (hbefore : ∀ output, before = some output → n.Suits output) (hafter : n.Suits after)
    {mark : Mark} {b : Bucket Output} (hb : after.bucketOf? mark = some b) :
    (∃ b', (before.bind fun output => output.bucketOf? mark) = some b' ∧ b'.id = b.id ∧
        b'.key = b.key) ∨
      ∃ fresh, n.freshAt? row mark = some fresh ∧ fresh.id = b.id ∧ fresh.key = b.key := by
  have hpreset (hmark : ∀ id, mark ≠ .named id) :
      ∃ fresh, n.freshAt? row mark = some fresh ∧ fresh.id = b.id ∧ fresh.key = b.key := by
    obtain ⟨fresh, hfresh, hid, hkey⟩ := hafter.preset mark b hmark hb
    refine ⟨fresh, ?_, hid, hkey⟩
    cases mark with
    | named id => exact absurd rfl (hmark id)
    | placed i => exact hfresh
    | only => exact hfresh
  cases mark with
  | placed i => exact Or.inr (hpreset (by simp))
  | only => exact Or.inr (hpreset (by simp))
  | named id =>
      obtain ⟨segment, -, hat, hmark⟩ :=
        (Output.bucketOf?_eq_some_iff hafter.hasDistinctIds n.name).mp hb
      have hvalue : n.aggregation.isValueGroup = true := by
        rw [← hafter.ordered]
        cases segment with
        | bucket name i =>
            by_contra hplain
            simp [Output.markOf, hplain] at hmark
        | single name => cases hmark
      have hid : b.id = id := by
        cases segment with
        | bucket name i => simpa [Output.markOf, hafter.ordered, hvalue] using hmark
        | single name => cases hmark
      rcases hplaced.origin hvalue segment b hat with hearlier | ⟨fresh, hfresh, hsame, hkey⟩
      · rw [← hmark, hplaced.bucketOf?_before hbefore hafter hat]
        exact Or.inl hearlier
      · refine Or.inr ⟨fresh, ?_, hsame, hkey⟩
        simp [freshAt?, hfresh, Option.filter, hsame, hid]

/-- The buckets after a row was placed: those from before, and those that the node makes for the row
or from the start. -/
theorem Placed.isSome_bucketOf? (hplaced : n.Placed countColumn row before after step)
    (hbefore : ∀ output, before = some output → n.Suits output) (hafter : n.Suits after)
    (mark : Mark) :
    (after.bucketOf? mark).isSome = true ↔
      (before.bind fun output => output.bucketOf? mark).isSome = true ∨
        (n.freshAt? row mark).isSome = true := by
  constructor
  · intro h
    obtain ⟨b, hb⟩ := Option.isSome_iff_exists.mp h
    rcases hplaced.exists_origin hbefore hafter hb with ⟨b', hb', -⟩ | ⟨fresh, hfresh, -⟩
    · exact Or.inl (Option.isSome_iff_exists.mpr ⟨b', hb'⟩)
    · exact Or.inr (Option.isSome_iff_exists.mpr ⟨fresh, hfresh⟩)
  · rintro (h | h)
    · obtain ⟨b, hb⟩ := Option.isSome_iff_exists.mp h
      obtain ⟨output, houtput, hb⟩ := Option.bind_eq_some_iff.mp hb
      obtain ⟨segment, -, hat, rfl⟩ := (Output.bucketOf?_eq_some_iff
        (hbefore output houtput).hasDistinctIds n.name).mp hb
      obtain ⟨b', hb', -, hmark⟩ := hplaced.markOf_eq hbefore hafter houtput hat
      rw [Option.isSome_iff_exists]
      exact ⟨b', (Output.bucketOf?_eq_some_iff hafter.hasDistinctIds segment.name).mpr
        ⟨segment, rfl, hb', hmark⟩⟩
    · exact hplaced.isSome_bucketOf?_of_fresh hafter h

/-- A node that places a row counts its documents under the marks that the row gives. -/
theorem Placed.docs_bucketOf? (hplaced : n.Placed countColumn row before after step)
    (hbefore : ∀ output, before = some output → n.Suits output) (hafter : n.Suits after)
    (hlabelled : n.IsLabelled) (mark : Mark) :
    ((after.bucketOf? mark).map Bucket.docCount).getD 0 =
      ((before.bind fun output => output.bucketOf? mark).map Bucket.docCount).getD 0 +
        if n.gives row mark then row.count countColumn else 0 := by
  have hiff := hplaced.isSome_bucketOf? hbefore hafter mark
  cases hb : after.bucketOf? mark with
  | none =>
      rw [hb] at hiff
      have hearlier : (before.bind fun output => output.bucketOf? mark) = none := by
        rw [← Option.not_isSome_iff_eq_none]
        intro hsome
        simpa using hiff.mpr (Or.inl hsome)
      have hnot : n.gives row mark ≠ true := by
        intro hgives
        simpa using hiff.mpr (Or.inr (isSome_freshAt?_of_gives hlabelled hgives))
      rw [hearlier, if_neg hnot]
      rfl
  | some b =>
      obtain ⟨segment, hname, hat, hmark⟩ :=
        (Output.bucketOf?_eq_some_iff hafter.hasDistinctIds n.name).mp hb
      rw [Option.map_some, Option.getD_some, hplaced.docs segment b hname hat, Output.docsAt,
        ← hplaced.bucketOf?_before hbefore hafter hat, hits_eq_gives hafter hat, hmark]

/-- Where the row goes on. -/
theorem Placed.goesTo?_eq (hplaced : n.Placed countColumn row before after step)
    (hafter : n.Suits after) :
    (∀ segment, step = .descend segment → segment.name = n.name ∧
      ∃ b, after.bucketAt? segment = some b ∧
        n.goesTo? row = some (after.markOf segment b)) ∧
    ((∀ segment, step ≠ .descend segment) → n.goesTo? row = none) := by
  constructor
  · intro segment hstep
    obtain ⟨hname, b, hb, henters⟩ := (hplaced.step segment).mp hstep
    exact ⟨hname, b, hb, goesTo?_of_enters hafter hb henters⟩
  · intro hnone
    cases hgoes : n.goesTo? row with
    | none => rfl
    | some mark =>
        obtain ⟨segment, id, hhits⟩ := exists_hits_of_gives (gives_of_goesTo? hgoes)
        obtain ⟨next, hnext⟩ := hplaced.goesOn segment id hhits
        exact absurd hnext (hnone next)

end

end Node
end Rollup
