/-
# Positions that stay valid

A path into a response names buckets by their positions, and a list finds a bucket by an index of
the identities that is kept beside it. Lists grow at every level while rows are placed, and paths are
followed after that. So a bucket has to be entered in the index whenever it is created, and a
position that was given out once has to be that of the same bucket ever after. Both hold for any
nodes and any rows, placed at any paths.
-/

import Rollup.Proofs.Response.Growth
import Rollup.Proofs.Response.Parts

namespace Rollup

/-! ## Placements -/

/-- A node that places a row at the end of a path. -/
structure Placement where
  path : Path
  node : Node
  countColumn : String
  /-- The name of the metric that the node orders its buckets by. -/
  metricName : Option String
  row : Row

theorem Output.setInner_self {output : Output} {segment : Segment} {b : Bucket Output}
    (h : output.bucketAt? segment = some b) : output.setInner segment b.inner = output := by
  cases output with
  | buckets list =>
      cases segment with
      | bucket name i =>
          have hentries : (list.entries.modify i fun other => { other with inner := b.inner }) =
              list.entries := by
            apply List.ext_getElem?
            intro j
            rw [List.getElem?_modify]
            by_cases hij : i = j
            · subst hij
              have hb : list.entries[i]? = some b := h
              simp [hb]
            · simp [hij]
          rw [setInner, BucketList.modify, hentries]
      | single name => rfl
  | single other =>
      cases segment with
      | bucket name i => rfl
      | single name =>
          obtain rfl := Option.some.inj h
          rfl
  | metric tally => cases segment <;> rfl

/-- Lists that differ in what is inside their buckets at most have the same identities. -/
theorem Output.exists_list_of_bare_eq {output : Output} {list : BucketList Output}
    (h : output.bare = (buckets list).bare) :
    ∃ found, output = buckets found ∧
      list.entries.map Bucket.id = found.entries.map Bucket.id := by
  cases output with
  | buckets found =>
      simp only [bare, buckets.injEq, BucketList.mk.injEq] at h
      have hids := congrArg (List.map Bucket.id) h.2.2.2
      rw [List.map_map, List.map_map] at hids
      exact ⟨found, rfl, hids.symm⟩
  | single b => cases h
  | metric tally => cases h

/-- Acting on a level that stays as it is leaves the response as it is. -/
theorem Level.atPath_eq_self {β : Type} {act : Level → β × Level}
    (hact : ∀ level, (act level).2 = level) {path : Path} {root : Level} {result : β × Level}
    (h : atPath act path root = some result) : result.2 = root := by
  induction path generalizing root result with
  | nil => exact Option.some.inj h ▸ hact root
  | cons segment path ih =>
      rw [atPath_cons] at h
      obtain ⟨output, houtput, h⟩ := Option.bind_eq_some_iff.mp h
      obtain ⟨b, hb, h⟩ := Option.bind_eq_some_iff.mp h
      obtain ⟨inner, hinner, rfl⟩ := Option.map_eq_some_iff.mp h
      dsimp only
      rw [ih hinner, Output.setInner_self hb, set_eq_self houtput]

/-- Acting at the end of a path that leads somewhere has a result. -/
theorem Level.exists_atPath {β : Type} (act : Level → β × Level) {path : Path} {root level : Level}
    (h : levelAt? path root = some level) :
    ∃ after, atPath act path root = some ((act level).1, after) := by
  induction path generalizing root with
  | nil =>
      obtain rfl := Option.some.inj h
      exact ⟨_, rfl⟩
  | cons segment path ih =>
      obtain ⟨b, hb, h⟩ := Option.bind_eq_some_iff.mp h
      obtain ⟨output, houtput, hb⟩ := Option.bind_eq_some_iff.mp hb
      obtain ⟨inner, hinner⟩ := ih h
      rw [atPath_cons, houtput, Option.bind_some, hb, Option.bind_some, hinner]
      exact ⟨_, rfl⟩

/-- A path to an output leads somewhere. -/
theorem Level.isSome_levelAt?_of_outputAt? {root : Level} {path : Path} {name : String}
    {output : Output} (h : root.outputAt? path name = some output) :
    (levelAt? path root).isSome = true := by
  obtain ⟨level, hlevel, -⟩ := Option.bind_eq_some_iff.mp h
  rw [hlevel]
  rfl

/-- How many buckets a node makes from the start does not depend on what they are ordered by. -/
theorem Node.length_initial {n : Node} (hquery : n.isQuery = false) (metricName : Option String) :
    (Output.entriesOf (some (n.initial metricName))).length =
      (Output.entriesOf (some (n.initial none))).length := by
  cases hvalue : n.aggregation.isValueGroup with
  | true => rw [initial_value hvalue, initial_value hvalue]; rfl
  | false => rw [initial_other hvalue hquery]

theorem Node.isQuery_of_isValueGroup {n : Node} (h : n.aggregation.isValueGroup = true) :
    n.isQuery = false := by
  cases haggregation : n.aggregation <;>
    simp_all [isQuery, Aggregation.isQuery, Aggregation.query?, Aggregation.isValueGroup,
      Aggregation.isHistogram, Aggregation.terms?]

theorem Node.isQuery_of_valueBucket? {n : Node} {row : Row} {bucket : Bucket Output}
    (h : n.valueBucket? row = some bucket) : n.isQuery = false :=
  isQuery_of_isValueGroup (isValueGroup_of_valueBucket? h)

/-- The query does nothing to an output. -/
theorem Node.acts_of_query {n : Node} {row : Row} {output : Output} (h : n.isQuery = true) :
    n.Acts row output output .stay := by
  refine acts_of_counts (.inl ?_) .refl fun _ hstep => nomatch hstep
  cases hbucket : n.valueBucket? row with
  | none => rfl
  | some bucket => cases h.symm.trans (isQuery_of_valueBucket? hbucket)

namespace Placement

/-- What the node does with the row, and what it leaves of the response; nothing when the path leads
nowhere. -/
def run? (p : Placement) (root : Level) : Option (Step × Level) :=
  Level.atPath (p.node.place p.countColumn p.metricName p.row) p.path root

/-- What the node does with the row. -/
def step? (p : Placement) (root : Level) : Option Step := (p.run? root).map Prod.fst

/-- The output that the node acts on: the one that is there, or the one that it creates. -/
def target (p : Placement) (root : Level) : Output :=
  (root.outputAt? p.path p.node.name).getD (p.node.initial p.metricName)

variable {p : Placement} {root after : Level} {step : Step}

/-- All that a placement does to a response. -/
theorem run?_cases (h : p.run? root = some (step, after)) :
    (p.node.isQuery = true ∧ step = .stay ∧ after = root) ∨
      p.node.isQuery = false ∧ ∃ output, root.IsWrite after p.path p.node.name output ∧
        p.node.Acts p.row (p.target root) output step := by
  obtain ⟨level, hlevel, hstep, -⟩ := Level.exists_of_atPath h
  dsimp only at hstep
  have houtput : root.outputAt? p.path p.node.name = level.get? p.node.name := by
    rw [Level.outputAt?, hlevel, Option.bind_some]
  cases hquery : p.node.isQuery with
  | true =>
      obtain ⟨q, hq⟩ : ∃ q, p.node.aggregation = .query q := by
        cases haggregation : p.node.aggregation <;>
          simp_all [Node.isQuery, Aggregation.isQuery, Aggregation.query?]
      have hplace (level : Level) :
          p.node.place p.countColumn p.metricName p.row level = (.stay, level) := by
        simp only [Node.place, hq]
      refine Or.inl ⟨rfl, ?_, ?_⟩
      · rw [hstep, hplace]
      · exact Level.atPath_eq_self (fun level => by rw [hplace]) h
  | false =>
      obtain ⟨output, hget, hacts⟩ :=
        Node.place_acts hquery p.countColumn p.metricName p.row level
      rw [← houtput] at hacts
      obtain ⟨written, hrun, hwrite⟩ :=
        Level.atPath_isWrite _ p.path root hlevel hget (houtput ▸ hacts.keepsInner)
      obtain ⟨rfl, rfl⟩ := Prod.mk.inj (Option.some.inj (hrun.symm.trans h))
      exact Or.inr ⟨rfl, output, hwrite, hacts⟩

theorem isSome_run? (h : (Level.levelAt? p.path root).isSome = true) :
    ∃ step after, p.run? root = some (step, after) := by
  obtain ⟨level, hlevel⟩ := Option.isSome_iff_exists.mp h
  obtain ⟨after, hafter⟩ := Level.exists_atPath
    (p.node.place p.countColumn p.metricName p.row) hlevel
  exact ⟨_, after, hafter⟩

/-- A row that asks a list for a bucket which is there goes on in it. -/
theorem step?_of_positionOf? {list : BucketList Output} {bucket : Bucket Output} {i : Nat}
    (hlist : root.outputAt? p.path p.node.name = some (.buckets list))
    (hbucket : p.node.valueBucket? p.row = some bucket)
    (hposition : list.positionOf? bucket.id = some i) :
    p.step? root = some (.descend (.bucket p.node.name i)) := by
  have htarget : p.target root = .buckets list := by
    rw [target, hlist]
    rfl
  obtain ⟨step, after, hrun⟩ := isSome_run? (Level.isSome_levelAt?_of_outputAt? hlist)
  rcases run?_cases hrun with ⟨hquery, -, -⟩ | ⟨-, output, -, hacts⟩
  · cases hquery.symm.trans (Node.isQuery_of_valueBucket? hbucket)
  · rw [step?, hrun, hacts.finds list bucket htarget hbucket,
      BucketList.fst_findOrInsert hposition]
    rfl

/-- What is there grows. -/
theorem grows_of_run? (h : p.run? root = some (step, after)) : root.Grows after := by
  rcases run?_cases h with ⟨-, -, rfl⟩ | ⟨-, output, hwrite, hacts⟩
  · exact .refl _
  · refine hwrite.grows_of fun before hbefore => ?_
    have hgrows := hacts.grows
    rwa [target, hbefore] at hgrows

end Placement

/-! ## Responses with their indices -/

/-- A response under construction, with the index that each of its lists keeps. -/
structure IndexedResponse where
  root : Level
  /-- The index of the list with a name at the end of a path. -/
  indexAt : Path → String → PositionIndex

namespace IndexedResponse

/-- A response without outputs. -/
def empty : IndexedResponse := ⟨[], fun _ _ => ∅⟩

/-- The index of the list that a node acts on: the one that is kept, or that of the buckets which a
list starts with that the node creates. -/
def indexOf (s : IndexedResponse) (p : Placement) (list : BucketList Output) : PositionIndex :=
  if (s.root.outputAt? p.path p.node.name).isSome then s.indexAt p.path p.node.name
  else .ofBuckets list.entries

/-- The same index afterwards: the bucket of the row, if the node makes one, is found by the index
or entered. -/
def indexAfter (s : IndexedResponse) (p : Placement) : PositionIndex :=
  match p.target s.root, p.node.valueBucket? p.row with
  | .buckets list, some bucket =>
      ((s.indexOf p list).findOrEnter bucket.id list.entries.length).2
  | .buckets list, none => s.indexOf p list
  | _, _ => s.indexAt p.path p.node.name

/-- A node places a row; nothing happens when the path leads nowhere. -/
def place (s : IndexedResponse) (p : Placement) : IndexedResponse :=
  match p.run? s.root with
  | some (_, root) =>
      { root
        indexAt := fun path name =>
          if path = p.path ∧ name = p.node.name then s.indexAfter p else s.indexAt path name }
  | none => s

/-- What is left of placements one after the other, with no response to begin with. -/
def run (placements : List Placement) : IndexedResponse := placements.foldl place empty

/-- Whether every index describes its list, and no two buckets share an identity in a list that is
put in order in the end, as those are that nodes of values and intervals create. -/
structure IsSound (s : IndexedResponse) : Prop where
  describes : ∀ path name list, s.root.outputAt? path name = some (.buckets list) →
    (s.indexAt path name).Describes list
  distinct : s.root.HasDistinctIds

variable {s : IndexedResponse} {p : Placement}

theorem isSound_empty : empty.IsSound where
  describes := by
    intro path name list hlist
    rw [empty, Level.outputAt?_empty] at hlist
    cases hlist
  distinct := Level.hasDistinctIds_nil

/-- What a node starts from has different identities, if it is put in order. -/
theorem hasDistinctIds_target (hdistinct : s.root.HasDistinctIds)
    (hquery : p.node.isQuery = false) : (p.target s.root).HasDistinctIds := by
  unfold Placement.target
  cases houtput : s.root.outputAt? p.path p.node.name with
  | none => exact (Node.suits_initial hquery p.metricName).hasDistinctIds
  | some output => exact hdistinct _ _ output houtput

theorem IsSound.describes_indexOf (h : s.IsSound) {list : BucketList Output}
    (htarget : p.target s.root = .buckets list) : (s.indexOf p list).Describes list := by
  unfold Placement.target at htarget
  unfold indexOf
  cases houtput : s.root.outputAt? p.path p.node.name with
  | none => exact PositionIndex.describes_ofBuckets list
  | some output =>
      rw [houtput] at htarget
      exact h.describes _ _ list (houtput.trans (congrArg some htarget))

/-- The index of the list that a node acts on describes what the node makes of it. -/
theorem IsSound.describes_indexAfter (h : s.IsSound) {step : Step} {list : BucketList Output}
    (hacts : p.node.Acts p.row (p.target s.root) (.buckets list) step) :
    (s.indexAfter p).Describes list := by
  obtain ⟨found, htarget⟩ := hacts.grows.exists_of_buckets
  have hfound := h.describes_indexOf htarget
  unfold indexAfter
  rw [htarget] at hacts ⊢
  cases hbucket : p.node.valueBucket? p.row with
  | none =>
      obtain ⟨other, hother, hids⟩ := hacts.exists_list (by rw [hbucket, Output.including_none])
      obtain rfl := Output.buckets.inj hother
      exact hfound.congr hids
  | some bucket =>
      obtain ⟨other, hother, hids⟩ := hacts.exists_list (by rw [hbucket]; rfl)
      obtain rfl := Output.buckets.inj hother
      exact (hfound.findOrInsert bucket).2.congr hids

/-- Placing a row keeps every index in step with its list. -/
theorem IsSound.place (h : s.IsSound) (p : Placement) : (s.place p).IsSound := by
  unfold IndexedResponse.place
  cases hrun : p.run? s.root with
  | none => exact h
  | some result =>
      obtain ⟨step, after⟩ := result
      rcases Placement.run?_cases hrun with ⟨hquery, -, rfl⟩ | ⟨hquery, output, hwrite, hacts⟩
      · refine ⟨fun path name list hlist => ?_, h.distinct⟩
        dsimp only at hlist ⊢
        by_cases hat : path = p.path ∧ name = p.node.name
        · rw [if_pos hat]
          obtain ⟨rfl, rfl⟩ := hat
          have htarget : p.target s.root = .buckets list := by
            rw [Placement.target, hlist]
            rfl
          exact h.describes_indexAfter (by rw [htarget]; exact Node.acts_of_query hquery)
        · rw [if_neg hat]
          exact h.describes path name list hlist
      · refine ⟨fun path name list hlist => ?_, hwrite.hasDistinctIds h.distinct
          (hacts.hasDistinctIds (hasDistinctIds_target h.distinct hquery))⟩
        dsimp only at hlist ⊢
        by_cases hat : path = p.path ∧ name = p.node.name
        · rw [if_pos hat]
          obtain ⟨rfl, rfl⟩ := hat
          obtain rfl := Option.some.inj (hwrite.at_path.symm.trans hlist)
          exact h.describes_indexAfter hacts
        · rw [if_neg hat]
          have hbare := hwrite.elsewhere path name hat
          rw [hlist] at hbare
          obtain ⟨found, hfound, heq⟩ := Option.map_eq_some_iff.mp hbare.symm
          obtain ⟨list', rfl, hids⟩ := Output.exists_list_of_bare_eq heq
          exact (h.describes path name list' hfound).congr hids

/-! ## Runs -/

theorem grows_place (s : IndexedResponse) (p : Placement) : s.root.Grows (s.place p).root := by
  unfold IndexedResponse.place
  cases hrun : p.run? s.root with
  | none => exact .refl _
  | some result => exact Placement.grows_of_run? hrun

theorem isSound_run (placements : List Placement) : (run placements).IsSound := by
  unfold run
  have hfold {s : IndexedResponse} (h : s.IsSound) : (placements.foldl place s).IsSound := by
    induction placements generalizing s with
    | nil => exact h
    | cons p rest ih => exact ih (h.place p)
  exact hfold isSound_empty

theorem grows_run (earlier later : List Placement) :
    (run earlier).root.Grows (run (earlier ++ later)).root := by
  unfold run
  rw [List.foldl_append]
  generalize earlier.foldl place empty = s
  induction later generalizing s with
  | nil => exact .refl _
  | cons p rest ih => exact (s.grows_place p).trans (ih (s.place p))

end IndexedResponse

/-- What lasts of a placement: the response that the node finds, the one that it leaves, and the
last one of any that come later. -/
structure Placement.Lasts (p : Placement) (found left last : IndexedResponse) : Prop where
  /-- In a list that is created without buckets no two share an identity, and the index has every
  bucket at its position and nothing else. -/
  created : p.node.aggregation.isValueGroup = true →
    (Level.levelAt? p.path found.root).isSome = true →
    found.root.outputAt? p.path p.node.name = none →
    ∃ list, last.root.outputAt? p.path p.node.name = some (.buckets list) ∧
      (list.entries.map Bucket.id).Nodup ∧
      ∀ id i, (last.indexAt p.path p.node.name)[id]? = some i ↔
        (list.entries[i]?).map Bucket.id = some id
  /-- The bucket that a row asks for is found or inserted at a position, and whoever asks for its
  identity later gets the same position. -/
  finds : ∀ bucket list, p.node.valueBucket? p.row = some bucket →
    left.root.outputAt? p.path p.node.name = some (.buckets list) →
    ∃ i, p.step? found.root = some (.descend (.bucket p.node.name i)) ∧
      (last.indexAt p.path p.node.name)[bucket.id]? = some i ∧
      ∀ again : Placement, again.path = p.path → again.node.name = p.node.name →
        ∀ other, again.node.valueBucket? again.row = some other → other.id = bucket.id →
          again.step? last.root = some (.descend (.bucket p.node.name i))
  /-- Every index finds in its list what a search through the list finds. -/
  describes : ∀ path name list, last.root.outputAt? path name = some (.buckets list) →
    (last.indexAt path name).Describes list
  /-- No bucket is moved, dropped or replaced, and none loses documents. -/
  grows : found.root.Grows last.root
  /-- A step that is given out goes into a bucket, unless the list has been created by other nodes
  and is shorter than that of this one. -/
  leads : p.node.IsLabelled →
    (∀ list, found.root.outputAt? p.path p.node.name = some (.buckets list) →
      (Output.entriesOf (some (p.node.initial none))).length ≤ list.entries.length) →
    ∀ segment, p.step? found.root = some (.descend segment) →
      (left.root.bucketIn? p.path segment).isSome = true
  /-- It goes on going into that bucket. -/
  stays : ∀ segment, p.step? found.root = some (.descend segment) →
    ∀ b, left.root.bucketIn? p.path segment = some b →
      ∃ b', last.root.bucketIn? p.path segment = some b' ∧ b.Grows b' ∧
        Level.Grows b.inner b'.inner

namespace IndexedResponse

variable {s : IndexedResponse} {p : Placement} {last : IndexedResponse}

/-- What a placement that leads somewhere leaves of the output that the node acts on. -/
theorem exists_acts (s : IndexedResponse) (hquery : p.node.isQuery = false)
    (hlevel : (Level.levelAt? p.path s.root).isSome = true) :
    ∃ output step, p.step? s.root = some step ∧
      s.root.IsWrite (s.place p).root p.path p.node.name output ∧
      p.node.Acts p.row (p.target s.root) output step := by
  obtain ⟨step, after, hrun⟩ := Placement.isSome_run? hlevel
  rcases Placement.run?_cases hrun with ⟨htrue, -, -⟩ | ⟨-, output, hwrite, hacts⟩
  · cases hquery.symm.trans htrue
  · refine ⟨output, step, ?_, ?_, hacts⟩
    · rw [Placement.step?, hrun]
      rfl
    · rw [IndexedResponse.place, hrun]
      exact hwrite

/-- A list that is created without buckets stays a list with different identities. -/
theorem exists_created (hvalue : p.node.aggregation.isValueGroup = true)
    (hlevel : (Level.levelAt? p.path s.root).isSome = true)
    (hnone : s.root.outputAt? p.path p.node.name = none) (hlast : last.IsSound)
    (hgrows : (s.place p).root.Grows last.root) :
    ∃ list, last.root.outputAt? p.path p.node.name = some (.buckets list) ∧
      (list.entries.map Bucket.id).Nodup ∧
      ∀ id i, (last.indexAt p.path p.node.name)[id]? = some i ↔
        (list.entries[i]?).map Bucket.id = some id := by
  obtain ⟨output, step, -, hwrite, hacts⟩ :=
    s.exists_acts (Node.isQuery_of_isValueGroup hvalue) hlevel
  have htarget : p.target s.root =
      .buckets (.new .array (p.node.valueFinish p.metricName)) := by
    rw [Placement.target, hnone]
    exact Node.initial_value hvalue p.metricName
  rw [htarget] at hacts
  obtain ⟨created, rfl, hcreated⟩ := hacts.grows.exists_buckets
  obtain ⟨output', hlist, houtput'⟩ := hgrows _ _ _ hwrite.at_path
  obtain ⟨list, rfl, hlater⟩ := houtput'.exists_buckets
  have hordered : list.finish.order.isSome = true := by
    rw [BucketList.finish_eq_of_header (hlater.header.trans hcreated.header)]
    exact Node.isSome_order_valueFinish hvalue p.metricName
  have hnodup := hlast.distinct _ _ _ hlist hordered
  refine ⟨list, hlist, hnodup, fun id i => ?_⟩
  rw [hlast.describes _ _ list hlist id]
  exact BucketList.positionOf?_eq_some_iff hnodup

/-- A path that leads somewhere after a placement at its end led somewhere before. -/
theorem isSome_levelAt?_of_place
    (h : (Level.levelAt? p.path (s.place p).root).isSome = true) :
    (Level.levelAt? p.path s.root).isSome = true := by
  unfold IndexedResponse.place at h
  cases hrun : p.run? s.root with
  | none =>
      rw [hrun] at h
      exact h
  | some result =>
      obtain ⟨level, hlevel, -⟩ := Level.exists_of_atPath hrun
      rw [hlevel]
      rfl

/-- The bucket that a row asks for has one position from then on. -/
theorem exists_position {bucket : Bucket Output} {list : BucketList Output}
    (hbucket : p.node.valueBucket? p.row = some bucket)
    (hlist : (s.place p).root.outputAt? p.path p.node.name = some (.buckets list))
    (hgrows : (s.place p).root.Grows last.root) :
    ∃ i grown, p.step? s.root = some (.descend (.bucket p.node.name i)) ∧
      last.root.outputAt? p.path p.node.name = some (.buckets grown) ∧
      grown.positionOf? bucket.id = some i := by
  have hlevel := isSome_levelAt?_of_place (Level.isSome_levelAt?_of_outputAt? hlist)
  obtain ⟨output, step, hstep, hwrite, hacts⟩ :=
    s.exists_acts (Node.isQuery_of_valueBucket? hbucket) hlevel
  obtain rfl := Option.some.inj (hwrite.at_path.symm.trans hlist)
  obtain ⟨found, htarget⟩ := hacts.grows.exists_of_buckets
  rw [htarget] at hacts
  obtain ⟨other, hother, hids⟩ := hacts.exists_list (by rw [hbucket]; rfl)
  obtain rfl := Output.buckets.inj hother
  obtain ⟨output', hlater, houtput'⟩ := hgrows _ _ _ hlist
  obtain ⟨grown, rfl, hgrown⟩ := houtput'.exists_buckets
  refine ⟨(found.findOrInsert bucket).1, grown, ?_, hlater, hgrown.found _ _ ?_⟩
  · rw [hstep, hacts.finds found bucket rfl hbucket]
  · rw [BucketList.positionOf?_congr hids, BucketList.positionOf?_findOrInsert_self]

/-- A step that is given out goes into a bucket. -/
theorem leads_of_step? (hlabelled : p.node.IsLabelled)
    (hlong : ∀ list, s.root.outputAt? p.path p.node.name = some (.buckets list) →
      (Output.entriesOf (some (p.node.initial none))).length ≤ list.entries.length)
    {segment : Segment} (hstep : p.step? s.root = some (.descend segment)) :
    ((s.place p).root.bucketIn? p.path segment).isSome = true := by
  obtain ⟨⟨step, after⟩, hrun, rfl⟩ := Option.map_eq_some_iff.mp hstep
  rcases Placement.run?_cases hrun with ⟨-, hstay, -⟩ | ⟨hquery, output, hwrite, hacts⟩
  · cases hstay
  · have htarget (list : BucketList Output) (hlist : p.target s.root = .buckets list) :
        (Output.entriesOf (some (p.node.initial none))).length ≤ list.entries.length := by
      unfold Placement.target at hlist
      cases houtput : s.root.outputAt? p.path p.node.name with
      | none =>
          rw [houtput, Option.getD_none] at hlist
          have hlength := Node.length_initial hquery p.metricName
          rw [hlist] at hlength
          exact Nat.le_of_eq hlength.symm
      | some found =>
          rw [houtput] at hlist
          exact hlong list (houtput.trans (congrArg some hlist))
    obtain ⟨hname, hsome⟩ := hacts.leads hlabelled htarget segment rfl
    rw [IndexedResponse.place, hrun]
    rwa [hwrite.bucketIn?_at hname]

/-- Of three rows the last one goes into the bucket of the first one, beside which another one has
been inserted. -/
example :
    let hosts := Node.new "hosts" none 0 false (.terms ⟨"x", 10, 1, Terms.defaultOrder⟩)
    let placement (host : String) : Placement :=
      ⟨[], hosts, "cnt", none, .ofCells [("x", .string host), ("cnt", .ofInt 1)] .engine⟩
    (placement "a").step? (run [placement "a", placement "b"]).root =
      some (.descend (.bucket "hosts" 0)) := by
  decide +kernel

end IndexedResponse

/-! ## Rows that are folded -/

namespace Forest

/-- Whether a response is what one of the nodes leaves of another by placing a row. -/
def PlacesRow (forest : Forest) (root after : Level) : Prop :=
  ∃ p : Placement, p.node ∈ forest ∧ ∃ step, p.run? root = some (step, after)

variable {forest : Forest} {root after : Level}

/-- A row that comes to a node is placed by it or passes it over. -/
theorem reaches_visit (runs : List (List Nat)) (countColumn : String) (row : Row)
    (state : Rollup.Places × Level) {entry : Node × Nat} (h : entry.1 ∈ forest) :
    Relation.ReflTransGen forest.PlacesRow state.2
      (forest.visit runs countColumn row state entry).2 := by
  obtain ⟨places, root⟩ := state
  obtain ⟨node, index⟩ := entry
  unfold visit
  dsimp only
  split
  · exact .refl
  · split
    · exact .refl
    · rename_i base _
      split
      · exact .refl
      · rename_i step after hrun
        exact .single ⟨⟨base, node, countColumn, _, _⟩, h, step, hrun⟩

theorem reaches_foldRows (forest : Forest) (countColumn : String) (root : Level)
    (rows : List Row) :
    Relation.ReflTransGen forest.PlacesRow root (forest.foldRows countColumn root rows) := by
  have hvisits (runs : List (List Nat)) (row : Row) (entries : List (Node × Nat))
      (hentries : ∀ entry ∈ entries, entry.1 ∈ forest) (state : Rollup.Places × Level) :
      Relation.ReflTransGen forest.PlacesRow state.2
        (entries.foldl (forest.visit runs countColumn row) state).2 := by
    induction entries generalizing state with
    | nil => exact .refl
    | cons entry rest ih =>
        exact (reaches_visit runs countColumn row state (hentries entry (by simp))).trans
          (ih (fun other hother => hentries other (by simp [hother])) _)
  unfold foldRows
  dsimp only
  induction rows generalizing root with
  | nil => exact .refl
  | cons row rest ih =>
      refine .trans (hvisits _ row forest.zipIdx (fun entry hentry => ?_) (.nowhere, root)) (ih _)
      exact List.mem_of_getElem? (List.mem_zipIdx_iff_getElem?.mp hentry)

/-- Placing rows one after the other is a run. -/
theorem exists_run_of_reaches {s : IndexedResponse}
    (h : Relation.ReflTransGen forest.PlacesRow s.root after) :
    ∃ placements : List Placement, (∀ p ∈ placements, p.node ∈ forest) ∧
      (placements.foldl IndexedResponse.place s).root = after := by
  induction h with
  | refl => exact ⟨[], by simp, rfl⟩
  | tail _ hlast ih =>
      obtain ⟨placements, hnodes, rfl⟩ := ih
      obtain ⟨p, hp, step, hrun⟩ := hlast
      refine ⟨placements ++ [p], ?_, ?_⟩
      · simpa [or_imp, forall_and] using ⟨hnodes, hp⟩
      · rw [List.foldl_append, List.foldl_cons, List.foldl_nil, IndexedResponse.place, hrun]

end Forest

namespace Part

/-- Whatever rows are folded in for however many tables, the nodes of these have placed rows one
after the other. -/
theorem exists_run_foldl (parts : List Part) :
    ∃ placements : List Placement,
      (∀ p ∈ placements, ∃ part ∈ parts, p.node ∈ part.forest) ∧
      (IndexedResponse.run placements).root = parts.foldl fold [] := by
  have hreaches (nodes : Forest) (hnodes : ∀ part ∈ parts, ∀ n ∈ part.forest, n ∈ nodes)
      (root : Level) : Relation.ReflTransGen nodes.PlacesRow root (parts.foldl fold root) := by
    induction parts generalizing root with
    | nil => exact .refl
    | cons part rest ih =>
        refine .trans ?_ (ih (fun other hother => hnodes other (by simp [hother])) _)
        refine Relation.ReflTransGen.mono ?_ _ _
          (part.forest.reaches_foldRows part.countColumn root part.rows)
        rintro before after ⟨p, hp, hrun⟩
        exact ⟨p, hnodes part (by simp) p.node hp, hrun⟩
  obtain ⟨placements, hnodes, heq⟩ := Forest.exists_run_of_reaches
    (hreaches (parts.flatMap forest)
      (fun part hpart n hn => List.mem_flatMap.mpr ⟨part, hpart, hn⟩) IndexedResponse.empty.root)
  exact ⟨placements, fun p hp => List.mem_flatMap.mp (hnodes p hp), heq⟩

end Part

end Rollup
