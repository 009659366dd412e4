/-
# Responses that are written whole

A finished response is written whole unless two things share a name: two buckets of a list that is
written under identities, or an output inside a bucket and a field that the bucket shows of itself.
Nothing else can share one, since a level has one output for each name and the own fields of a
bucket differ. So all depends on what the request calls its aggregations and its ranges.
-/

import Rollup.Proofs.Forest.Bodies
import Rollup.Proofs.Response.Dressed
import Rollup.Proofs.Response.Listing
import Rollup.Proofs.Response.Names

namespace Rollup

/-! ## Names that are shared -/

/-- Whether buckets written under identities have different ones, and no output inside a bucket goes
by the name of something that the bucket shows of itself. -/
structure Output.KeepsApart (output : Output) : Prop where
  ids : output.showsKeys = false → (output.members.map Bucket.id).Nodup
  names : ∀ b ∈ output.members,
    ((b.own output.showsKeys).map Prod.fst).Disjoint (b.inner.map Prod.fst)

/-- Whether no aggregation goes by a name that the buckets around it show of themselves, and ranges
written under their keys have different ones. -/
structure Forest.HasClearNames (forest : Forest) : Prop where
  inner : ∀ n ∈ forest, n.isQuery = false → ∀ i above, n.parent = some i →
    forest[i]? = some above → ∀ names ∈ above.aggregation.ownNames, n.name ∉ names
  ranges : ∀ n ∈ forest, ∀ r, n.aggregation = .ranges r → r.keyed = true →
    (r.specs.map RangeSpec.key).Nodup

/-- The level inside a bucket stands at the end of a path. -/
theorem Level.exists_levelAt?_of_mem {root : Level} {path : Path} {name : String} {output : Output}
    (houtput : root.outputAt? path name = some output) {b : Bucket Output}
    (hb : b ∈ output.members) :
    ∃ segment : Segment, segment.name = name ∧
      levelAt? (path ++ [segment]) root = some b.inner := by
  obtain ⟨segment, rfl, hat⟩ := Output.exists_bucketAt?_of_mem hb name
  refine ⟨segment, rfl, ?_⟩
  rw [levelAt?_concat, houtput, Option.bind_some, hat]
  rfl

/-- The buckets that a node makes from the start have different identities, unless ranges are
written under keys that they share. -/
theorem Node.nodup_initial {n : Node} (hlabels : n.aggregation.HasDistinctLabels)
    (hranges : ∀ r, n.aggregation = .ranges r → r.keyed = true →
      (r.specs.map RangeSpec.key).Nodup)
    (hshows : (n.initial none).showsKeys = false) :
    ((n.initial none).members.map Bucket.id).Nodup := by
  cases haggregation : n.aggregation with
  | ranges r =>
      rw [initial_ranges haggregation] at hshows ⊢
      have hids : r.buckets.map Bucket.id = r.specs.map RangeSpec.key := by
        unfold Ranges.buckets
        rw [List.map_map]
        rfl
      cases hkeyed : r.keyed with
      | false => simp [hkeyed, Output.showsKeys, BucketList.preset] at hshows
      | true => exact hids ▸ hranges r haggregation hkeyed
  | leg l =>
      rw [initial_leg haggregation] at hshows ⊢
      have hids : l.buckets.map Bucket.id = l.labels := by
        unfold Leg.buckets
        rw [List.map_map]
        exact List.map_id _
      cases hshape : l.shape with
      | single => exact List.nodup_singleton _
      | named => exact hids ▸ hlabels l haggregation hshape
      | anonymous => simp [hshape, Output.showsKeys, BucketList.preset] at hshows
  | _ =>
      rw [initial, haggregation]
      exact List.nodup_nil

namespace Forest.Dresses

variable {forest : Forest} {root : Level}

/-- In a dressed response no object is given a name twice but where two things share a name. -/
theorem hasClearNames_iff (h : forest.Dresses root) : root.HasClearNames ↔
    ∀ path name output, root.outputAt? path name = some output → output.KeepsApart := by
  constructor
  · rintro ⟨-, houtputs⟩ path name output houtput
    obtain ⟨hids, hnames⟩ := houtputs path name output houtput
    exact ⟨hids, fun b hb => (List.nodup_append'.mp (hnames b hb)).2.2⟩
  · intro happart
    refine ⟨h.distinct, fun path name output houtput => ?_⟩
    obtain ⟨hids, hnames⟩ := happart path name output houtput
    obtain ⟨n, -, -, -, -, hdressed⟩ := h.outputs path name output houtput
    refine ⟨hids, fun b hb => List.nodup_append'.mpr ⟨?_, ?_, hnames b hb⟩⟩
    · exact Aggregation.nodup_of_mem_ownNames (hdressed.own b hb)
    · obtain ⟨segment, -, hlevel⟩ := Level.exists_levelAt?_of_mem houtput hb
      exact h.distinct _ _ hlevel

/-- Where the aggregations and the ranges have clear names, nothing shares a name. -/
theorem keepsApart (h : forest.Dresses root) (hlaid : forest.IsLaidOut)
    (hlabels : ∀ n ∈ forest, n.aggregation.HasDistinctLabels) (hclear : forest.HasClearNames)
    {path : Path} {name : String} {output : Output}
    (houtput : root.outputAt? path name = some output) : output.KeepsApart := by
  obtain ⟨n, hn, hquery, rfl, hparent, hdressed⟩ := h.outputs path name output houtput
  refine ⟨fun hshows => hdressed.ids hshows ?_, fun b hb inside hown hinner => ?_⟩
  · rw [hdressed.showsKeys] at hshows
    exact n.nodup_initial (hlabels n hn) (hclear.ranges n hn) hshows
  · obtain ⟨segment, hsegment, hlevel⟩ := Level.exists_levelAt?_of_mem houtput hb
    rw [← Level.isSome_get?_iff] at hinner
    obtain ⟨below, hbelow⟩ := Option.isSome_iff_exists.mp hinner
    obtain ⟨m, hm, hmquery, rfl, hmparent, -⟩ := h.outputs (path ++ [segment]) inside below (by
      rw [Level.outputAt?, hlevel]
      exact hbelow)
    -- the parent of what is inside is the first node of the aggregation, which is dressed alike
    rw [parentAt?_concat, hparent, Option.bind_some, hsegment] at hmparent
    obtain ⟨i, hfirst, hi⟩ := Option.map_eq_some_iff.mp hmparent
    obtain ⟨above, habove, haquery, haparent, haname⟩ := first?_spec hfirst
    have hdressedAbove := hlaid.dresses_of_akin hn (List.mem_of_getElem? habove)
      ⟨hquery, haquery, haname.symm, haparent.symm⟩ hdressed
    exact hclear.inner m hm hmquery i above hi.symm habove _ (hdressedAbove.own b hb) hown

end Forest.Dresses

/-! ## Finished responses -/

/-- Finishing an output leaves some of its buckets, each as it shows itself. -/
theorem Output.exists_perm_sublist_finished (output : Output) :
    output.finished.showsKeys = output.showsKeys ∧
      ∃ sorted : List (Bucket Output), sorted.Perm (output.members.map Bucket.finished) ∧
        output.finished.members.Sublist sorted := by
  cases output with
  | buckets list =>
      rw [finished_buckets]
      refine ⟨?_, BucketList.exists_perm_sublist_close
        { list with entries := list.entries.map Bucket.finished }⟩
      unfold BucketList.close
      dsimp only
      split <;> rfl
  | single b =>
      obtain ⟨id, key, attributes, docCount, inner⟩ := b
      exact ⟨rfl, _, .refl _, .refl _⟩
  | metric tally => exact ⟨rfl, _, .refl _, .refl _⟩

theorem Node.Dresses.finished {n : Node} {output : Output} (h : n.Dresses output) :
    n.Dresses output.finished := by
  obtain ⟨hshows, sorted, hperm, hsublist⟩ := output.exists_perm_sublist_finished
  refine ⟨hshows.trans h.showsKeys, fun hkeys hnodup => ?_, fun b hb => ?_⟩
  · have hids : ((output.members.map Bucket.finished).map Bucket.id).Nodup := by
      rw [List.map_map]
      exact h.ids (hshows ▸ hkeys) hnodup
    exact (hsublist.map Bucket.id).nodup (((hperm.map Bucket.id).nodup_iff).mpr hids)
  · obtain ⟨earlier, hearlier, rfl⟩ := List.mem_map.mp (hperm.mem_iff.mp (hsublist.subset hb))
    rw [hshows]
    exact h.own earlier hearlier

theorem map_fst_finishedLevel (level : Level) :
    (finishedLevel level).map Prod.fst = level.map Prod.fst := by
  induction level with
  | nil => rfl
  | cons entry rest ih =>
      obtain ⟨name, output⟩ := entry
      rw [finishedLevel, List.map_cons, List.map_cons, ih]

/-- A response stays dressed when it is finished. -/
theorem Forest.Dresses.finished {forest : Forest} {root : Level} (h : forest.Dresses root) :
    forest.Dresses (finishedLevel root) where
  distinct := by
    intro path level hlevel
    obtain ⟨before, earlier, -, hearlier, rfl⟩ := Level.levelAt?_finished hlevel
    rw [map_fst_finishedLevel]
    exact h.distinct before earlier hearlier
  outputs := by
    intro path name output houtput
    obtain ⟨before, earlier, hnames, hearlier, rfl⟩ := Level.outputAt?_finished houtput
    obtain ⟨n, hn, hquery, hname, hparent, hdressed⟩ := h.outputs before name earlier hearlier
    rw [forest.parentAt?_congr hnames] at hparent
    exact ⟨n, hn, hquery, hname, hparent, hdressed.finished⟩

/-! ## Searches -/

namespace AnsweredSearch

/-- Whatever rows come back, the nodes of the request dress the response. -/
theorem dresses_root (search : AnsweredSearch) : search.forest.Dresses search.response.root := by
  rw [search.root_response]
  refine Part.keeps_foldl search.isLaidOut_forest (fun part hpart => ?_)
    (search.forest.hosts_nil) (search.forest.dresses_nil)
  obtain ⟨source, hsource, rfl⟩ := List.mem_map.mp hpart
  have hrevision := search.isRevision_of_mem_sources hsource
  exact ⟨hrevision, hrevision.keeps_dresses search.isLaidOut_forest⟩

/-- All of a finished response can be read from the answer just when nothing in it shares a name.
So it is when the aggregations and the ranges of the request have clear names, whatever rows come
back. -/
theorem shows_response_iff (search : AnsweredSearch) (tookMillis : Nat) :
    ∃ fields,
      (search.response.toJson tookMillis).field? "aggregations" = some (.object fields) ∧
      (Level.IsShownBy (finishedLevel search.response.root) fields ↔
        ∀ path name output,
          Level.outputAt? (finishedLevel search.response.root) path name = some output →
            output.KeepsApart) ∧
      (search.forest.HasClearNames →
        Level.IsShownBy (finishedLevel search.response.root) fields) := by
  have hdressed := search.dresses_root.finished
  have hlabels :=
    Forest.hasDistinctLabels_of_ofJson search.isAccepted search.hasDistinctKeys
  have hiff := (Level.isShownBy_ofEntries_iff (finishedLevel search.response.root)).trans
    hdressed.hasClearNames_iff
  refine ⟨_, rfl, hiff, fun hclear => hiff.mpr fun path name output houtput => ?_⟩
  exact hdressed.keepsApart search.isLaidOut_forest hlabels hclear houtput

/-! ## Two ranges written under their keys -/

/-- The key of the range from one on, which the range below one may have as well. -/
def upperKey (shared : Bool) : String := if shared then "a" else "b"

def halvesBody (shared : Bool) : Json :=
  .object [("field", .string "x"), ("keyed", .bool true),
    ("ranges", .array [.object [("key", .string "a"), ("to", .ofInt 1)],
      .object [("key", .string (upperKey shared)), ("from", .ofInt 1)]])]

/-- A request for what is below one and what is not. -/
def halvesRequest (shared : Bool) : Json :=
  .object [("aggs", .object [("r", .object [("range", halvesBody shared)])])]

def halvesRanges (shared : Bool) : Ranges :=
  ⟨"x", [⟨"a", none, some 1⟩, ⟨upperKey shared, some 1, none⟩], true, false⟩

/-- The aggregation as it is read. -/
def halvesForest (shared : Bool) : Forest :=
  [Node.new "r" none 0 false (.ranges (halvesRanges shared))]

theorem ofJson_halvesRequest (shared : Bool) :
    Forest.ofJson default (halvesRequest shared) = .ok (halvesForest shared) := by
  have hbody : Ranges.ofJson "r" (halvesBody shared) = .ok (halvesRanges shared) :=
    Request.eq_ok_of_toOption (by cases shared <;> decide +kernel)
  have hkind : Aggregation.ofKind default "r" "range" (halvesBody shared) =
      .ok (.ranges (halvesRanges shared)) := by
    simp only [Aggregation.ofKind, hbody]
    rfl
  rw [Forest.ofJson, halvesRequest,
    Request.ofJson_alone (Request.readBranch_alone rfl (by decide) hkind)]
  rfl

def halvesTable : Table := ⟨"t", [("x", true)]⟩

/-- Three documents below one and four from one on. -/
def halvesRows : List Fields :=
  [[("al1", .ofInt 0), ("cnt", .ofInt 3)], [("al1", .ofInt 1), ("cnt", .ofInt 4)]]

/-- A search for both ranges that brings back a row of each. -/
def halvesSearch (shared : Bool) : AnsweredSearch where
  now := default
  request := halvesRequest shared
  tables := [halvesTable]
  settings := .standard
  forest := halvesForest shared
  answers := [(TablePlan.ofForest (halvesForest shared) halvesTable false ["x"] .standard,
    ⟨halvesRows, 0⟩)]
  isAccepted := ofJson_halvesRequest shared
  hasDistinctKeys := by cases shared <;> decide +kernel
  isComplete := rfl

/-- Under keys that differ, both ranges can be read from the answer. -/
theorem halvesSearch_shows_ranges : ∃ fields,
    ((halvesSearch false).response.toJson 0).field? "aggregations" = some (.object fields) ∧
      Level.IsShownBy (finishedLevel (halvesSearch false).response.root) fields := by
  obtain ⟨fields, hfields, -, hshown⟩ := shows_response_iff (halvesSearch false) 0
  refine ⟨fields, hfields, hshown ⟨fun n hn _ i above hparent => ?_, fun n hn r hr _ => ?_⟩⟩
  · obtain rfl := List.mem_singleton.mp hn
    cases hparent
  · obtain rfl := List.mem_singleton.mp hn
    obtain rfl := Aggregation.ranges.inj hr
    decide

/-- Under a key that they share, one range is written over the other: the tree has a bucket with
three documents and one with four, and the answer cannot show both. -/
theorem halvesSearch_loses_range : ∃ fields,
    ((halvesSearch true).response.toJson 0).field? "aggregations" = some (.object fields) ∧
      ((Level.outputAt? (finishedLevel (halvesSearch true).response.root) [] "r").map fun output =>
        output.members.map fun b => (b.id, b.docCount)) = some [("a", 3), ("a", 4)] ∧
      ¬ Level.IsShownBy (finishedLevel (halvesSearch true).response.root) fields := by
  have hbuckets :
      ((Level.outputAt? (finishedLevel (halvesSearch true).response.root) [] "r").map fun output =>
        (output.showsKeys, output.members.map fun b => (b.id, b.docCount))) =
          some (false, [("a", 3), ("a", 4)]) := by decide +kernel
  obtain ⟨output, houtput, hmembers⟩ := Option.map_eq_some_iff.mp hbuckets
  obtain ⟨hshows, hmembers⟩ := Prod.mk.inj hmembers
  refine ⟨_, rfl, by rw [houtput, Option.map_some, hmembers], fun hshown => ?_⟩
  have hnodup := (((Level.isShownBy_ofEntries_iff _).mp hshown).outputs _ _ _ houtput).ids hshows
  have hids : output.members.map Bucket.id = ["a", "a"] := by
    have := congrArg (List.map Prod.fst) hmembers
    rwa [List.map_map] at this
  rw [hids] at hnodup
  exact absurd hnodup (by decide)

end AnsweredSearch
end Rollup
