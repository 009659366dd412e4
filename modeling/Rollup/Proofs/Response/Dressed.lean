/-
# What outputs are made with

A node makes its output and its buckets with names of their own, and a row that is placed adds
documents, values and buckets to them and no other names. So in every response that is folded from
rows, a level has one output for each of its names, an output is that of an aggregation of the
request, and the buckets of the output show of themselves what the aggregation gives them.
-/

import Rollup.Proofs.Response.Growth
import Rollup.Proofs.Response.Itinerary
import Rollup.Proofs.Response.Rendered

namespace Rollup

/-! ## Names of own fields -/

/-- The names of what the buckets of an aggregation show of themselves. -/
def Aggregation.ownNames : Aggregation → List (List String)
  | terms _ => [["key", "doc_count"]]
  | histogram _ => [["key", "doc_count"]]
  | dateHistogram _ => [["key", "key_as_string", "doc_count"]]
  | ranges r => r.specs.map fun spec =>
      (if r.keyed then [] else ["key"]) ++ (r.attributes spec).map Prod.fst ++ ["doc_count"]
  | leg _ => [["doc_count"]]
  | _ => []

/-- No bucket shows two things of itself under one name. -/
theorem Aggregation.nodup_of_mem_ownNames {a : Aggregation} {names : List String}
    (h : names ∈ a.ownNames) : names.Nodup := by
  cases a with
  | ranges r =>
      obtain ⟨⟨key, low, high⟩, -, rfl⟩ := List.mem_map.mp h
      unfold Ranges.attributes Ranges.boundAttributes
      cases r.keyed <;> cases r.dates <;> cases low <;> cases high <;> simp
  | terms | histogram | dateHistogram | leg =>
      obtain rfl := List.mem_singleton.mp h
      decide
  | metric | query => cases h

namespace Bucket

theorem map_fst_own {α : Type} (showsKey : Bool) (b : Bucket α) :
    (b.own showsKey).map Prod.fst =
      (if showsKey then b.key.toList.map fun _ => "key" else []) ++ b.attributes.map Prod.fst ++
        ["doc_count"] := by
  unfold own
  cases showsKey <;> cases b.key <;> simp

/-- Whether two buckets have one key and the same attributes. -/
def Resembles {α : Type} (b b' : Bucket α) : Prop := b'.key = b.key ∧ b'.attributes = b.attributes

theorem Resembles.map_fst_own {α : Type} {b b' : Bucket α} (h : b.Resembles b')
    (showsKey : Bool) : (b'.own showsKey).map Prod.fst = (b.own showsKey).map Prod.fst := by
  rw [Bucket.map_fst_own, Bucket.map_fst_own, h.1, h.2]

end Bucket

/-! ## Buckets that are kept -/

namespace Output

/-- Whether every bucket of an output is like one that was there or like a fresh one. -/
def Inherits (before : Output) (fresh : Option (Bucket Output)) (after : Output) : Prop :=
  ∀ b ∈ after.members, ∃ b', (b' ∈ before.members ∨ fresh = some b') ∧ b'.Resembles b

variable {before middle after : Output} {fresh : Option (Bucket Output)}

theorem Inherits.refl (output : Output) (fresh : Option (Bucket Output)) :
    output.Inherits fresh output :=
  fun b hb => ⟨b, Or.inl hb, rfl, rfl⟩

theorem Inherits.trans (h : before.Inherits fresh middle) (h' : middle.Inherits none after) :
    before.Inherits fresh after := by
  intro b hb
  obtain ⟨b', hb' | hnone, hkey, hattributes⟩ := h' b hb
  · obtain ⟨b'', hb'', hkey', hattributes'⟩ := h b' hb'
    exact ⟨b'', hb'', hkey.trans hkey', hattributes.trans hattributes'⟩
  · cases hnone

theorem inherits_including (output : Output) (fresh : Option (Bucket Output)) :
    output.Inherits fresh (output.including fresh) := by
  cases output with
  | single b => exact .refl _ _
  | metric tally => exact .refl _ _
  | buckets list =>
      cases fresh with
      | none => exact .refl _ _
      | some bucket =>
          rw [including]
          rcases list.findOrInsert_cases bucket with ⟨i, -, heq⟩ | ⟨-, heq⟩
          · rw [heq]
            exact .refl _ _
          · rw [heq]
            intro b hb
            rcases List.mem_append.mp hb with hlist | hnew
            · exact ⟨b, Or.inl hlist, rfl, rfl⟩
            · obtain rfl := List.mem_singleton.mp hnew
              exact ⟨b, Or.inr rfl, rfl, rfl⟩

/-- Counting documents in changes nothing else of a bucket. -/
theorem Counts.inherits (h : before.Counts after) : before.Inherits none after := by
  cases h with
  | bucket list i docs =>
      intro b hb
      have hentries : b ∈ list.entries.modify i fun b => b.addDocs docs := hb
      obtain ⟨j, hj⟩ := List.getElem?_of_mem hentries
      rw [List.getElem?_modify] at hj
      obtain ⟨b', hb', rfl⟩ := Option.map_eq_some_iff.mp hj
      refine ⟨b', Or.inl (List.mem_of_getElem? hb'), ?_⟩
      split <;> exact ⟨rfl, rfl⟩
  | single bucket docs =>
      intro b hb
      obtain rfl := List.mem_singleton.mp hb
      exact ⟨bucket, Or.inl (List.mem_singleton_self bucket), rfl, rfl⟩
  | measure tally value size => exact fun _ hb => nomatch hb

theorem Frames.showsKeys_eq (h : before.Frames after) : after.showsKeys = before.showsKeys := by
  cases before <;> cases after <;> simp only [Frames] at h
  · rename_i list later
    have hshape : later.shape = list.shape := congrArg Prod.fst h.1
    rw [showsKeys, showsKeys, hshape]
  · rfl
  · rfl

/-- A list that is not put in order keeps the identities of its buckets. -/
theorem Frames.map_id_members (h : before.Frames after) (hplain : before.isOrdered = false) :
    after.members.map Bucket.id = before.members.map Bucket.id := by
  cases before <;> cases after <;> simp only [Frames] at h
  · have hids := congrArg (List.map Prod.fst) (h.2 hplain)
    rwa [List.map_map, List.map_map] at hids
  · exact congrArg (fun id => [id]) h.1
  · rfl

end Output

theorem Level.get?_update_self {β : Type} (level : Level) (name : String) (initial : Output)
    (act : Output → β × Output) : (level.update name initial act).2.get? name =
      some (act ((level.get? name).getD initial)).2 := by
  rw [get?_update, if_pos rfl]

/-! ## What a node gives its buckets -/

namespace Node

variable {n : Node} {countColumn : String} {metricName : Option String} {row : Row} {level : Level}
  {after : Output}

/-- Placing a row adds no bucket but the one that the node makes for the row. -/
theorem place_inherits (hquery : n.isQuery = false)
    (hafter : (n.place countColumn metricName row level).2.get? n.name = some after) :
    ((level.get? n.name).getD (n.initial metricName)).Inherits (n.valueBucket? row) after := by
  obtain ⟨output, hget, hacts⟩ := place_acts hquery countColumn metricName row level
  rw [hget, if_pos rfl] at hafter
  obtain rfl := Option.some.inj hafter
  exact hacts.keeps _ (Output.inherits_including _ _) fun _ _ hcounts hinherits =>
    hinherits.trans hcounts.inherits

/-- Whether the buckets of an output go by identities and show names that a node gives them. -/
structure Dresses (n : Node) (output : Output) : Prop where
  showsKeys : output.showsKeys = (n.initial none).showsKeys
  ids : output.showsKeys = false → ((n.initial none).members.map Bucket.id).Nodup →
    (output.members.map Bucket.id).Nodup
  own : ∀ b ∈ output.members, (b.own output.showsKeys).map Prod.fst ∈ n.aggregation.ownNames

theorem showsKeys_initial_of_value (hvalue : n.aggregation.isValueGroup = true) :
    (n.initial none).showsKeys = true := by
  rw [initial_value hvalue]
  rfl

/-- What a node makes for a row shows what the node gives its buckets. -/
theorem own_of_valueBucket? {b : Bucket Output} (h : n.valueBucket? row = some b) :
    (b.own true).map Prod.fst ∈ n.aggregation.ownNames := by
  rw [Bucket.map_fst_own]
  unfold valueBucket? at h
  cases haggregation : n.aggregation <;> simp only [haggregation, reduceCtorEq] at h
  all_goals
    obtain ⟨value, -, rfl⟩ := Option.map_eq_some_iff.mp h
    exact List.mem_singleton_self _

/-- What a node makes where its output is missing is dressed. -/
theorem dresses_initial (hquery : n.isQuery = false) (metricName : Option String) :
    n.Dresses (n.initial metricName) := by
  by_cases hvalue : n.aggregation.isValueGroup = true
  · rw [initial_value hvalue]
    exact ⟨(showsKeys_initial_of_value hvalue).symm, fun _ _ => List.nodup_nil,
      fun _ hb => nomatch hb⟩
  · rw [initial_other (by simpa using hvalue) hquery]
    refine ⟨rfl, fun _ hnodup => hnodup, fun b hb => ?_⟩
    rw [Bucket.map_fst_own]
    rcases kind_of_other (by simpa using hvalue) hquery with ⟨m, h⟩ | ⟨r, h⟩ | ⟨l, h⟩
    · rw [initial, h] at hb
      cases hb
    · rw [initial_ranges h] at hb ⊢
      rw [h]
      obtain ⟨spec, hspec, rfl⟩ := List.mem_map.mp hb
      refine List.mem_map.mpr ⟨spec, hspec, ?_⟩
      cases r.keyed <;> rfl
    · rw [initial_leg h] at hb ⊢
      rw [h]
      have hleg (shape : ListShape) (hb : b ∈ l.buckets) :
          (if (Output.buckets (.preset shape l.buckets)).showsKeys then
              b.key.toList.map fun _ => "key" else []) ++ b.attributes.map Prod.fst ++
            ["doc_count"] ∈ (Aggregation.leg l).ownNames := by
        obtain ⟨label, -, rfl⟩ := List.mem_map.mp hb
        cases shape <;> exact List.mem_singleton_self _
      cases hshape : l.shape with
      | named => exact hleg .keyed (by rwa [hshape] at hb)
      | anonymous => exact hleg .array (by rwa [hshape] at hb)
      | single =>
          rw [hshape] at hb
          obtain rfl := List.mem_singleton.mp hb
          exact List.mem_singleton_self _

/-- An output stays dressed while a row is placed. -/
theorem Dresses.placed {before : Output} (h : n.Dresses before) (hsuits : n.Suits before)
    (hframes : before.Frames after) (hinherits : before.Inherits (n.valueBucket? row) after) :
    n.Dresses after where
  showsKeys := hframes.showsKeys_eq.trans h.showsKeys
  ids := by
    intro hshows hnodup
    rw [hframes.showsKeys_eq] at hshows
    have hplain : before.isOrdered = false := by
      rw [hsuits.ordered, ← Bool.not_eq_true]
      intro hvalue
      rw [h.showsKeys, showsKeys_initial_of_value hvalue] at hshows
      cases hshows
    rw [hframes.map_id_members hplain]
    exact h.ids hshows hnodup
  own := by
    intro b hb
    obtain ⟨b', hmem | hfresh, hlike⟩ := hinherits b hb
    · rw [hframes.showsKeys_eq, hlike.map_fst_own]
      exact h.own b' hmem
    · have hvalue : n.aggregation.isValueGroup = true := isValueGroup_of_valueBucket? hfresh
      rw [hframes.showsKeys_eq, h.showsKeys, showsKeys_initial_of_value hvalue,
        hlike.map_fst_own]
      exact own_of_valueBucket? hfresh

theorem dresses_bare_iff (n : Node) (output : Output) :
    n.Dresses output.bare ↔ n.Dresses output := by
  have hshows : output.bare.showsKeys = output.showsKeys := by cases output <;> rfl
  have hmembers : output.bare.members = output.members.map Bucket.bare := by cases output <;> rfl
  constructor
  · rintro ⟨hsame, hids, hown⟩
    rw [hshows] at hsame hids hown
    rw [hmembers] at hids hown
    refine ⟨hsame, fun hkeys hnodup => ?_, fun b hb => hown b.bare (List.mem_map_of_mem hb)⟩
    have hnodup := hids hkeys hnodup
    rwa [List.map_map] at hnodup
  · rintro ⟨hsame, hids, hown⟩
    refine ⟨hshows.trans hsame, fun hkeys hnodup => ?_, fun b hb => ?_⟩
    · rw [hmembers, List.map_map]
      exact hids (hshows ▸ hkeys) hnodup
    · rw [hmembers] at hb
      obtain ⟨b', hb', rfl⟩ := List.mem_map.mp hb
      rw [hshows]
      exact hown b' hb'

theorem Dresses.congr {first second : Output} (h : n.Dresses first)
    (hbare : first.bare = second.bare) : n.Dresses second := by
  rw [← dresses_bare_iff, ← hbare, dresses_bare_iff]
  exact h

/-- The legs of one aggregation dress their outputs alike. -/
theorem SharesLegs.dresses {first second : Node} (h : first.SharesLegs second) {output : Output}
    (hdresses : first.Dresses output) : second.Dresses output := by
  obtain ⟨l, l', hl, hl', -⟩ := id h
  have hnames : second.aggregation.ownNames = first.aggregation.ownNames := by
    rw [hl, hl']
    rfl
  refine ⟨?_, ?_, hnames ▸ hdresses.own⟩
  · rw [h.initial_eq]
    exact hdresses.showsKeys
  · rw [h.initial_eq]
    exact hdresses.ids

/-- What is decided about a node does not change how it dresses its output. -/
theorem IsRevision.dresses {first second : Node} (h : first.IsRevision second) {output : Output} :
    second.Dresses output ↔ first.Dresses output := by
  have hinitial : second.initial none = first.initial none := h.initial_eq (.refl first) none
  constructor
  · rintro ⟨hshows, hids, hown⟩
    exact ⟨hinitial ▸ hshows, hinitial ▸ hids, h.aggregation ▸ hown⟩
  · rintro ⟨hshows, hids, hown⟩
    exact ⟨hinitial.symm ▸ hshows, hinitial.symm ▸ hids, h.aggregation.symm ▸ hown⟩

end Node

/-! ## Names of a level -/

namespace Level

/-- Whether no level of a response has two outputs under one name. -/
def HasDistinctNames (root : Level) : Prop :=
  ∀ path level, levelAt? path root = some level → (level.map Prod.fst).Nodup

theorem hasDistinctNames_iff (root : Level) : root.HasDistinctNames ↔
    (root.map Prod.fst).Nodup ∧
      ∀ segment b, root.bucketAt? segment = some b → Level.HasDistinctNames b.inner := by
  constructor
  · intro h
    refine ⟨h [] root rfl, fun segment b hb path level hlevel => h (segment :: path) level ?_⟩
    rw [levelAt?, hb]
    exact hlevel
  · rintro ⟨hroot, hinside⟩ path level hlevel
    cases path with
    | nil => exact Option.some.inj hlevel ▸ hroot
    | cons segment path =>
        obtain ⟨b, hb, hat⟩ := Option.bind_eq_some_iff.mp hlevel
        exact hinside segment b hb path level hat

theorem hasDistinctNames_nil : HasDistinctNames [] := by
  rw [hasDistinctNames_iff]
  exact ⟨List.nodup_nil, fun _ _ hb => nomatch hb⟩

theorem map_fst_set (level : Level) (name : String) (output : Output) :
    (level.set name output).map Prod.fst = level.map Prod.fst := by
  induction level with
  | nil => rfl
  | cons entry rest ih =>
      obtain ⟨key, old⟩ := entry
      rw [set]
      split
      · rfl
      · rw [List.map_cons, List.map_cons, ih]

theorem nodup_ensure {level : Level} (h : (level.map Prod.fst).Nodup) (name : String)
    (initial : Output) : ((level.ensure name initial).map Prod.fst).Nodup := by
  unfold ensure
  split
  · exact h
  · rename_i hnew
    rw [isSome_get?_iff] at hnew
    rw [List.map_append, List.map_cons, List.map_nil, ← List.concat_eq_append]
    exact h.concat hnew

/-- Changing an output of a level, or making it, gives no name twice. -/
theorem HasDistinctNames.set_ensure {level : Level} (h : level.HasDistinctNames) {name : String}
    {initial output : Output} (hinner : KeepsInner (level.get? name) output) :
    ((level.ensure name initial).set name output).HasDistinctNames := by
  rw [hasDistinctNames_iff] at h ⊢
  refine ⟨?_, fun segment b hb => ?_⟩
  · rw [map_fst_set]
    exact nodup_ensure h.1 name initial
  rw [bucketAt?, get?_set, get?_ensure, if_pos rfl] at hb
  split at hb
  · rename_i hname
    cases hearlier : (level.get? name).bind fun output => output.bucketAt? segment with
    | none =>
        rw [hinner.fresh segment b hearlier hb]
        exact hasDistinctNames_nil
    | some b' =>
        obtain ⟨b'', hb'', hsame⟩ := hinner.kept segment b' hearlier
        obtain rfl := Option.some.inj (hb.symm.trans hb'')
        rw [hsame]
        refine h.2 segment b' ?_
        rw [bucketAt?, hname]
        exact hearlier
  · rename_i hname
    rw [get?_ensure, if_neg hname] at hb
    exact h.2 segment b hb

/-- Acting on a level gives no name twice when it does not there. -/
theorem HasDistinctNames.atPath {β : Type} {act : Level → β × Level} {path : Path} {root : Level}
    (h : root.HasDistinctNames) {result : β × Level} (hresult : atPath act path root = some result)
    (hact : ∀ level, levelAt? path root = some level → level.HasDistinctNames →
      (act level).2.HasDistinctNames) : result.2.HasDistinctNames := by
  induction path generalizing root result with
  | nil =>
      obtain rfl := Option.some.inj hresult
      exact hact root rfl h
  | cons segment path ih =>
      rw [atPath_cons] at hresult
      obtain ⟨output, houtput, hresult⟩ := Option.bind_eq_some_iff.mp hresult
      obtain ⟨b, hb, hresult⟩ := Option.bind_eq_some_iff.mp hresult
      obtain ⟨inner, hinner, rfl⟩ := Option.map_eq_some_iff.mp hresult
      have hbucket : root.bucketAt? segment = some b := by
        rw [bucketAt?, houtput]
        exact hb
      rw [hasDistinctNames_iff] at h
      have hinside := ih (h.2 segment b hbucket) hinner fun level hlevel => hact level (by
        rw [levelAt?, hbucket]
        exact hlevel)
      dsimp only
      rw [hasDistinctNames_iff]
      refine ⟨map_fst_set root segment.name _ ▸ h.1, fun other found hfound => ?_⟩
      by_cases hother : other = segment
      · subst hother
        rw [bucketAt?_setInner_self houtput hb] at hfound
        obtain rfl := Option.some.inj hfound
        exact hinside
      · rw [bucketAt?_setInner_of_ne houtput hother] at hfound
        exact h.2 other found hfound

end Level

/-! ## Responses that are dressed -/

namespace Forest

/-- Whether a response is one that the nodes of a forest have dressed. -/
structure Dresses (forest : Forest) (root : Level) : Prop where
  distinct : root.HasDistinctNames
  outputs : ∀ path name output, root.outputAt? path name = some output →
    ∃ n ∈ forest, n.isQuery = false ∧ n.name = name ∧
      forest.parentAt? none path = some n.parent ∧ n.Dresses output

theorem dresses_nil (forest : Forest) : forest.Dresses [] where
  distinct := Level.hasDistinctNames_nil
  outputs := by
    intro path name output houtput
    rw [Level.outputAt?_empty] at houtput
    cases houtput

variable {forest before after : Forest} {root : Level}

/-- What one node of an aggregation dresses all of them do. -/
theorem IsLaidOut.dresses_of_akin (h : forest.IsLaidOut) {n node : Node} (hn : n ∈ forest)
    (hnode : node ∈ forest) (hakin : n.IsAkin node) {output : Output}
    (hdresses : n.Dresses output) : node.Dresses output := by
  obtain ⟨i, hi⟩ := List.getElem?_of_mem hn
  obtain ⟨j, hj⟩ := List.getElem?_of_mem hnode
  by_cases hij : i = j
  · subst hij
    obtain rfl := Option.some.inj (hi.symm.trans hj)
    exact hdresses
  · exact (h.sharesLegs hij hi hj hakin).dresses hdresses

/-- A response stays dressed when a node places a row in it. -/
theorem IsLaidOut.dresses_place (h : forest.IsLaidOut) {j : Nat} {node : Node} {base : Path}
    {countColumn : String} {metricName : Option String} {source : Row} {result : Step × Level}
    (hhosts : forest.Hosts root) (hj : forest[j]? = some node) (hshown : node.isShown = true)
    (hparent : forest.parentAt? none base = some node.parent)
    (hresult : Level.atPath (node.place countColumn metricName source) base root = some result)
    (hdresses : forest.Dresses root) : forest.Dresses result.2 := by
  have hquery := Node.isQuery_of_isShown hshown
  have hmem := List.mem_of_getElem? hj
  obtain ⟨level, hlevel, -, hafter⟩ := Level.exists_of_atPath hresult
  have hat : root.outputAt? base node.name = level.get? node.name := by
    rw [Level.outputAt?, hlevel, Option.bind_some]
  -- the output that is there suits the node, and is dressed as the node dresses it
  have hstart : node.Suits ((level.get? node.name).getD (node.initial metricName)) ∧
      node.Dresses ((level.get? node.name).getD (node.initial metricName)) := by
    cases hfound : level.get? node.name with
    | none => exact ⟨Node.suits_initial hquery metricName, Node.dresses_initial hquery metricName⟩
    | some found =>
        refine ⟨hhosts.suits base node found hmem hquery hparent (hat.trans hfound), ?_⟩
        obtain ⟨n, hn, hnquery, hname, hnparent, hn'⟩ :=
          hdresses.outputs base node.name found (hat.trans hfound)
        exact h.dresses_of_akin hn hmem
          ⟨hnquery, hquery, hname, Option.some.inj (hnparent.symm.trans hparent)⟩ hn'
  obtain ⟨output, hget, hplaced⟩ := Node.place_spec hquery (h.labelled node hmem) countColumn source
    metricName level fun found hfound =>
      (hhosts.suits base node found hmem hquery hparent (hat.trans hfound)).fits
  have hself := (hget node.name).trans (if_pos rfl)
  have hdressed : node.Dresses output := hstart.2.placed hstart.1
    (Node.place_frames hquery metricName hself hstart.1) (Node.place_inherits hquery hself)
  obtain ⟨later, hact, hwrite⟩ := Level.atPath_isWrite _ base root hlevel hget hplaced.inner
  obtain rfl := Option.some.inj (hact.symm.trans hresult)
  refine ⟨hdresses.distinct.atPath hresult fun other hother hdistinct => ?_, ?_⟩
  · obtain rfl := Option.some.inj (hlevel.symm.trans hother)
    obtain ⟨act, hupdate, -⟩ := Node.isUpdate_place hquery countColumn metricName source
    have hkeeps : Level.KeepsInner (level.get? node.name)
        (act ((level.get? node.name).getD (node.initial metricName))).2 := by
      rw [hupdate, Level.get?_update_self] at hself
      exact Option.some.inj hself ▸ hplaced.inner
    rw [hupdate]
    exact hdistinct.set_ensure hkeeps
  · intro path name found hfound
    by_cases hplace : path = base ∧ name = node.name
    · obtain ⟨rfl, rfl⟩ := hplace
      rw [hwrite.at_path] at hfound
      exact ⟨node, hmem, hquery, rfl, hparent, Option.some.inj hfound ▸ hdressed⟩
    · have hbare := hwrite.elsewhere path name hplace
      rw [hfound] at hbare
      obtain ⟨earlier, hearlier, heq⟩ := Option.map_eq_some_iff.mp hbare.symm
      obtain ⟨n, hn, hnquery, hname, hnparent, hdressed⟩ :=
        hdresses.outputs path name earlier hearlier
      exact ⟨n, hn, hnquery, hname, hnparent, hdressed.congr heq⟩

/-- Plans for one request dress a response alike. -/
theorem IsRevision.dresses_iff (hrevision : before.IsRevision after) (root : Level) :
    after.Dresses root ↔ before.Dresses root := by
  constructor
  · rintro ⟨hdistinct, houtputs⟩
    refine ⟨hdistinct, fun path name output houtput => ?_⟩
    obtain ⟨n, hn, hquery, hname, hparent, hdresses⟩ := houtputs path name output houtput
    obtain ⟨i, hi⟩ := List.getElem?_of_mem hn
    obtain ⟨m, hm, hnode⟩ := hrevision.node hi
    refine ⟨m, List.mem_of_getElem? hm, hnode.isQuery.symm.trans hquery,
      hnode.name.symm.trans hname, ?_, hnode.dresses.mp hdresses⟩
    rw [← hrevision.parentAt?_eq, hparent, hnode.parent]
  · rintro ⟨hdistinct, houtputs⟩
    refine ⟨hdistinct, fun path name output houtput => ?_⟩
    obtain ⟨n, hn, hquery, hname, hparent, hdresses⟩ := houtputs path name output houtput
    obtain ⟨i, hi⟩ := List.getElem?_of_mem hn
    obtain ⟨m, hm, hnode⟩ := hrevision.node_after hi
    refine ⟨m, List.mem_of_getElem? hm, hnode.isQuery.trans hquery, hnode.name.trans hname,
      ?_, hnode.dresses.mpr hdresses⟩
    rw [hrevision.parentAt?_eq, hparent, hnode.parent]

/-! ## What folding keeps -/

/-- Whether a property of responses outlasts every node that places a row where it belongs. -/
def Keeps (forest : Forest) (p : Level → Prop) : Prop :=
  ∀ (root : Level) (j : Nat) (node : Node) (base : Path) (countColumn : String)
    (metricName : Option String) (source : Row) (result : Step × Level),
    forest.Hosts root → forest[j]? = some node → node.isShown = true →
    forest.parentAt? none base = some node.parent →
    Level.atPath (node.place countColumn metricName source) base root = some result →
    p root → p result.2

section

variable {p : Level → Prop} {places : Places} {ways : Ways} {countColumn : String} {row : Row}

theorem Keeps.visit (hkeeps : forest.Keeps p) (hhosts : forest.Hosts root)
    (hguides : forest.Guides ways) (hagrees : Agrees root places ways) {j : Nat} {node : Node}
    (hj : forest[j]? = some node) (hroot : p root) :
    p (forest.visit forest.concurrentRuns countColumn row (places, root) (node, j)).2 := by
  unfold Forest.visit
  dsimp only
  split
  · exact hroot
  · rename_i hshown
    have hleads := hagrees.base? node.parent
    cases hbase : places.base? node.parent with
    | none => exact hroot
    | some base =>
        rw [hbase] at hleads
        obtain ⟨trail, htrail, hat⟩ := leads_some_iff.mp hleads
        have hparent : forest.parentAt? none base = some node.parent :=
          (forest.parentAt?_eq_parentOn? hat).trans (hguides.base? htrail)
        dsimp only
        split
        · exact hroot
        · rename_i result
          exact hkeeps root j node base _ _ _ _ hhosts hj (by simpa using hshown) hparent result
            hroot

/-- What every node keeps a row keeps, whatever nodes it passes. -/
theorem Keeps.foldl_visit (hkeeps : forest.Keeps p) (h : forest.IsLaidOut)
    {entries : List (Node × Nat)}
    (hentries : ∀ entry ∈ entries, forest[entry.2]? = some entry.1) (hhosts : forest.Hosts root)
    (hguides : forest.Guides ways) (hagrees : Agrees root places ways) (hroot : p root) :
    p (entries.foldl (forest.visit forest.concurrentRuns countColumn row) (places, root)).2 := by
  induction entries generalizing root places ways with
  | nil => exact hroot
  | cons entry rest ih =>
      obtain ⟨node, j⟩ := entry
      have hat := hentries (node, j) List.mem_cons_self
      have hmoved := h.moved_visit countColumn row hhosts hguides hagrees hat
      exact ih (fun other hother => hentries other (List.mem_cons_of_mem _ hother)) hmoved.hosts
        (hguides.moveOn h hat) hmoved.agrees (hkeeps.visit hhosts hguides hagrees hat hroot)

theorem Keeps.foldRows (hkeeps : forest.Keeps p) (h : forest.IsLaidOut) (countColumn : String)
    (rows : List Row) (hhosts : forest.Hosts root) (hroot : p root) :
    p (forest.foldRows countColumn root rows) := by
  unfold Forest.foldRows
  dsimp only
  induction rows generalizing root with
  | nil => exact hroot
  | cons row rest ih =>
      exact ih (h.gains_foldRow countColumn row hhosts).1
        (hkeeps.foldl_visit h (fun _ hentry => List.mem_zipIdx_iff_getElem?.mp hentry) hhosts
          (guides_nowhere forest) (agrees_nowhere root) hroot)

/-- Every plan for a request keeps a response dressed. -/
theorem IsRevision.keeps_dresses (hrevision : before.IsRevision after) (h : before.IsLaidOut) :
    after.Keeps before.Dresses := by
  intro root j node base countColumn metricName source result hhosts hj hshown hparent hresult
    hdresses
  rw [← hrevision.dresses_iff] at hdresses ⊢
  exact (hrevision.isLaidOut h).dresses_place hhosts hj hshown hparent hresult hdresses

end

end Forest

/-- What the nodes of all tables keep their rows keep, one table after the other. -/
theorem Part.keeps_foldl {base : Forest} (h : base.IsLaidOut) {p : Level → Prop}
    {parts : List Part}
    (hparts : ∀ part ∈ parts, base.IsRevision part.forest ∧ part.forest.Keeps p) {root : Level}
    (hhosts : base.Hosts root) (hroot : p root) : p (parts.foldl fold root) := by
  induction parts generalizing root with
  | nil => exact hroot
  | cons part rest ih =>
      obtain ⟨hrevision, hkeeps⟩ := hparts part List.mem_cons_self
      have hlaid := hrevision.isLaidOut h
      have hsuited := (hrevision.hosts_iff root).mpr hhosts
      refine ih (fun other hother => hparts other (List.mem_cons_of_mem _ hother)) ?_
        (hkeeps.foldRows hlaid part.countColumn part.rows hsuited hroot)
      exact (hrevision.hosts_iff _).mp (hlaid.gains_foldRows part.countColumn part.rows hsuited).1

end Rollup
