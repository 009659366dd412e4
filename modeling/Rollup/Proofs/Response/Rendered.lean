/-
# Responses as they are written

A level, a bucket and a list under identities are written as JSON objects, and a field that is set
again loses the value it had. So what is written may fall short of what is in a response: a bucket
is lost to another one with its identity, and the count, an attribute or an output inside a bucket
to what goes by the same name. Nothing is lost just when no object is given a name twice.
-/

import Rollup.Proofs.Json.Fields
import Rollup.Proofs.Response.Closed

namespace Rollup

/-! ## Buckets of an output -/

/-- What a bucket shows of itself. -/
def Bucket.own {α : Type} (showsKey : Bool) (b : Bucket α) : Fields :=
  (if showsKey then b.key.toList.map fun key => ("key", key) else []) ++ b.attributes ++
    [("doc_count", .ofNat b.docCount)]

/-- The names of all that a bucket shows. -/
def Bucket.names {α : Type} (showsKey : Bool) (b : Bucket α) : List String :=
  (b.own showsKey).map Prod.fst ++ b.inner.map Prod.fst

/-- A bucket as JSON. -/
def Bucket.toJson (showsKey : Bool) (b : Bucket Output) : Json :=
  .object (Fields.ofEntries (b.own showsKey ++ levelToEntries b.inner))

namespace Output

/-- The buckets of an output. -/
def members : Output → List (Bucket Output)
  | buckets list => list.entries
  | single b => [b]
  | metric _ => []

/-- Whether buckets show their keys. -/
def showsKeys : Output → Bool
  | buckets list => list.shape == .array
  | _ => false

theorem sizeOf_lt_of_mem {output : Output} {b : Bucket Output} (hb : b ∈ output.members)
    {entry : String × Output} (hentry : entry ∈ b.inner) : sizeOf entry.2 < sizeOf output := by
  have hinner := List.sizeOf_lt_of_mem hentry
  obtain ⟨name, inside⟩ := entry
  obtain ⟨id, key, attributes, docCount, inner⟩ := b
  cases output with
  | buckets list =>
      obtain ⟨shape, finish, other, entries⟩ := list
      have hlist : sizeOf _ < sizeOf entries := List.sizeOf_lt_of_mem hb
      simp only [Prod.mk.sizeOf_spec, Bucket.mk.sizeOf_spec, BucketList.mk.sizeOf_spec,
        buckets.sizeOf_spec] at hinner hlist ⊢
      omega
  | single bucket =>
      obtain rfl := List.mem_singleton.mp hb
      simp only [Prod.mk.sizeOf_spec, Bucket.mk.sizeOf_spec, single.sizeOf_spec] at hinner ⊢
      omega
  | metric tally => cases hb

/-- What holds of an output when it holds of all outputs inside its buckets holds of every one. -/
theorem inductionInside {p : Output → Prop}
    (h : ∀ output : Output, (∀ b ∈ output.members, ∀ entry ∈ b.inner, p entry.2) → p output)
    (output : Output) : p output :=
  h output fun b hb entry hentry =>
    have := sizeOf_lt_of_mem hb hentry
    inductionInside h entry.2
termination_by sizeOf output

end Output

theorem levelToEntries_eq_map (level : Level) :
    levelToEntries level = level.map fun entry => (entry.1, entry.2.toJson) := by
  induction level with
  | nil => rfl
  | cons entry rest ih =>
      obtain ⟨name, output⟩ := entry
      rw [levelToEntries, ih]
      rfl

theorem map_fst_levelToEntries (level : Level) :
    (levelToEntries level).map Prod.fst = level.map Prod.fst := by
  rw [levelToEntries_eq_map, List.map_map]
  rfl

theorem bucketsToJson_eq_map (entries : List (Bucket Output)) :
    bucketsToJson entries = entries.map (Bucket.toJson true) := by
  induction entries with
  | nil => rfl
  | cons b rest ih =>
      obtain ⟨id, key, attributes, docCount, inner⟩ := b
      rw [bucketsToJson, ih]
      rfl

theorem bucketsToEntries_eq_map (entries : List (Bucket Output)) :
    bucketsToEntries entries = entries.map fun b => (b.id, b.toJson false) := by
  induction entries with
  | nil => rfl
  | cons b rest ih =>
      obtain ⟨id, key, attributes, docCount, inner⟩ := b
      rw [bucketsToEntries, ih]
      rfl

/-! ## What is written whole -/

mutual

/-- Whether all of an output can be read from what stands under its name: every bucket in its place,
or under its identity, and no other. -/
inductive Output.IsShownBy : Output → Option Json → Prop
  | array {list : BucketList Output} {fields : Fields} {items : List Json}
      (shape : list.shape = .array)
      (others : list.finish.showsOthers = true →
        fields.get? "sum_other_doc_count" = some (.ofNat list.otherDocCount))
      (place : fields.get? "buckets" = some (.array items))
      (count : items.length = list.entries.length)
      (each : ∀ (i : Nat) (b : Bucket Output), list.entries[i]? = some b →
        Bucket.IsShownBy true b items[i]?) :
      Output.IsShownBy (.buckets list) (some (.object fields))
  | keyed {list : BucketList Output} {fields inside : Fields}
      (shape : list.shape = .keyed)
      (others : list.finish.showsOthers = true →
        fields.get? "sum_other_doc_count" = some (.ofNat list.otherDocCount))
      (place : fields.get? "buckets" = some (.object inside))
      (count : inside.length = list.entries.length)
      (each : ∀ b ∈ list.entries, Bucket.IsShownBy false b (inside.get? b.id)) :
      Output.IsShownBy (.buckets list) (some (.object fields))
  | single {bucket : Bucket Output} {shown : Option Json}
      (inside : Bucket.IsShownBy false bucket shown) : Output.IsShownBy (.single bucket) shown
  | metric {tally : Tally} {fields : Fields}
      (value : fields.get? "value" = some (.ofOption (tally.result?.map Json.ofBinary64))) :
      Output.IsShownBy (.metric tally) (some (.object fields))

/-- Whether all of a bucket can be read: what it shows of itself, every output inside it under its
name, and nothing else. -/
inductive Bucket.IsShownBy : Bool → Bucket Output → Option Json → Prop
  | object {showsKey : Bool} {bucket : Bucket Output} {fields : Fields}
      (count : fields.length = (bucket.own showsKey).length + bucket.inner.length)
      (own : ∀ field ∈ bucket.own showsKey, fields.get? field.1 = some field.2)
      (inner : ∀ entry ∈ bucket.inner, Output.IsShownBy entry.2 (fields.get? entry.1)) :
      Bucket.IsShownBy showsKey bucket (some (.object fields))

end

/-- Whether all of a level can be read: every output under its name, and nothing else. -/
structure Level.IsShownBy (level : Level) (fields : Fields) : Prop where
  count : fields.length = level.length
  each : ∀ entry ∈ level, Output.IsShownBy entry.2 (fields.get? entry.1)

/-! ## Names that are given once -/

/-- Whether no object that is written for an output itself is given a name twice. -/
structure Output.HasClearNames (output : Output) : Prop where
  ids : output.showsKeys = false → (output.members.map Bucket.id).Nodup
  names : ∀ b ∈ output.members, (b.names output.showsKeys).Nodup

/-- Whether no object that is written for a level, however deep inside, is given a name twice. -/
structure Level.HasClearNames (root : Level) : Prop where
  names : ∀ path level, levelAt? path root = some level → (level.map Prod.fst).Nodup
  outputs : ∀ path name output, root.outputAt? path name = some output → output.HasClearNames

/-- A bucket of an output is one that a step goes into. -/
theorem Output.exists_bucketAt?_of_mem {output : Output} {b : Bucket Output}
    (h : b ∈ output.members) (name : String) :
    ∃ segment : Segment, segment.name = name ∧ output.bucketAt? segment = some b := by
  cases output with
  | buckets list =>
      obtain ⟨i, hi⟩ := List.getElem?_of_mem h
      exact ⟨.bucket name i, rfl, hi⟩
  | single bucket => exact ⟨.single name, rfl, congrArg some (List.mem_singleton.mp h).symm⟩
  | metric tally => cases h

theorem Output.mem_members_of_bucketAt? {output : Output} {segment : Segment}
    {b : Bucket Output} (h : output.bucketAt? segment = some b) : b ∈ output.members := by
  cases output with
  | buckets list =>
      cases segment with
      | bucket name i => exact List.mem_of_getElem? h
      | single name => cases h
  | single bucket =>
      cases segment with
      | bucket name i => cases h
      | single name => exact List.mem_singleton.mpr (Option.some.inj h).symm
  | metric tally => cases segment <;> cases h

namespace Level

theorem mem_of_get? {level : Level} {name : String} {output : Output}
    (h : level.get? name = some output) : (name, output) ∈ level := by
  obtain ⟨before, after, rfl, -⟩ := List.lookup_eq_some_iff.mp h
  simp

theorem isSome_get?_iff (level : Level) (name : String) :
    (level.get? name).isSome = true ↔ name ∈ level.map Prod.fst := by
  induction level with
  | nil => simp [Level.get?]
  | cons entry rest ih =>
      obtain ⟨key, output⟩ := entry
      unfold Level.get? at ih ⊢
      by_cases h : name = key
      · simp [h]
      · have hbeq : (name == key) = false := by simpa using h
        simp [List.lookup_cons, hbeq, ih, h]

/-- The names of a level and of what is inside its buckets. -/
theorem hasClearNames_iff (root : Level) : root.HasClearNames ↔
    (root.map Prod.fst).Nodup ∧ ∀ entry ∈ root,
      entry.2.HasClearNames ∧ ∀ b ∈ entry.2.members, Level.HasClearNames b.inner := by
  constructor
  · rintro ⟨hnames, houtputs⟩
    have hroot : (root.map Prod.fst).Nodup := hnames [] root rfl
    refine ⟨hroot, fun entry hentry => ?_⟩
    have hget : root.get? entry.1 = some entry.2 := lookup_eq_of_mem hroot hentry
    refine ⟨houtputs [] entry.1 entry.2 hget, fun b hb => ?_⟩
    obtain ⟨segment, hname, hat⟩ := Output.exists_bucketAt?_of_mem hb entry.1
    have hbucket : root.bucketAt? segment = some b := by
      rw [bucketAt?, hname, hget]
      exact hat
    refine ⟨fun path level hlevel => ?_, fun path name output houtput => ?_⟩
    · refine hnames (segment :: path) level ?_
      rw [levelAt?, hbucket]
      exact hlevel
    · refine houtputs (segment :: path) name output ?_
      rw [outputAt?_cons, hbucket]
      exact houtput
  · rintro ⟨hroot, hentries⟩
    have hinside {segment : Segment} {b : Bucket Output}
        (hbucket : root.bucketAt? segment = some b) : Level.HasClearNames b.inner := by
      obtain ⟨output, hget, hat⟩ := Option.bind_eq_some_iff.mp hbucket
      exact (hentries _ (mem_of_get? hget)).2 b (Output.mem_members_of_bucketAt? hat)
    refine ⟨fun path level hlevel => ?_, fun path name output houtput => ?_⟩
    · cases path with
      | nil => exact Option.some.inj hlevel ▸ hroot
      | cons segment path =>
          obtain ⟨b, hb, hat⟩ := Option.bind_eq_some_iff.mp hlevel
          exact (hinside hb).names path level hat
    · cases path with
      | nil => exact (hentries _ (mem_of_get? houtput)).1
      | cons segment path =>
          rw [outputAt?_cons] at houtput
          obtain ⟨b, hb, hat⟩ := Option.bind_eq_some_iff.mp houtput
          exact (hinside hb).outputs path name output hat

end Level

/-! ## What is lost -/

/-- What an output needs to be written whole. -/
def Output.IsClear (output : Output) : Prop :=
  output.HasClearNames ∧ ∀ b ∈ output.members, Level.HasClearNames b.inner

/-- An object of fields and the outputs of a level shows all of them just when it is given no name
twice and the outputs are clear inside. -/
theorem shows_ofEntries_iff (own : Fields) {level : Level}
    (hinside : ∀ entry ∈ level, entry.2.IsShownBy (some entry.2.toJson) ↔ entry.2.IsClear)
    {fields : Fields} (hfields : fields = Fields.ofEntries (own ++ levelToEntries level)) :
    (fields.length = own.length + level.length ∧
      (∀ field ∈ own, fields.get? field.1 = some field.2) ∧
      ∀ entry ∈ level, entry.2.IsShownBy (fields.get? entry.1)) ↔
    (own.map Prod.fst ++ level.map Prod.fst).Nodup ∧ level.HasClearNames := by
  have hnames : (own ++ levelToEntries level).map Prod.fst =
      own.map Prod.fst ++ level.map Prod.fst := by
    rw [List.map_append, map_fst_levelToEntries]
  have hlength : (own ++ levelToEntries level).length = own.length + level.length := by
    rw [List.length_append, levelToEntries_eq_map, List.length_map]
  -- where names differ every entry is found under its name
  have hfound (hnodup : (own.map Prod.fst ++ level.map Prod.fst).Nodup) :
      (∀ field ∈ own, fields.get? field.1 = some field.2) ∧
        ∀ entry ∈ level, fields.get? entry.1 = some entry.2.toJson := by
    rw [← hnames] at hnodup
    rw [hfields, Fields.ofEntries_eq_self hnodup]
    refine ⟨fun field hfield => ?_, fun entry hentry => ?_⟩
    · exact lookup_eq_of_mem hnodup (List.mem_append_left _ hfield)
    · have hmem : (entry.1, entry.2.toJson) ∈ levelToEntries level := by
        rw [levelToEntries_eq_map]
        exact List.mem_map_of_mem hentry
      exact lookup_eq_of_mem hnodup (List.mem_append_right _ hmem)
  have hcount : fields.length = own.length + level.length ↔
      (own.map Prod.fst ++ level.map Prod.fst).Nodup := by
    rw [hfields, ← hlength, ← hnames]
    exact Fields.length_ofEntries_iff _
  rw [hcount, Level.hasClearNames_iff]
  constructor
  · rintro ⟨hnodup, -, hinner⟩
    refine ⟨hnodup, (List.nodup_append'.mp hnodup).2.1, fun entry hentry => ?_⟩
    have hshown := hinner entry hentry
    rw [(hfound hnodup).2 entry hentry] at hshown
    exact (hinside entry hentry).mp hshown
  · rintro ⟨hnodup, -, hclear⟩
    refine ⟨hnodup, (hfound hnodup).1, fun entry hentry => ?_⟩
    rw [(hfound hnodup).2 entry hentry]
    exact (hinside entry hentry).mpr (hclear entry hentry)

theorem Bucket.isShownBy_toJson_iff {b : Bucket Output} (showsKey : Bool)
    (hinside : ∀ entry ∈ b.inner, entry.2.IsShownBy (some entry.2.toJson) ↔ entry.2.IsClear) :
    b.IsShownBy showsKey (some (b.toJson showsKey)) ↔
      (b.names showsKey).Nodup ∧ Level.HasClearNames b.inner := by
  unfold Bucket.names Bucket.toJson
  rw [← shows_ofEntries_iff (b.own showsKey) hinside rfl]
  exact ⟨fun h => by cases h with | object count own inner => exact ⟨count, own, inner⟩,
    fun ⟨count, own, inner⟩ => .object count own inner⟩

/-- What stands for the buckets of a list. -/
def BucketList.body (list : BucketList Output) : Json :=
  match list.shape with
  | .array => .array (list.entries.map (Bucket.toJson true))
  | .keyed => .object (Fields.ofEntries (list.entries.map fun b => (b.id, b.toJson false)))

theorem Output.toJson_buckets (list : BucketList Output) :
    ∃ fields : Fields, (Output.buckets list).toJson = .object fields ∧
      (list.finish.showsOthers = true →
        fields.get? "sum_other_doc_count" = some (.ofNat list.otherDocCount)) ∧
      fields.get? "buckets" = some list.body := by
  obtain ⟨shape, ⟨order, size, minDocCount, showsOthers⟩, other, entries⟩ := list
  unfold toJson BucketList.body
  refine ⟨_, rfl, ?_, ?_⟩
  · rintro rfl
    rfl
  · rw [bucketsToJson_eq_map, bucketsToEntries_eq_map]
    cases showsOthers <;> cases shape <;> rfl

section

variable {list : BucketList Output}

/-- Buckets in an array each stand at their own place. -/
theorem Output.isShownBy_toJson_of_array (hshape : list.shape = .array)
    (hbucket : ∀ b ∈ list.entries, b.IsShownBy true (some (b.toJson true)) ↔
      (b.names true).Nodup ∧ Level.HasClearNames b.inner) :
    (Output.buckets list).IsShownBy (some (Output.buckets list).toJson) ↔
      (Output.buckets list).IsClear := by
  obtain ⟨fields, hjson, hothers, hplace⟩ := Output.toJson_buckets list
  have hshows : (Output.buckets list).showsKeys = true := by simp [showsKeys, hshape]
  have hbody : list.body = .array (list.entries.map (Bucket.toJson true)) := by
    rw [BucketList.body, hshape]
  have hitem {i : Nat} {b : Bucket Output} (hi : list.entries[i]? = some b) :
      (list.entries.map (Bucket.toJson true))[i]? = some (b.toJson true) := by
    rw [List.getElem?_map, hi]
    rfl
  rw [hbody] at hplace
  rw [hjson]
  constructor
  · intro h
    cases h with
    | keyed hkeyed => rw [hshape] at hkeyed; cases hkeyed
    | @array _ _ items _ _ hitems _ heach =>
        obtain rfl := Json.array.inj (Option.some.inj (hplace.symm.trans hitems))
        have hall (b : Bucket Output) (hb : b ∈ list.entries) :
            (b.names true).Nodup ∧ Level.HasClearNames b.inner := by
          obtain ⟨i, hi⟩ := List.getElem?_of_mem hb
          have hshown := heach i b hi
          rw [hitem hi] at hshown
          exact (hbucket b hb).mp hshown
        exact ⟨⟨by simp [hshows], fun b hb => hshows ▸ (hall b hb).1⟩, fun b hb => (hall b hb).2⟩
  · rintro ⟨⟨-, hnames⟩, hclear⟩
    rw [hshows] at hnames
    refine .array hshape hothers hplace (List.length_map _) fun i b hi => ?_
    have hb := List.mem_of_getElem? hi
    rw [hitem hi]
    exact (hbucket b hb).mpr ⟨hnames b hb, hclear b hb⟩

/-- Buckets under their identities all stand there just when the identities differ. -/
theorem Output.isShownBy_toJson_of_keyed (hshape : list.shape = .keyed)
    (hbucket : ∀ b ∈ list.entries, b.IsShownBy false (some (b.toJson false)) ↔
      (b.names false).Nodup ∧ Level.HasClearNames b.inner) :
    (Output.buckets list).IsShownBy (some (Output.buckets list).toJson) ↔
      (Output.buckets list).IsClear := by
  obtain ⟨fields, hjson, hothers, hplace⟩ := Output.toJson_buckets list
  have hshows : (Output.buckets list).showsKeys = false := by simp [showsKeys, hshape]
  let under := list.entries.map fun b => (b.id, b.toJson false)
  have hbody : list.body = .object (Fields.ofEntries under) := by
    rw [BucketList.body, hshape]
  have hids : under.map Prod.fst = list.entries.map Bucket.id := by
    rw [List.map_map]
    rfl
  have hcount : (Fields.ofEntries under).length = list.entries.length ↔
      (list.entries.map Bucket.id).Nodup := by
    rw [← hids, ← Fields.length_ofEntries_iff, List.length_map]
  -- under different identities every bucket is found under its own
  have hfound (hnodup : (list.entries.map Bucket.id).Nodup) (b : Bucket Output)
      (hb : b ∈ list.entries) :
      Fields.get? (Fields.ofEntries under) b.id = some (b.toJson false) := by
    rw [← hids] at hnodup
    have hmem : (b.id, b.toJson false) ∈ under := List.mem_map_of_mem hb
    rw [Fields.ofEntries_eq_self hnodup]
    exact lookup_eq_of_mem hnodup hmem
  rw [hbody] at hplace
  rw [hjson]
  constructor
  · intro h
    cases h with
    | array harray => rw [hshape] at harray; cases harray
    | @keyed _ _ inside _ _ hinside hlength heach =>
        obtain rfl := Json.object.inj (Option.some.inj (hplace.symm.trans hinside))
        have hnodup := hcount.mp hlength
        have hall (b : Bucket Output) (hb : b ∈ list.entries) :
            (b.names false).Nodup ∧ Level.HasClearNames b.inner := by
          have hshown := heach b hb
          rw [hfound hnodup b hb] at hshown
          exact (hbucket b hb).mp hshown
        exact ⟨⟨fun _ => hnodup, fun b hb => hshows ▸ (hall b hb).1⟩, fun b hb => (hall b hb).2⟩
  · rintro ⟨⟨hnodup, hnames⟩, hclear⟩
    replace hnodup := hnodup hshows
    rw [hshows] at hnames
    refine .keyed hshape hothers hplace (hcount.mpr hnodup) fun b hb => ?_
    rw [hfound hnodup b hb]
    exact (hbucket b hb).mpr ⟨hnames b hb, hclear b hb⟩

/-- A list is written whole just when its buckets are, and none takes the place of another. -/
theorem Output.isShownBy_toJson_buckets_iff
    (hinside : ∀ b ∈ list.entries, ∀ entry ∈ b.inner,
      entry.2.IsShownBy (some entry.2.toJson) ↔ entry.2.IsClear) :
    (Output.buckets list).IsShownBy (some (Output.buckets list).toJson) ↔
      (Output.buckets list).IsClear := by
  cases hshape : list.shape with
  | array =>
      exact isShownBy_toJson_of_array hshape fun b hb => b.isShownBy_toJson_iff true (hinside b hb)
  | keyed =>
      exact isShownBy_toJson_of_keyed hshape fun b hb => b.isShownBy_toJson_iff false (hinside b hb)

end

/-- An output is written whole just when it is clear. -/
theorem Output.isShownBy_toJson_iff (output : Output) :
    output.IsShownBy (some output.toJson) ↔ output.IsClear := by
  induction output using Output.inductionInside with
  | h output ih =>
      cases output with
      | buckets list => exact Output.isShownBy_toJson_buckets_iff ih
      | single b =>
          have hjson : (Output.single b).toJson = b.toJson false := rfl
          have hbucket := b.isShownBy_toJson_iff false (ih b (List.mem_singleton_self b))
          rw [hjson]
          constructor
          · intro h
            cases h with
            | single inside =>
                obtain ⟨hnames, hclear⟩ := hbucket.mp inside
                exact ⟨⟨fun _ => List.nodup_singleton _, by
                    simpa [members, showsKeys] using hnames⟩,
                  by simpa [members] using hclear⟩
          · rintro ⟨⟨-, hnames⟩, hclear⟩
            exact .single (hbucket.mpr ⟨hnames b (List.mem_singleton_self b),
              hclear b (List.mem_singleton_self b)⟩)
      | metric tally =>
          have hclear : (Output.metric tally).IsClear :=
            ⟨⟨fun _ => List.nodup_nil, fun _ hb => nomatch hb⟩, fun _ hb => nomatch hb⟩
          have hvalue : Fields.get? [("value", .ofOption (tally.result?.map Json.ofBinary64))]
              "value" = some (.ofOption (tally.result?.map Json.ofBinary64)) := rfl
          exact ⟨fun _ => hclear, fun _ => .metric hvalue⟩

/-- A level is written whole just when no object is given a name twice. -/
theorem Level.isShownBy_ofEntries_iff (root : Level) :
    root.IsShownBy (Fields.ofEntries (levelToEntries root)) ↔ root.HasClearNames := by
  have hwhole := @shows_ofEntries_iff [] root (fun entry _ => entry.2.isShownBy_toJson_iff) _ rfl
  rw [List.nil_append, List.length_nil, Nat.zero_add, List.map_nil, List.nil_append] at hwhole
  constructor
  · rintro ⟨hcount, heach⟩
    exact (hwhole.mp ⟨hcount, by simp, heach⟩).2
  · intro h
    obtain ⟨hcount, -, heach⟩ := hwhole.mpr ⟨h.names [] root rfl, h⟩
    exact ⟨hcount, heach⟩

end Rollup
