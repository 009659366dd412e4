/-
# Trails

A path names the buckets of a list by their positions, so it depends on which of them came first. A
trail names a bucket of values or intervals by its identity, and by its position only where all
buckets exist from the start. What a response shows along trails is what it shows up to the order of
its buckets, and one change of the response is one change along a trail.
-/

import Rollup.Proofs.Response.Visit

namespace Rollup

/-- What tells a bucket from the others of one output. -/
inductive Mark where
  /-- The identity, among values or intervals. -/
  | named (id : String)
  /-- The position, where all buckets exist from the start. -/
  | placed (index : Nat)
  /-- Nothing: there is no other bucket. -/
  | only
  deriving DecidableEq

/-- A step into a bucket of an aggregation. -/
structure Turn where
  aggregation : String
  mark : Mark
  deriving DecidableEq

abbrev Trail := List Turn

namespace Output

/-- Whether the buckets are put in order in the end, as those of values and intervals are. -/
def isOrdered : Output → Bool
  | buckets list => list.finish.order.isSome
  | _ => false

/-- The bucket with a mark. -/
def bucketOf? : Output → Mark → Option (Bucket Output)
  | buckets list, .named id =>
      if list.finish.order.isSome then list.entries.find? fun b => b.id == id else none
  | buckets list, .placed index =>
      if list.finish.order.isSome then none else list.entries[index]?
  | single b, .only => some b
  | _, _ => none

/-- The mark of the bucket that a step goes into. -/
def markOf (output : Output) (segment : Segment) (b : Bucket Output) : Mark :=
  match segment with
  | .bucket _ index => if output.isOrdered then .named b.id else .placed index
  | .single _ => .only

/-- Whether no two buckets of values or intervals share an identity. -/
def HasDistinctIds : Output → Prop
  | buckets list => list.finish.order.isSome = true → (list.entries.map Bucket.id).Nodup
  | _ => True

/-- Where identities differ, the one bucket with an identity is found by it. -/
theorem find?_id_eq_some_iff {entries : List (Bucket Output)}
    (hnodup : (entries.map Bucket.id).Nodup) {id : String} {b : Bucket Output} :
    (entries.find? fun b => b.id == id) = some b ↔ ∃ i : Nat, entries[i]? = some b ∧ b.id = id := by
  constructor
  · intro h
    obtain ⟨i, hi⟩ := List.getElem?_of_mem (List.mem_of_find?_eq_some h)
    exact ⟨i, hi, by simpa using List.find?_some h⟩
  · rintro ⟨i, hi, rfl⟩
    have hsome : (entries.find? fun c => c.id == b.id).isSome = true := by
      rw [List.find?_isSome]
      exact ⟨b, List.mem_of_getElem? hi, by simp⟩
    obtain ⟨c, hc⟩ := Option.isSome_iff_exists.mp hsome
    obtain ⟨j, hj⟩ := List.getElem?_of_mem (List.mem_of_find?_eq_some hc)
    have hid : c.id = b.id := by simpa using List.find?_some hc
    obtain rfl := BucketList.eq_of_getElem?_id hnodup hj hi hid
    rw [hc, ← hj, hi]

/-- A bucket is found by its mark just when a step goes into it. -/
theorem bucketOf?_eq_some_iff {output : Output} (h : output.HasDistinctIds) (name : String)
    {mark : Mark} {b : Bucket Output} :
    output.bucketOf? mark = some b ↔ ∃ segment : Segment, segment.name = name ∧
      output.bucketAt? segment = some b ∧ output.markOf segment b = mark := by
  cases output with
  | buckets list =>
      have hiff : (∃ segment : Segment, segment.name = name ∧
          (buckets list).bucketAt? segment = some b ∧ (buckets list).markOf segment b = mark) ↔
          ∃ i, list.entries[i]? = some b ∧
            (if list.finish.order.isSome then Mark.named b.id else .placed i) = mark := by
        constructor
        · rintro ⟨segment, -, hb, hmark⟩
          cases segment with
          | bucket other i => exact ⟨i, hb, hmark⟩
          | single other => cases hb
        · rintro ⟨i, hb, hmark⟩
          exact ⟨.bucket name i, rfl, hb, hmark⟩
      rw [hiff]
      by_cases hordered : list.finish.order.isSome = true
      · simp only [hordered, if_true]
        cases mark with
        | named id =>
            simp only [bucketOf?, hordered, if_true, find?_id_eq_some_iff (h hordered),
              Mark.named.injEq]
        | placed i => simp [bucketOf?, hordered]
        | only => simp [bucketOf?]
      · simp only [hordered]
        cases mark <;> simp [bucketOf?, hordered]
  | single bucket =>
      constructor
      · intro hb
        cases mark with
        | only => exact ⟨.single name, rfl, hb, rfl⟩
        | named id => cases hb
        | placed i => cases hb
      · rintro ⟨segment, -, hb, rfl⟩
        cases segment with
        | bucket other i => cases hb
        | single other => exact hb
  | metric tally => cases mark <;> simp [bucketOf?, bucketAt?]

/-- Steps into buckets with one mark are the same. -/
theorem eq_of_markOf_eq {output : Output} (h : output.HasDistinctIds) {segment other : Segment}
    {b c : Bucket Output} (hname : segment.name = other.name)
    (hb : output.bucketAt? segment = some b) (hc : output.bucketAt? other = some c)
    (hmark : output.markOf segment b = output.markOf other c) : segment = other := by
  cases output with
  | buckets list =>
      cases segment with
      | bucket first i =>
          cases other with
          | bucket second j =>
              obtain rfl : first = second := hname
              by_cases hordered : list.finish.order.isSome = true
              · have hid : b.id = c.id := by simpa [markOf, isOrdered, hordered] using hmark
                rw [BucketList.eq_of_getElem?_id (h hordered) hb hc hid]
              · have hij : i = j := by simpa [markOf, isOrdered, hordered] using hmark
                rw [hij]
          | single second => cases hc
      | single first => cases hb
  | single bucket =>
      cases segment with
      | bucket first i => cases hb
      | single first =>
          cases other with
          | bucket second j => cases hc
          | single second => exact congrArg Segment.single hname
  | metric tally => cases segment <;> cases hb

@[simp] theorem isOrdered_bare (output : Output) : output.bare.isOrdered = output.isOrdered := by
  cases output <;> rfl

theorem hasDistinctIds_bare (output : Output) :
    output.bare.HasDistinctIds ↔ output.HasDistinctIds := by
  cases output <;> simp [bare, HasDistinctIds, Function.comp_def, Bucket.bare]

theorem bucketOf?_bare (output : Output) (mark : Mark) :
    output.bare.bucketOf? mark = (output.bucketOf? mark).map Bucket.bare := by
  cases output with
  | buckets list =>
      cases mark with
      | named id =>
          simp only [bare, bucketOf?]
          split
          · simp [List.find?_map, Function.comp_def, Bucket.bare]
          · rfl
      | placed i =>
          simp only [bare, bucketOf?]
          split
          · rfl
          · simp
      | only => rfl
  | single b => cases mark <;> rfl
  | metric tally => cases mark <;> rfl

end Output

namespace Level

/-- The bucket of a level that a turn goes into. -/
def turnTo? (level : Level) (turn : Turn) : Option (Bucket Output) :=
  (level.get? turn.aggregation).bind fun output => output.bucketOf? turn.mark

/-- The level that a trail leads to. -/
def levelOn? : Trail → Level → Option Level
  | [], level => some level
  | turn :: trail, level => (level.turnTo? turn).bind fun b => levelOn? trail b.inner

/-- The output with a name at the end of a trail. -/
def outputOn? (root : Level) (trail : Trail) (name : String) : Option Output :=
  (levelOn? trail root).bind fun level => level.get? name

/-- The bucket that a turn goes into at the end of a trail. -/
def bucketOn? (root : Level) (trail : Trail) (turn : Turn) : Option (Bucket Output) :=
  (root.outputOn? trail turn.aggregation).bind fun output => output.bucketOf? turn.mark

/-- The documents of the bucket that a turn goes into at the end of a trail. -/
def docsOn (root : Level) (trail : Trail) (turn : Turn) : Nat :=
  ((root.bucketOn? trail turn).map Bucket.docCount).getD 0

/-- The trail of a path. -/
def trailOf? : Path → Level → Option Trail
  | [], _ => some []
  | segment :: path, level =>
      (level.get? segment.name).bind fun output =>
        (output.bucketAt? segment).bind fun b =>
          (trailOf? path b.inner).map fun trail =>
            ⟨segment.name, output.markOf segment b⟩ :: trail

/-- Whether no two buckets of a list of values or intervals share an identity. -/
def HasDistinctIds (root : Level) : Prop :=
  ∀ path name output, root.outputAt? path name = some output → output.HasDistinctIds

theorem hasDistinctIds_nil : HasDistinctIds [] := by
  intro path name output houtput
  rw [outputAt?_empty] at houtput
  cases houtput

theorem bucketOn?_empty (trail : Trail) (turn : Turn) : bucketOn? [] trail turn = none := by
  cases trail <;> rfl

theorem levelOn?_append (trail rest : Trail) (root : Level) :
    levelOn? (trail ++ rest) root = (levelOn? trail root).bind (levelOn? rest) := by
  induction trail generalizing root with
  | nil => rfl
  | cons turn trail ih =>
      rw [List.cons_append, levelOn?, levelOn?, Option.bind_assoc]
      congr 1
      funext b
      exact ih b.inner

/-- The level inside a bucket at the end of a trail. -/
theorem levelOn?_concat (trail : Trail) (turn : Turn) (root : Level) :
    levelOn? (trail ++ [turn]) root = (root.bucketOn? trail turn).map Bucket.inner := by
  rw [levelOn?_append, bucketOn?, outputOn?]
  cases levelOn? trail root with
  | none => rfl
  | some level =>
      simp only [Option.bind_some, levelOn?, turnTo?]
      cases (level.get? turn.aggregation).bind fun output => output.bucketOf? turn.mark <;> rfl

section

variable {root : Level}

theorem HasDistinctIds.output (h : root.HasDistinctIds) {name : String} {output : Output}
    (houtput : root.get? name = some output) : output.HasDistinctIds :=
  h [] name output houtput

theorem HasDistinctIds.inner (h : root.HasDistinctIds) {segment : Segment} {b : Bucket Output}
    (hb : root.bucketAt? segment = some b) : Level.HasDistinctIds b.inner := by
  intro path name output houtput
  refine h (segment :: path) name output ?_
  rw [outputAt?_cons, hb]
  exact houtput

/-- Where a trail leads, one of its paths leads. -/
theorem levelOn?_eq_some_iff (h : root.HasDistinctIds) {trail : Trail} {level : Level} :
    levelOn? trail root = some level ↔
      ∃ path, trailOf? path root = some trail ∧ levelAt? path root = some level := by
  induction trail generalizing root with
  | nil =>
      constructor
      · intro hlevel
        exact ⟨[], rfl, hlevel⟩
      · rintro ⟨path, htrail, hlevel⟩
        cases path with
        | nil => exact hlevel
        | cons segment path => simp [trailOf?, Option.bind_eq_some_iff] at htrail
  | cons turn trail ih =>
      constructor
      · intro hlevel
        obtain ⟨b, hturn, hlevel⟩ := Option.bind_eq_some_iff.mp hlevel
        obtain ⟨output, houtput, hb⟩ := Option.bind_eq_some_iff.mp hturn
        obtain ⟨segment, hname, hb, hmark⟩ :=
          (Output.bucketOf?_eq_some_iff (h.output houtput) turn.aggregation).mp hb
        have hat : root.bucketAt? segment = some b := by rw [bucketAt?, hname, houtput]; exact hb
        obtain ⟨path, htrail, hpath⟩ := (ih (h.inner hat)).mp hlevel
        refine ⟨segment :: path, ?_, ?_⟩
        · simp [trailOf?, hname, houtput, hb, htrail, hmark]
        · rw [levelAt?, hat]
          exact hpath
      · rintro ⟨path, htrail, hlevel⟩
        cases path with
        | nil => cases htrail
        | cons segment path =>
            simp only [trailOf?, Option.bind_eq_some_iff, Option.map_eq_some_iff] at htrail
            obtain ⟨output, houtput, b, hb, rest, hrest, heq⟩ := htrail
            obtain ⟨rfl, rfl⟩ := List.cons.inj heq
            have hat : root.bucketAt? segment = some b := by rw [bucketAt?, houtput]; exact hb
            rw [levelAt?, hat] at hlevel
            have hturn : root.turnTo? ⟨segment.name, output.markOf segment b⟩ = some b := by
              rw [turnTo?, houtput]
              exact (Output.bucketOf?_eq_some_iff (h.output houtput) segment.name).mpr
                ⟨segment, rfl, hb, rfl⟩
            rw [levelOn?, hturn]
            exact (ih (h.inner hat)).mpr ⟨path, hrest, hlevel⟩

theorem outputOn?_eq_some_iff (h : root.HasDistinctIds) {trail : Trail} {name : String}
    {output : Output} : root.outputOn? trail name = some output ↔
      ∃ path, trailOf? path root = some trail ∧ root.outputAt? path name = some output := by
  unfold outputOn? outputAt?
  simp only [Option.bind_eq_some_iff, levelOn?_eq_some_iff h]
  constructor
  · rintro ⟨level, ⟨path, htrail, hlevel⟩, hget⟩
    exact ⟨path, htrail, level, hlevel, hget⟩
  · rintro ⟨path, htrail, level, hlevel, hget⟩
    exact ⟨level, ⟨path, htrail, hlevel⟩, hget⟩

theorem HasDistinctIds.outputOn? (h : root.HasDistinctIds) {trail : Trail} {name : String}
    {output : Output} (houtput : root.outputOn? trail name = some output) :
    output.HasDistinctIds := by
  obtain ⟨path, -, hpath⟩ := (outputOn?_eq_some_iff h).mp houtput
  exact h path name output hpath

/-- A bucket of values or intervals is found by its identity. -/
theorem HasDistinctIds.bucketOn?_of_mem (h : root.HasDistinctIds) {trail : Trail} {name : String}
    {list : BucketList Output} (hlist : root.outputOn? trail name = some (.buckets list))
    (hordered : list.finish.order.isSome = true) {b : Bucket Output} (hb : b ∈ list.entries) :
    root.bucketOn? trail ⟨name, .named b.id⟩ = some b := by
  obtain ⟨i, hi⟩ := List.getElem?_of_mem hb
  rw [bucketOn?, hlist, Option.bind_some, Output.bucketOf?, if_pos hordered]
  exact (Output.find?_id_eq_some_iff (h.outputOn? hlist hordered)).mpr ⟨i, hi, rfl⟩

/-- Different paths have different trails. -/
theorem eq_of_trailOf?_eq (h : root.HasDistinctIds) {path other : Path} {trail : Trail}
    (hpath : trailOf? path root = some trail) (hother : trailOf? other root = some trail) :
    path = other := by
  induction path generalizing root other trail with
  | nil =>
      obtain rfl := Option.some.inj hpath
      cases other with
      | nil => rfl
      | cons segment other => simp [trailOf?, Option.bind_eq_some_iff] at hother
  | cons segment path ih =>
      simp only [trailOf?, Option.bind_eq_some_iff, Option.map_eq_some_iff] at hpath
      obtain ⟨output, houtput, b, hb, rest, hrest, rfl⟩ := hpath
      cases other with
      | nil => cases hother
      | cons segment' other =>
          simp only [trailOf?, Option.bind_eq_some_iff, Option.map_eq_some_iff] at hother
          obtain ⟨output', houtput', b', hb', rest', hrest', heq⟩ := hother
          obtain ⟨hturn, rfl⟩ := List.cons.inj heq
          obtain ⟨hname, hmark⟩ := Turn.mk.inj hturn
          rw [hname] at houtput'
          obtain rfl := Option.some.inj (houtput.symm.trans houtput')
          obtain rfl := Output.eq_of_markOf_eq (h.output houtput) hname hb' hb hmark
          obtain rfl := Option.some.inj (hb.symm.trans hb')
          have hat : root.bucketAt? segment' = some b := by rw [bucketAt?, houtput]; exact hb
          rw [ih (h.inner hat) hrest hrest']

/-- At the end of a path stands what stands at the end of its trail. -/
theorem outputOn?_of_trailOf? (h : root.HasDistinctIds) {path : Path} {trail : Trail}
    (htrail : trailOf? path root = some trail) (name : String) :
    root.outputOn? trail name = root.outputAt? path name := by
  ext output
  rw [outputOn?_eq_some_iff h]
  constructor
  · rintro ⟨other, hother, houtput⟩
    rwa [eq_of_trailOf?_eq h htrail hother]
  · exact fun houtput => ⟨path, htrail, houtput⟩

theorem isSome_trailOf? (root : Level) (path : Path) :
    (trailOf? path root).isSome = (levelAt? path root).isSome := by
  induction path generalizing root with
  | nil => rfl
  | cons segment path ih =>
      rw [trailOf?, levelAt?, bucketAt?]
      cases root.get? segment.name with
      | none => rfl
      | some output =>
          simp only [Option.bind_some]
          cases output.bucketAt? segment with
          | none => rfl
          | some b => simpa using ih b.inner

/-- The trail into a bucket at the end of a path. -/
theorem trailOf?_concat (path : Path) (segment : Segment) (root : Level) :
    trailOf? (path ++ [segment]) root = (trailOf? path root).bind fun trail =>
      (root.outputAt? path segment.name).bind fun output => (output.bucketAt? segment).map fun b =>
        trail ++ [⟨segment.name, output.markOf segment b⟩] := by
  induction path generalizing root with
  | nil =>
      simp only [List.nil_append, trailOf?, Option.bind_some, outputAt?, levelAt?, Option.map_some]
      cases root.get? segment.name with
      | none => rfl
      | some output =>
          simp only [Option.bind_some]
          cases output.bucketAt? segment <;> rfl
  | cons first path ih =>
      rw [List.cons_append, trailOf?, trailOf?, outputAt?_cons, bucketAt?]
      cases root.get? first.name with
      | none => rfl
      | some output =>
          simp only [Option.bind_some]
          cases output.bucketAt? first with
          | none => rfl
          | some b =>
              simp only [Option.bind_some, ih]
              cases trailOf? path b.inner with
              | none => rfl
              | some trail =>
                  simp only [Option.bind_some, Option.map_some]
                  cases outputAt? b.inner path segment.name with
                  | none => rfl
                  | some found => simp [Function.comp_def]

/-- A trail goes through the outputs of its path. -/
theorem map_aggregation_of_trailOf? {path : Path} {trail : Trail}
    (h : trailOf? path root = some trail) :
    trail.map Turn.aggregation = path.map Segment.name := by
  induction path generalizing root trail with
  | nil =>
      obtain rfl := Option.some.inj h
      rfl
  | cons segment path ih =>
      simp only [trailOf?, Option.bind_eq_some_iff, Option.map_eq_some_iff] at h
      obtain ⟨output, -, b, -, rest, hrest, rfl⟩ := h
      rw [List.map_cons, List.map_cons, ih hrest]

end

/-! ## Changes along a trail -/

/-- A response after the output with a name at the end of a trail was changed. -/
structure IsChange (root after : Level) (trail : Trail) (name : String) (output : Output) :
    Prop where
  at_trail : after.outputOn? trail name = some output
  elsewhere : ∀ other otherName, ¬(other = trail ∧ otherName = name) →
    (after.outputOn? other otherName).map Output.bare =
      (root.outputOn? other otherName).map Output.bare

section

variable {root after : Level} {path : Path} {name : String} {output : Output}

/-- Identities differ after a write if they differ in the output that is written. -/
theorem IsWrite.hasDistinctIds (hwrite : IsWrite root after path name output)
    (h : root.HasDistinctIds) (houtput : output.HasDistinctIds) : after.HasDistinctIds := by
  intro other otherName found hfound
  by_cases hat : other = path ∧ otherName = name
  · obtain ⟨rfl, rfl⟩ := hat
    rw [hwrite.at_path] at hfound
    obtain rfl := Option.some.inj hfound
    exact houtput
  · have hbare := hwrite.elsewhere other otherName hat
    rw [hfound] at hbare
    obtain ⟨earlier, hearlier, heq⟩ := Option.map_eq_some_iff.mp hbare.symm
    rw [← Output.hasDistinctIds_bare, ← heq, Output.hasDistinctIds_bare]
    exact h other otherName earlier hearlier

/-- A path keeps its trail when the output that is written keeps its kind and its buckets. -/
theorem IsWrite.trailOf?_eq (hwrite : IsWrite root after path name output)
    (hids : Output.KeepsIds (root.outputAt? path name) output)
    (hordered : ∀ before, root.outputAt? path name = some before →
      output.isOrdered = before.isOrdered) {other : Path} {trail : Trail}
    (htrail : trailOf? other root = some trail) : trailOf? other after = some trail := by
  induction other using List.reverseRecOn generalizing trail with
  | nil => exact htrail
  | append_singleton base segment ih =>
      rw [trailOf?_concat] at htrail ⊢
      obtain ⟨front, hfront, htrail⟩ := Option.bind_eq_some_iff.mp htrail
      obtain ⟨found, hfound, htrail⟩ := Option.bind_eq_some_iff.mp htrail
      obtain ⟨b, hb, rfl⟩ := Option.map_eq_some_iff.mp htrail
      rw [ih hfront, Option.bind_some]
      have hkept : ∃ found' b', after.outputAt? base segment.name = some found' ∧
          found'.bucketAt? segment = some b' ∧
            found'.markOf segment b' = found.markOf segment b := by
        by_cases hat : base = path ∧ segment.name = name
        · obtain ⟨rfl, hname⟩ := hat
          rw [hname] at hfound
          obtain ⟨b', hb', hid⟩ := hids segment b (by rw [hfound]; exact hb)
          refine ⟨output, b', by rw [hname]; exact hwrite.at_path, hb', ?_⟩
          cases segment with
          | bucket aggregation i => simp [Output.markOf, hordered found hfound, hid]
          | single aggregation => rfl
        · have hbare := hwrite.elsewhere base segment.name hat
          rw [hfound] at hbare
          obtain ⟨found', hfound', heq⟩ := Option.map_eq_some_iff.mp hbare
          have hbuckets : (found'.bucketAt? segment).map Bucket.bare =
              (found.bucketAt? segment).map Bucket.bare := by
            rw [← Output.bucketAt?_bare, heq, Output.bucketAt?_bare]
          rw [hb] at hbuckets
          obtain ⟨b', hb', hsame⟩ := Option.map_eq_some_iff.mp hbuckets
          have hid : b'.id = b.id := by simpa [Bucket.bare] using congrArg Bucket.id hsame
          have hkind : found'.isOrdered = found.isOrdered := by
            rw [← Output.isOrdered_bare, heq, Output.isOrdered_bare]
          refine ⟨found', b', hfound', hb', ?_⟩
          cases segment with
          | bucket aggregation i => simp [Output.markOf, hkind, hid]
          | single aggregation => rfl
      obtain ⟨found', b', hfound', hb', hmark⟩ := hkept
      rw [hfound', Option.bind_some, hb', Option.map_some, hmark]

/-- A write at the end of a path is a change along its trail. -/
theorem IsWrite.isChange (hwrite : IsWrite root after path name output) {trail : Trail}
    (htrail : trailOf? path root = some trail) (h : root.HasDistinctIds)
    (hafter : after.HasDistinctIds)
    (hkept : ∀ other trail, trailOf? other root = some trail → trailOf? other after = some trail) :
    IsChange root after trail name output where
  at_trail := (outputOn?_eq_some_iff hafter).mpr ⟨path, hkept path trail htrail, hwrite.at_path⟩
  elsewhere := by
    intro other otherName hne
    cases hbefore : root.outputOn? other otherName with
    | some found =>
        obtain ⟨p, hp, hfound⟩ := (outputOn?_eq_some_iff h).mp hbefore
        have hat : ¬(p = path ∧ otherName = name) := by
          rintro ⟨rfl, rfl⟩
          exact hne ⟨Option.some.inj (hp.symm.trans htrail), rfl⟩
        have hbare := hwrite.elsewhere p otherName hat
        rw [hfound] at hbare
        obtain ⟨later, hlater, heq⟩ := Option.map_eq_some_iff.mp hbare
        rw [(outputOn?_eq_some_iff hafter).mpr ⟨p, hkept p other hp, hlater⟩, Option.map_some, heq]
        rfl
    | none =>
        cases hlater : after.outputOn? other otherName with
        | none => rfl
        | some later =>
            exfalso
            obtain ⟨p, hp, hfound⟩ := (outputOn?_eq_some_iff hafter).mp hlater
            have hat : ¬(p = path ∧ otherName = name) := by
              rintro ⟨rfl, rfl⟩
              exact hne ⟨Option.some.inj (hp.symm.trans (hkept p trail htrail)), rfl⟩
            have hbare := hwrite.elsewhere p otherName hat
            rw [hfound] at hbare
            obtain ⟨earlier, hearlier, -⟩ := Option.map_eq_some_iff.mp hbare.symm
            -- the path led to the output before the write, so it had its trail then
            obtain ⟨level, hlevel, -⟩ := Option.bind_eq_some_iff.mp hearlier
            obtain ⟨earlierTrail, hearlierTrail⟩ : ∃ t, trailOf? p root = some t := by
              rw [← Option.isSome_iff_exists, isSome_trailOf?, hlevel]
              rfl
            obtain rfl := Option.some.inj ((hkept p _ hearlierTrail).symm.trans hp)
            rw [(outputOn?_eq_some_iff h).mpr ⟨p, hearlierTrail, hearlier⟩] at hbefore
            cases hbefore

end

end Level
end Rollup
