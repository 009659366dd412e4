/-
# Places in a response

A path leads from the root of a response to the level inside a bucket. An aggregation changes one
output of one level and keeps what is inside its buckets, so every output elsewhere in the response
looks as before, and every path still leads somewhere.
-/

import Rollup.Response.Bucket

namespace Rollup

namespace Segment

/-- The name of the output that a step goes into. -/
def name : Segment → String
  | bucket name _ => name
  | single name => name

end Segment

namespace Bucket

/-- A bucket without what is inside. -/
def bare (b : Bucket Output) : Bucket Output := { b with inner := [] }

end Bucket

namespace Output

/-- An output without what is inside its buckets. -/
def bare : Output → Output
  | buckets list => buckets { list with entries := list.entries.map Bucket.bare }
  | single b => single b.bare
  | metric tally => metric tally

/-- The bucket that a step goes into. -/
def bucketAt? : Output → Segment → Option (Bucket Output)
  | buckets list, .bucket _ index => list.entries[index]?
  | single b, .single _ => some b
  | _, _ => none

/-- Change what is inside the bucket that a step goes into. -/
def setInner : Output → Segment → Level → Output
  | buckets list, .bucket _ index, inner =>
      buckets (list.modify index fun b => { b with inner := inner })
  | single b, .single _, inner => single { b with inner := inner }
  | output, _, _ => output

theorem bucketAt?_setInner_self {output : Output} {segment : Segment} {b : Bucket Output}
    (h : output.bucketAt? segment = some b) (inner : Level) :
    (output.setInner segment inner).bucketAt? segment = some { b with inner := inner } := by
  cases output with
  | buckets list =>
      cases segment with
      | bucket name index =>
          simp only [bucketAt?] at h
          simp [setInner, bucketAt?, BucketList.modify, h]
      | single name => simp [bucketAt?] at h
  | single bucket =>
      cases segment with
      | bucket name index => simp [bucketAt?] at h
      | single name =>
          obtain rfl : bucket = b := by simpa [bucketAt?] using h
          rfl
  | metric tally => simp [bucketAt?] at h

theorem bucketAt?_setInner_of_ne (output : Output) {segment other : Segment}
    (hname : other.name = segment.name) (hne : other ≠ segment) (inner : Level) :
    (output.setInner segment inner).bucketAt? other = output.bucketAt? other := by
  cases output with
  | buckets list =>
      cases segment with
      | bucket name index =>
          cases other with
          | bucket otherName otherIndex =>
              have hindex : index ≠ otherIndex := by
                rintro rfl
                exact hne (by rw [show otherName = name from hname])
              simp [setInner, bucketAt?, BucketList.modify, hindex]
          | single otherName => rfl
      | single name => rfl
  | single bucket =>
      cases segment with
      | bucket name index => rfl
      | single name =>
          cases other with
          | bucket otherName otherIndex => rfl
          | single otherName => exact absurd (by rw [show otherName = name from hname]) hne
  | metric tally => cases segment <;> rfl

@[simp] theorem bare_setInner (output : Output) (segment : Segment) (inner : Level) :
    (output.setInner segment inner).bare = output.bare := by
  cases output with
  | buckets list =>
      cases segment with
      | bucket name index =>
          have hentries : (list.entries.modify index fun b => { b with inner := inner }).map
              Bucket.bare = list.entries.map Bucket.bare := by
            apply List.ext_getElem?
            intro other
            rw [List.getElem?_map, List.getElem?_map, List.getElem?_modify]
            cases list.entries[other]? with
            | none => rfl
            | some b => by_cases hindex : index = other <;> simp [hindex, Bucket.bare]
          simp [setInner, bare, BucketList.modify, hentries]
      | single name => rfl
  | single bucket => cases segment <;> rfl
  | metric tally => cases segment <;> rfl

end Output

namespace Level

theorem get?_ensure (level : Level) (name : String) (initial : Output) (other : String) :
    (level.ensure name initial).get? other =
      if other = name then some ((level.get? name).getD initial) else level.get? other := by
  unfold ensure
  split
  · rename_i hsome
    obtain ⟨output, houtput⟩ := Option.isSome_iff_exists.mp hsome
    split
    · rename_i hname
      rw [hname, houtput]
      rfl
    · rfl
  · rename_i hnone
    have hget : level.get? name = none := by simpa using hnone
    rw [get?, List.lookup_append]
    split
    · rename_i hname
      subst hname
      rw [show List.lookup other level = none from hget, hget]
      simp
    · rename_i hname
      have hbeq : (other == name) = false := by simpa using hname
      simp [get?, List.lookup_cons, hbeq]

theorem get?_set (level : Level) (name : String) (output : Output) (other : String) :
    (level.set name output).get? other =
      if other = name then (level.get? name).map fun _ => output else level.get? other := by
  induction level with
  | nil => simp [set, get?]
  | cons entry rest ih =>
      obtain ⟨key, old⟩ := entry
      simp only [get?] at ih ⊢
      by_cases hkey : key = name
      · subst hkey
        by_cases hother : other = key
        · simp [set, hother]
        · have hbeq : (other == key) = false := by simpa using hother
          simp [set, List.lookup_cons, hbeq, hother]
      · have hset : (name == key) = false := by simpa using fun h => hkey h.symm
        by_cases hother : other = key
        · subst hother
          simp [set, hkey]
        · have hbeq : (other == key) = false := by simpa using hother
          simp [set, hkey, List.lookup_cons, hbeq, ih, hset]

/-- The bucket of a level that a step goes into. -/
def bucketAt? (level : Level) (segment : Segment) : Option (Bucket Output) :=
  (level.get? segment.name).bind fun output => output.bucketAt? segment

/-- The level that a path leads to. -/
def levelAt? : Path → Level → Option Level
  | [], level => some level
  | segment :: path, level => (level.bucketAt? segment).bind fun b => levelAt? path b.inner

/-- The output with a name at the end of a path. -/
def outputAt? (root : Level) (path : Path) (name : String) : Option Output :=
  (levelAt? path root).bind fun level => level.get? name

theorem outputAt?_empty (path : Path) (name : String) : outputAt? [] path name = none := by
  cases path <;> rfl

theorem outputAt?_cons (root : Level) (segment : Segment) (path : Path) (name : String) :
    root.outputAt? (segment :: path) name =
      (root.bucketAt? segment).bind fun b => Level.outputAt? b.inner path name := by
  simp only [outputAt?, levelAt?, Option.bind_assoc]

theorem levelAt?_append (path rest : Path) (root : Level) :
    levelAt? (path ++ rest) root = (levelAt? path root).bind (levelAt? rest) := by
  induction path generalizing root with
  | nil => rfl
  | cons segment path ih =>
      rw [List.cons_append, levelAt?, levelAt?, Option.bind_assoc]
      congr 1
      funext b
      exact ih b.inner

/-- The level inside a bucket at the end of a path. -/
theorem levelAt?_concat (path : Path) (segment : Segment) (root : Level) :
    levelAt? (path ++ [segment]) root =
      ((root.outputAt? path segment.name).bind fun output => output.bucketAt? segment).map
        Bucket.inner := by
  rw [levelAt?_append, outputAt?]
  cases levelAt? path root with
  | none => rfl
  | some level =>
      simp only [Option.bind_some, levelAt?, bucketAt?]
      cases (level.get? segment.name).bind fun output => output.bucketAt? segment <;> rfl

/-- One step of acting at the end of a path. -/
theorem atPath_cons {β : Type} (act : Level → β × Level) (segment : Segment) (path : Path)
    (level : Level) :
    atPath act (segment :: path) level =
      (level.get? segment.name).bind fun output =>
        (output.bucketAt? segment).bind fun b =>
          (atPath act path b.inner).map fun (result, inner) =>
            (result, level.set segment.name (output.setInner segment inner)) := by
  cases segment with
  | bucket name index =>
      rw [atPath, Segment.name]
      cases level.get? name with
      | none => rfl
      | some output =>
          cases output with
          | buckets list =>
              simp only [Option.bind_some, Output.bucketAt?]
              cases list.entries[index]? <;> rfl
          | single b => rfl
          | metric tally => rfl
  | single name =>
      rw [atPath, Segment.name]
      cases level.get? name with
      | none => rfl
      | some output => cases output <;> rfl

/-! ## Changing one output -/

/-- What is inside the buckets of an output stays, and new buckets are empty inside. -/
structure KeepsInner (before : Option Output) (after : Output) : Prop where
  kept : ∀ segment b, (before.bind fun output => output.bucketAt? segment) = some b →
    ∃ b', after.bucketAt? segment = some b' ∧ b'.inner = b.inner
  fresh : ∀ segment b', (before.bind fun output => output.bucketAt? segment) = none →
    after.bucketAt? segment = some b' → b'.inner = []

/-- A response after the output with a name at the end of a path was changed. -/
structure IsWrite (root after : Level) (path : Path) (name : String) (output : Output) :
    Prop where
  at_path : after.outputAt? path name = some output
  elsewhere : ∀ other otherName, ¬(other = path ∧ otherName = name) →
    (after.outputAt? other otherName).map Output.bare =
      (root.outputAt? other otherName).map Output.bare
  grows : ∀ other, (levelAt? other root).isSome = true → (levelAt? other after).isSome = true

/-- Changing one output of a level is a write at the end of the empty path. -/
theorem isWrite_nil {level after : Level} {name : String} {output : Output}
    (hget : ∀ other, after.get? other = if other = name then some output else level.get? other)
    (hinner : KeepsInner (level.get? name) output) : IsWrite level after [] name output where
  at_path := by simp [outputAt?, levelAt?, hget]
  elsewhere := by
    intro path otherName hother
    cases path with
    | nil =>
        have hname : otherName ≠ name := fun h => hother ⟨rfl, h⟩
        simp [outputAt?, levelAt?, hget, hname]
    | cons segment rest =>
        rw [outputAt?_cons, outputAt?_cons, bucketAt?, bucketAt?, hget]
        by_cases hname : segment.name = name
        · rw [if_pos hname, hname, Option.bind_some]
          cases hbefore : (level.get? name).bind fun output => output.bucketAt? segment with
          | none =>
              cases hafter : output.bucketAt? segment with
              | none => rfl
              | some b =>
                  rw [Option.bind_some, hinner.fresh segment b hbefore hafter, outputAt?_empty]
                  rfl
          | some b =>
              obtain ⟨b', hb', heq⟩ := hinner.kept segment b hbefore
              rw [hb', Option.bind_some, Option.bind_some, heq]
        · rw [if_neg hname]
  grows := by
    intro path hpath
    cases path with
    | nil => rfl
    | cons segment rest =>
        rw [levelAt?, bucketAt?] at hpath ⊢
        rw [hget]
        by_cases hname : segment.name = name
        · rw [hname] at hpath
          rw [if_pos hname, Option.bind_some]
          cases hbefore : (level.get? name).bind fun output => output.bucketAt? segment with
          | none => simp [hbefore] at hpath
          | some b =>
              obtain ⟨b', hb', heq⟩ := hinner.kept segment b hbefore
              rw [hbefore, Option.bind_some] at hpath
              rw [hb', Option.bind_some, heq]
              exact hpath
        · rw [if_neg hname]
          exact hpath

/-- Changing what is inside a bucket changes the bucket in nothing else. -/
theorem bucketAt?_setInner_self {level : Level} {segment : Segment} {output : Output}
    {b : Bucket Output} (houtput : level.get? segment.name = some output)
    (hbucket : output.bucketAt? segment = some b) (inner : Level) :
    (level.set segment.name (output.setInner segment inner)).bucketAt? segment =
      some { b with inner := inner } := by
  rw [bucketAt?, get?_set, if_pos rfl, houtput]
  exact Output.bucketAt?_setInner_self hbucket inner

/-- Changing what is inside a bucket leaves other buckets as they are. -/
theorem bucketAt?_setInner_of_ne {level : Level} {segment : Segment} {output : Output}
    (houtput : level.get? segment.name = some output) {other : Segment} (hne : other ≠ segment)
    (inner : Level) :
    (level.set segment.name (output.setInner segment inner)).bucketAt? other =
      level.bucketAt? other := by
  rw [bucketAt?, bucketAt?, get?_set]
  by_cases hname : other.name = segment.name
  · rw [if_pos hname, hname, houtput]
    exact Output.bucketAt?_setInner_of_ne output hname hne inner
  · rw [if_neg hname]

/-- A write inside a bucket is a write in the response. -/
theorem IsWrite.cons {level inner : Level} {segment : Segment} {output : Output}
    {b : Bucket Output} {path : Path} {name : String} {written : Output}
    (houtput : level.get? segment.name = some output)
    (hbucket : output.bucketAt? segment = some b)
    (hwrite : IsWrite b.inner inner path name written) :
    IsWrite level (level.set segment.name (output.setInner segment inner)) (segment :: path) name
      written := by
  have hself := bucketAt?_setInner_self houtput hbucket inner
  have hother (other : Segment) (hne : other ≠ segment) :=
    bucketAt?_setInner_of_ne houtput hne inner
  have hlevel : level.bucketAt? segment = some b := by
    rw [bucketAt?, houtput]
    exact hbucket
  refine ⟨?_, ?_, ?_⟩
  · rw [outputAt?_cons, hself]
    exact hwrite.at_path
  · intro other otherName hne
    cases other with
    | nil =>
        simp only [outputAt?, levelAt?, Option.bind_some, get?_set]
        split
        · rename_i hname
          rw [hname, houtput]
          simp
        · rfl
    | cons first rest =>
        rw [outputAt?_cons, outputAt?_cons]
        by_cases hfirst : first = segment
        · subst hfirst
          rw [hself, hlevel]
          apply hwrite.elsewhere
          rintro ⟨rfl, rfl⟩
          exact hne ⟨rfl, rfl⟩
        · rw [hother first hfirst]
  · intro other hpath
    cases other with
    | nil => rfl
    | cons first rest =>
        rw [levelAt?] at hpath ⊢
        by_cases hfirst : first = segment
        · subst hfirst
          rw [hlevel] at hpath
          rw [hself]
          exact hwrite.grows rest hpath
        · rwa [hother first hfirst]

/-- Acting at the end of a path that leads somewhere is a write, when the act changes one output
of the level there. -/
theorem atPath_isWrite {β : Type} (act : Level → β × Level) (path : Path) (root : Level)
    {level : Level} (hlevel : levelAt? path root = some level) {name : String} {output : Output}
    (hget : ∀ other, (act level).2.get? other =
      if other = name then some output else level.get? other)
    (hinner : KeepsInner (level.get? name) output) :
    ∃ after, atPath act path root = some ((act level).1, after) ∧
      IsWrite root after path name output := by
  induction path generalizing root with
  | nil =>
      obtain rfl : root = level := by simpa [levelAt?] using hlevel
      exact ⟨(act root).2, rfl, isWrite_nil hget hinner⟩
  | cons segment path ih =>
      rw [levelAt?, bucketAt?] at hlevel
      cases houtput : root.get? segment.name with
      | none => simp [houtput] at hlevel
      | some found =>
          cases hbucket : found.bucketAt? segment with
          | none => simp [houtput, hbucket] at hlevel
          | some b =>
              simp only [houtput, hbucket, Option.bind_some] at hlevel
              obtain ⟨inner, hact, hwrite⟩ := ih b.inner hlevel
              refine ⟨root.set segment.name (found.setInner segment inner), ?_,
                IsWrite.cons houtput hbucket hwrite⟩
              rw [atPath_cons, houtput, Option.bind_some, hbucket, Option.bind_some, hact]
              rfl

/-- Acting at the end of a path acts on the level there. -/
theorem exists_of_atPath {β : Type} {act : Level → β × Level} {path : Path} {root : Level}
    {result : β × Level} (h : atPath act path root = some result) :
    ∃ level, levelAt? path root = some level ∧ result.1 = (act level).1 ∧
      levelAt? path result.2 = some (act level).2 := by
  induction path generalizing root result with
  | nil =>
      obtain rfl := Option.some.inj h
      exact ⟨root, rfl, rfl, rfl⟩
  | cons segment path ih =>
      rw [atPath_cons] at h
      obtain ⟨output, houtput, h⟩ := Option.bind_eq_some_iff.mp h
      obtain ⟨b, hb, h⟩ := Option.bind_eq_some_iff.mp h
      obtain ⟨inner, hinner, rfl⟩ := Option.map_eq_some_iff.mp h
      obtain ⟨level, hlevel, hresult, hafter⟩ := ih hinner
      refine ⟨level, ?_, hresult, ?_⟩
      · rw [levelAt?, bucketAt?, houtput, Option.bind_some, hb]
        exact hlevel
      · rw [levelAt?, bucketAt?_setInner_self houtput hb]
        exact hafter

end Level
end Rollup
