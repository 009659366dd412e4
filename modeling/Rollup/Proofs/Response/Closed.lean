/-
# Lists in a finished response

Finishing a response puts its lists in order and drops buckets, and does the same inside the
buckets that stay. So whatever stands at a path of the finished response has stood, under the same
names, at a path of the response before; and a list of intervals that shows its empty ones has
lost none.
-/

import Rollup.Proofs.Response.Follow
import Rollup.Response.Finished

namespace Rollup

/-- A bucket when all rows are in. -/
def Bucket.finished (b : Bucket Output) : Bucket Output := { b with inner := finishedLevel b.inner }

theorem finishedBuckets_eq_map (entries : List (Bucket Output)) :
    finishedBuckets entries = entries.map Bucket.finished := by
  induction entries with
  | nil => rfl
  | cons b rest ih =>
      obtain ⟨id, key, attributes, docCount, inner⟩ := b
      rw [finishedBuckets, ih]
      rfl

namespace BucketList

theorem ordered_perm (finish : Finish) (entries : List (Bucket Output)) :
    (ordered finish entries).Perm entries := by
  unfold ordered
  split
  · exact Order.sortBy_perm _ entries
  · rfl

/-- What is left of a list stands as it does in the list put in order. -/
theorem exists_perm_sublist_close (list : BucketList Output) :
    ∃ sorted : List (Bucket Output), sorted.Perm list.entries ∧
      list.close.entries.Sublist sorted := by
  refine ⟨ordered list.finish list.entries, ordered_perm _ _, ?_⟩
  unfold close
  dsimp only
  split
  · exact (List.take_sublist _ _).trans List.filter_sublist
  · exact List.filter_sublist

/-- What is left of a list was in it. -/
theorem mem_of_mem_close {list : BucketList Output} {b : Bucket Output}
    (h : b ∈ list.close.entries) : b ∈ list.entries := by
  obtain ⟨sorted, hperm, hsublist⟩ := exists_perm_sublist_close list
  exact hperm.mem_iff.mp (hsublist.subset h)

/-- A list of intervals that shows the empty ones keeps all of them. -/
theorem mem_close_iff {list : BucketList Output} (h : list.finish = intervalFinish 0)
    {b : Bucket Output} : b ∈ list.close.entries ↔ b ∈ list.entries := by
  refine ⟨mem_of_mem_close, fun hb => ?_⟩
  have hordered := (ordered_perm list.finish list.entries).mem_iff.mpr hb
  have hfrequent : b ∈ frequent list.finish (ordered list.finish list.entries) :=
    List.mem_filter.mpr ⟨hordered, by simp [h, intervalFinish]⟩
  unfold close
  dsimp only
  rw [h] at hfrequent ⊢
  exact hfrequent

end BucketList

namespace Level

theorem get?_finishedLevel (level : Level) (name : String) :
    Level.get? (finishedLevel level) name = (level.get? name).map Output.finished := by
  unfold Level.get?
  induction level with
  | nil => rfl
  | cons entry rest ih =>
      obtain ⟨key, output⟩ := entry
      rw [finishedLevel, List.lookup_cons, List.lookup_cons, ih]
      cases name == key <;> rfl

/-- A bucket of a finished output is one that was finished. -/
theorem bucketAt?_finished {output : Output} {segment : Segment} {shown : Bucket Output}
    (h : output.finished.bucketAt? segment = some shown) :
    ∃ before b, before.name = segment.name ∧ output.bucketAt? before = some b ∧
      shown = b.finished := by
  cases output with
  | buckets list =>
      cases segment with
      | bucket name i =>
          obtain ⟨shape, finish, other, entries⟩ := list
          rw [Output.finished] at h
          have hmem := BucketList.mem_of_mem_close (List.mem_of_getElem? h)
          dsimp only at hmem
          rw [finishedBuckets_eq_map] at hmem
          obtain ⟨b, hb, rfl⟩ := List.mem_map.mp hmem
          obtain ⟨position, hposition⟩ := List.getElem?_of_mem hb
          exact ⟨.bucket name position, b, rfl, hposition, rfl⟩
      | single name =>
          rw [Output.finished] at h
          cases h
  | single b =>
      cases segment with
      | bucket name i =>
          rw [Output.finished] at h
          cases h
      | single name =>
          rw [Output.finished] at h
          exact ⟨.single name, b, rfl, rfl, (Option.some.inj h).symm⟩
  | metric tally =>
      rw [Output.finished] at h
      cases segment <;> cases h

/-- What stands at a path of a finished response stood at a path under the same names before. -/
theorem levelAt?_finished {path : Path} {root shown : Level}
    (h : levelAt? path (finishedLevel root) = some shown) :
    ∃ before level, before.map Segment.name = path.map Segment.name ∧
      levelAt? before root = some level ∧ shown = finishedLevel level := by
  induction path generalizing root with
  | nil => exact ⟨[], root, rfl, rfl, (Option.some.inj h).symm⟩
  | cons segment path ih =>
      rw [levelAt?] at h
      obtain ⟨b, hb, hinside⟩ := Option.bind_eq_some_iff.mp h
      rw [bucketAt?, get?_finishedLevel] at hb
      obtain ⟨finished, hfinished, hat⟩ := Option.bind_eq_some_iff.mp hb
      obtain ⟨output, houtput, rfl⟩ := Option.map_eq_some_iff.mp hfinished
      obtain ⟨first, earlier, hname, hearlier, rfl⟩ := bucketAt?_finished hat
      obtain ⟨rest, level, hnames, hlevel, rfl⟩ := ih hinside
      refine ⟨first :: rest, level, by rw [List.map_cons, List.map_cons, hname, hnames], ?_, rfl⟩
      rw [levelAt?, bucketAt?, hname, houtput, Option.bind_some, hearlier]
      exact hlevel

/-- An output of a finished response is one that was finished. -/
theorem outputAt?_finished {path : Path} {root : Level} {name : String} {shown : Output}
    (h : Level.outputAt? (finishedLevel root) path name = some shown) :
    ∃ before output, before.map Segment.name = path.map Segment.name ∧
      root.outputAt? before name = some output ∧ shown = output.finished := by
  rw [outputAt?] at h
  obtain ⟨level, hlevel, hget⟩ := Option.bind_eq_some_iff.mp h
  obtain ⟨before, earlier, hnames, hearlier, rfl⟩ := levelAt?_finished hlevel
  rw [get?_finishedLevel] at hget
  obtain ⟨output, houtput, rfl⟩ := Option.map_eq_some_iff.mp hget
  exact ⟨before, output, hnames, by rw [outputAt?, hearlier, Option.bind_some, houtput], rfl⟩

end Level

/-- Which aggregations a path goes through is told by the names on it. -/
theorem Forest.parentAt?_congr (forest : Forest) {first second : Path}
    (h : first.map Segment.name = second.map Segment.name) (parent : Option Nat) :
    forest.parentAt? parent first = forest.parentAt? parent second := by
  induction first generalizing second parent with
  | nil =>
      obtain rfl : second = [] := List.map_eq_nil_iff.mp h.symm
      rfl
  | cons segment rest ih =>
      cases second with
      | nil => cases h
      | cons other others =>
          rw [List.map_cons, List.map_cons, List.cons.injEq] at h
          rw [parentAt?, parentAt?, h.1]
          congr 1
          funext start
          exact ih h.2 (some start)

end Rollup
