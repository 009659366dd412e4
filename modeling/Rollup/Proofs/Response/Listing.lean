/-
# Listings

What a finished response lists of its buckets: which ones in which order, with how many documents,
and how many documents the dropped ones had. Responses that match before they are finished list the
same afterwards, whatever order their buckets were created in.
-/

import Rollup.Proofs.Response.Closed
import Rollup.Proofs.Response.Membership
import Rollup.Proofs.Response.Ordering

namespace Rollup

/-- What a finished output lists. -/
structure Listing where
  /-- The documents of the buckets that were dropped for size. -/
  otherDocCount : Nat
  /-- The identities and the documents of the buckets, in their order. -/
  buckets : List (String × Nat)
  deriving DecidableEq

/-- The identity and the documents of a bucket. -/
def Bucket.entry {α : Type} (b : Bucket α) : String × Nat := (b.id, b.docCount)

namespace Output

def listing : Output → Listing
  | buckets list => ⟨list.otherDocCount, list.entries.map Bucket.entry⟩
  | single b => ⟨0, [b.entry]⟩
  | metric _ => ⟨0, []⟩

/-- What a list of buckets is, but for the buckets. -/
def header? : Output → Option (ListShape × Finish × Nat)
  | buckets list => some list.header
  | _ => none

/-- How a list of buckets ends. -/
def finish? : Output → Option Finish
  | buckets list => some list.finish
  | _ => none

/-- An output keeps its header while its buckets are filled. -/
theorem Frames.header?_eq {output later : Output} (h : output.Frames later) :
    later.header? = output.header? := by
  cases output <;> cases later <;> simp only [Frames] at h
  · exact congrArg some h.1
  · rfl
  · rfl

theorem finish?_eq_of_header? {output other : Output} (h : output.header? = other.header?) :
    output.finish? = other.finish? := by
  have hmap (output : Output) : output.finish? = output.header?.map fun header => header.2.1 := by
    cases output <;> rfl
  rw [hmap, hmap, h]

/-- Lists that end alike and list the same have buckets under the same marks. -/
theorem isSome_bucketOf?_of_listing {output other : Output}
    (hfinish : output.finish? = other.finish?)
    (hlisting : output.listing = other.listing) (mark : Mark) :
    (output.bucketOf? mark).isSome = (other.bucketOf? mark).isSome := by
  cases output with
  | buckets list =>
      cases other with
      | buckets list' =>
          have hsame : list.finish = list'.finish := Option.some.inj hfinish
          have hentries : list.entries.map Bucket.entry = list'.entries.map Bucket.entry :=
            congrArg Listing.buckets hlisting
          cases mark with
          | named id =>
              have hnamed (entries : List (Bucket Output)) :
                  (entries.find? fun b => b.id == id).isSome =
                    (entries.map Bucket.entry).any fun entry => entry.1 == id := by
                rw [Bool.eq_iff_iff, List.find?_isSome, List.any_map, List.any_eq_true]
                rfl
              simp only [bucketOf?, hsame]
              split
              · rw [hnamed, hnamed, hentries]
              · rfl
          | placed i =>
              have hat := congrArg (fun entries => entries[i]?.isSome) hentries
              simp only [List.getElem?_map, Option.isSome_map] at hat
              unfold bucketOf?
              dsimp only
              rw [hsame]
              split
              · rfl
              · exact hat
          | only => rfl
      | single b => cases hfinish
      | metric tally => cases hfinish
  | single b =>
      cases other with
      | buckets list => cases hfinish
      | single b' => cases mark <;> rfl
      | metric tally => cases hlisting
  | metric tally =>
      cases other with
      | buckets list => cases hfinish
      | single b => cases hlisting
      | metric tally' => cases mark <;> rfl

end Output

/-! ## Finishing keeps the order -/

@[simp] theorem Bucket.id_finished (b : Bucket Output) : b.finished.id = b.id := rfl

@[simp] theorem Bucket.entry_finished (b : Bucket Output) : b.finished.entry = b.entry := rfl

/-- The metrics inside a bucket are not changed. -/
theorem Bucket.metric?_finished (b : Bucket Output) (name : String) :
    b.finished.metric? name = b.metric? name := by
  have hget : Level.get? b.finished.inner name = (Level.get? b.inner name).map Output.finished :=
    Level.get?_finishedLevel b.inner name
  unfold metric?
  rw [hget]
  cases Level.get? b.inner name with
  | none => rfl
  | some output =>
      cases output with
      | buckets list => obtain ⟨shape, finish, other, entries⟩ := list; rfl
      | single bucket => obtain ⟨id, key, attributes, docCount, inner⟩ := bucket; rfl
      | metric tally => rfl

namespace BucketOrder

variable {order : BucketOrder}

theorem compare_finished (a b : Bucket Output) :
    order.compare a.finished b.finished = order.compare a b := by
  unfold compare
  simp only [Bucket.metric?_finished]
  rfl

theorem IsSound.finished {b : Bucket Output} (h : order.IsSound b) : order.IsSound b.finished where
  orderly := h.orderly
  id := h.id
  value := by
    have hmetric : b.finished.metric? = b.metric? := funext b.metric?_finished
    rw [hmetric]
    exact h.value

/-- Sound buckets in their order run upward. -/
theorem pairwise_sortBy {entries : List (Bucket Output)} (hsound : ∀ b ∈ entries, order.IsSound b) :
    (Order.sortBy order.compare entries).Pairwise fun a b => (order.compare a b).isLE = true := by
  have hranks : (Order.sortBy order.compare entries).map order.rank =
      Order.sortBy order.compareRanks (entries.map order.rank) :=
    Order.map_sortBy fun a ha b hb => compare_eq_compareRanks (hsound a ha) (hsound b hb)
  have hpairs : ((Order.sortBy order.compare entries).map order.rank).Pairwise
      fun a b => (order.compareRanks a b).isLE = true := by
    rw [hranks]
    exact Order.pairwise_sortBy _
  rw [List.pairwise_map] at hpairs
  refine hpairs.imp_of_mem fun {a b} ha hb hle => ?_
  have hperm := Order.sortBy_perm order.compare entries
  rwa [compare_eq_compareRanks (hsound a (hperm.mem_iff.mp ha)) (hsound b (hperm.mem_iff.mp hb))]

end BucketOrder

namespace BucketList

theorem ordered_map_finished (finish : Finish) (entries : List (Bucket Output)) :
    ordered finish (entries.map Bucket.finished) =
      (ordered finish entries).map Bucket.finished := by
  unfold ordered
  split
  · rename_i order _
    exact (Order.map_sortBy fun a _ b _ => (BucketOrder.compare_finished a b).symm).symm
  · rfl

theorem finish_close (list : BucketList Output) : list.close.finish = list.finish := by
  unfold close
  dsimp only
  split <;> rfl

/-- What is left of buckets in their order, told by their identities and documents. -/
def cut (finish : Finish) (other : Nat) (entries : List (String × Nat)) : Listing :=
  let kept := entries.filter fun entry => finish.minDocCount ≤ entry.2
  match finish.size with
  | some size => ⟨other + ((kept.drop size).map Prod.snd).sum, kept.take size⟩
  | none => ⟨other, kept⟩

/-- What a closed list lists. -/
theorem listing_close (list : BucketList Output) :
    (Output.buckets list.close).listing = cut list.finish list.otherDocCount
      ((ordered list.finish list.entries).map Bucket.entry) := by
  have hdocs (entries : List (Bucket Output)) :
      docCountOf entries = ((entries.map Bucket.entry).map Prod.snd).sum := by
    rw [docCountOf, List.map_map, List.sum_eq_foldl]
    rfl
  have hkept (entries : List (Bucket Output)) : (frequent list.finish entries).map Bucket.entry =
      (entries.map Bucket.entry).filter fun entry => list.finish.minDocCount ≤ entry.2 := by
    rw [List.filter_map]
    rfl
  unfold close cut Output.listing
  cases hsize : list.finish.size with
  | none => simp only [hkept]
  | some size => simp only [hdocs, List.map_drop, List.map_take, hkept]

end BucketList

namespace Output

theorem finished_buckets (list : BucketList Output) : (buckets list).finished =
    .buckets (BucketList.close { list with entries := list.entries.map Bucket.finished }) := by
  obtain ⟨shape, finish, other, entries⟩ := list
  rw [finished, finishedBuckets_eq_map]

theorem finish?_finished (output : Output) : output.finished.finish? = output.finish? := by
  cases output with
  | buckets list =>
      rw [finished_buckets, finish?, BucketList.finish_close]
      rfl
  | single b => rfl
  | metric tally => rfl

/-- What a list lists when all rows are in. -/
theorem listing_finished_buckets (list : BucketList Output) :
    (buckets list).finished.listing = BucketList.cut list.finish list.otherDocCount
      ((BucketList.ordered list.finish list.entries).map Bucket.entry) := by
  rw [finished_buckets, BucketList.listing_close, BucketList.ordered_map_finished, List.map_map]
  rfl

end Output

/-! ## Responses that match -/

/-- Whether the buckets of a list can be put in order, unless they stay as they are. -/
def BucketList.IsSound (list : BucketList Output) : Prop :=
  match list.finish.order with
  | some order => ∀ b ∈ list.entries, order.IsSound b
  | none => list.finish = .plain

theorem BucketList.IsSound.plain {list : BucketList Output} (h : list.IsSound)
    (hnone : list.finish.order = none) : list.finish = .plain := by
  rwa [IsSound, hnone] at h

theorem BucketList.IsSound.order {list : BucketList Output} (h : list.IsSound)
    {order : BucketOrder} (hsome : list.finish.order = some order) :
    ∀ b ∈ list.entries, order.IsSound b := by
  rwa [IsSound, hsome] at h

/-- A list that is closed runs upward in its order, and is cut to its size. -/
theorem BucketList.IsSound.close {list : BucketList Output} (h : list.IsSound)
    {order : BucketOrder} (hsome : list.finish.order = some order) :
    list.close.finish = list.finish ∧
      list.close.entries.Pairwise (fun a b => (order.compare a b).isLE = true) ∧
      ∀ size, list.finish.size = some size → list.close.entries.length ≤ size := by
  have hordered := BucketOrder.pairwise_sortBy (h.order hsome)
  refine ⟨finish_close list, ?_⟩
  unfold BucketList.close frequent ordered
  rw [hsome]
  cases hsize : list.finish.size with
  | none => exact ⟨hordered.filter _, fun size hnone => nomatch hnone⟩
  | some size =>
      refine ⟨(hordered.filter _).sublist (List.take_sublist _ _), fun other hother => ?_⟩
      obtain rfl := Option.some.inj hother
      exact List.length_take_le _ _

theorem BucketList.IsSound.finished {list : BucketList Output} (h : list.IsSound) :
    BucketList.IsSound { list with entries := list.entries.map Bucket.finished } := by
  unfold BucketList.IsSound at h ⊢
  dsimp only
  split at h
  · intro b hb
    obtain ⟨c, hc, rfl⟩ := List.mem_map.mp hb
    exact (h c hc).finished
  · exact h

/-- A list that stays as it is keeps all buckets. -/
theorem BucketList.close_plain {list : BucketList Output} (h : list.finish = .plain) :
    list.close = list := by
  obtain ⟨shape, finish, other, entries⟩ := list
  obtain rfl : finish = .plain := h
  simp [close, Finish.plain, frequent, ordered]

namespace Level

/-- Whether all lists of a response can be finished without doubt. -/
def IsSound (root : Level) : Prop :=
  ∀ trail name list, root.outputOn? trail name = some (.buckets list) → list.IsSound

/-- Whether all lists of a response that are not put in order stay as they are. -/
def KeepsUnordered (root : Level) : Prop :=
  ∀ trail name list, root.outputOn? trail name = some (.buckets list) →
    list.finish.order = none → list.finish = .plain

theorem IsSound.keepsUnordered {root : Level} (h : root.IsSound) : root.KeepsUnordered :=
  fun trail name list hlist => (h trail name list hlist).plain

section

variable {level other : Level}

theorem outputOn?_cons {turn : Turn} {b : Bucket Output} (h : level.turnTo? turn = some b)
    (trail : Trail) (name : String) :
    level.outputOn? (turn :: trail) name = Level.outputOn? b.inner trail name := by
  rw [outputOn?, levelOn?, h]
  rfl

theorem outputOn?_cons_none {turn : Turn} (h : level.turnTo? turn = none) (trail : Trail)
    (name : String) : level.outputOn? (turn :: trail) name = none := by
  rw [outputOn?, levelOn?, h]
  rfl

theorem IsSound.inner (h : level.IsSound) {turn : Turn} {b : Bucket Output}
    (hb : level.turnTo? turn = some b) : IsSound b.inner := by
  intro trail name list hlist
  exact h (turn :: trail) name list ((outputOn?_cons hb trail name).trans hlist)

theorem KeepsUnordered.inner (h : level.KeepsUnordered) {turn : Turn} {b : Bucket Output}
    (hb : level.turnTo? turn = some b) : KeepsUnordered b.inner := by
  intro trail name list hlist
  exact h (turn :: trail) name list ((outputOn?_cons hb trail name).trans hlist)

/-- The buckets of a finished output are those that were finished. -/
theorem bucketOf?_finished {output : Output} (hdistinct : output.HasDistinctIds)
    (hplain : ∀ list, output = .buckets list → list.finish.order = none → list.finish = .plain)
    {mark : Mark} {shown : Bucket Output}
    (h : output.finished.bucketOf? mark = some shown) :
    ∃ b, output.bucketOf? mark = some b ∧ shown = b.finished := by
  cases output with
  | metric tally => cases mark <;> cases h
  | single b =>
      cases mark with
      | only => exact ⟨b, rfl, (Option.some.inj h).symm⟩
      | named id => cases h
      | placed i => cases h
  | buckets list =>
      rw [Output.finished_buckets] at h
      cases horder : list.finish.order with
      | none =>
          rw [BucketList.close_plain (by exact hplain list rfl horder)] at h
          cases mark with
          | named id => simp [Output.bucketOf?, horder] at h
          | only => cases h
          | placed i =>
              simp only [Output.bucketOf?, horder, Option.isSome_none, Bool.false_eq_true,
                if_false, List.getElem?_map] at h ⊢
              obtain ⟨b, hb, rfl⟩ := Option.map_eq_some_iff.mp h
              exact ⟨b, hb, rfl⟩
      | some order =>
          have hordered : list.finish.order.isSome = true := by rw [horder]; rfl
          cases mark with
          | only => cases h
          | placed i => simp [Output.bucketOf?, BucketList.finish_close, horder] at h
          | named id =>
              simp only [Output.bucketOf?, BucketList.finish_close, hordered, if_true] at h ⊢
              have hid : shown.id = id := by simpa using List.find?_some h
              have hmem := BucketList.mem_of_mem_close (List.mem_of_find?_eq_some h)
              obtain ⟨b, hb, rfl⟩ := List.mem_map.mp hmem
              obtain ⟨i, hi⟩ := List.getElem?_of_mem hb
              exact ⟨b, (Output.find?_id_eq_some_iff (hdistinct hordered)).mpr ⟨i, hi, hid⟩, rfl⟩

theorem turnTo?_finishedLevel (hdistinct : level.HasDistinctIds) (hkeeps : level.KeepsUnordered)
    {turn : Turn} {shown : Bucket Output}
    (h : Level.turnTo? (finishedLevel level) turn = some shown) :
    ∃ b, level.turnTo? turn = some b ∧ shown = b.finished := by
  unfold turnTo? at h ⊢
  rw [get?_finishedLevel] at h
  cases houtput : level.get? turn.aggregation with
  | none => rw [houtput] at h; cases h
  | some output =>
      rw [houtput] at h
      refine bucketOf?_finished (hdistinct.output houtput) (fun list hlist => ?_) h
      exact hkeeps [] turn.aggregation list (houtput.trans (congrArg some hlist))

/-- A level at the end of a trail in a finished response was finished. -/
theorem levelOn?_finishedLevel (hdistinct : level.HasDistinctIds) (hkeeps : level.KeepsUnordered)
    {trail : Trail} {shown : Level} (h : levelOn? trail (finishedLevel level) = some shown) :
    ∃ inner, levelOn? trail level = some inner ∧ shown = finishedLevel inner := by
  induction trail generalizing level with
  | nil => exact ⟨level, rfl, (Option.some.inj h).symm⟩
  | cons turn trail ih =>
      obtain ⟨finished, hturn, hinside⟩ := Option.bind_eq_some_iff.mp h
      obtain ⟨b, hb, rfl⟩ := turnTo?_finishedLevel hdistinct hkeeps hturn
      rw [levelOn?, hb, Option.bind_some]
      exact ih (hdistinct.turnTo? hb) (hkeeps.inner hb) hinside

/-- What stands at the end of a trail in a finished response was finished. -/
theorem outputOn?_finishedLevel (hdistinct : level.HasDistinctIds) (hsound : level.IsSound)
    {trail : Trail} {name : String} {shown : Output}
    (h : Level.outputOn? (finishedLevel level) trail name = some shown) :
    ∃ output, level.outputOn? trail name = some output ∧ shown = output.finished := by
  obtain ⟨finished, hlevel, hget⟩ := Option.bind_eq_some_iff.mp h
  obtain ⟨inner, hinner, rfl⟩ := levelOn?_finishedLevel hdistinct hsound.keepsUnordered hlevel
  rw [get?_finishedLevel] at hget
  obtain ⟨output, houtput, rfl⟩ := Option.map_eq_some_iff.mp hget
  exact ⟨output, by rw [outputOn?, hinner, Option.bind_some, houtput], rfl⟩

/-- Whether two responses show the same, and lists of values or intervals end alike and have buckets
of the same ranks. -/
structure Matches (level other : Level) : Prop where
  shows : ShowsSame level other
  distinct : level.HasDistinctIds
  distinct' : other.HasDistinctIds
  sound : level.IsSound
  sound' : other.IsSound
  header : ∀ trail name, (level.outputOn? trail name).map Output.header? =
    (other.outputOn? trail name).map Output.header?
  rank : ∀ trail name list list', level.outputOn? trail name = some (.buckets list) →
    other.outputOn? trail name = some (.buckets list') → ∀ order, list.finish.order = some order →
    ∀ b ∈ list.entries, ∀ b' ∈ list'.entries, b.id = b'.id → order.rank b = order.rank b'

theorem Matches.inner (h : Matches level other) {turn : Turn} {b b' : Bucket Output}
    (hb : level.turnTo? turn = some b) (hb' : other.turnTo? turn = some b') :
    Matches b.inner b'.inner where
  shows := h.shows.inner hb hb'
  distinct := h.distinct.turnTo? hb
  distinct' := h.distinct'.turnTo? hb'
  sound := h.sound.inner hb
  sound' := h.sound'.inner hb'
  header := by
    intro trail name
    rw [← outputOn?_cons hb, ← outputOn?_cons hb']
    exact h.header (turn :: trail) name
  rank := by
    intro trail name list list'
    rw [← outputOn?_cons hb, ← outputOn?_cons hb']
    exact h.rank (turn :: trail) name list list'

/-- A bucket of one list is in another where the same is found. -/
theorem exists_mem_of_find?_entry {entries entries' : List (Bucket Output)} {b : Bucket Output}
    (hfound : (entries.find? fun c => c.id == b.id).map Bucket.entry =
      (entries'.find? fun c => c.id == b.id).map Bucket.entry) (hb : b ∈ entries) :
    ∃ b' ∈ entries', b'.id = b.id := by
  have hsome : (entries.find? fun c => c.id == b.id).isSome = true := by
    rw [List.find?_isSome]
    exact ⟨b, hb, beq_self_eq_true b.id⟩
  rw [← Option.isSome_map, hfound, Option.isSome_map] at hsome
  obtain ⟨b', hb'⟩ := Option.isSome_iff_exists.mp hsome
  exact ⟨b', List.mem_of_find?_eq_some hb', by simpa using List.find?_some hb'⟩

/-- The buckets of matching lists, in their order, are the same with the same documents. -/
theorem Matches.map_entry_ordered (h : Matches level other) {name : String}
    {list list' : BucketList Output} (hlist : level.get? name = some (.buckets list))
    (hlist' : other.get? name = some (.buckets list')) (hfinish : list.finish = list'.finish) :
    (BucketList.ordered list.finish list.entries).map Bucket.entry =
      (BucketList.ordered list'.finish list'.entries).map Bucket.entry := by
  have hshows (mark : Mark) : ((Output.buckets list).bucketOf? mark).map Bucket.entry =
      ((Output.buckets list').bucketOf? mark).map Bucket.entry := by
    have hturn := h.shows [] ⟨name, mark⟩
    have houtput : level.outputOn? [] name = some (.buckets list) := hlist
    have houtput' : other.outputOn? [] name = some (.buckets list') := hlist'
    rw [bucketOn?, bucketOn?, houtput, houtput'] at hturn
    exact hturn
  rw [← hfinish]
  unfold BucketList.ordered
  cases horder : list.finish.order with
  | none =>
      apply List.ext_getElem?
      intro i
      have hplaced := hshows (.placed i)
      rw [List.getElem?_map, List.getElem?_map]
      simpa [Output.bucketOf?, ← hfinish, horder] using hplaced
  | some order =>
      have hordered : list.finish.order.isSome = true := by rw [horder]; rfl
      have hordered' : list'.finish.order.isSome = true := hfinish ▸ hordered
      have hnodup := h.distinct.output hlist hordered
      have hnodup' := h.distinct'.output hlist' hordered'
      have hrank := h.rank [] name list list' hlist hlist' order horder
      have hranks {entries : List (Bucket Output)} (hnodup : (entries.map Bucket.id).Nodup) :
          (entries.map order.rank).Nodup := by
        apply List.Nodup.of_map BucketRank.id
        rwa [List.map_map]
      have hids (id : String) : (list.entries.find? fun b => b.id == id).map Bucket.entry =
          (list'.entries.find? fun b => b.id == id).map Bucket.entry := by
        simpa [Output.bucketOf?, hordered, hordered'] using hshows (.named id)
      have hperm : (list.entries.map order.rank).Perm (list'.entries.map order.rank) := by
        rw [List.perm_ext_iff_of_nodup (hranks hnodup) (hranks hnodup')]
        intro rank
        simp only [List.mem_map]
        constructor
        · rintro ⟨b, hb, rfl⟩
          obtain ⟨b', hb', hid⟩ := exists_mem_of_find?_entry (hids b.id) hb
          exact ⟨b', hb', (hrank b hb b' hb' hid.symm).symm⟩
        · rintro ⟨b', hb', rfl⟩
          obtain ⟨b, hb, hid⟩ := exists_mem_of_find?_entry (hids b'.id).symm hb'
          exact ⟨b, hb, hrank b hb b' hb' hid⟩
      have hsorted := BucketOrder.map_rank_sortBy hperm (h.sound [] name list hlist |>.order horder)
        (h.sound' [] name list' hlist' |>.order (hfinish ▸ horder)) hnodup
      have hentry (entries : List (Bucket Output)) : entries.map Bucket.entry =
          (entries.map order.rank).map fun r => (r.id, r.docCount) := by
        rw [List.map_map]
        rfl
      dsimp only
      rw [hentry, hentry, hsorted]

/-- Matching levels have outputs under the same names, and their lists end alike. -/
theorem Matches.get?_cases (h : Matches level other) (name : String) :
    level.get? name = none ∧ other.get? name = none ∨
      ∃ output output', level.get? name = some output ∧ other.get? name = some output' ∧
        output.header? = output'.header? := by
  have hheader : (level.get? name).map Output.header? = (other.get? name).map Output.header? :=
    h.header [] name
  cases houtput : level.get? name with
  | none =>
      rw [houtput] at hheader
      exact Or.inl ⟨rfl, Option.map_eq_none_iff.mp hheader.symm⟩
  | some output =>
      rw [houtput] at hheader
      obtain ⟨output', houtput', hsame⟩ := Option.map_eq_some_iff.mp hheader.symm
      exact Or.inr ⟨output, output', rfl, houtput', hsame.symm⟩

/-- Matching outputs list the same when they are finished. -/
theorem Matches.listing_finished (h : Matches level other) {name : String}
    {output output' : Output} (houtput : level.get? name = some output)
    (houtput' : other.get? name = some output') (hheader : output.header? = output'.header?) :
    output.finished.listing = output'.finished.listing := by
  have honly : ((level.get? name).bind fun output => output.bucketOf? .only).map Bucket.entry =
      ((other.get? name).bind fun output => output.bucketOf? .only).map Bucket.entry :=
    h.shows [] ⟨name, .only⟩
  rw [houtput, houtput', Option.bind_some, Option.bind_some] at honly
  cases output with
  | buckets list =>
      cases output' with
      | buckets list' =>
          have hsame : list.header = list'.header := Option.some.inj hheader
          have hfinish : list.finish = list'.finish := BucketList.finish_eq_of_header hsame
          have hothers : list.otherDocCount = list'.otherDocCount :=
            congrArg (fun header => header.2.2) hsame
          rw [Output.listing_finished_buckets, Output.listing_finished_buckets, hothers,
            h.map_entry_ordered houtput houtput' hfinish, hfinish]
      | single b => cases hheader
      | metric tally => cases hheader
  | single b =>
      cases output' with
      | buckets list => cases hheader
      | single b' =>
          have hentry : b.entry = b'.entry := Option.some.inj honly
          exact congrArg (fun entry => Listing.mk 0 [entry]) hentry
      | metric tally => cases honly
  | metric tally =>
      cases output' with
      | buckets list => cases hheader
      | single b => cases honly
      | metric tally' => rfl

theorem Matches.listing_get? (h : Matches level other) (name : String) :
    (Level.get? (finishedLevel level) name).map Output.listing =
      (Level.get? (finishedLevel other) name).map Output.listing := by
  rw [get?_finishedLevel, get?_finishedLevel]
  rcases h.get?_cases name with ⟨hnone, hnone'⟩ | ⟨output, output', houtput, houtput', hheader⟩
  · rw [hnone, hnone']
  · rw [houtput, houtput']
    exact congrArg some (h.listing_finished houtput houtput' hheader)

/-- The same turns go into buckets of finished levels that match. -/
theorem Matches.isSome_turnTo? (h : Matches level other) (turn : Turn) :
    (Level.turnTo? (finishedLevel level) turn).isSome =
      (Level.turnTo? (finishedLevel other) turn).isSome := by
  unfold turnTo?
  rw [get?_finishedLevel, get?_finishedLevel]
  rcases h.get?_cases turn.aggregation with
    ⟨hnone, hnone'⟩ | ⟨output, output', houtput, houtput', hheader⟩
  · rw [hnone, hnone']
  · rw [houtput, houtput']
    refine Output.isSome_bucketOf?_of_listing ?_ (h.listing_finished houtput houtput' hheader)
      turn.mark
    rw [Output.finish?_finished, Output.finish?_finished]
    exact Output.finish?_eq_of_header? hheader

/-- Responses that match list the same everywhere when they are finished. -/
theorem Matches.listing_eq (h : Matches level other) (trail : Trail) (name : String) :
    (Level.outputOn? (finishedLevel level) trail name).map Output.listing =
      (Level.outputOn? (finishedLevel other) trail name).map Output.listing := by
  induction trail generalizing level other with
  | nil => exact h.listing_get? name
  | cons turn trail ih =>
      have hsome := h.isSome_turnTo? turn
      cases hturn : Level.turnTo? (finishedLevel level) turn with
      | none =>
          rw [hturn] at hsome
          have hturn' : Level.turnTo? (finishedLevel other) turn = none := by
            simpa using hsome.symm
          rw [outputOn?_cons_none hturn, outputOn?_cons_none hturn']
      | some shown =>
          rw [hturn] at hsome
          obtain ⟨shown', hturn'⟩ := Option.isSome_iff_exists.mp hsome.symm
          obtain ⟨b, hb, rfl⟩ := turnTo?_finishedLevel h.distinct h.sound.keepsUnordered hturn
          obtain ⟨b', hb', rfl⟩ := turnTo?_finishedLevel h.distinct' h.sound'.keepsUnordered hturn'
          rw [outputOn?_cons hturn, outputOn?_cons hturn']
          exact ih (h.inner hb hb')

end

end Level
end Rollup
