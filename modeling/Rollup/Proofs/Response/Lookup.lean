/-
# Looking buckets up

A list finds a bucket by its identity, or inserts one at the end. The position that is found is that
of the last bucket with the identity. An index that is kept beside the list, and in which a bucket is
entered when it is inserted, finds the same position without a search.
-/

import Mathlib.Data.List.Nodup
import Rollup.Response.Bucket

namespace Rollup

/-! ## Positions of identities -/

namespace BucketList

variable {α : Type} {list later : BucketList α} {id : String} {i : Nat}

/-- The last bucket with an identity, or what was found before. -/
theorem lastPosition_spec (id : String) (entries : List (Bucket α)) (start : Nat)
    (found : Option Nat) :
    (∀ i, lastPosition id entries start found = some i →
      found = some i ∨ start ≤ i ∧ ∃ b, entries[i - start]? = some b ∧ b.id = id) ∧
    (lastPosition id entries start found = none → found = none ∧ ∀ b ∈ entries, b.id ≠ id) := by
  induction entries generalizing start found with
  | nil => exact ⟨fun i h => Or.inl h, fun h => ⟨h, by simp⟩⟩
  | cons b rest ih =>
      rw [lastPosition]
      obtain ⟨hsome, hnone⟩ := ih (start + 1) (if b.id = id then some start else found)
      constructor
      · intro i hi
        rcases hsome i hi with hfound | ⟨hle, other, hother, hid⟩
        · split at hfound
          · rename_i hb
            obtain rfl := Option.some.inj hfound
            exact Or.inr ⟨Nat.le_refl _, b, by simp, hb⟩
          · exact Or.inl hfound
        · refine Or.inr ⟨by omega, other, ?_, hid⟩
          rw [show i - start = (i - (start + 1)) + 1 by omega, List.getElem?_cons_succ]
          exact hother
      · intro h
        obtain ⟨hfound, hothers⟩ := hnone h
        split at hfound
        · simp at hfound
        · rename_i hb
          refine ⟨hfound, ?_⟩
          intro other hother
          rcases List.mem_cons.mp hother with rfl | hmem
          · exact hb
          · exact hothers other hmem

theorem lastPosition_append (id : String) (entries rest : List (Bucket α)) (start : Nat)
    (found : Option Nat) :
    lastPosition id (entries ++ rest) start found =
      lastPosition id rest (start + entries.length) (lastPosition id entries start found) := by
  induction entries generalizing start found with
  | nil => rfl
  | cons b entries ih =>
      rw [List.cons_append, lastPosition, lastPosition, ih, List.length_cons]
      congr 1
      omega

theorem lastPosition_congr (id : String) {entries others : List (Bucket α)}
    (h : others.map Bucket.id = entries.map Bucket.id) (start : Nat) (found : Option Nat) :
    lastPosition id others start found = lastPosition id entries start found := by
  induction entries generalizing others start found with
  | nil =>
      obtain rfl := List.map_eq_nil_iff.mp h
      rfl
  | cons b entries ih =>
      obtain ⟨other, rest, rfl, hid, hrest⟩ := List.map_eq_cons_iff.mp h
      rw [lastPosition, lastPosition, hid, ih hrest]

/-- Where an identity is found depends on the identities only. -/
theorem positionOf?_congr (h : later.entries.map Bucket.id = list.entries.map Bucket.id)
    (id : String) : later.positionOf? id = list.positionOf? id :=
  lastPosition_congr id h 0 none

theorem positionOf?_concat (list : BucketList α) (bucket : Bucket α) (id : String) :
    ({ list with entries := list.entries ++ [bucket] } : BucketList α).positionOf? id =
      if bucket.id = id then some list.entries.length else list.positionOf? id := by
  rw [positionOf?, lastPosition_append, Nat.zero_add]
  rfl

/-- What is found has the identity. -/
theorem exists_of_positionOf? (h : list.positionOf? id = some i) :
    ∃ b, list.entries[i]? = some b ∧ b.id = id := by
  rcases (lastPosition_spec id list.entries 0 none).1 i h with hnone | ⟨-, hb⟩
  · cases hnone
  · exact hb

/-- Where identities differ, buckets of one identity are at one position. -/
theorem eq_of_getElem?_id {entries : List (Bucket α)} (hnodup : (entries.map Bucket.id).Nodup)
    {i j : Nat} {b c : Bucket α} (hb : entries[i]? = some b) (hc : entries[j]? = some c)
    (hid : b.id = c.id) : i = j := by
  have hleft : (entries.map Bucket.id)[i]? = some b.id := by rw [List.getElem?_map, hb]; rfl
  have hright : (entries.map Bucket.id)[j]? = some b.id := by
    rw [List.getElem?_map, hc, hid]
    rfl
  exact (List.getElem?_inj (List.getElem?_eq_some_iff.mp hleft).1 hnodup).mp
    (hleft.trans hright.symm)

/-- Where identities differ, every bucket is found at its position. -/
theorem positionOf?_eq_some_iff (hnodup : (list.entries.map Bucket.id).Nodup) :
    list.positionOf? id = some i ↔ (list.entries[i]?).map Bucket.id = some id := by
  rw [Option.map_eq_some_iff]
  refine ⟨exists_of_positionOf?, ?_⟩
  rintro ⟨b, hb, hid⟩
  cases hposition : list.positionOf? id with
  | none =>
      have hothers := ((lastPosition_spec id list.entries 0 none).2 hposition).2
      exact absurd hid (hothers b (List.mem_of_getElem? hb))
  | some j =>
      obtain ⟨c, hc, hid'⟩ := exists_of_positionOf? hposition
      rw [eq_of_getElem?_id hnodup hc hb (hid'.trans hid.symm)]

/-- A bucket is found, or it is inserted at the end. -/
theorem findOrInsert_cases (list : BucketList α) (bucket : Bucket α) :
    (∃ i, list.positionOf? bucket.id = some i ∧ list.findOrInsert bucket = (i, list)) ∨
      (list.positionOf? bucket.id = none ∧ list.findOrInsert bucket =
        (list.entries.length, { list with entries := list.entries ++ [bucket] })) := by
  unfold findOrInsert
  cases hposition : list.positionOf? bucket.id with
  | some i => exact Or.inl ⟨i, rfl, rfl⟩
  | none => exact Or.inr ⟨rfl, rfl⟩

theorem fst_findOrInsert {bucket : Bucket α} (h : list.positionOf? bucket.id = some i) :
    (list.findOrInsert bucket).1 = i := by
  unfold findOrInsert
  rw [h]

/-- What was found or inserted is found again. -/
theorem positionOf?_findOrInsert_self (list : BucketList α) (bucket : Bucket α) :
    (list.findOrInsert bucket).2.positionOf? bucket.id = some (list.findOrInsert bucket).1 := by
  rcases list.findOrInsert_cases bucket with ⟨i, hi, heq⟩ | ⟨-, heq⟩
  · rw [heq, hi]
  · rw [heq, positionOf?_concat, if_pos rfl]

/-- Inserting a bucket makes no difference to what is found already. -/
theorem positionOf?_findOrInsert (h : list.positionOf? id = some i) (bucket : Bucket α) :
    (list.findOrInsert bucket).2.positionOf? id = some i := by
  rcases list.findOrInsert_cases bucket with ⟨j, -, heq⟩ | ⟨hnone, heq⟩
  · rw [heq, h]
  · rw [heq, positionOf?_concat, if_neg, h]
    rintro rfl
    rw [hnone] at h
    cases h

theorem nodup_findOrInsert (h : (list.entries.map Bucket.id).Nodup) (bucket : Bucket α) :
    ((list.findOrInsert bucket).2.entries.map Bucket.id).Nodup := by
  rcases list.findOrInsert_cases bucket with ⟨i, -, heq⟩ | ⟨hnone, heq⟩
  · rwa [heq]
  · have hothers := ((lastPosition_spec bucket.id list.entries 0 none).2 hnone).2
    rw [heq, List.map_append, List.nodup_append]
    refine ⟨h, List.nodup_singleton _, fun first hfirst second hsecond => ?_⟩
    obtain ⟨b, hb, rfl⟩ := List.mem_map.mp hfirst
    obtain rfl := List.mem_singleton.mp hsecond
    exact hothers b hb

end BucketList

/-! ## Indices -/

/-- The positions of the buckets of a list under their identities. -/
abbrev PositionIndex := Std.HashMap String Nat

namespace PositionIndex

variable {α : Type}

/-- The index of buckets that all exist from the start: the later of two with one identity counts. -/
def ofBuckets (entries : List (Bucket α)) : PositionIndex :=
  entries.zipIdx.foldl (fun index entry => index.insert entry.1.id entry.2) ∅

/-- The position of an identity; if it has none it is entered with the position of a new bucket at
the end of a list of some length. -/
def findOrEnter (index : PositionIndex) (id : String) (length : Nat) : Nat × PositionIndex :=
  match index[id]? with
  | some position => (position, index)
  | none => (length, index.insert id length)

/-- Whether an index finds what a search through the list finds. -/
def Describes (index : PositionIndex) (list : BucketList α) : Prop :=
  ∀ id, index[id]? = list.positionOf? id

theorem getElem?_insert (index : PositionIndex) (id : String) (position : Nat) (other : String) :
    (index.insert id position)[other]? = if id = other then some position else index[other]? := by
  simp [Std.HashMap.getElem?_insert]

/-- Buckets that are entered one after the other. -/
theorem getElem?_foldl_insert (entries : List (Bucket α)) (start : Nat) (index : PositionIndex)
    (id : String) :
    ((entries.zipIdx start).foldl (fun index entry => index.insert entry.1.id entry.2) index)[id]? =
      BucketList.lastPosition id entries start index[id]? := by
  induction entries generalizing start index with
  | nil => rfl
  | cons b rest ih =>
      rw [List.zipIdx_cons, List.foldl_cons, ih, BucketList.lastPosition, getElem?_insert]

theorem describes_ofBuckets (list : BucketList α) : (ofBuckets list.entries).Describes list := by
  intro id
  rw [ofBuckets, getElem?_foldl_insert, Std.HashMap.getElem?_empty]
  rfl

theorem Describes.congr {index : PositionIndex} {list later : BucketList α}
    (h : index.Describes list) (hids : later.entries.map Bucket.id = list.entries.map Bucket.id) :
    index.Describes later :=
  fun id => (h id).trans (BucketList.positionOf?_congr hids id).symm

/-- The index gives out the position at which the list finds or inserts a bucket, and describes the
list afterwards. -/
theorem Describes.findOrInsert {index : PositionIndex} {list : BucketList α}
    (h : index.Describes list) (bucket : Bucket α) :
    (index.findOrEnter bucket.id list.entries.length).1 = (list.findOrInsert bucket).1 ∧
      (index.findOrEnter bucket.id list.entries.length).2.Describes
        (list.findOrInsert bucket).2 := by
  unfold findOrEnter
  rw [h bucket.id]
  rcases list.findOrInsert_cases bucket with ⟨i, hposition, heq⟩ | ⟨hnone, heq⟩
  · rw [hposition, heq]
    exact ⟨rfl, h⟩
  · rw [hnone, heq]
    refine ⟨rfl, fun id => ?_⟩
    rw [getElem?_insert, BucketList.positionOf?_concat, h id]

end PositionIndex

end Rollup
