/-
# Points of a grid

A histogram makes a bucket for every value, and the grid of the histogram numbers them. A list of
intervals is contiguous when no index is missing between two that it has. Numbers of 64 bits make a
grid as far as every index has a value of its own, which is that of its bucket again.
-/

import Rollup.Proofs.Response.Deposit

namespace Rollup

namespace Aggregation

/-- The bucket that a histogram makes for a value. -/
def intervalBucket? : Aggregation → Binary64 → Option (Bucket Output)
  | histogram _, raw =>
      let key := Json.ofBinary64 raw
      some (Bucket.empty (Cell.key key) (some key) [])
  | dateHistogram h, raw =>
      (h.interval.toMillis? raw).map fun ms =>
        let key := Json.ofInt ms
        Bucket.empty (Cell.key key) (some key) [("key_as_string", .string (Calendar.millisText ms))]
  | _, _ => none

/-- The value at an index of the grid. -/
def pointValue? (a : Aggregation) (k : Int) : Option Binary64 :=
  a.grid?.bind fun entry => Cell.number? (entry.1.valueAt k)

/-- The bucket at an index of the grid. -/
def pointBucket? (a : Aggregation) (k : Int) : Option (Bucket Output) :=
  (a.pointValue? k).bind a.intervalBucket?

/-- The index of the grid at which a bucket stands by its key. -/
def indexOf? (a : Aggregation) (b : Bucket Output) : Option Int :=
  match a with
  | histogram h => (b.key.bind Cell.number?).map h.grid.indexOf
  | dateHistogram h =>
      ((b.key.bind Cell.number?).bind fun ms =>
        h.interval.ofMillis? (ms.toInt64 Binary64.truncate)).map h.grid.indexOf
  | _ => none

/-- Whether a list of intervals has a bucket at an index. -/
def HasIndex (a : Aggregation) (entries : List (Bucket Output)) (k : Int) : Prop :=
  ∃ b ∈ entries, a.indexOf? b = some k

/-- Whether no index is missing between two that a list of intervals has. -/
def IsContiguous (a : Aggregation) (entries : List (Bucket Output)) : Prop :=
  ∀ i k j, i ≤ k → k ≤ j → a.HasIndex entries i → a.HasIndex entries j → a.HasIndex entries k

/-- Whether numbers of 64 bits make a grid between two indices. -/
structure IsExactBetween (a : Aggregation) (low high : Int) : Prop where
  /-- Every index has a value, which has that index, and whose bucket stands there. -/
  reads : ∀ k, low ≤ k → k ≤ high → ∃ raw b, a.pointValue? k = some raw ∧
    (a.grid?.map fun entry => entry.1.indexOf raw) = some k ∧ a.intervalBucket? raw = some b ∧
    a.indexOf? b = some k
  /-- No two indices have buckets of one identity. -/
  apart : ∀ i k b b', low ≤ i → i ≤ high → low ≤ k → k ≤ high → a.pointBucket? i = some b →
    a.pointBucket? k = some b' → b.id = b'.id → i = k

/-- The same, index by index. -/
def checksExact (a : Aggregation) (low high : Int) : Bool :=
  let indices := (List.range (high + 1 - low).toNat).map fun steps : Nat => low + steps
  (indices.all fun k => (a.pointValue? k).any fun raw =>
    (a.grid?.map fun entry => entry.1.indexOf raw) == some k &&
      (a.intervalBucket? raw).any fun b => a.indexOf? b == some k) &&
    indices.all fun i => indices.all fun k =>
      i == k || (a.pointBucket? i).map Bucket.id != (a.pointBucket? k).map Bucket.id

theorem isExactBetween_of_checksExact {a : Aggregation} {low high : Int}
    (h : a.checksExact low high = true) : a.IsExactBetween low high := by
  simp only [checksExact, Bool.and_eq_true, List.all_eq_true, Option.any_eq_true, beq_iff_eq,
    Bool.or_eq_true, bne_iff_ne] at h
  obtain ⟨hreads, hapart⟩ := h
  have hmem {k : Int} (hlow : low ≤ k) (hhigh : k ≤ high) :
      k ∈ (List.range (high + 1 - low).toNat).map fun steps : Nat => low + steps :=
    List.mem_map.mpr ⟨(k - low).toNat, List.mem_range.mpr (by omega), by omega⟩
  constructor
  · intro k hlow hhigh
    obtain ⟨raw, hraw, hindex, b, hb, hstands⟩ := hreads k (hmem hlow hhigh)
    exact ⟨raw, b, hraw, hindex, hb, hstands⟩
  · intro i k b b' hi hi' hk hk' hb hb' hid
    refine (hapart i (hmem hi hi') k (hmem hk hk')).resolve_right fun hne => hne ?_
    rw [hb, hb', Option.map_some, Option.map_some, hid]

theorem isValueGroup_of_showsEmpty {a : Aggregation} (h : a.showsEmpty = true) :
    a.isValueGroup = true := by
  cases a <;> simp_all [showsEmpty, isValueGroup, isHistogram]

/-- Where a bucket stands is told by its key. -/
theorem indexOf?_congr {a : Aggregation} {first second : Bucket Output}
    (h : first.key = second.key) : a.indexOf? first = a.indexOf? second := by
  unfold indexOf?
  rw [h]

end Aggregation

namespace Node

variable {n : Node}

/-- A histogram reads one number of a row. -/
theorem valueBucket?_of_showsEmpty (h : n.aggregation.showsEmpty = true) (row : Row) :
    n.valueBucket? row =
      (row.number? (n.decisions.column.getD "")).bind n.aggregation.intervalBucket? := by
  unfold valueBucket?
  cases haggregation : n.aggregation with
  | histogram g =>
      cases hnumber : row.number? (n.decisions.column.getD "") <;>
        simp [Histogram.bucket?, Aggregation.intervalBucket?, hnumber]
  | dateHistogram g =>
      cases hnumber : row.number? (n.decisions.column.getD "") <;>
        simp [DateHistogram.bucket?, Aggregation.intervalBucket?, hnumber]
  | terms t => simp [haggregation, Aggregation.showsEmpty] at h
  | metric m => simp [haggregation, Aggregation.showsEmpty] at h
  | ranges r => simp [haggregation, Aggregation.showsEmpty] at h
  | leg l => simp [haggregation, Aggregation.showsEmpty] at h
  | query q => simp [haggregation, Aggregation.showsEmpty] at h

theorem isQuery_of_showsEmpty (h : n.aggregation.showsEmpty = true) : n.isQuery = false := by
  unfold isQuery
  cases haggregation : n.aggregation <;>
    simp_all [Aggregation.showsEmpty, Aggregation.isQuery, Aggregation.query?]

/-- A histogram that shows its empty intervals loses no bucket in the end. -/
theorem finish_of_fits (h : n.aggregation.showsEmpty = true) {list : BucketList Output}
    (hfits : n.Fits (.buckets list)) : list.finish = intervalFinish 0 := by
  unfold Fits at hfits
  cases haggregation : n.aggregation <;> simp_all [Aggregation.showsEmpty]

end Node
end Rollup
