/-
# Finished levels

When all rows are in, every list of buckets is put in order, loses the buckets with too few
documents and then those beyond its size, the innermost lists first.
-/

import Rollup.Cell
import Rollup.Order
import Rollup.Response.Bucket

namespace Rollup

/-- The value of a metric inside a bucket. -/
def Bucket.metric? (b : Bucket Output) (name : String) : Option Binary64 :=
  match Level.get? b.inner name with
  | some (.metric tally) => tally.result?
  | _ => none

/-- The key of a bucket as a cell, null without one. -/
def Bucket.keyCell {α : Type} (b : Bucket α) : Json := b.key.getD .null

namespace BucketOrder

/-- Compare two buckets. Ties in a count or a metric are settled by the key, ascending; buckets
without a value of the metric come last. -/
def compare (order : BucketOrder) (a b : Bucket Output) : Ordering :=
  let byKey := Cell.compare a.keyCell b.keyCell
  match order with
  | key direction => Order.directed direction.isDescending byKey
  | count direction =>
      (Order.directed direction.isDescending (Ord.compare a.docCount b.docCount)).then byKey
  | metric name direction =>
      match a.metric? name, b.metric? name with
      | some x, some y =>
          (Order.directed direction.isDescending ((Binary64.compare? x y).getD .eq)).then byKey
      | some _, none => .lt
      | none, some _ => .gt
      | none, none => byKey

end BucketOrder

namespace BucketList

/-- The buckets in their final order. -/
def ordered (finish : Finish) (entries : List (Bucket Output)) : List (Bucket Output) :=
  match finish.order with
  | some order => Order.sortBy order.compare entries
  | none => entries

/-- The buckets with enough documents. -/
def frequent (finish : Finish) (entries : List (Bucket Output)) : List (Bucket Output) :=
  entries.filter fun b => finish.minDocCount ≤ b.docCount

/-- All documents of some buckets. -/
def docCountOf {α : Type} (entries : List (Bucket α)) : Nat :=
  (entries.map Bucket.docCount).foldl (· + ·) 0

/-- Order the buckets and drop those with too few documents and those beyond the size. -/
def close (list : BucketList Output) : BucketList Output :=
  let entries := frequent list.finish (ordered list.finish list.entries)
  match list.finish.size with
  | some size =>
      { list with
        entries := entries.take size
        otherDocCount := list.otherDocCount + docCountOf (entries.drop size) }
  | none => { list with entries := entries }

end BucketList

mutual

/-- An output when all rows are in. -/
def Output.finished : Output → Output
  | .buckets ⟨shape, finish, other, entries⟩ =>
      .buckets (BucketList.close ⟨shape, finish, other, finishedBuckets entries⟩)
  | .single ⟨id, key, attributes, docCount, inner⟩ =>
      .single ⟨id, key, attributes, docCount, finishedLevel inner⟩
  | .metric tally => .metric tally

def finishedBuckets : List (Bucket Output) → List (Bucket Output)
  | [] => []
  | ⟨id, key, attributes, docCount, inner⟩ :: rest =>
      ⟨id, key, attributes, docCount, finishedLevel inner⟩ :: finishedBuckets rest

/-- A level when all rows are in. -/
def finishedLevel : List (String × Output) → List (String × Output)
  | [] => []
  | (name, output) :: rest => (name, output.finished) :: finishedLevel rest

end

mutual

/-- An output as JSON. -/
def Output.toJson : Output → Json
  | .buckets ⟨shape, finish, other, entries⟩ =>
      let header : Fields :=
        if finish.showsOthers then
          [("doc_count_error_upper_bound", .ofInt 0), ("sum_other_doc_count", .ofNat other)]
        else []
      let body : Json := match shape with
        | .array => .array (bucketsToJson entries)
        | .keyed => .object (Fields.ofEntries (bucketsToEntries entries))
      .object (header ++ [("buckets", body)])
  | .single ⟨_, _, attributes, docCount, inner⟩ =>
      .object (Fields.ofEntries
        (attributes ++ [("doc_count", .ofNat docCount)] ++ levelToEntries inner))
  | .metric tally => .object [("value", .ofOption (tally.result?.map Json.ofBinary64))]

/-- Buckets of a list, each with its key. -/
def bucketsToJson : List (Bucket Output) → List Json
  | [] => []
  | ⟨_, key, attributes, docCount, inner⟩ :: rest =>
      .object (Fields.ofEntries
        ((key.toList.map fun key => ("key", key)) ++ attributes ++
          [("doc_count", .ofNat docCount)] ++ levelToEntries inner)) :: bucketsToJson rest

/-- Buckets under their identities. -/
def bucketsToEntries : List (Bucket Output) → List (String × Json)
  | [] => []
  | ⟨id, _, attributes, docCount, inner⟩ :: rest =>
      (id, .object (Fields.ofEntries
        (attributes ++ [("doc_count", .ofNat docCount)] ++ levelToEntries inner))) ::
        bucketsToEntries rest

/-- The outputs of a level under their names. -/
def levelToEntries : List (String × Output) → List (String × Json)
  | [] => []
  | (name, output) :: rest => (name, output.toJson) :: levelToEntries rest

end

/-- A level as JSON. -/
def Level.toJson (level : Level) : Json := .object (Fields.ofEntries (levelToEntries level))

end Rollup
