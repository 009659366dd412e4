/-
# Buckets

The response is a tree of levels. A level has named outputs: a list of buckets, a single
bucket, or the tally of a metric. Every bucket has a level of its own inside. Outputs and
buckets are only ever added or counted up; an output keeps the kind it was created with.
-/

import Rollup.Aggregation.Metric
import Rollup.Statement.Basic

namespace Rollup

/-- How a list of buckets is written. -/
inductive ListShape where
  /-- As a list; every bucket shows its key. -/
  | array
  /-- As an object under the identities of the buckets. -/
  | keyed
  deriving DecidableEq, Repr

/-- What the buckets of a list are ordered by in the end. -/
inductive BucketOrder where
  | key (direction : Direction)
  | count (direction : Direction)
  | metric (name : String) (direction : Direction)
  deriving DecidableEq

/-- What happens to a list of buckets when all rows are in. -/
structure Finish where
  order : Option BucketOrder
  /-- How many buckets are kept. -/
  size : Option Nat
  minDocCount : Nat
  /-- Whether the documents of dropped buckets are shown. -/
  showsOthers : Bool
  deriving DecidableEq

/-- Buckets stay as they are. -/
def Finish.plain : Finish := ⟨none, none, 0, false⟩

/-- A bucket, with outputs of some type inside. -/
structure Bucket (α : Type) where
  /-- The identity inside the list. -/
  id : String
  key : Option Json
  /-- Attributes shown between the key and the document count. -/
  attributes : List (String × Json)
  docCount : Nat
  inner : List (String × α)

/-- A list of buckets, with outputs of some type inside. -/
structure BucketList (α : Type) where
  shape : ListShape
  finish : Finish
  /-- Documents of buckets that were dropped for size. -/
  otherDocCount : Nat
  entries : List (Bucket α)

/-- What an aggregation has produced at one place of the tree. -/
inductive Output where
  | buckets (list : BucketList Output)
  | single (bucket : Bucket Output)
  | metric (tally : Tally)

/-- The outputs at one place of the tree, in the order of their creation. -/
abbrev Level := List (String × Output)

/-- A step from a level to the level inside one of its buckets. -/
inductive Segment where
  | bucket (aggregation : String) (index : Nat)
  | single (aggregation : String)
  deriving DecidableEq

abbrev Path := List Segment

namespace Bucket

variable {α : Type}

/-- A bucket without documents. -/
def empty (id : String) (key : Option Json) (attributes : List (String × Json)) : Bucket α :=
  ⟨id, key, attributes, 0, []⟩

/-- Count documents in. -/
def addDocs (b : Bucket α) (n : Nat) : Bucket α := { b with docCount := b.docCount + n }

end Bucket

namespace BucketList

variable {α : Type}

/-- A list without buckets. -/
def new (shape : ListShape) (finish : Finish) : BucketList α := ⟨shape, finish, 0, []⟩

/-- A list whose buckets all exist from the start. -/
def preset (shape : ListShape) (entries : List (Bucket α)) : BucketList α :=
  ⟨shape, .plain, 0, entries⟩

/-- The position of the last bucket with an identity, the first bucket being at `index`, or else
what was found before. -/
def lastPosition (id : String) : List (Bucket α) → Nat → Option Nat → Option Nat
  | [], _, found => found
  | bucket :: rest, index, found =>
      lastPosition id rest (index + 1) (if bucket.id = id then some index else found)

/-- The position of the last bucket with an identity. -/
def positionOf? (list : BucketList α) (id : String) : Option Nat :=
  lastPosition id list.entries 0 none

/-- The position of the bucket with an identity, which is created at the end if there is none. -/
def findOrInsert (list : BucketList α) (bucket : Bucket α) : Nat × BucketList α :=
  match list.positionOf? bucket.id with
  | some index => (index, list)
  | none => (list.entries.length, { list with entries := list.entries ++ [bucket] })

/-- Change one bucket. -/
def modify (list : BucketList α) (index : Nat) (f : Bucket α → Bucket α) : BucketList α :=
  { list with entries := list.entries.modify index f }

end BucketList

namespace Level

/-- The output with a name. -/
def get? (level : Level) (name : String) : Option Output := level.lookup name

/-- Make sure that an output with a name exists. -/
def ensure (level : Level) (name : String) (initial : Output) : Level :=
  if (level.get? name).isSome then level else level ++ [(name, initial)]

/-- Change the output with a name. -/
def set : Level → String → Output → Level
  | [], _, _ => []
  | (key, old) :: rest, name, output =>
      if key = name then (key, output) :: rest else (key, old) :: set rest name output

/-- Act on the list of buckets with a name, created if there is no such output; nothing when the
output is of another kind. -/
def onBuckets {β : Type} (level : Level) (name : String) (initial : BucketList Output)
    (act : BucketList Output → β × BucketList Output) : Option β × Level :=
  let level := level.ensure name (.buckets initial)
  match level.get? name with
  | some (.buckets list) =>
      let (result, list) := act list
      (some result, level.set name (.buckets list))
  | _ => (none, level)

/-- Act on the single bucket with a name, created if there is no such output. -/
def onSingle {β : Type} (level : Level) (name : String)
    (act : Bucket Output → β × Bucket Output) : Option β × Level :=
  let level := level.ensure name (.single (Bucket.empty name none []))
  match level.get? name with
  | some (.single bucket) =>
      let (result, bucket) := act bucket
      (some result, level.set name (.single bucket))
  | _ => (none, level)

/-- Act on the tally with a name, created if there is no such output. -/
def onMetric {β : Type} (level : Level) (name : String) (function : MetricFunction)
    (act : Tally → β × Tally) : Option β × Level :=
  let level := level.ensure name (.metric (Tally.empty function))
  match level.get? name with
  | some (.metric tally) =>
      let (result, tally) := act tally
      (some result, level.set name (.metric tally))
  | _ => (none, level)

/-- Act on the level at the end of a path; nothing when the path leads nowhere. -/
def atPath {β : Type} (act : Level → β × Level) : Path → Level → Option (β × Level)
  | [], level => some (act level)
  | .bucket name index :: path, level =>
      match level.get? name with
      | some (.buckets list) =>
          match list.entries[index]? with
          | some bucket =>
              (atPath act path bucket.inner).map fun (result, inner) =>
                let list := list.modify index fun b => { b with inner := inner }
                (result, level.set name (.buckets list))
          | none => none
      | _ => none
  | .single name :: path, level =>
      match level.get? name with
      | some (.single bucket) =>
          (atPath act path bucket.inner).map fun (result, inner) =>
            (result, level.set name (.single { bucket with inner := inner }))
      | _ => none

end Level
end Rollup
