/-
# Terms

One bucket for each value of an attribute, in an order that the request may state.
-/

import Rollup.RequestError
import Rollup.Statement.Basic

namespace Rollup

/-- What the buckets of a terms aggregation are ordered by. -/
inductive OrderTarget where
  | key
  | count
  /-- A metric inside the buckets. -/
  | metric (name : String)
  deriving DecidableEq

structure TermsOrder where
  target : OrderTarget
  direction : Direction
  /-- Whether the request states the order. -/
  explicit : Bool
  deriving DecidableEq

structure Terms where
  field : String
  size : Nat
  minDocCount : Nat
  order : TermsOrder
  deriving DecidableEq

namespace Terms

/-- How many buckets are kept when the request does not say. -/
def defaultSize : Nat := 10

/-- Without a stated order the fullest buckets come first. -/
def defaultOrder : TermsOrder := ⟨.count, .descending, false⟩

/-- Drop an ending as often as it is there. Each time makes the text shorter, so its length is
fuel enough. -/
def dropEndings (ending : List Char) : Nat → List Char → List Char
  | 0, reversed => reversed
  | fuel + 1, reversed =>
      if ending.isPrefixOf reversed then dropEndings ending fuel (reversed.drop ending.length)
      else reversed

/-- The name of a metric, which may be followed by the name of its only value. -/
def metricName (target : String) : String :=
  let reversed := target.toList.reverse
  String.ofList (dropEndings ".value".toList.reverse reversed.length reversed).reverse

def targetOf (target : String) : OrderTarget :=
  if target = "_key" ∨ target = "_term" then .key
  else if target = "_count" then .count
  else .metric (metricName target)

/-- The first field of an object, or of the first object of a list. -/
def firstEntry? : Json → Option (String × Json)
  | .object fields => fields.head?
  | .array items => items.head?.bind fun item => item.object?.bind fun fields => fields.head?
  | _ => none

def orderOfJson (name : String) (order : Json) : Except RequestError TermsOrder :=
  match firstEntry? order with
  | none =>
      .error (.invalidField name "terms" "order"
        "expected \x7b\"<target>\": \"asc|desc\"\x7d")
  | some (target, direction) =>
      match direction.string?.bind Direction.read? with
      | some direction => .ok ⟨targetOf target, direction, true⟩
      | none => .error (.invalidField name "terms" "order" "direction must be asc or desc")

def ofJson (name : String) (body : Json) : Except RequestError Terms := do
  let field ← match body.stringField? "field" with
    | some field => .ok field
    | none => .error (.missingField name "terms" "field")
  let size ← match body.present? "size" with
    | none => .ok defaultSize
    | some value =>
        match value.nat? with
        | some size => .ok size
        | none =>
            .error (.invalidField name "terms" "size" "expected a non-negative integer")
  let minDocCount := ((body.field? "min_doc_count").bind Json.nat?).getD 1
  let order ← match body.present? "order" with
    | none => .ok defaultOrder
    | some order => orderOfJson name order
  return ⟨field, size, minDocCount, order⟩

end Terms
end Rollup
