/-
# Ranges

A range aggregation has a bucket for each declared range of numbers or dates; ranges may
overlap. The statement computes for each group the segment between two neighbouring
boundaries, and a segment lies either inside a range or outside it.
-/

import Rollup.Cell
import Rollup.Order
import Rollup.RequestError

namespace Rollup

/-- A range from an inclusive lower bound to an exclusive upper one; either may be absent. -/
structure RangeSpec where
  key : String
  low : Option Binary64
  high : Option Binary64
  deriving DecidableEq

structure Ranges where
  field : String
  specs : List RangeSpec
  /-- Whether the buckets are written under their keys. -/
  keyed : Bool
  /-- Whether bounds are dates: seconds in the statement, milliseconds in the buckets. -/
  dates : Bool
  deriving DecidableEq

namespace Ranges

/-- Drop the values that equal the last one kept. -/
def dropRepeatsAfter (last : Binary64) : List Binary64 → List Binary64
  | [] => []
  | x :: rest => if last.same x then dropRepeatsAfter last rest else x :: dropRepeatsAfter x rest

/-- Of every run of equal values keep the first. -/
def dropRepeats : List Binary64 → List Binary64
  | [] => []
  | x :: rest => x :: dropRepeatsAfter x rest

/-- All bounds in ascending order, each once. -/
def boundariesOf (specs : List RangeSpec) : List Binary64 :=
  let bounds := specs.flatMap fun spec => spec.low.toList ++ spec.high.toList
  dropRepeats (Order.sortBy Binary64.totalCompare bounds)

def boundaries (r : Ranges) : List Binary64 := boundariesOf r.specs

/-- The expression that computes the segment of an attribute. -/
def expression (r : Ranges) : String :=
  if r.boundaries.isEmpty then "0"
  else
    "INTERVAL(" ++ Statement.quoteName r.field ++ ", " ++
      String.intercalate ", " (r.boundaries.map Binary64.text) ++ ")"

/-- Whether a segment lies inside a range. The segment with index `n` is between the boundaries
`n - 1` and `n`; the first and the last segment have no bound outward. -/
def isInside (boundaries : List Binary64) (spec : RangeSpec) (segment : Nat) : Bool :=
  let start := if segment = 0 then none else boundaries[segment - 1]?
  let stop := boundaries[segment]?
  let startInside := match spec.low, start with
    | none, _ => true
    | some _, none => false
    | some low, some start => low.atMost start
  let stopInside := match spec.high, stop with
    | none, _ => true
    | some _, none => false
    | some high, some stop => stop.atMost high
  startInside && stopInside

/-- Whether a segment between the boundaries of an aggregation lies inside one of its ranges. -/
def contains (r : Ranges) (spec : RangeSpec) (segment : Nat) : Bool :=
  isInside r.boundaries spec segment

/-- The positions of the ranges that a segment lies in, in ascending order. -/
def containing (r : Ranges) (segment : Nat) : List Nat :=
  let boundaries := r.boundaries
  (r.specs.zipIdx.filter fun (spec, _) => isInside boundaries spec segment).map Prod.snd

/-! ## Reading -/

/-- Field, ranges and form of a range aggregation. -/
structure Frame where
  field : String
  items : List Json
  keyed : Bool

def frameOfJson (name kind : String) (body : Json) : Except RequestError Frame := do
  let field ← match body.stringField? "field" with
    | some field => .ok field
    | none => .error (.missingField name kind "field")
  let items ← match (body.field? "ranges").bind Json.array? with
    | some items => .ok items
    | none => .error (.missingField name kind "ranges")
  if items.isEmpty || items.any fun item => !item.isObject then
    .error (.invalidField name kind "ranges" "expected a non-empty list of objects")
  else
    return ⟨field, items, ((body.field? "keyed").bind Json.bool?).getD false⟩

/-- The key of a range: the stated one, or its bounds with a star for an absent one. -/
def keyOf {α : Type} (item : Json) (label : α → String) (low high : Option α) : String :=
  let bound (b : Option α) := match b with
    | some value => label value
    | none => "*"
  (item.stringField? "key").getD (bound low ++ "-" ++ bound high)

def specOfJson (name : String) (item : Json) : Except RequestError RangeSpec := do
  let bound (field : String) : Except RequestError (Option Binary64) :=
    match item.present? field with
    | none => .ok none
    | some value =>
        match Cell.number? value with
        | some x => .ok (some x)
        | none =>
            .error (.invalidField name "range" "ranges" ("'" ++ field ++ "' is not a number"))
  let low ← bound "from"
  let high ← bound "to"
  return ⟨keyOf item Binary64.labelText low high, low, high⟩

def dateSpecOfJson (name : String) (now : Calendar.Instant) (format : Option String)
    (item : Json) : Except RequestError RangeSpec := do
  let bound (field : String) : Except RequestError (Option Int) :=
    match item.present? field with
    | none => .ok none
    | some value =>
        match Calendar.resolveMillis now format value with
        | .ok ms => .ok (some ms)
        | .error text =>
            .error (.invalidField name "date_range" "ranges"
              (FilterError.invalidDate text).message)
  let low ← bound "from"
  let high ← bound "to"
  if low.isNone ∧ high.isNone then
    .error (.invalidField name "date_range" "ranges" "every range needs 'from' or 'to'")
  else
    let seconds (ms : Int) := Binary64.ofInt (ms / 1000)
    return ⟨keyOf item Calendar.millisText low high, low.map seconds, high.map seconds⟩

/-- Ranges of numbers. -/
def ofJson (name : String) (body : Json) : Except RequestError Ranges := do
  let frame ← frameOfJson name "range" body
  let specs ← frame.items.mapM (specOfJson name)
  return ⟨frame.field, specs, frame.keyed, false⟩

/-- Ranges of dates. -/
def datesOfJson (name : String) (now : Calendar.Instant) (body : Json) :
    Except RequestError Ranges := do
  let frame ← frameOfJson name "date_range" body
  let format := body.stringField? "format"
  let specs ← frame.items.mapM (dateSpecOfJson name now format)
  return ⟨frame.field, specs, frame.keyed, true⟩

/-! ## Buckets -/

/-- The attributes that a bucket shows for a bound: the number, or for a date its milliseconds
and their text. -/
def boundAttributes (dates : Bool) (name : String) (bound : Binary64) : List (String × Json) :=
  if dates then
    let ms := bound.toInt64 Binary64.truncate * 1000
    [(name, .ofInt ms), (name ++ "_as_string", .string (Calendar.millisText ms))]
  else [(name, .ofBinary64 bound)]

/-- The attributes of the bucket of a range. -/
def attributes (r : Ranges) (spec : RangeSpec) : List (String × Json) :=
  let shown (name : String) (bound : Option Binary64) :=
    bound.toList.flatMap (boundAttributes r.dates name)
  shown "from" spec.low ++ shown "to" spec.high

end Ranges
end Rollup
