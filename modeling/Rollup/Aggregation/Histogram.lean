/-
# Histograms

A histogram has a bucket for each interval of an attribute, over numbers or over dates. It may
declare bounds within which every interval is shown.
-/

import Rollup.Aggregation.Grid
import Rollup.RequestError

namespace Rollup

/-- A histogram over numbers. -/
structure Histogram where
  field : String
  interval : Binary64
  offset : Binary64
  minDocCount : Nat
  bounds : Option (Binary64 × Binary64)
  deriving DecidableEq

/-- A histogram over dates; the bounds are in milliseconds. -/
structure DateHistogram where
  field : String
  interval : DateInterval
  minDocCount : Nat
  bounds : Option (Int × Int)
  deriving DecidableEq

/-- The least document count of a shown bucket; by default empty ones are shown. -/
def minDocCountOfJson (body : Json) : Nat :=
  ((body.field? "min_doc_count").bind Json.nat?).getD 0

namespace Histogram

def boundsOfJson (name : String) (bounds : Json) :
    Except RequestError (Binary64 × Binary64) :=
  let bound (field : String) := (bounds.field? field).bind Cell.number?
  match bound "min", bound "max" with
  | some low, some high =>
      if low.atMost high then .ok (low, high)
      else .error (.invalidField name "histogram" "extended_bounds" "expected numeric min <= max")
  | _, _ =>
      .error (.invalidField name "histogram" "extended_bounds" "expected numeric min <= max")

def ofJson (name : String) (body : Json) : Except RequestError Histogram := do
  let field ← match body.stringField? "field" with
    | some field => .ok field
    | none => .error (.missingField name "histogram" "field")
  let value ← match body.field? "interval" with
    | some value => .ok value
    | none => .error (.missingField name "histogram" "interval")
  let interval ← match (Cell.number? value).filter (Binary64.less 0) with
    | some interval => .ok interval
    | none => .error (.invalidField name "histogram" "interval" "must be a positive number")
  let offset := ((body.field? "offset").bind Cell.number?).getD 0
  let bounds ← match body.present? "extended_bounds" with
    | none => .ok none
    | some bounds => (boundsOfJson name bounds).map some
  return ⟨field, interval, offset, minDocCountOfJson body, bounds⟩

/-- The expression that computes the bucket. -/
def expression (h : Histogram) : String :=
  let f := Statement.quoteName h.field
  let w := h.interval.text
  if h.offset.same 0 then "FLOOR(" ++ f ++ "/" ++ w ++ ")*" ++ w
  else
    let o := h.offset.text
    "FLOOR((" ++ f ++ "-" ++ o ++ ")/" ++ w ++ ")*" ++ w ++ "+" ++ o

def grid (h : Histogram) : Grid := .linear h.interval h.offset

/-- The declared bounds as indices of the grid. -/
def boundIndices? (h : Histogram) : Option (Int × Int) :=
  h.bounds.map fun (low, high) => (h.grid.floorIndex low, h.grid.floorIndex high)

end Histogram

namespace DateHistogram

/-- The interval of a date histogram, which is stated in exactly one of two ways. -/
def intervalOfJson (name : String) (body : Json) : Except RequestError DateInterval :=
  let kind := "date_histogram"
  let supported (field text : String) (interval : Option DateInterval) :
      Except RequestError DateInterval :=
    match interval with
    | some interval => .ok interval
    | none => .error (.invalidField name kind field ("unsupported '" ++ text ++ "'"))
  match body.stringField? "calendar_interval", body.stringField? "fixed_interval" with
  | some text, none => supported "calendar_interval" text (DateInterval.calendar? text)
  | none, some text => supported "fixed_interval" text (DateInterval.fixed? text)
  | none, none => .error (.missingField name kind "calendar_interval")
  | some _, some _ =>
      .error (.invalidField name kind "fixed_interval"
        "only one of calendar_interval and fixed_interval may be set")

def boundsOfJson (name : String) (now : Calendar.Instant) (format : Option String)
    (bounds : Json) : Except RequestError (Int × Int) := do
  let bound (field : String) : Except RequestError (Option Int) :=
    match bounds.field? field with
    | none => .ok none
    | some value =>
        match Calendar.resolveMillis now format value with
        | .ok ms => .ok (some ms)
        | .error text =>
            .error (.invalidField name "date_histogram" "extended_bounds"
              (FilterError.invalidDate text).message)
  let low ← bound "min"
  let high ← bound "max"
  match low, high with
  | some low, some high =>
      if low ≤ high then .ok (low, high)
      else .error (.invalidField name "date_histogram" "extended_bounds" "expected min <= max")
  | _, _ => .error (.invalidField name "date_histogram" "extended_bounds" "expected min <= max")

def ofJson (name : String) (now : Calendar.Instant) (body : Json) :
    Except RequestError DateHistogram := do
  let field ← match body.stringField? "field" with
    | some field => .ok field
    | none => .error (.missingField name "date_histogram" "field")
  let interval ← intervalOfJson name body
  let bounds ← match body.present? "extended_bounds" with
    | none => .ok none
    | some bounds => (boundsOfJson name now (body.stringField? "format") bounds).map some
  return ⟨field, interval, minDocCountOfJson body, bounds⟩

def expression (h : DateHistogram) : String := h.interval.expression h.field

def grid (h : DateHistogram) : Grid := h.interval.grid

/-- The declared bounds as indices of the grid. -/
def boundIndices? (h : DateHistogram) : Option (Int × Int) := do
  let (low, high) ← h.bounds
  let first ← h.interval.ofMillis? low
  let last ← h.interval.ofMillis? high
  return (h.grid.floorIndex first, h.grid.floorIndex last)

end DateHistogram
end Rollup
