/-
# Requests

A request is an optional query and a forest of aggregations. A branch of the forest is one
aggregation with its name: the legs of a filter aggregation, or a single node of another kind,
and the branches below it, which all legs share.
-/

import Rollup.Aggregation.Basic

namespace Rollup

/-- One aggregation of a request and the aggregations below it. -/
inductive Branch where
  | node (name : String) (legs : List Aggregation) (children : List Branch)

structure Request where
  query : Option Aggregation
  branches : List Branch

namespace Request

/-- The two names under which a block of aggregations may stand; the second one counts when both
are there. -/
def blockNames : List String := ["aggs", "aggregations"]

/-- Fields beside the kind of an aggregation. -/
def isKindName (field : String) : Bool := !blockNames.contains field && field ≠ "meta"

/-- The name of the block of an object, if it has one. -/
def blockName? (owner : String) (fields : Fields) : Except RequestError (Option String) :=
  blockNames.foldlM (fun found name =>
    match Fields.get? fields name with
    | none => .ok found
    | some .null => .ok found
    | some (.object _) => .ok (some name)
    | some _ =>
        .error (.malformed ("'" ++ name ++ "' of '" ++ owner ++ "' must be an object"))) none

/-- The entries of a block in the order of the forest: names in the order written, then numbers in
ascending order. -/
def orderedEntries {α : Type} (entries : List (String × α)) : List α :=
  let number (name : String) := Text.readUnsigned64? name.toList
  let named := entries.filter fun entry => (number entry.1).isNone
  let numbered := entries.filterMap fun entry => (number entry.1).map fun n => (n, entry.2)
  named.map Prod.snd ++
    (Order.sortBy (fun a b => compare a.1 b.1) numbered).map Prod.snd

/-- The legs of a filter aggregation with several: the shape of its buckets, and a label and a
clause for each. -/
def legsOfJson (name : String) (body : Json) :
    Except RequestError (LegShape × List (String × Json)) :=
  let legs : Except RequestError (LegShape × List (String × Json)) :=
    match body.field? "filters" with
    | some (.object named) => .ok (LegShape.named, named)
    | some (.array items) =>
        .ok (LegShape.anonymous, items.zipIdx.map fun (clause, i) => (toString i, clause))
    | some _ =>
        .error (.invalidField name "filters" "filters" "expected an object or a list")
    | none => .error (.missingField name "filters" "filters")
  match legs with
  | .ok (_, []) =>
      .error (.invalidField name "filters" "filters" "at least one filter is required")
  | legs => legs

/-- The nodes of one aggregation. -/
def nodesOfKind (now : Calendar.Instant) (name kind : String) (body : Json) :
    Except RequestError (List Aggregation) :=
  if kind = "filters" then do
    let (shape, legs) ← legsOfJson name body
    let labels := legs.map Prod.fst
    return legs.zipIdx.map fun ((_, clause), i) => Aggregation.legOf now shape i labels clause
  else if kind = "filter" then
    .ok [Aggregation.legOf now .single 0 [name] body]
  else if kind = "query" then
    .error (.invalidField name "query" "query" "only allowed at the top level")
  else do
    let aggregation ← Aggregation.ofKind now name kind body
    return [aggregation]

/-- The first error, or all results. -/
def gather : List (Except RequestError Branch) → Except RequestError (List Branch)
  | [] => .ok []
  | result :: rest => do
      let branch ← result
      let branches ← gather rest
      return branch :: branches

/-- A branch from the fields of its object and the entries of the blocks in it. -/
def assemble (now : Calendar.Instant) (name : String) (fields : Fields)
    (blocks : List (String × List (String × Except RequestError Branch))) :
    Except RequestError Branch := do
  let kinds := fields.filter fun field => isKindName field.1
  match kinds with
  | [(kind, body)] =>
      let block ← blockName? name fields
      let entries := (block.bind fun block => blocks.lookup block).getD []
      let legs ← nodesOfKind now name kind body
      if legs.any Aggregation.isMetric && !entries.isEmpty then
        .error (.invalidField name kind "aggs" "metrics cannot have sub-aggregations")
      else
        let children ← gather (orderedEntries entries)
        return .node name legs children
  | _ => .error (.notOneKind name (kinds.map Prod.fst))

mutual

/-- One aggregation under its name. -/
def readBranch (now : Calendar.Instant) (name : String) : Json → Except RequestError Branch
  | .object fields => assemble now name fields (readBlocks now fields)
  | _ => .error (.malformed ("aggregation '" ++ name ++ "' must be an object"))

/-- The entries of a block. -/
def readEntries (now : Calendar.Instant) :
    List (String × Json) → List (String × Except RequestError Branch)
  | [] => []
  | (name, body) :: rest => (name, readBranch now name body) :: readEntries now rest

/-- The entries of all blocks among the fields of an object. -/
def readBlocks (now : Calendar.Instant) :
    List (String × Json) → List (String × List (String × Except RequestError Branch))
  | [] => []
  | (name, .object fields) :: rest =>
      if blockNames.contains name then (name, readEntries now fields) :: readBlocks now rest
      else readBlocks now rest
  | _ :: rest => readBlocks now rest

end

/-- The query of a request: an object, or nothing. -/
def readQuery (now : Calendar.Instant) (fields : Fields) :
    Except RequestError (Option Aggregation) :=
  match Fields.get? fields "query" with
  | none => .ok none
  | some .null => .ok none
  | some (.object clause) => (Aggregation.queryOf now (.object clause)).map some
  | some _ => .error (.malformed "'query' must be an object")

/-- Read a request, `now` being the present for all dates in it. -/
def ofJson (now : Calendar.Instant) (request : Json) : Except RequestError Request :=
  match request with
  | .object fields => do
      let query ← readQuery now fields
      let block ← blockName? "request" fields
      let entries := (block.bind fun block => (readBlocks now fields).lookup block).getD []
      let branches ← gather (orderedEntries entries)
      return ⟨query, branches⟩
  | _ => .error (.malformed "request body must be an object")

end Request
end Rollup
