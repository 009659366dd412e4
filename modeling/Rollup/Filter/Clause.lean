/-
# Query clauses

A clause is a JSON tree of boolean blocks and leaves. It is read into a condition, or into no
condition when it restricts nothing. The atoms that were met on the way are kept in order, also
those of optional clauses that the block then leaves out.
-/

import Rollup.Calendar.Expression
import Rollup.Filter.Condition

namespace Rollup

/-- Why a clause cannot be read. -/
inductive FilterError where
  | unsupported (kind : String)
  | malformed (clause reason : String)
  | invalidDate (text : String)
  deriving DecidableEq

def FilterError.message : FilterError → String
  | unsupported kind => "unsupported clause '" ++ kind ++ "'"
  | malformed clause reason => "malformed '" ++ clause ++ "' clause: " ++ reason
  | invalidDate text => "cannot parse date '" ++ text ++ "'"

/-- A clause that restricts something: its condition and the atoms met in it. -/
structure Filter where
  condition : Condition
  met : List Atom

namespace Filter

/-- The text of the condition. -/
def text (f : Filter) : String := f.condition.text

/-- The attributes met, each once, in the order of first use. -/
def fields (f : Filter) : List String := (f.met.filterMap Atom.field?).eraseDups

/-- Whether a search in the full text was met. -/
def isFullText (f : Filter) : Bool := f.met.any Atom.isFullText

end Filter

namespace Clause

/-- A clause that was read: a condition or no restriction, and the atoms met. -/
structure Outcome where
  condition : Option Condition
  met : List Atom

/-- The result of reading one clause. -/
abbrev Result := Except FilterError Outcome

/-- No restriction. -/
def unrestricted : Outcome := ⟨none, []⟩

/-- One comparison. -/
def single (a : Atom) : Outcome := ⟨some (.atom a), [a]⟩

/-- All results in order, or the first error. -/
def sequence : List Result → Except FilterError (List Outcome)
  | [] => .ok []
  | result :: rest => do
      let outcome ← result
      let outcomes ← sequence rest
      return outcome :: outcomes

/-- The conditions of those clauses that restrict something. -/
def conditions (outcomes : List Outcome) : List Condition :=
  outcomes.filterMap Outcome.condition

/-- The atoms met in clauses. -/
def metIn (outcomes : List Outcome) : List Atom :=
  outcomes.flatMap Outcome.met

/-- The conjunction of clauses. -/
def conjoin (results : List Result) : Result := do
  let outcomes ← sequence results
  return ⟨Condition.conjunction (conditions outcomes), metIn outcomes⟩

/-! ## Leaves -/

/-- The attribute of a leaf and what it is compared with: the first field but the boost. -/
def singleField (clause : String) (body : Json) : Except FilterError (String × Json) :=
  match body.object?.bind fun fields => fields.find? fun field => field.1 ≠ "boost" with
  | some field => .ok field
  | none => .error (.malformed clause "expected a field")

/-- An equality. The value may stand inside an object, under one of two names. -/
def equality (kind : String) (body : Json) : Result := do
  let (field, value) ← singleField kind body
  let value ← match value with
    | .object inner =>
        match (Fields.get? inner "value").or (Fields.get? inner "query") with
        | some value => .ok value
        | none => .error (.malformed kind "missing 'query'")
    | scalar => .ok scalar
  match Statement.Literal.ofJson? value with
  | some literal => .ok (single (.equals field literal))
  | none => .error (.malformed kind "value is not a scalar")

/-- Membership in a list of values. -/
def membership (body : Json) : Result := do
  let (field, values) ← singleField "terms" body
  match values with
  | .array [] => .error (.malformed "terms" "expected a non-empty list")
  | .array items =>
      match items.mapM Statement.Literal.ofJson? with
      | some literals => .ok (single (.isIn field literals))
      | none => .error (.malformed "terms" "value is not a scalar")
  | _ => .error (.malformed "terms" "expected a non-empty list")

/-- Whether a bound of a range is a date: a text that is no number, or any text under a format,
or a number under an epoch format. -/
def isDateBound (format : Option String) : Json → Bool
  | .string s => format.isSome || (Binary64.readTrimmed? s).isNone
  | .number _ =>
      match format with
      | some f => Calendar.occursIn "epoch".toList f.toList
      | none => false
  | _ => false

/-- The bounds of a range and their names, in the order in which they are written. -/
def boundNames : List (String × Comparison) :=
  [("gte", .atLeast), ("gt", .above), ("lte", .atMost), ("lt", .below)]

/-- The literal of a bound. Dates become whole seconds. -/
def boundLiteral (now : Calendar.Instant) (format : Option String) (value : Json) :
    Except FilterError Statement.Literal :=
  if isDateBound format value then
    match Calendar.resolveMillis now format value with
    | .ok ms => .ok (.number (.integer (ms / 1000)))
    | .error text => .error (.invalidDate text)
  else
    match Statement.Literal.ofJson? value with
    | some literal => .ok literal
    | none => .error (.malformed "range" "bound is not a scalar")

/-- A range with at least one bound. -/
def range (now : Calendar.Instant) (body : Json) : Result := do
  let (field, bounds) ← singleField "range" body
  match bounds with
  | .object _ =>
      let format := bounds.stringField? "format"
      let present := boundNames.filterMap fun (name, comparison) =>
        (bounds.present? name).map fun value => (comparison, value)
      let atoms ← present.mapM fun (comparison, value) => do
        let literal ← boundLiteral now format value
        return Atom.compares field comparison literal
      match Condition.conjunction (atoms.map Condition.atom) with
      | some condition => .ok ⟨some condition, atoms⟩
      | none => .error (.malformed "range" "no bounds")
  | _ => .error (.malformed "range" "expected bounds object")

/-- A test whether an attribute is set. -/
def presence (kind : String) (body : Json) : Result :=
  match body.stringField? "field" with
  | some field => .ok (single (.isPresent field))
  | none => .error (.malformed kind "missing 'field'")

/-- A search in the full text; nothing and a lone star search for nothing. -/
def fullText (kind : String) (body : Json) : Result :=
  match body.stringField? "query" with
  | some query =>
      let query := Text.trimmed query
      if query = "" ∨ query = "*" then .ok unrestricted else .ok (single (.matchesText query))
  | none => .error (.malformed kind "missing 'query'")

/-! ## Boolean blocks -/

/-- How many optional clauses of a block must hold: what it says when that is an integer,
otherwise one if nothing is required and none if something is. -/
def minimumOptional (fields : Fields) (required : List Condition) : Int :=
  let stated := (Fields.get? fields "minimum_should_match").bind fun value =>
    value.int64?.or (value.string?.bind fun s => Text.readSigned64? s.toList)
  stated.getD (if required.isEmpty then 1 else 0)

/-- The block of clauses under their names: required ones, optional ones, of which any suffices
when the block asks for one at least, and forbidden ones. -/
def block (fields : Fields) (occurrences : List (String × List Result)) : Result := do
  let under (name : String) : List Result := (occurrences.lookup name).getD []
  let must ← sequence (under "must")
  let filter ← sequence (under "filter")
  let optional ← sequence (under "should")
  let required := conditions must ++ conditions filter
  let chosen := if 0 < minimumOptional fields required then
      (Condition.disjunction (conditions optional)).toList
    else []
  let forbidden ← sequence (under "must_not")
  let parts := required ++ chosen ++ (conditions forbidden).map Condition.not
  return ⟨Condition.conjunction parts, metIn (must ++ filter ++ optional ++ forbidden)⟩

/-- A leaf of any kind but a boolean block. -/
def leafOf (now : Calendar.Instant) (kind : String) (body : Json) : Result :=
  if kind = "match_all" then .ok unrestricted
  else if kind = "term" ∨ kind = "match" ∨ kind = "match_phrase" then equality kind body
  else if kind = "terms" then membership body
  else if kind = "range" then range now body
  else if kind = "exists" then presence kind body
  else if kind = "query_string" ∨ kind = "simple_query_string" then fullText kind body
  else .error (.unsupported kind)

/-- A scalar is no clause. -/
def noClause (value : Json) : Result :=
  .error (.malformed "clause" ("unexpected " ++ value.compact))

mutual

/-- Read a clause. An object and a list are the conjunctions of their parts. -/
def read (now : Calendar.Instant) : Json → Result
  | .null => .ok unrestricted
  | .object fields => conjoin (readLeaves now fields)
  | .array items => conjoin (readAll now items)
  | .bool b => noClause (.bool b)
  | .number n => noClause (.number n)
  | .string s => noClause (.string s)

def readAll (now : Calendar.Instant) : List Json → List Result
  | [] => []
  | item :: rest => read now item :: readAll now rest

def readLeaves (now : Calendar.Instant) : List (String × Json) → List Result
  | [] => []
  | (kind, body) :: rest => readLeaf now kind body :: readLeaves now rest

def readLeaf (now : Calendar.Instant) (kind : String) : Json → Result
  | .object fields =>
      if kind = "bool" then block fields (readOccurrences now fields)
      else leafOf now kind (.object fields)
  | .null => readScalarLeaf now kind .null
  | .bool b => readScalarLeaf now kind (.bool b)
  | .number n => readScalarLeaf now kind (.number n)
  | .string s => readScalarLeaf now kind (.string s)
  | .array items => readScalarLeaf now kind (.array items)

/-- A leaf whose body is no object. -/
def readScalarLeaf (now : Calendar.Instant) (kind : String) (body : Json) : Result :=
  if kind = "bool" then .error (.malformed "bool" "expected an object") else leafOf now kind body

/-- The clauses under each name of a boolean block: a list of clauses or one clause. -/
def readOccurrences (now : Calendar.Instant) :
    List (String × Json) → List (String × List Result)
  | [] => []
  | (name, .array items) :: rest => (name, readAll now items) :: readOccurrences now rest
  | (name, .object fields) :: rest =>
      (name, [conjoin (readLeaves now fields)]) :: readOccurrences now rest
  | (name, .null) :: rest => (name, []) :: readOccurrences now rest
  | (name, .bool b) :: rest => (name, [noClause (.bool b)]) :: readOccurrences now rest
  | (name, .number n) :: rest => (name, [noClause (.number n)]) :: readOccurrences now rest
  | (name, .string s) :: rest => (name, [noClause (.string s)]) :: readOccurrences now rest

end

/-- Read a clause into a filter, or into nothing when it does not restrict. -/
def compile (now : Calendar.Instant) (clause : Json) : Except FilterError (Option Filter) := do
  let outcome ← read now clause
  return outcome.condition.map fun condition => ⟨condition, outcome.met⟩

mutual

/-- Whether a value holds any data: a scalar other than null and the empty text, anywhere but
below the field that matches everything. -/
def hasData : Json → Bool
  | .null => false
  | .string s => s ≠ ""
  | .bool _ => true
  | .number _ => true
  | .array items => itemsHaveData items
  | .object fields => fieldsHaveData fields

def itemsHaveData : List Json → Bool
  | [] => false
  | item :: rest => hasData item || itemsHaveData rest

def fieldsHaveData : List (String × Json) → Bool
  | [] => false
  | (name, value) :: rest => (name ≠ "match_all" && hasData value) || fieldsHaveData rest

end

end Clause
end Rollup
