/-
# Why a request has no answer

Some causes lie in the request itself; the others lie behind it, in the tables and in the
program that runs the statements.
-/

import Rollup.Filter.Clause

namespace Rollup

inductive RequestError where
  /-- The request is no object, or a block in it is none. -/
  | malformed (reason : String)
  /-- An aggregation lacks a field that its kind needs. -/
  | missingField (name kind field : String)
  /-- A field of an aggregation has a value that its kind cannot use. -/
  | invalidField (name kind field reason : String)
  /-- An aggregation has no kind or several. -/
  | notOneKind (name : String) (found : List String)
  /-- The query cannot be read. -/
  | unsupportedQuery (cause : FilterError)
  /-- No table has a name that the target describes. -/
  | noTables (target : String)
  /-- The tables cannot be listed. -/
  | catalog (reason : String)
  /-- A statement failed. -/
  | execution (table reason : String)

namespace RequestError

def message : RequestError → String
  | malformed reason => "malformed request: " ++ reason
  | missingField name kind field =>
      "aggregation '" ++ name ++ "' of kind '" ++ kind ++ "' requires '" ++ field ++ "'"
  | invalidField name kind field reason =>
      "aggregation '" ++ name ++ "' of kind '" ++ kind ++ "' has an invalid '" ++ field ++ "': " ++
        reason
  | notOneKind name found =>
      "aggregation '" ++ name ++ "' must declare exactly one kind, found " ++
        if found.isEmpty then "none" else String.intercalate ", " found
  | unsupportedQuery cause => "unsupported query: " ++ cause.message
  | noTables target => "no physical table matches '" ++ target ++ "'"
  | catalog reason => "catalog lookup failed: " ++ reason
  | execution table reason => "query against '" ++ table ++ "' failed: " ++ reason

/-- Whether the request itself is at fault. -/
def isRequestFault : RequestError → Bool
  | malformed _ => true
  | missingField .. => true
  | invalidField .. => true
  | notOneKind .. => true
  | unsupportedQuery _ => true
  | noTables _ => false
  | catalog _ => false
  | execution .. => false

end RequestError
end Rollup
