/-
# The service

The service answers searches over HTTP, and says how it would answer them. A request that fails
is rejected with a status: 400 when the request is at fault, 404 without a table, and 502 when
the daemon fails.
-/

import Rollup.Engine.Search

namespace Rollup.Service

structure Rejection where
  status : Nat
  message : String
  deriving DecidableEq, Repr

def statusOf : RequestError → Nat
  | .noTables _ => 404
  | .catalog _ => 502
  | .execution .. => 502
  | _ => 400

def reject (e : RequestError) : Rejection := ⟨statusOf e, e.message⟩

variable {m : Type → Type} [Monad m]

/-- Turn errors into rejections. -/
def rejecting {α : Type} (act : ExceptT RequestError m α) : ExceptT Rejection m α :=
  act.adapt reject

/-- A request without a body asks for nothing but the documents. -/
def requestOf (body : Option Json) : Json := body.getD (.object [])

/-- Search the tables behind an index. -/
def search (engine : Engine m) (now : Calendar.Instant) (index : String) (body : Option Json) :
    ExceptT Rejection m Response :=
  rejecting (engine.search now index (requestOf body))

/-- What to say about a request: its index and itself. -/
structure TranslateCall where
  index : String
  request : Json

/-- A missing or null request asks for nothing but the documents. -/
def nullAsEmpty (request : Json) : Json :=
  if request.isNull then .object [] else request

/-- Read a call: an object, or a list of the index and the request. -/
def TranslateCall.ofJson? : Json → Option TranslateCall
  | .object fields =>
      match Fields.get? fields "index" with
      | some (.string index) =>
          some ⟨index, nullAsEmpty ((Fields.get? fields "body").getD .null)⟩
      | _ => none
  | .array [.string index] => some ⟨index, nullAsEmpty .null⟩
  | .array [.string index, request] => some ⟨index, nullAsEmpty request⟩
  | _ => none

/-- The plans for the tables behind an index. -/
def translate (engine : Engine m) (now : Calendar.Instant) (call : TranslateCall) :
    ExceptT Rejection m (List TablePlan) :=
  rejecting (engine.translate now call.index call.request)

/-- The settings that the service reports. -/
def status (settings : Settings) : Json :=
  .object
    [("count_alias", .string settings.countColumn),
      ("max_gap_buckets", .ofNat settings.maxGapBuckets)]

end Rollup.Service
