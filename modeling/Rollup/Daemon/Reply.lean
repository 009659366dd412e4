/-
# Replies of the search daemon

A reply to a statement is a result set or a list of them, of which the first one counts. A
result set has rows under `data`, and an error may stand in it as a text or as an object with a
reason.
-/

import Rollup.Engine.Executor
import Rollup.Json.Print

namespace Rollup.Daemon

/-- The result set of a reply; an empty list has none. -/
def resultSet? : Json → Option Json
  | .array [] => none
  | .array (set :: _) => some set
  | other => some other

/-- The error of a result set. -/
def errorOf? (set : Json) : Option String :=
  match set.field? "error" with
  | some (.string text) => if text.isEmpty then none else some text
  | some (.object fields) =>
      some (((Json.object fields).stringField? "reason").getD (Json.object fields).compact)
  | _ => none

/-- The error of a reply. -/
def error? (reply : Json) : Option String := (resultSet? reply).bind errorOf?

/-- The rows of a result set; what is no object is no row. -/
def rowsOf (set : Json) : List Fields :=
  match (set.field? "data").bind Json.array? with
  | some items => items.filterMap Json.object?
  | none => []

/-- Read a reply. -/
def decode (reply : Json) : Except String ResultSet :=
  match error? reply with
  | some message => .error message
  | none =>
      match resultSet? reply with
      | none => .ok .empty
      | some set =>
          let rows := rowsOf set
          .ok ⟨rows, ((set.field? "total").bind Json.nat?).getD rows.length⟩

end Rollup.Daemon
