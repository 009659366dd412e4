/-
# Asking the search daemon

Statements go to the daemon as a form. The daemon runs the statements of searches, and it also
says which tables there are.
-/

import Rollup.Catalog.Source
import Rollup.Daemon.Reply
import Rollup.Daemon.Tables
import Rollup.Http.Message
import Rollup.Json.Read

namespace Rollup.Daemon

/-- A connection to a daemon, and the path below which it answers. -/
structure Client (m : Type → Type) where
  connection : Http.Connection m
  base : String

/-- A path without slashes at its end. -/
def withoutSlashes (path : String) : String :=
  String.ofList (path.toList.reverse.dropWhile (· = '/')).reverse

/-- The request for a statement. -/
def statementRequest (base statement : String) : Http.Request :=
  ⟨"POST", base ++ "/sql?mode=raw", .form "query" statement⟩

/-- The body of a reply as JSON. -/
def bodyOf (reply : Http.Reply) : Except String Json :=
  match Json.read reply.body with
  | .ok body => .ok body
  | .error e => .error ("error decoding response body: " ++ e.message)

/-- Read a reply; one without success has an error. -/
def readReply (reply : Http.Reply) : Except String ResultSet := do
  let body ← bodyOf reply
  if Http.isSuccess reply.status then decode body
  else .error ((error? body).getD ("daemon returned " ++ Http.statusText reply.status))

namespace Client

variable {m : Type → Type} [Monad m]

/-- A client of a daemon; slashes at the end of its path do not count. -/
def new (connection : Http.Connection m) (base : String) : Client m :=
  ⟨connection, withoutSlashes base⟩

/-- Run one statement. -/
def run (client : Client m) (statement : String) : m (Except String ResultSet) := do
  let reply ← client.connection.send (statementRequest client.base statement)
  return reply.bind readReply

def executor (client : Client m) : Executor m := ⟨client.run⟩

/-- Run a statement about the tables themselves. -/
def ask (client : Client m) (statement : String) : ExceptT RequestError m ResultSet := do
  match ← client.run statement with
  | .ok result => return result
  | .error reason => throw (.catalog reason)

/-- The names so far, with those that a pattern describes. -/
def listNames (client : Client m) (names : List String) (pattern : String) :
    ExceptT RequestError m (List String) := do
  if isSafe pattern then
    let listed ← client.ask ("SHOW TABLES LIKE '" ++ likePattern pattern ++ "'")
    return addNames pattern names listed.rows
  else throw (.catalog ("invalid table pattern '" ++ pattern ++ "'"))

def describe (client : Client m) (name : String) : ExceptT RequestError m Table := do
  let described ← client.ask ("DESCRIBE " ++ name)
  return describeTable name described.rows

/-- The tables that a target describes, in the order of their names. -/
def resolve (client : Client m) (target : String) : ExceptT RequestError m (List Table) := do
  let names ← (TablePattern.ofTarget target).foldlM client.listNames []
  (sortedNames names).mapM client.describe

def source (client : Client m) : TableSource m := ⟨fun target => (client.resolve target).run⟩

end Client
end Rollup.Daemon
