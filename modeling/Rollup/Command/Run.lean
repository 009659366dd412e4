/-
# Running commands

A command reads files, asks the service or the daemon, and prints. A failure is told on the
standard error with the code 1.
-/

import Rollup.Command.Describe
import Rollup.Command.Invocation
import Rollup.Command.ResultText
import Rollup.Daemon.Client
import Rollup.Http.Path
import Rollup.Plan.TablePlan

namespace Rollup.Command

/-- What a command can use. -/
structure World (m : Type → Type) where
  /-- The whole standard input. -/
  standardInput : m (Except String String)
  /-- The text of a file. -/
  file : String → m (Except String String)
  service : Http.Connection m
  daemon : Http.Connection m

/-- How a command ends. -/
structure Outcome where
  code : Nat
  output : String
  errors : String
  deriving DecidableEq, Repr

variable {m : Type → Type} [Monad m]

/-- The text of a file, or an error with its name. -/
def readFile (world : World m) (path : String) : ExceptT String m String :=
  (ExceptT.mk (world.file path)).adapt fun reason => path ++ ": " ++ reason

/-- A request from its text; a blank text asks for nothing but the documents. -/
def requestOfText (text : String) : Except String Json :=
  if (Text.trimmed text).isEmpty then .ok (.object [])
  else
    match Json.read text with
    | .ok request => .ok request
    | .error e => .error ("request is not JSON: " ++ e.message)

/-- Read the request of a command. -/
def readRequest (world : World m) (path : String) : ExceptT String m Json := do
  let text ← if path = standardInput then ExceptT.mk world.standardInput else readFile world path
  ExceptT.mk (pure (requestOfText text))

/-! ## Translating -/

/-- The tables of a file. -/
def tablesOfText (text : String) : Except String (List Table) :=
  match TableFile.read text with
  | .ok tables => .ok tables
  | .error e => .error e.message

/-- The tables that some pattern of an index describes. Here an empty pattern describes the empty
name. -/
def tablesBehind (index : String) (tables : List Table) : List Table :=
  let patterns := (Text.parts ',' index).map Text.trimmed
  tables.filter fun table =>
    patterns.any fun pattern => TablePattern.isMatch pattern table.name

/-- The line that is printed for a table. -/
def planLine (plan : TablePlan) : String :=
  match plan.result with
  | .ok statement => plan.table ++ ": " ++ statement.text ++ "\n"
  | .error reason => plan.table ++ ": skipped (" ++ reason ++ ")\n"

/-- All described tables that the index is for. -/
def translateTables (world : World m) (options : TranslateOptions) :
    ExceptT String m (List Table) := do
  let described ← ExceptT.mk (pure (options.tables.mapM describedTable))
  let listed ← match options.tablesFile with
    | some path => do
        let text ← readFile world path
        ExceptT.mk (pure (tablesOfText text))
    | none => pure []
  let tables := tablesBehind options.index (described ++ listed)
  if tables.isEmpty then throw ("no described table matches '" ++ options.index ++ "'")
  else return tables

def translate (world : World m) (now : Calendar.Instant) (options : TranslateOptions) :
    ExceptT String m String := do
  let tables ← translateTables world options
  let request ← readRequest world options.request
  let settings := { Settings.standard with countColumn := options.countColumn }
  match TablePlan.ofRequest now request tables settings with
  | .ok plans => return String.join (plans.map planLine)
  | .error e => throw e.message

/-! ## Asking others -/

/-- Send a request. -/
def send (connection : Http.Connection m) (request : Http.Request) :
    ExceptT String m Http.Reply :=
  ExceptT.mk (connection.send request)

/-- JSON with a line for each part; any other text stays as it is. -/
def printable (text : String) : String :=
  match Json.read text with
  | .ok value => value.indented ++ "\n"
  | .error _ => text ++ "\n"

def search (world : World m) (index request : String) : ExceptT String m String := do
  let body ← readRequest world request
  let path := Http.targetOf ("/" ++ index ++ "/_search")
  let reply ← send world.service ⟨"POST", path, .json body⟩
  if Http.isSuccess reply.status then return printable reply.body
  else throw (Http.statusText reply.status ++ ": " ++ reply.body)

def sql (world : World m) (statement : String) : ExceptT String m String := do
  let reply ← send world.daemon (Daemon.statementRequest "" statement)
  let body ← ExceptT.mk (pure (Daemon.bodyOf reply))
  let text ← ExceptT.mk (pure (resultText body))
  return text ++ "\n"

def status (world : World m) : ExceptT String m String := do
  let reply ← send world.service ⟨"GET", "/api/status", .nothing⟩
  return printable reply.body

/-! ## Everything -/

/-- Run a command: what it prints, or why it fails. -/
def perform (world : World m) (now : Calendar.Instant) :
    Invocation → ExceptT String m String
  | .translate options => translate world now options
  | .search index request => search world index request
  | .sql statement => sql world statement
  | .status => status world

/-- The end of a command. -/
def outcomeOf : Except String String → Outcome
  | .ok output => ⟨0, output, ""⟩
  | .error reason => ⟨1, "", "Error: " ++ reason ++ "\n"⟩

def usageText : String :=
  String.intercalate "\n"
    ["Usage: kq <COMMAND>",
      "",
      "Commands:",
      "  translate [--request FILE] [--index PATTERNS] [--table NAME:FIELD,...]",
      "            [--tables-file FILE] [--count-alias NAME]",
      "            print the statement issued for each table",
      "  search    INDEX [--request FILE]",
      "            run a search through the service",
      "  sql       STATEMENT",
      "            run a statement against the search daemon",
      "  status    report the status of the service",
      ""]

/-- Run the program with its arguments. -/
def run (world : World m) (now : Calendar.Instant) (arguments : List String) : m Outcome := do
  match Invocation.read arguments with
  | .ok invocation => return outcomeOf (← (perform world now invocation).run)
  | .error .help => return ⟨0, usageText, ""⟩
  | .error .version => return ⟨0, "kq 0.1.0\n", ""⟩
  | .error .usage => return ⟨2, "", usageText⟩

end Rollup.Command
