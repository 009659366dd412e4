/-
# Commands

The four commands and the arguments that each of them takes.
-/

import Rollup.Command.Arguments

namespace Rollup.Command

/-- What `translate` is given. -/
structure TranslateOptions where
  /-- The file of the request, a dash for the standard input. -/
  request : String
  /-- Patterns of the tables that the request is for. -/
  index : String
  /-- Descriptions of tables. -/
  tables : List String
  /-- A file with more tables. -/
  tablesFile : Option String
  countColumn : String
  deriving DecidableEq, Repr

inductive Invocation where
  /-- Print the statement for each table. -/
  | translate (options : TranslateOptions)
  /-- Search through the service. -/
  | search (index request : String)
  /-- Run a statement. -/
  | sql (statement : String)
  /-- Ask the service for its status. -/
  | status
  deriving DecidableEq, Repr

/-- Stands for the standard input where a file is named. -/
def standardInput : String := "-"

/-- The option that names the file of the request. -/
def requestOption : OptionShape := ⟨"request", false, true⟩

def translateShape : Shape :=
  ⟨[requestOption, ⟨"index", false, false⟩, ⟨"table", true, false⟩, ⟨"tables-file", false, true⟩,
    ⟨"count-alias", false, false⟩], false⟩

def searchShape : Shape := ⟨[requestOption], true⟩

def sqlShape : Shape := ⟨[], true⟩

def statusShape : Shape := ⟨[], false⟩

def commandNames : List String := ["translate", "search", "sql", "status"]

/-- Read all arguments of the program. -/
def Invocation.read : List String → Except Halt Invocation
  | "translate" :: rest => do
      let a ← readArguments translateShape rest
      return .translate
        { request := (a.value? "request").getD standardInput
          index := (a.value? "index").getD "*"
          tables := a.allValues "table"
          tablesFile := a.value? "tables-file"
          countColumn := (a.value? "count-alias").getD "cnt" }
  | "search" :: rest => do
      let a ← readArguments searchShape rest
      return .search (a.positional.getD "") ((a.value? "request").getD standardInput)
  | "sql" :: rest => do
      let a ← readArguments sqlShape rest
      return .sql (a.positional.getD "")
  | "status" :: rest => do
      let _ ← readArguments statusShape rest
      return .status
  | ["help"] => .error .help
  | ["help", name] => .error (if commandNames.contains name || name = "help" then .help else .usage)
  | "--help" :: _ => .error .help
  | "--version" :: _ => .error .version
  | first :: _ =>
      match lookOf first with
      | .short ('h' :: _) => .error .help
      | .short ('V' :: _) => .error .version
      | _ => .error .usage
  | [] => .error .usage

end Rollup.Command
