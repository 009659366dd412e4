/-
# Grouped statements

A statement for one table is collected clause by clause. A select item, a condition and a
group are kept once, in the order of their first appearance; of two orders of one column the
first counts, of two values of one option the last, in the place of the first.
-/

import Rollup.Json.Print
import Rollup.Statement.Quoting

namespace Rollup

inductive Direction where
  | ascending
  | descending
  deriving DecidableEq, Repr

namespace Direction

/-- The direction of a word, in any case. -/
def read? (word : String) : Option Direction :=
  let lower := String.ofList (word.toList.map Char.toLower)
  if lower = "asc" then some ascending
  else if lower = "desc" then some descending
  else none

def keyword : Direction → String
  | ascending => "ASC"
  | descending => "DESC"

/-- Whether the direction turns an order around. -/
def isDescending : Direction → Bool
  | ascending => false
  | descending => true

end Direction

/-- An expression of the select list and its name in the result, if it has one of its own. -/
structure SelectItem where
  expression : String
  name : Option String
  deriving DecidableEq

structure Statement where
  table : String
  countColumn : String
  items : List SelectItem
  conditions : List String
  groups : List String
  orders : List (String × Direction)
  options : Fields

namespace Statement

/-- How many rows a statement asks for. -/
def rowLimit : Nat := 1000

def countExpression : String := "count(*)"

/-- A statement without clauses. -/
def empty (table countColumn : String) : Statement :=
  ⟨table, countColumn, [], [], [], [], []⟩

/-- Put an item behind others unless it is there already. -/
def addOnce {α : Type} [DecidableEq α] (items : List α) (item : α) : List α :=
  if item ∈ items then items else items ++ [item]

def select (s : Statement) (expression : String) (name : Option String) : Statement :=
  { s with items := addOnce s.items ⟨expression, name⟩ }

/-- Select the number of documents. -/
def selectCount (s : Statement) : Statement := s.select countExpression (some s.countColumn)

def addCondition (s : Statement) (condition : String) : Statement :=
  { s with conditions := addOnce s.conditions condition }

def groupBy (s : Statement) (column : String) : Statement :=
  { s with groups := addOnce s.groups column }

/-- Order by a column, unless an order of that column is there already. -/
def orderBy (s : Statement) (column : String) (direction : Direction) : Statement :=
  if s.orders.any fun order => order.1 = column then s
  else { s with orders := s.orders ++ [(column, direction)] }

def setOption (s : Statement) (name : String) (value : Json) : Statement :=
  { s with options := s.options.insert name value }

/-! ## Text -/

/-- The value of an option: a literal, and lists, objects and null as the text of their JSON. -/
def optionText (value : Json) : String :=
  match Literal.ofJson? value with
  | some literal => literal.render
  | none => quoteText value.compact

def SelectItem.text (item : SelectItem) : String :=
  match item.name with
  | some name => item.expression ++ " AS " ++ name
  | none => item.expression

/-- The select list; the number of documents is added when nothing selects it. -/
def selectList (s : Statement) : List SelectItem :=
  if s.items.any fun item => item.expression = countExpression then s.items
  else s.items ++ [⟨countExpression, some s.countColumn⟩]

/-- A clause with a keyword before its parts, or nothing when there are no parts. -/
def clause (keyword separator : String) (parts : List String) : String :=
  if parts.isEmpty then "" else keyword ++ String.intercalate separator parts

def text (s : Statement) : String :=
  "SELECT " ++ String.intercalate ", " (s.selectList.map SelectItem.text) ++
    " FROM " ++ quoteName s.table ++
    clause " WHERE " " AND " s.conditions ++
    clause " GROUP BY " ", " s.groups ++
    clause " ORDER BY " ", " (s.orders.map fun order => order.1 ++ " " ++ order.2.keyword) ++
    " LIMIT 0," ++ toString rowLimit ++
    clause " OPTION " ", " (s.options.map fun option => option.1 ++ "=" ++ optionText option.2)

end Statement
end Rollup
