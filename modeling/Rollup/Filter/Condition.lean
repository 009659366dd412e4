/-
# Conditions

A condition is a tree of conjunctions, disjunctions and negations over comparisons. Conjunctions
and disjunctions are written in parentheses, so that a condition can stand next to others as it
is; a negation puts parentheses around a comparison.
-/

import Rollup.Statement.Quoting

namespace Rollup

/-- A comparison operator of a range. -/
inductive Comparison where
  | atLeast
  | above
  | atMost
  | below
  deriving DecidableEq, Repr

def Comparison.symbol : Comparison → String
  | atLeast => ">="
  | above => ">"
  | atMost => "<="
  | below => "<"

/-- A comparison of one attribute, or a search in the full text. -/
inductive Atom where
  | equals (field : String) (value : Statement.Literal)
  | isIn (field : String) (values : List Statement.Literal)
  | compares (field : String) (comparison : Comparison) (bound : Statement.Literal)
  | isPresent (field : String)
  | matchesText (query : String)
  deriving DecidableEq

namespace Atom

/-- The attribute that a comparison reads; a search in the full text reads none. -/
def field? : Atom → Option String
  | equals field _ => some field
  | isIn field _ => some field
  | compares field _ _ => some field
  | isPresent field => some field
  | matchesText _ => none

/-- Whether this is a search in the full text. -/
def isFullText : Atom → Bool
  | matchesText _ => true
  | _ => false

open Statement in
def text : Atom → String
  | equals field value => quoteName field ++ " = " ++ value.render
  | isIn field values =>
      quoteName field ++ " IN (" ++ String.intercalate ", " (values.map Literal.render) ++ ")"
  | compares field comparison bound =>
      quoteName field ++ " " ++ comparison.symbol ++ " " ++ bound.render
  | isPresent field => quoteName field ++ " IS NOT NULL"
  | matchesText query => "MATCH(" ++ quoteText query ++ ")"

end Atom

/-- A boolean combination of atoms. -/
inductive Condition where
  | atom (a : Atom)
  | all (parts : List Condition)
  | any (parts : List Condition)
  | not (part : Condition)

namespace Condition

/-- The conjunction of conditions: nothing without parts, a single part as it is. -/
def conjunction : List Condition → Option Condition
  | [] => none
  | [part] => some part
  | parts => some (all parts)

/-- The disjunction of conditions: nothing without parts, a single part as it is. -/
def disjunction : List Condition → Option Condition
  | [] => none
  | [part] => some part
  | parts => some (any parts)

/-- Whether the text of a condition has parentheses around it already. -/
def isEnclosed : Condition → Bool
  | all _ => true
  | any _ => true
  | _ => false

mutual

def text : Condition → String
  | atom a => a.text
  | all parts => "(" ++ String.intercalate " AND " (texts parts) ++ ")"
  | any parts => "(" ++ String.intercalate " OR " (texts parts) ++ ")"
  | not part => "NOT " ++ if part.isEnclosed then text part else "(" ++ text part ++ ")"

def texts : List Condition → List String
  | [] => []
  | part :: rest => text part :: texts rest

end

mutual

/-- The atoms of a condition from left to right. -/
def atoms : Condition → List Atom
  | atom a => [a]
  | all parts => atomsOf parts
  | any parts => atomsOf parts
  | not part => atoms part

def atomsOf : List Condition → List Atom
  | [] => []
  | part :: rest => atoms part ++ atomsOf rest

end

mutual

/-- The truth of a condition when every atom has a truth value. -/
def holds (truth : Atom → Bool) : Condition → Bool
  | atom a => truth a
  | all parts => holdsAll truth parts
  | any parts => holdsAny truth parts
  | not part => !holds truth part

def holdsAll (truth : Atom → Bool) : List Condition → Bool
  | [] => true
  | part :: rest => holds truth part && holdsAll truth rest

def holdsAny (truth : Atom → Bool) : List Condition → Bool
  | [] => false
  | part :: rest => holds truth part || holdsAny truth rest

end

theorem holdsAll_eq_all (truth : Atom → Bool) (parts : List Condition) :
    holdsAll truth parts = parts.all (holds truth) := by
  induction parts with
  | nil => rfl
  | cons part rest ih => simp [holdsAll, ih]

theorem holdsAny_eq_any (truth : Atom → Bool) (parts : List Condition) :
    holdsAny truth parts = parts.any (holds truth) := by
  induction parts with
  | nil => rfl
  | cons part rest ih => simp [holdsAny, ih]

end Condition
end Rollup
