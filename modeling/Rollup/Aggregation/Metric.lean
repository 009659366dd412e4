/-
# Metrics

A metric is a function over the numbers of an attribute. The statement computes it for every
group; a tally merges the values of groups into the value of their union. Means are weighted
by the sizes of the groups.
-/

import Rollup.RequestError

namespace Rollup

inductive MetricFunction where
  | avg
  | sum
  | min
  | max
  deriving DecidableEq, Repr

namespace MetricFunction

def name : MetricFunction → String
  | avg => "avg"
  | sum => "sum"
  | min => "min"
  | max => "max"

def ofName? (name : String) : Option MetricFunction :=
  [avg, sum, min, max].find? fun f => f.name = name

end MetricFunction

structure Metric where
  function : MetricFunction
  field : String
  deriving DecidableEq

namespace Metric

def ofJson (name : String) (function : MetricFunction) (body : Json) :
    Except RequestError Metric :=
  match body.stringField? "field" with
  | some field => .ok ⟨function, field⟩
  | none => .error (.missingField name function.name "field")

/-- The expression that computes the metric of a group. -/
def expression (m : Metric) : String :=
  m.function.name ++ "(" ++ Statement.quoteName m.field ++ ")"

end Metric

/-- Values of groups merged so far. -/
structure Tally where
  function : MetricFunction
  total : Binary64
  weight : Binary64
  extreme : Option Binary64
  seen : Bool
  deriving DecidableEq

namespace Tally

/-- The tally of no group. -/
def empty (function : MetricFunction) : Tally := ⟨function, 0, 0, none, false⟩

/-- Add the value of a group of some size. -/
def add (t : Tally) (value : Binary64) (size : Nat) : Tally :=
  match t.function with
  | .avg =>
      let weight := Binary64.ofInt size
      { t with total := t.total + value * weight, weight := t.weight + weight, seen := true }
  | .sum => { t with total := t.total + value, seen := true }
  | .min =>
      let extreme := match t.extreme with
        | some least => least.min value
        | none => value
      { t with extreme := some extreme, seen := true }
  | .max =>
      let extreme := match t.extreme with
        | some greatest => greatest.max value
        | none => value
      { t with extreme := some extreme, seen := true }

/-- The value of the union. The sum of no group is zero; the other functions have no value then. -/
def result? (t : Tally) : Option Binary64 :=
  match t.function with
  | .avg => if Binary64.less 0 t.weight then some (t.total / t.weight) else none
  | .sum => some t.total
  | .min => t.extreme
  | .max => t.extreme

/-- Whether no group was added. -/
def isEmpty (t : Tally) : Bool := !t.seen

theorem result?_empty_sum : (empty .sum).result? = some 0 := rfl

theorem function_add (t : Tally) (value : Binary64) (size : Nat) :
    (t.add value size).function = t.function := by
  unfold add
  split <;> rfl

end Tally
end Rollup
