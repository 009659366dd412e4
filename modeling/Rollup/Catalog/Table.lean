/-
# Tables

A table has a name and attributes in the order of their names. An attribute that is only
searchable as text cannot be grouped by.
-/

namespace Rollup

structure Table where
  name : String
  /-- Every attribute, and whether it can be grouped by and aggregated. -/
  fields : List (String × Bool)
  deriving DecidableEq, Repr

namespace Table

/-- Set an attribute, keeping the names in ascending order. -/
def insertField : List (String × Bool) → String → Bool → List (String × Bool)
  | [], name, usable => [(name, usable)]
  | (key, old) :: rest, name, usable =>
      if name = key then (key, usable) :: rest
      else if name < key then (name, usable) :: (key, old) :: rest
      else (key, old) :: insertField rest name usable

/-- A table with attributes set in order. -/
def ofFields (name : String) (fields : List (String × Bool)) : Table :=
  ⟨name, fields.foldl (fun acc field => insertField acc field.1 field.2) []⟩

def has (t : Table) (field : String) : Bool := (t.fields.lookup field).isSome

/-- Whether an attribute can be grouped by and aggregated. -/
def isAggregatable (t : Table) (field : String) : Bool := (t.fields.lookup field).getD false

def fieldNames (t : Table) : List String := t.fields.map Prod.fst

theorem lookup_insertField_self (fields : List (String × Bool)) (name : String) (usable : Bool) :
    (insertField fields name usable).lookup name = some usable := by
  induction fields with
  | nil => simp [insertField]
  | cons field rest ih =>
      obtain ⟨key, old⟩ := field
      unfold insertField
      split
      · rename_i h
        simp [h]
      · split
        · simp
        · rename_i h _
          have h' : (name == key) = false := by simpa using h
          simpa [List.lookup_cons, h'] using ih

end Table
end Rollup
