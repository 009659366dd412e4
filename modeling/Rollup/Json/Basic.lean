/-
# JSON values

Objects keep the order in which their fields were written; a field set again keeps its
place. A number is an integer of 64 bits, signed or unsigned, or else a binary
floating point number.
-/

import Rollup.Number.Text

namespace Rollup

/-- A JSON number. -/
inductive Json.Number where
  | integer (value : Int)
  | floating (value : Binary64)
  deriving DecidableEq, Inhabited

/-- A JSON value. -/
inductive Json where
  | null
  | bool (value : Bool)
  | number (value : Json.Number)
  | string (value : String)
  | array (items : List Json)
  | object (fields : List (String × Json))
  deriving Inhabited

/-- The fields of an object, in order. -/
abbrev Fields := List (String × Json)

namespace Fields

/-- The value of a field. -/
def get? (fields : Fields) (name : String) : Option Json :=
  fields.lookup name

/-- Set a field: in its place when it exists, at the end otherwise. -/
def insert : Fields → String → Json → Fields
  | [], name, value => [(name, value)]
  | (key, old) :: rest, name, value =>
      if key = name then (key, value) :: rest else (key, old) :: insert rest name value

/-- Set several fields in order. -/
def insertAll (fields : Fields) (entries : List (String × Json)) : Fields :=
  entries.foldl (fun acc entry => acc.insert entry.1 entry.2) fields

/-- The fields that result from setting entries one by one. -/
def ofEntries (entries : List (String × Json)) : Fields :=
  insertAll [] entries

theorem get?_insert_self (fields : Fields) (name : String) (value : Json) :
    (fields.insert name value).get? name = some value := by
  induction fields with
  | nil => simp [insert, get?]
  | cons entry rest ih =>
      obtain ⟨key, old⟩ := entry
      by_cases h : key = name
      · simp [insert, get?, h]
      · have h' : (name == key) = false := by simpa using fun e => h e.symm
        simpa [insert, get?, h, h', List.lookup_cons] using ih

theorem get?_insert_of_ne (fields : Fields) {name other : String} (h : other ≠ name)
    (value : Json) : (fields.insert name value).get? other = fields.get? other := by
  induction fields with
  | nil =>
      have h' : (other == name) = false := by simpa using h
      simp [insert, get?, List.lookup_cons, h']
  | cons entry rest ih =>
      obtain ⟨key, old⟩ := entry
      by_cases hk : key = name
      · subst hk
        have h' : (other == key) = false := by simpa using h
        simp [insert, get?, List.lookup_cons, h']
      · by_cases ho : other = key
        · simp [insert, get?, hk, ho]
        · have h' : (other == key) = false := by simpa using ho
          simpa [insert, get?, hk, h', List.lookup_cons] using ih

end Fields

namespace Json

namespace Number

/-- The binary number nearest to a JSON number. -/
def toBinary64 : Number → Binary64
  | integer n => Binary64.ofInt n
  | floating x => x

/-- The text of a JSON number. -/
def text : Number → String
  | integer n => toString n
  | floating x => NumberStyle.interchange.write x

end Number

/-! ## Building -/

/-- An integer. -/
def ofInt (n : Int) : Json := number (.integer n)

/-- A natural number. -/
def ofNat (n : Nat) : Json := ofInt n

/-- A binary number: a small integer as an integer, any other finite number as it is, and null
for what JSON cannot write. -/
def ofBinary64 (x : Binary64) : Json :=
  match x.smallInteger? with
  | some n => ofInt n
  | none => if x.toRat?.isSome then number (.floating x) else null

/-- An optional value, null when absent. -/
def ofOption : Option Json → Json
  | some value => value
  | none => null

/-! ## Views -/

def isNull : Json → Bool
  | null => true
  | _ => false

def isArray : Json → Bool
  | array _ => true
  | _ => false

def isObject : Json → Bool
  | object _ => true
  | _ => false

def string? : Json → Option String
  | string s => some s
  | _ => none

def bool? : Json → Option Bool
  | bool b => some b
  | _ => none

def array? : Json → Option (List Json)
  | array items => some items
  | _ => none

def object? : Json → Option Fields
  | object fields => some fields
  | _ => none

/-- A number that was written as an integer not below zero. -/
def nat? : Json → Option Nat
  | number (.integer n) => if 0 ≤ n then some n.toNat else none
  | _ => none

/-- A number that was written as an integer and fits into 64 bits with a sign. -/
def int64? : Json → Option Int
  | number (.integer n) => if n ≤ Binary64.int64Max then some n else none
  | _ => none

/-- A field of an object; other values have none. -/
def field? (value : Json) (name : String) : Option Json :=
  match value with
  | object fields => Fields.get? fields name
  | _ => none

/-- A field that is present and not null. -/
def present? (value : Json) (name : String) : Option Json :=
  (value.field? name).filter fun v => !v.isNull

/-- A field that holds a string. -/
def stringField? (value : Json) (name : String) : Option String :=
  (value.field? name).bind string?

end Json
end Rollup
