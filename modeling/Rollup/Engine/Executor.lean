/-
# Running statements

A statement is sent as text; the answer is its rows or the reason why it failed.
-/

import Rollup.Json.Basic

namespace Rollup

/-- The rows of a result, and how many the other side says there are. -/
structure ResultSet where
  rows : List Fields
  total : Nat

namespace ResultSet

def empty : ResultSet := ⟨[], 0⟩

end ResultSet

/-- Something that runs statements. -/
structure Executor (m : Type → Type) where
  run : String → m (Except String ResultSet)

end Rollup
