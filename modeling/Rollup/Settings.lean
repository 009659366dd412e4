/-
# Settings

What the operator of the tables chooses for all requests.
-/

import Rollup.Json.Basic

namespace Rollup

structure Settings where
  /-- The column of the document count; it is lengthened where a table has such an attribute. -/
  countColumn : String
  /-- How many empty intervals are filled in at most, for each group. -/
  maxGapBuckets : Nat
  /-- Options of every statement. -/
  statementOptions : Fields

/-- The settings of someone who chooses nothing. -/
def Settings.standard : Settings := ⟨"cnt", 10000, []⟩

end Rollup
