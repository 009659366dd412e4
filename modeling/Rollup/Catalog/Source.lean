/-
# Where tables come from

A source of tables tells which tables a target describes. A fixed list of tables is the
simplest one.
-/

import Rollup.Catalog.Pattern
import Rollup.Catalog.Table
import Rollup.RequestError

namespace Rollup

/-- A source of tables; asking it is an action. -/
structure TableSource (m : Type → Type) where
  /-- The tables that a target describes. -/
  resolve : String → m (Except RequestError (List Table))

namespace Table

/-- The tables of a list that a target describes, in the order of the list. -/
def described (tables : List Table) (target : String) : List Table :=
  let patterns := TablePattern.ofTarget target
  tables.filter fun table =>
    patterns.any fun pattern => TablePattern.isMatch pattern table.name

end Table

/-- A fixed list of tables. -/
def TableSource.fixed {m : Type → Type} [Monad m] (tables : List Table) : TableSource m :=
  ⟨fun target => pure (.ok (Table.described tables target))⟩

theorem TableSource.fixed_resolve (tables : List Table) (target : String) :
    (TableSource.fixed (m := Id) tables).resolve target =
      pure (.ok (Table.described tables target)) := rfl

end Rollup
