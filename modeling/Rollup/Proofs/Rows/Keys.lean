/-
# Group keys and the groups they tell

Rows belong together when their cells have the same identities in some columns, and the same cells
of them are null. A group key puts the identities behind one another with a separator between them,
so it tells such groups only as long as texts do not shift the separators, and as long as no text
passes for null. Where it tells them, the order of rows, the settling of rows that miss a filter and
the filling of empty intervals each treat a row by the group it belongs to.
-/

import Rollup.Proofs.Json.Printed
import Rollup.Proofs.Rows.Sorted

namespace Rollup

namespace Cell

/-! ## Identities of cells -/

/-- Control characters stand only in the identities of null and of texts. -/
theorem isGraphic_key {cell : Json} (hnull : cell.isNull = false)
    (htext : cell.string? = none) : Text.IsGraphic (key cell) := by
  cases cell with
  | null => cases hnull
  | string s => cases htext
  | number n => exact n.toBinary64.isGraphic_text
  | bool b => exact (Json.bool b).isGraphic_compact
  | array items => exact (Json.array items).isGraphic_compact
  | object fields => exact (Json.object fields).isGraphic_compact

/-- What has the identity of null is null, or the text of one null character. -/
theorem key_eq_key_null_iff (cell : Json) :
    key cell = key .null ↔ cell = .null ∨ cell = .string "\x00" := by
  constructor
  · intro h
    cases hnull : cell.isNull with
    | true => exact Or.inl (by cases cell <;> first | rfl | cases hnull)
    | false =>
        cases htext : cell.string? with
        | none =>
            have hgraphic := isGraphic_key hnull htext
            rw [h] at hgraphic
            exact absurd hgraphic (by decide)
        | some s =>
            obtain rfl : cell = .string s := by
              cases cell <;> first | cases htext; rfl | cases htext
            exact Or.inr (congrArg Json.string h)
  · rintro (rfl | rfl) <;> rfl

/-- Whether a cell is no text with a separator, and not the text that passes for null. -/
def IsTold (cell : Json) : Prop :=
  ∀ s, cell.string? = some s → '\x1f' ∉ s.toList ∧ s ≠ "\x00"

theorem IsTold.separatorCount_eq_zero {cell : Json} (h : IsTold cell) :
    separatorCount cell = 0 := by
  rw [separatorCount, List.count_eq_zero]
  cases hnull : cell.isNull with
  | true =>
      obtain rfl : cell = .null := by cases cell <;> first | rfl | cases hnull
      decide
  | false =>
      cases htext : cell.string? with
      | none => exact (isGraphic_key hnull htext).not_mem (by decide)
      | some s =>
          obtain rfl : cell = .string s := by
            cases cell <;> first | cases htext; rfl | cases htext
          exact (h s htext).1

/-- A cell that is told apart from null has another identity. -/
theorem IsTold.isNull_eq {cell other : Json} (hcell : IsTold cell) (hother : IsTold other)
    (hkey : key cell = key other) : cell.isNull = other.isNull := by
  have hnull {a b : Json} (hb : IsTold b) (hkey : key a = key b) (ha : a.isNull = true) :
      b.isNull = true := by
    obtain rfl : a = .null := by cases a <;> first | rfl | cases ha
    rcases (key_eq_key_null_iff b).mp hkey.symm with rfl | rfl
    · rfl
    · exact absurd rfl (hb _ rfl).2
  exact Bool.eq_iff_iff.mpr ⟨hnull hother hkey, hnull hcell hkey.symm⟩

end Cell

namespace Row

/-! ## Rows of one group -/

/-- Whether two rows belong to one group over some columns: their cells have the same identities
there, and the same of them are null. -/
def SharesGroup (columns : List String) (row other : Row) : Prop :=
  ∀ column ∈ columns, Cell.key (row.cellOrNull column) = Cell.key (other.cellOrNull column) ∧
    (row.cellOrNull column).isNull = (other.cellOrNull column).isNull

instance (columns : List String) (row other : Row) : Decidable (row.SharesGroup columns other) :=
  inferInstanceAs (Decidable (∀ column ∈ columns, _ ∧ _))

variable {columns : List String} {row other : Row}

/-- Rows of one group have one key. -/
theorem SharesGroup.groupKey_eq (h : row.SharesGroup columns other) :
    row.groupKey columns = other.groupKey columns := by
  unfold groupKey
  congr 1
  exact List.map_congr_left fun column hcolumn => by rw [(h column hcolumn).1]

/-- Whether the cells of two rows line up: their identities have as many separators, and the same of
them are null. -/
def LinesUp (columns : List String) (row other : Row) : Prop :=
  ∀ column ∈ columns,
    Cell.separatorCount (row.cellOrNull column) = Cell.separatorCount (other.cellOrNull column) ∧
      (row.cellOrNull column).isNull = (other.cellOrNull column).isNull

/-- Rows belong to one group when they have one key and their cells line up. -/
theorem sharesGroup_iff : row.SharesGroup columns other ↔
    row.groupKey columns = other.groupKey columns ∧ row.LinesUp columns other := by
  constructor
  · intro h
    refine ⟨h.groupKey_eq, fun column hcolumn => ⟨?_, (h column hcolumn).2⟩⟩
    rw [Cell.separatorCount, (h column hcolumn).1, Cell.separatorCount]
  · rintro ⟨hkey, hlines⟩ column hcolumn
    have hkeys := key_eq_of_groupKey_eq (fun c hc => (hlines c hc).1) hkey
    exact ⟨hkeys column hcolumn, (hlines column hcolumn).2⟩

/-- Cells that are told line up in rows of one key. -/
theorem linesUp_of_isTold (hrow : ∀ column ∈ columns, Cell.IsTold (row.cellOrNull column))
    (hother : ∀ column ∈ columns, Cell.IsTold (other.cellOrNull column))
    (hkey : row.groupKey columns = other.groupKey columns) : row.LinesUp columns other := by
  have hcount (column : String) (hcolumn : column ∈ columns) :
      Cell.separatorCount (row.cellOrNull column) = Cell.separatorCount (other.cellOrNull column) :=
    (hrow column hcolumn).separatorCount_eq_zero.trans
      (hother column hcolumn).separatorCount_eq_zero.symm
  have hkeys := key_eq_of_groupKey_eq hcount hkey
  intro column hcolumn
  exact ⟨hcount column hcolumn,
    (hrow column hcolumn).isNull_eq (hother column hcolumn) (hkeys column hcolumn)⟩

end Row

namespace Rows

/-! ## Passes that treat a row by its group -/

/-- The first row of each group, in their order. -/
def leaders (columns : List String) : List Row → List Row
  | [] => []
  | row :: rest => row :: (leaders columns rest).filter fun other => ¬ row.SharesGroup columns other

/-- The rows of each group, in the order of their first rows. -/
def classes (columns : List String) (rows : List Row) : List (List Row) :=
  (leaders columns rows).map fun leader => rows.filter (leader.SharesGroup columns)

/-- Drop every row that misses the legs while no later row that belongs with it matches. -/
def dropMissed (unit : FilterUnit) (columns : List String) : List Row → List Row
  | [] => []
  | row :: rest =>
      if row.origin = .empty ∨ unit.isMatchedBy row = true ∨ ∃ later ∈ rest,
          later.origin ≠ .empty ∧ unit.isMatchedBy later = true ∧ row.SharesGroup columns later then
        row :: dropMissed unit columns rest
      else dropMissed unit columns rest

/-- Whether rows have one key just when they belong to one group. -/
def KeysTell (columns : List String) (rows : List Row) : Prop :=
  ∀ row ∈ rows, ∀ other ∈ rows,
    row.groupKey columns = other.groupKey columns ↔ row.SharesGroup columns other

/-- Whether the keys of rows over some columns tell their groups, and so each pass that works by
groups treats every row by the group it belongs to. -/
structure TellsGroups (columns : List String) (rows : List Row) : Prop where
  keys : KeysTell columns rows
  groups : (groups columns rows).map Prod.snd = classes columns rows
  countOrder : ∀ countColumn, sortCells countColumn rows (.count columns) = rows.map fun row =>
    .ofNat (documents countColumn (rows.filter (row.SharesGroup columns)))
  metricOrder : ∀ countColumn function column,
    sortCells countColumn rows (.metric columns function column) = rows.map fun row =>
      .ofOption ((tally function column countColumn
        (rows.filter (row.SharesGroup columns))).result?.map Json.ofBinary64)
  unmatched : ∀ unit : FilterUnit, (dropUnread unit columns rows).1 = dropMissed unit columns rows
  gaps : ∀ forest countColumn limit target, gapTarget? forest = some target →
    forest.groupColumnsBefore target.index = columns →
    fillGaps forest countColumn limit rows =
      (classes columns rows).flatMap (fillGroup target columns countColumn limit)

section

variable {columns : List String} {rows : List Row}

theorem mem_of_mem_leaders {row : Row} (h : row ∈ leaders columns rows) : row ∈ rows := by
  induction rows with
  | nil => cases h
  | cons first rest ih =>
      rcases List.mem_cons.mp h with rfl | hmem
      · exact List.mem_cons_self
      · exact List.mem_cons_of_mem first (ih (List.mem_of_mem_filter hmem))

/-- The keys of the rows that match, as they are noted while rows are dropped. -/
theorem mem_dropUnread_snd {unit : FilterUnit} {key : String} :
    key ∈ (dropUnread unit columns rows).2 ↔ ∃ later ∈ rows, later.origin ≠ .empty ∧
      unit.isMatchedBy later = true ∧ later.groupKey columns = key := by
  induction rows with
  | nil => simp [dropUnread]
  | cons row rest ih =>
      rw [List.exists_mem_cons_iff, ← ih, dropUnread]
      generalize dropUnread unit columns rest = result
      obtain ⟨kept, matched⟩ := result
      by_cases hempty : row.origin = .empty <;> by_cases hmatched : unit.isMatchedBy row = true
      · simp [hempty]
      · simp [hempty]
      · simp [hempty, hmatched, eq_comm]
      · by_cases hkey : row.groupKey columns ∈ matched <;> simp [hempty, hmatched, hkey]

/-- A row is dropped unless it matches or its key was noted. -/
theorem dropUnread_cons_fst (unit : FilterUnit) (columns : List String) (row : Row)
    (rest : List Row) : (dropUnread unit columns (row :: rest)).1 =
      if row.origin = .empty ∨ unit.isMatchedBy row = true ∨
          row.groupKey columns ∈ (dropUnread unit columns rest).2 then
        row :: (dropUnread unit columns rest).1
      else (dropUnread unit columns rest).1 := by
  rw [dropUnread]
  generalize dropUnread unit columns rest = result
  obtain ⟨kept, matched⟩ := result
  by_cases hempty : row.origin = .empty <;> by_cases hmatched : unit.isMatchedBy row = true <;>
    by_cases hkey : row.groupKey columns ∈ matched <;> simp [hempty, hmatched, hkey]

variable (h : KeysTell columns rows)

include h

theorem KeysTell.tail {row : Row} {rest : List Row} (hrows : rows = row :: rest) :
    KeysTell columns rest := by
  subst hrows
  exact fun a ha b hb => h a (List.mem_cons_of_mem _ ha) b (List.mem_cons_of_mem _ hb)

theorem KeysTell.filter_eq {row : Row} (hrow : row ∈ rows) :
    rows.filter (fun other => other.groupKey columns = row.groupKey columns) =
      rows.filter (row.SharesGroup columns) := by
  refine List.filter_congr fun other hother => ?_
  rw [decide_eq_decide, eq_comm]
  exact h row hrow other hother

/-- The keys in their order are those of the first rows of the groups. -/
theorem KeysTell.eraseDups_eq : (rows.map fun row => row.groupKey columns).eraseDups =
    (leaders columns rows).map fun row => row.groupKey columns := by
  induction rows with
  | nil => rfl
  | cons row rest ih =>
      rw [List.map_cons, List.eraseDups_cons, ← Statement.filter_eraseDups, ih (h.tail rfl),
        leaders, List.map_cons, List.filter_map]
      congr 2
      refine List.filter_congr fun other hother => ?_
      have htell := h row List.mem_cons_self other
        (List.mem_cons_of_mem row (mem_of_mem_leaders hother))
      simp only [Function.comp_apply, ← htell, decide_not, eq_comm (a := row.groupKey columns)]
      rfl

theorem KeysTell.groups_eq : (groups columns rows).map Prod.snd = classes columns rows := by
  rw [Rows.groups_eq, h.eraseDups_eq, List.map_map, List.map_map]
  exact List.map_congr_left fun row hrow => h.filter_eq (mem_of_mem_leaders hrow)

theorem KeysTell.dropUnread_eq (unit : FilterUnit) :
    (dropUnread unit columns rows).1 = dropMissed unit columns rows := by
  induction rows with
  | nil => rfl
  | cons row rest ih =>
      have hlater : row.groupKey columns ∈ (dropUnread unit columns rest).2 ↔
          ∃ later ∈ rest, later.origin ≠ .empty ∧ unit.isMatchedBy later = true ∧
            row.SharesGroup columns later := by
        rw [mem_dropUnread_snd]
        refine exists_congr fun later => and_congr_right fun hlater => ?_
        rw [← h row List.mem_cons_self later (List.mem_cons_of_mem row hlater),
          eq_comm (a := later.groupKey columns)]
      rw [dropUnread_cons_fst, dropMissed, ← ih (h.tail rfl)]
      simp only [hlater]

/-- Keys that tell the groups make all passes go by them. -/
theorem KeysTell.tellsGroups : TellsGroups columns rows where
  keys := h
  groups := h.groups_eq
  countOrder countColumn := by
    rw [sortCells_eq_map]
    refine List.map_congr_left fun row hrow => ?_
    rw [sortCell, h.filter_eq hrow]
  metricOrder countColumn function column := by
    rw [sortCells_eq_map]
    refine List.map_congr_left fun row hrow => ?_
    rw [sortCell, h.filter_eq hrow]
  unmatched := h.dropUnread_eq
  gaps forest countColumn limit target htarget hcolumns := by
    rw [fillGaps, htarget]
    dsimp only
    rw [hcolumns, ← h.groups_eq, List.flatMap_map]

end

/-- The keys of rows tell their groups just when rows with one key always line up, and they do as
long as no text among the cells has a separator or passes for null. -/
theorem tellsGroups_iff (columns : List String) (rows : List Row) :
    (∀ row other : Row, row.SharesGroup columns other ↔
      row.groupKey columns = other.groupKey columns ∧ row.LinesUp columns other) ∧
    (TellsGroups columns rows ↔ ∀ row ∈ rows, ∀ other ∈ rows,
      row.groupKey columns = other.groupKey columns → row.LinesUp columns other) ∧
    ((∀ row ∈ rows, ∀ column ∈ columns, Cell.IsTold (row.cellOrNull column)) →
      TellsGroups columns rows) := by
  have hiff : TellsGroups columns rows ↔ ∀ row ∈ rows, ∀ other ∈ rows,
      row.groupKey columns = other.groupKey columns → row.LinesUp columns other := by
    constructor
    · intro h row hrow other hother hkey
      exact (Row.sharesGroup_iff.mp ((h.keys row hrow other hother).mp hkey)).2
    · intro h
      refine KeysTell.tellsGroups fun row hrow other hother => ⟨fun hkey => ?_, fun hshares => ?_⟩
      · exact Row.sharesGroup_iff.mpr ⟨hkey, h row hrow other hother hkey⟩
      · exact hshares.groupKey_eq
  refine ⟨fun row other => Row.sharesGroup_iff, hiff, fun htold => hiff.mpr ?_⟩
  exact fun row hrow other hother => Row.linesUp_of_isTold (htold row hrow) (htold other hother)

/-- Two rows of different groups whose texts shift the separator. -/
def shiftedRows : List Row :=
  [Row.ofCells [("x", .string "p\x1fq"), ("y", .string "r")] .engine,
    Row.ofCells [("x", .string "p"), ("y", .string "q\x1fr")] .engine]

/-- Two rows of different groups, one with a text that passes for null. -/
def hollowRows : List Row :=
  [Row.ofCells [("x", .null)] .engine, Row.ofCells [("x", .string "\x00")] .engine]

/-- Rows of different groups have one key, and the passes merge their groups. -/
theorem shiftedRows_merge :
    (leaders ["x", "y"] shiftedRows).length = 2 ∧
      (groups ["x", "y"] shiftedRows).length = 1 ∧ ¬ TellsGroups ["x", "y"] shiftedRows ∧
    (leaders ["x"] hollowRows).length = 2 ∧
      (groups ["x"] hollowRows).length = 1 ∧ ¬ TellsGroups ["x"] hollowRows := by
  have hmerge {columns : List String} {rows : List Row}
      (hclasses : (leaders columns rows).length = 2) (hgroups : (groups columns rows).length = 1) :
      ¬ TellsGroups columns rows := by
    intro h
    have hlength := congrArg List.length h.groups
    rw [classes, List.length_map, List.length_map, hclasses, hgroups] at hlength
    cases hlength
  have hshifted : (leaders ["x", "y"] shiftedRows).length = 2 := by decide +kernel
  have hshifted' : (groups ["x", "y"] shiftedRows).length = 1 := by decide +kernel
  have hhollow : (leaders ["x"] hollowRows).length = 2 := by decide +kernel
  have hhollow' : (groups ["x"] hollowRows).length = 1 := by decide +kernel
  exact ⟨hshifted, hshifted', hmerge hshifted hshifted', hhollow, hhollow',
    hmerge hhollow hhollow'⟩

end Rows
end Rollup
