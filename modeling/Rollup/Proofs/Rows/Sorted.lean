/-
# The order of the rows that match

Every level of the order compares cells, or what a group of rows has in common. The groups of the
rows that match have no other rows in them, so each of these rows is compared by the same cells
whether the others are there or not. As long as no cell reads as a number that compares with no
other, the comparison is transitive and the sort keeps ties, so the rows that match come out in the
same order.
-/

import Rollup.Proofs.Response.Ordering
import Rollup.Proofs.Rows.Flagged

namespace Rollup

/-! ## Cells that compare -/

namespace Binary64

theorem isNaN_ofInt (n : Int) : (ofInt n).isNaN = false := by
  unfold ofInt round
  split
  · rfl
  · dsimp only
    split
    · unfold zero
      split <;> rfl
    · split <;> rfl

end Binary64

namespace Cell

theorem isComparable_ofInt (n : Int) : IsComparable (.ofInt n) := by
  rintro x ⟨⟩
  exact Binary64.isNaN_ofInt n

theorem isComparable_ofBinary64 (x : Binary64) : IsComparable (.ofBinary64 x) := by
  unfold Json.ofBinary64
  split
  · exact isComparable_ofInt _
  · split
    · rename_i hfinite
      rintro y ⟨⟩
      cases x with
      | nan negative => cases hfinite
      | _ => rfl
    · rintro y ⟨⟩

end Cell

namespace Rows

/-- The column whose cells are compared. -/
def SortKey.column? : SortKey → Option String
  | .column name => some name
  | _ => none

/-- Whether no cell by which the rows are ordered reads as a number that compares with no other. -/
def OrdersComparable (forest : Forest) (rows : List Row) : Prop :=
  ∀ level ∈ sortLevels forest, ∀ name ∈ level.key.column?, ∀ row ∈ rows,
    Cell.IsComparable (row.cellOrNull name)

instance (forest : Forest) (rows : List Row) : Decidable (OrdersComparable forest rows) :=
  inferInstanceAs (Decidable (∀ level ∈ sortLevels forest, ∀ name ∈ level.key.column?, _))

/-! ## The comparison of cells -/

/-- The order of the cells of one level, by their ranks. -/
def SortLevel.order (level : SortLevel) : Json → Json → Ordering :=
  compareLex (compareOn Json.isNull) fun a b =>
    Order.directed level.direction.isDescending (CellRank.order (Cell.rank a) (Cell.rank b))

instance (level : SortLevel) : Std.TransCmp level.order :=
  have : Std.TransCmp fun a b =>
      Order.directed level.direction.isDescending (CellRank.order (Cell.rank a) (Cell.rank b)) :=
    @Order.transCmp_comap _ _
      (fun a b => Order.directed level.direction.isDescending (CellRank.order a b)) _ Cell.rank
  inferInstanceAs (Std.TransCmp (compareLex (compareOn Json.isNull) _))

/-- The order of the cells of all levels. -/
def orderCells : List SortLevel → List Json → List Json → Ordering
  | [] => fun _ _ => .eq
  | level :: levels => compareLex
      (fun a b => level.order (a.headD .null) (b.headD .null))
      (fun a b => orderCells levels a.tail b.tail)

theorem compareCell_eq_order {level : SortLevel} {a b : Json} (ha : Cell.IsComparable a)
    (hb : Cell.IsComparable b) : compareCell level.direction a b = level.order a b := by
  have hnull {a : Json} (h : a.isNull = true) : a = .null := by
    cases a with
    | null => rfl
    | _ => cases h
  unfold compareCell SortLevel.order compareLex compareOn
  cases haNull : a.isNull with
  | true =>
      cases hbNull : b.isNull with
      | true =>
          rw [hnull haNull, hnull hbNull]
          have hself : CellRank.order (Cell.rank .null) (Cell.rank .null) = .eq :=
            Std.ReflCmp.compare_self
          dsimp only
          rw [hself]
          cases level.direction <;> rfl
      | false =>
          simp only [Cell.compare, haNull, hbNull, Bool.not_true, Bool.and_false, Bool.false_and]
          rfl
  | false =>
      cases hbNull : b.isNull with
      | true =>
          simp only [Cell.compare, haNull, hbNull, Bool.not_true, Bool.and_false]
          rfl
      | false =>
          rw [Cell.compare_eq_order ha hb haNull hbNull, Cell.compare_eq_order hb ha hbNull haNull]
          cases level.direction with
          | ascending => rfl
          | descending =>
              have hswap : CellRank.order (Cell.rank b) (Cell.rank a) =
                  (CellRank.order (Cell.rank a) (Cell.rank b)).swap := Std.OrientedCmp.eq_swap
              exact hswap

instance transCmp_orderCells (levels : List SortLevel) : Std.TransCmp (orderCells levels) := by
  induction levels with
  | nil => exact { eq_swap := rfl, isLE_trans := fun _ _ => rfl }
  | cons level rest ih =>
      have hfirst : Std.TransCmp fun a b : List Json =>
          level.order (a.headD .null) (b.headD .null) :=
          Order.transCmp_comap fun a : List Json => a.headD .null
      have hrest : Std.TransCmp fun a b : List Json => orderCells rest a.tail b.tail :=
        Order.transCmp_comap List.tail
      exact inferInstanceAs (Std.TransCmp (compareLex _ _))

theorem compareCells_eq_order {levels : List SortLevel} {a b : SortLevel → Json}
    (ha : ∀ level ∈ levels, Cell.IsComparable (a level))
    (hb : ∀ level ∈ levels, Cell.IsComparable (b level)) :
    compareCells levels (levels.map a) (levels.map b) =
      orderCells levels (levels.map a) (levels.map b) := by
  induction levels with
  | nil => rfl
  | cons level rest ih =>
      rw [List.map_cons, List.map_cons, compareCells,
        compareCell_eq_order (ha level List.mem_cons_self) (hb level List.mem_cons_self),
        ih (fun other hother => ha other (List.mem_cons_of_mem _ hother))
          fun other hother => hb other (List.mem_cons_of_mem _ hother)]
      rfl

/-! ## The cells of a row -/

/-- The cell by which a row is compared at one level. -/
def sortCell (countColumn : String) (rows : List Row) (row : Row) : SortKey → Json
  | .column name => row.cellOrNull name
  | .count group => .ofNat (documents countColumn
      (rows.filter fun other => other.groupKey group = row.groupKey group))
  | .metric group function column => .ofOption ((tally function column countColumn
      (rows.filter fun other => other.groupKey group = row.groupKey group)).result?.map
        Json.ofBinary64)

/-- What is found for the group of a row. -/
theorem lookup_groups {α : Type} (f : List Row → α) (group : List String) {rows : List Row}
    {row : Row} (hrow : row ∈ rows) :
    ((groups group rows).map fun entry => (entry.1, f entry.2)).lookup (row.groupKey group) =
      some (f (rows.filter fun other => other.groupKey group = row.groupKey group)) := by
  rw [groups_eq, List.map_map]
  have hmem : row.groupKey group ∈ (rows.map fun row => row.groupKey group).eraseDups :=
    List.mem_eraseDups.mpr (List.mem_map_of_mem hrow)
  generalize row.groupKey group = key at hmem
  generalize (rows.map fun row => row.groupKey group).eraseDups = keys at hmem
  induction keys with
  | nil => cases hmem
  | cons first rest ih =>
      rw [List.map_cons, List.lookup_cons]
      dsimp only [Function.comp_apply]
      by_cases heq : key = first
      · subst heq
        simp
      · rw [beq_false_of_ne heq]
        exact ih ((List.mem_cons.mp hmem).resolve_left heq)

theorem sortCells_eq_map (countColumn : String) (rows : List Row) (key : SortKey) :
    sortCells countColumn rows key = rows.map fun row => sortCell countColumn rows row key := by
  cases key with
  | column name => rfl
  | count group =>
      refine List.map_congr_left fun row hrow => ?_
      rw [lookup_groups (fun rows => Json.ofNat (documents countColumn rows)) group hrow]
      rfl
  | metric group function column =>
      refine List.map_congr_left fun row hrow => ?_
      rw [lookup_groups (fun rows => Json.ofOption
        ((tally function column countColumn rows).result?.map Json.ofBinary64)) group hrow]
      rfl

theorem withSortCells_eq_map (countColumn : String) (levels : List SortLevel) (rows : List Row) :
    withSortCells countColumn levels rows = rows.map fun row =>
      (levels.map fun level => sortCell countColumn rows row level.key, row) := by
  have hcells : levels.foldr (fun level cells =>
      List.zipWith List.cons (sortCells countColumn rows level.key) cells) (rows.map fun _ => []) =
        rows.map fun row => levels.map fun level => sortCell countColumn rows row level.key := by
    induction levels with
    | nil => rfl
    | cons level rest ih =>
        rw [List.foldr_cons, ih, sortCells_eq_map, List.zipWith_map]
        exact List.zipWith_self
  unfold withSortCells
  dsimp only
  rw [hcells, List.zip_map_left, List.zip_eq_zipWith, List.zipWith_self, List.map_map]
  rfl

theorem isComparable_sortCell {countColumn : String} {rows : List Row} {row : Row} {key : SortKey}
    (h : ∀ name, key = .column name → Cell.IsComparable (row.cellOrNull name)) :
    Cell.IsComparable (sortCell countColumn rows row key) := by
  cases key with
  | column name => exact h name rfl
  | count group => exact Cell.isComparable_ofInt _
  | metric group function column =>
      rw [sortCell]
      generalize (tally function column countColumn _).result? = result?
      cases result? with
      | none => rintro x ⟨⟩
      | some x => exact Cell.isComparable_ofBinary64 x

/-! ## The levels of the indirect form -/

/-- The key with the groups taken over one more column. -/
def SortKey.under (c : String) : SortKey → SortKey
  | .column name => .column name
  | .count group => .count (c :: group)
  | .metric group function cell => .metric (c :: group) function cell

def SortLevel.under (c : String) (level : SortLevel) : SortLevel :=
  { level with key := level.key.under c }

theorem compareCells_under (c : String) (levels : List SortLevel) (a b : List Json) :
    compareCells (levels.map (SortLevel.under c)) a b = compareCells levels a b := by
  induction levels generalizing a b with
  | nil => rfl
  | cons level rest ih =>
      cases a with
      | nil => rfl
      | cons _ a =>
          cases b with
          | nil => rfl
          | cons _ b =>
              rw [List.map_cons, compareCells, compareCells, ih]
              rfl

section

variable {forest : Forest} {index : Nat} {leg : Node} {c : String} {countColumn : String}

/-- A row that matches is compared by the same cells whether the others are there or not. -/
theorem sortCell_under {all : List Row} (hflagged : ∀ row ∈ all, row.IsFlagged c) {row : Row}
    (hrow : row ∈ all) (hflag : row.flag c = true) (key : SortKey) :
    sortCell countColumn all row (key.under c) =
      sortCell countColumn (all.filter fun row => row.flag c) row key := by
  have hgroup (group : List String) :
      all.filter (fun other => other.groupKey (c :: group) = row.groupKey (c :: group)) =
        (all.filter fun row => row.flag c).filter fun other =>
          other.groupKey group = row.groupKey group := by
    rw [List.filter_filter]
    refine List.filter_congr fun other hother => ?_
    rw [(groupKey_eq_iff (hflagged row hrow)).mpr ⟨hflag, rfl⟩, Bool.eq_iff_iff,
      decide_eq_true_eq, groupKey_eq_iff (hflagged other hother), Bool.and_eq_true,
      decide_eq_true_eq, and_comm]
  cases key with
  | column name => rfl
  | count group => rw [SortKey.under, sortCell, sortCell, hgroup]
  | metric group function column => rw [SortKey.under, sortCell, sortCell, hgroup]

theorem of_isValueGroup {n : Node} (h : n.aggregation.isValueGroup = true) :
    n.isLeg = false ∧ n.isQuery = false := by
  cases haggregation : n.aggregation <;>
    simp_all [Aggregation.isValueGroup, Aggregation.terms?, Aggregation.isHistogram, Node.isLeg,
      Aggregation.isLeg, Aggregation.leg?, Node.isQuery, Aggregation.isQuery, Aggregation.query?]

/-- The groups by values are those of the direct form. -/
theorem filter_valueGroups_indirect (entries : List (Node × Nat)) (index : Nat) :
    entries.filter ((fun (n, _) => n.isActive && n.aggregation.isValueGroup) ∘
      fun entry => (if entry.2 = index then entry.1.indirect else entry.1, entry.2)) =
        entries.filter fun (n, _) => n.isActive && n.aggregation.isValueGroup := by
  refine List.filter_congr fun entry _ => ?_
  dsimp only [Function.comp_apply]
  split <;> rfl

/-- The indirect form orders its rows as the direct form does, with the groups taken over the
column of the leg too. -/
theorem sortLevels_indirectAt (henc : forest.Encloses index leg c) (hlaid : forest.IsLaidOut) :
    sortLevels (forest.indirectAt index) = (sortLevels forest).map (SortLevel.under c) := by
  unfold sortLevels
  rw [Forest.zipIdx_indirectAt, List.filter_map, List.filterMap_map, List.map_filterMap]
  rw [filter_valueGroups_indirect]
  refine List.filterMap_congr fun entry hentry => ?_
  obtain ⟨n, i⟩ := entry
  obtain ⟨hmem, hgroup⟩ := List.mem_filter.mp hentry
  have hn := List.mem_zipIdx_iff_getElem?.mp hmem
  rw [Bool.and_eq_true] at hgroup
  obtain ⟨hnotLeg, hquery⟩ := of_isValueGroup hgroup.2
  have hne : i ≠ index := by
    rintro rfl
    obtain rfl := Option.some.inj (hn.symm.trans henc.at_index)
    exact Bool.false_ne_true (hnotLeg.symm.trans henc.isLeg)
  have hthrough : (forest.indirectAt index).groupColumnsThrough i =
      c :: forest.groupColumnsThrough i :=
    (henc.groupColumnsBefore_indirectAt hlaid
      (Nat.lt_succ_of_lt (henc.lt_of_active hlaid hne hn hgroup.1 hquery))).1
  dsimp only [Function.comp_apply]
  rw [if_neg hne]
  unfold sortLevel?
  rw [orderedMetric?_indirectAt, hthrough]
  cases n.aggregation.terms? with
  | none =>
      cases n.decisions.column <;> rfl
  | some t =>
      dsimp only
      cases t.order.target <;> rcases orderedMetric? forest n with - | ⟨function, cell⟩ <;> rfl

/-- Sorting leaves the rows that match in the order in which they would come without the others. -/
theorem filter_sort (henc : forest.Encloses index leg c) (hlaid : forest.IsLaidOut)
    {all : List Row} (hflagged : ∀ row ∈ all, row.IsFlagged c)
    (hcomparable : OrdersComparable forest all) :
    (sort (forest.indirectAt index) countColumn all).filter (fun row => row.flag c) =
      sort forest countColumn (all.filter fun row => row.flag c) := by
  let levels := sortLevels forest
  have hsorted : (withSortCells countColumn (levels.map (SortLevel.under c)) all).filter
      (fun entry => entry.2.flag c) =
        withSortCells countColumn levels (all.filter fun row => row.flag c) := by
    rw [withSortCells_eq_map, withSortCells_eq_map, List.filter_map]
    refine List.map_congr_left fun row hrow => ?_
    obtain ⟨hmem, hflag⟩ := List.mem_filter.mp hrow
    rw [List.map_map]
    refine Prod.ext (List.map_congr_left fun level _ => ?_) rfl
    exact sortCell_under hflagged hmem hflag level.key
  have hcompare : ∀ a ∈ withSortCells countColumn (levels.map (SortLevel.under c)) all,
      ∀ b ∈ withSortCells countColumn (levels.map (SortLevel.under c)) all,
        compareCells levels a.1 b.1 = orderCells levels a.1 b.1 := by
    intro a ha b hb
    rw [withSortCells_eq_map, List.mem_map] at ha hb
    obtain ⟨row, hrow, rfl⟩ := ha
    obtain ⟨other, hother, rfl⟩ := hb
    have hcell {row : Row} (hrow : row ∈ all) : ∀ level ∈ levels, Cell.IsComparable
        (sortCell countColumn all row (level.under c).key) := by
      intro level hlevel
      refine isComparable_sortCell fun name hname => ?_
      refine hcomparable level hlevel name ?_ row hrow
      cases hkey : level.key <;> simp_all [SortLevel.under, SortKey.under, SortKey.column?]
    simp only [List.map_map]
    exact compareCells_eq_order (hcell hrow) (hcell hother)
  unfold sort
  dsimp only
  rw [sortLevels_indirectAt henc hlaid, List.filter_map]
  simp only [compareCells_under]
  refine congrArg (List.map Prod.snd) ?_
  rw [← hsorted]
  exact Order.filter_sortBy_of_rank hcompare _

/-! ## All passes -/

/-- After all passes the rows that match are those of the direct form. -/
theorem isPart_run (henc : forest.Encloses index leg c) (hlaid : forest.IsLaidOut)
    {context : RowContext} (hcount : c ≠ context.countColumn) {rows : List Row}
    (hflagged : ∀ row ∈ rows, row.IsFlagged c) (hsome : ∃ row ∈ rows, row.flag c = true)
    (hcomparable : context.complexOrder = true → OrdersComparable forest rows) :
    IsPart c (RowPass.run forest context (rows.filter fun row => row.flag c))
      (RowPass.run (forest.indirectAt index) context rows) := by
  rw [RowPass.run_eq, RowPass.run_eq]
  refine IsPart.blank ?_ henc
  refine IsPart.fillGaps ?_ henc hlaid hcount _
  refine IsPart.splitConcurrent ?_ henc
  refine IsPart.settleUnmatched ?_ henc hlaid
  split
  · rename_i horder
    rw [← filter_sort henc hlaid hflagged (hcomparable horder)]
    have hmem (row : Row) : row ∈ sort (forest.indirectAt index) context.countColumn rows ↔
        row ∈ rows := (sort_perm (forest.indirectAt index) context.countColumn rows).mem_iff
    obtain ⟨row, hrow, hflag⟩ := hsome
    exact IsPart.of_flagged (fun other hother => hflagged other ((hmem other).mp hother))
      ⟨row, (hmem row).mpr hrow, hflag⟩
  · exact IsPart.of_flagged hflagged hsome

end

end Rows
end Rollup
