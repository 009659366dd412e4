/-
# Rows muted in what they miss

A row that misses a filter aggregation is muted within it, and dropped when nothing else is read
and no row of its group matches. The other passes read cells, and do not see what is muted. So
whether rows that miss filters are settled or not, the same rows are left, but for what is muted in
aggregations that they miss and for idle rows, which match nothing of the one aggregation that is
read. The columns of that aggregation lead the keys of the groups whose intervals are filled in,
so that idle rows have groups of their own.
-/

import Rollup.Proofs.Rows.Flagged

namespace Rollup

/-! ## Rows with the same cells -/

namespace Row

variable {row other : Row}

theorem get?_of_cells (h : other.cells = row.cells) : other.get? = row.get? := by
  funext c
  rw [get?, get?, h]

theorem flag_of_cells (h : other.cells = row.cells) : other.flag = row.flag :=
  funext fun c => flag_congr (congrFun (get?_of_cells h) c)

theorem groupKey_of_cells (h : other.cells = row.cells) (columns : List String) :
    other.groupKey columns = row.groupKey columns :=
  groupKey_congr fun c _ => congrFun (get?_of_cells h) c

end Row

namespace Rows

variable {forest : Forest} {countColumn : String}

theorem FilterUnit.isMatchedBy_of_cells (unit : FilterUnit) {row other : Row}
    (h : other.cells = row.cells) : unit.isMatchedBy other = unit.isMatchedBy row := by
  rw [isMatchedBy, isMatchedBy, Row.flag_of_cells h]

theorem isKept_of_cells (columns : List String) {row other : Row} (h : other.cells = row.cells) :
    isKept columns other = isKept columns row :=
  isKept_congr fun c _ => congrFun (Row.flag_of_cells h) c

/-- Whether a row misses the filter aggregation that starts at an anchor. -/
def Misses (forest : Forest) (row : Row) (a : Nat) : Prop :=
  ∃ unit ∈ filterUnits forest, forest.anchor unit.first = a ∧ unit.isMatchedBy row = false

/-- A row that matches less misses more. -/
theorem Misses.mono {row other : Row} {a : Nat} (h : Misses forest row a)
    (hflag : ∀ c, other.flag c = true → row.flag c = true) : Misses forest other a := by
  obtain ⟨unit, hunit, hanchor, hmissed⟩ := h
  refine ⟨unit, hunit, hanchor, ?_⟩
  rw [FilterUnit.isMatchedBy, List.any_eq_false] at hmissed ⊢
  exact fun c hc hother => hmissed c hc (hflag c hother)

/-- Whether a row is another one that is muted, beyond that one, only within aggregations that it
misses. -/
structure MutesMissed (forest : Forest) (row muted : Row) : Prop where
  cells : muted.cells = row.cells
  countScopes : muted.countScopes = row.countScopes
  keeps : ∀ scope ∈ row.mutedScopes, scope ∈ muted.mutedScopes
  gains : ∀ scope ∈ muted.mutedScopes, scope ∈ row.mutedScopes ∨ Misses forest row scope

namespace MutesMissed

variable {row muted other : Row}

theorem refl (forest : Forest) (row : Row) : MutesMissed forest row row :=
  ⟨rfl, rfl, fun _ hscope => hscope, fun _ hscope => Or.inl hscope⟩

theorem trans (h : MutesMissed forest row muted) (hother : MutesMissed forest muted other) :
    MutesMissed forest row other where
  cells := hother.cells.trans h.cells
  countScopes := hother.countScopes.trans h.countScopes
  keeps := fun scope hscope => hother.keeps scope (h.keeps scope hscope)
  gains := by
    intro scope hscope
    rcases hother.gains scope hscope with hmuted | hmissed
    · exact h.gains scope hmuted
    · exact Or.inr (hmissed.mono fun c hflag => by rwa [Row.flag_of_cells h.cells])

theorem isKept (h : MutesMissed forest row muted) (columns : List String) :
    Rows.isKept columns muted = Rows.isKept columns row := isKept_of_cells columns h.cells

end MutesMissed

/-! ## Settling the rows that miss a filter -/

/-- A row that misses a unit becomes a placeholder. -/
def settleRow (forest : Forest) (unit : FilterUnit) (row : Row) : Row :=
  if unit.isMissedBy row then placeholder (forest.anchor unit.first) row else row

theorem mutesMissed_settleRow {unit : FilterUnit} (hunit : unit ∈ filterUnits forest) (row : Row) :
    MutesMissed forest row (settleRow forest unit row) := by
  unfold settleRow
  split
  · rename_i hmissed
    rw [FilterUnit.isMissedBy, Bool.and_eq_true, Bool.not_eq_true'] at hmissed
    refine ⟨rfl, rfl, fun scope hscope => ?_, fun scope hscope => ?_⟩
    · unfold placeholder
      dsimp only
      split
      · exact hscope
      · exact List.mem_append_left _ hscope
    · unfold placeholder at hscope
      dsimp only at hscope
      split at hscope
      · exact Or.inl hscope
      · exact (List.mem_append.mp hscope).imp_right fun hnew =>
          ⟨unit, hunit, (List.mem_singleton.mp hnew).symm, hmissed.2⟩
  · exact .refl forest row

theorem origin_settleRow (forest : Forest) (unit : FilterUnit) (row : Row) :
    (settleRow forest unit row).origin = row.origin ∨
      (settleRow forest unit row).origin = .placeholder ∧
        (settleRow forest unit row).mutedScopes ≠ [] := by
  unfold settleRow
  split
  · refine Or.inr ⟨rfl, List.ne_nil_of_mem (a := forest.anchor unit.first) ?_⟩
    unfold placeholder
    dsimp only
    split
    · exact List.contains_iff_mem.mp ‹_›
    · exact List.mem_append_right _ (List.mem_singleton.mpr rfl)
  · exact Or.inl rfl

/-- A unit settles every row by itself, and may have dropped some before. -/
theorem settleUnit_eq (forest : Forest) (rows : List Row) (unit : FilterUnit) :
    settleUnit forest rows unit =
      (if isReadOutside forest (forest.anchor unit.first) then rows
        else (dropUnread unit (forest.groupColumnsBefore unit.first) rows).1).map
          (settleRow forest unit) := rfl

/-- What one unit leaves are rows that it settled. -/
theorem exists_of_mem_settleUnit {rows : List Row} {unit : FilterUnit} {row : Row}
    (hrow : row ∈ settleUnit forest rows unit) :
    ∃ before ∈ rows, settleRow forest unit before = row := by
  rw [settleUnit_eq] at hrow
  obtain ⟨before, hbefore, rfl⟩ := List.mem_map.mp hrow
  refine ⟨before, ?_, rfl⟩
  split at hbefore
  · exact hbefore
  · exact mem_of_mem_dropUnread hbefore

/-- Whether a row is left of another one when filters are settled. -/
structure IsSettledOf (forest : Forest) (before row : Row) : Prop where
  mutes : MutesMissed forest before row
  origin : row.origin = before.origin ∨ row.origin = .placeholder ∧ row.mutedScopes ≠ []

/-- What is left when filters are settled is left of some row. -/
theorem exists_isSettledOf (rows : List Row) :
    ∀ row ∈ settleUnmatched forest rows, ∃ before ∈ rows, IsSettledOf forest before row := by
  refine List.foldlRecOn (filterUnits forest) (settleUnit forest)
    (motive := fun settled : List Row =>
      ∀ row ∈ settled, ∃ before ∈ rows, IsSettledOf forest before row) ?_ ?_
  · exact fun row hrow => ⟨row, hrow, .refl forest row, Or.inl rfl⟩
  · intro settled hsettled unit hunit row hrow
    obtain ⟨middle, hmiddle, rfl⟩ := exists_of_mem_settleUnit hrow
    obtain ⟨before, hbefore, hmutes, horigin⟩ := hsettled middle hmiddle
    have hstep := mutesMissed_settleRow hunit middle
    refine ⟨before, hbefore, hmutes.trans hstep, ?_⟩
    rcases origin_settleRow forest unit middle with hsame | hplaceholder
    · rw [hsame]
      refine horigin.imp_right fun ⟨hplaceholder, hmuted⟩ => ⟨hplaceholder, ?_⟩
      obtain ⟨scope, hscope⟩ := List.exists_mem_of_ne_nil _ hmuted
      exact List.ne_nil_of_mem (hstep.keeps scope hscope)
    · exact Or.inr hplaceholder

/-- The rows that are kept stay, and are muted only in what they miss, when no unit but that of the
columns drops any. -/
theorem forall₂_settleUnmatched {columns : List String}
    (hdrops : ∀ unit ∈ filterUnits forest,
      isReadOutside forest (forest.anchor unit.first) = false → unit.columns = columns)
    (rows : List Row) :
    List.Forall₂ (MutesMissed forest) (rows.filter (isKept columns))
      ((settleUnmatched forest rows).filter (isKept columns)) := by
  refine List.foldlRecOn (filterUnits forest) (settleUnit forest)
    (motive := fun settled : List Row => List.Forall₂ (MutesMissed forest)
      (rows.filter (isKept columns)) (settled.filter (isKept columns))) ?_ ?_
  · exact List.forall₂_same.mpr fun row _ => .refl forest row
  · intro settled hsettled unit hunit
    have hstays : (if isReadOutside forest (forest.anchor unit.first) then settled
        else (dropUnread unit (forest.groupColumnsBefore unit.first) settled).1).filter
          (isKept columns) = settled.filter (isKept columns) := by
      split
      · rfl
      · rename_i houtside
        obtain rfl := hdrops unit hunit (by simpa using houtside)
        rw [isKept_columns (columns_ne_nil_of_mem_filterUnits hunit), filter_dropUnread]
    have hkept : isKept columns ∘ settleRow forest unit = isKept columns :=
      funext fun row => (mutesMissed_settleRow hunit row).isKept columns
    rw [settleUnit_eq, List.filter_map, hkept, hstays, List.forall₂_map_right_iff]
    exact hsettled.imp fun row muted h => h.trans (mutesMissed_settleRow hunit muted)

/-! ## Groups that are left -/

/-- Whether in every group there is a row that matches. -/
def HasMatch (unit : FilterUnit) (outer : List String) (rows : List Row) : Prop :=
  ∀ row ∈ rows, ∃ other ∈ rows, other.groupKey outer = row.groupKey outer ∧
    unit.isMatchedBy other = true

section

variable {unit : FilterUnit} {outer : List String} {rows : List Row}

/-- Of the groups whose rows are noted some row that matches is left, and of other groups no row. -/
theorem hasMatch_dropUnread (hreal : ∀ row ∈ rows, row.origin ≠ .empty) :
    HasMatch unit outer (dropUnread unit outer rows).1 := by
  suffices hboth : (∀ key ∈ (dropUnread unit outer rows).2, ∃ other ∈
      (dropUnread unit outer rows).1, other.groupKey outer = key ∧
        unit.isMatchedBy other = true) ∧
      ∀ row ∈ (dropUnread unit outer rows).1,
        row.groupKey outer ∈ (dropUnread unit outer rows).2 from
    fun row hrow => hboth.1 _ (hboth.2 row hrow)
  induction rows with
  | nil => simp [dropUnread]
  | cons row rest ih =>
      obtain ⟨hkeys, hgroups⟩ := ih fun other hother => hreal other (List.mem_cons_of_mem _ hother)
      rw [dropUnread]
      generalize dropUnread unit outer rest = result at hkeys hgroups
      obtain ⟨kept, matched⟩ := result
      have hlater (key : String) (hkey : key ∈ matched) : ∃ other ∈ row :: kept,
          other.groupKey outer = key ∧ unit.isMatchedBy other = true := by
        obtain ⟨other, hother, hsame⟩ := hkeys key hkey
        exact ⟨other, List.mem_cons_of_mem _ hother, hsame⟩
      dsimp only
      rw [if_neg (hreal row List.mem_cons_self)]
      split
      · rename_i hmatched
        refine ⟨fun key hkey => ?_, fun other hother => ?_⟩
        · rcases List.mem_cons.mp hkey with rfl | hkey
          · exact ⟨row, List.mem_cons_self, rfl, hmatched⟩
          · exact hlater key hkey
        · rcases List.mem_cons.mp hother with rfl | hother
          · exact List.mem_cons_self
          · exact List.mem_cons_of_mem _ (hgroups other hother)
      · split
        · rename_i hcontains
          refine ⟨hlater, fun other hother => ?_⟩
          rcases List.mem_cons.mp hother with rfl | hother
          · exact List.contains_iff_mem.mp hcontains
          · exact hgroups other hother
        · exact ⟨hkeys, hgroups⟩

theorem HasMatch.map (h : HasMatch unit outer rows) {f : Row → Row}
    (hcells : ∀ row, (f row).cells = row.cells) : HasMatch unit outer (rows.map f) := by
  intro row hrow
  obtain ⟨before, hbefore, rfl⟩ := List.mem_map.mp hrow
  obtain ⟨other, hother, hkey, hmatched⟩ := h before hbefore
  refine ⟨f other, List.mem_map_of_mem hother, ?_, ?_⟩
  · rw [Row.groupKey_of_cells (hcells other), Row.groupKey_of_cells (hcells before), hkey]
  · rw [unit.isMatchedBy_of_cells (hcells other), hmatched]

/-- Dropping rows by the same columns keeps the rows that match. -/
theorem HasMatch.dropUnread (h : HasMatch unit outer rows) {again : FilterUnit}
    (hcolumns : again.columns = unit.columns) (columns : List String) :
    HasMatch unit outer (dropUnread again columns rows).1 := by
  intro row hrow
  obtain ⟨other, hother, hkey, hmatched⟩ := h row (mem_of_mem_dropUnread hrow)
  have hagain : again.isMatchedBy other = true := by
    rwa [FilterUnit.isMatchedBy, hcolumns]
  have hstays := List.mem_filter.mpr ⟨hother, hagain⟩
  rw [← filter_dropUnread again columns] at hstays
  exact ⟨other, (List.mem_filter.mp hstays).1, hkey, hmatched⟩

theorem cells_settleRow (forest : Forest) (unit : FilterUnit) (row : Row) :
    (settleRow forest unit row).cells = row.cells := by
  unfold settleRow
  split <;> rfl

/-- Outside of which aggregation nothing is read, in every group that it is checked for a row that
matches is left. -/
theorem hasMatch_settleUnmatched (hreal : ∀ row ∈ rows, row.origin ≠ .empty)
    (hunit : unit ∈ filterUnits forest)
    (houtside : isReadOutside forest (forest.anchor unit.first) = false)
    (hdrops : ∀ other ∈ filterUnits forest,
      isReadOutside forest (forest.anchor other.first) = false → other.columns = unit.columns) :
    HasMatch unit (forest.groupColumnsBefore unit.first) (settleUnmatched forest rows) := by
  obtain ⟨earlier, later, hunits⟩ := List.append_of_mem hunit
  unfold settleUnmatched
  rw [hunits, List.foldl_append, List.foldl_cons]
  have hearlier : ∀ row ∈ earlier.foldl (settleUnit forest) rows, row.origin ≠ .empty := by
    refine List.foldlRecOn earlier (settleUnit forest)
      (motive := fun settled : List Row => ∀ row ∈ settled, row.origin ≠ .empty) hreal ?_
    intro settled hsettled other _ row hrow
    obtain ⟨before, hbefore, rfl⟩ := exists_of_mem_settleUnit hrow
    rcases origin_settleRow forest other before with hsame | ⟨hplaceholder, -⟩
    · rw [hsame]
      exact hsettled before hbefore
    · rw [hplaceholder]
      exact Origin.noConfusion
  refine List.foldlRecOn later (settleUnit forest)
    (motive := HasMatch unit (forest.groupColumnsBefore unit.first)) ?_ ?_
  · rw [settleUnit_eq, houtside]
    exact (hasMatch_dropUnread hearlier).map (cells_settleRow forest unit)
  · intro settled hsettled other hother
    rw [settleUnit_eq]
    split
    · exact hsettled.map (cells_settleRow forest other)
    · rename_i hreads
      have hcolumns := hdrops other (hunits ▸ List.mem_append_right _
        (List.mem_cons_of_mem _ hother)) (by simpa using hreads)
      exact (hsettled.dropUnread hcolumns _).map (cells_settleRow forest other)

end

/-! ## The other passes -/

section

variable {row muted : Row}

theorem cells_matchingOnly (legs : List String) (kept : String)
    (h : muted.cells = row.cells) :
    (matchingOnly legs kept muted).cells = (matchingOnly legs kept row).cells := by
  unfold matchingOnly
  induction legs generalizing row muted with
  | nil => exact h
  | cons leg rest ih =>
      exact ih (congrArg (fun cells : Fields =>
        cells.insert leg (.ofInt (if leg = kept then 1 else 0))) h)

theorem MutesMissed.matchingOnly (h : MutesMissed forest row muted) (legs : List String)
    {kept : String} (hkept : row.flag kept = true) :
    MutesMissed forest (matchingOnly legs kept row) (matchingOnly legs kept muted) where
  cells := cells_matchingOnly legs kept h.cells
  countScopes := by rw [countScopes_matchingOnly, countScopes_matchingOnly, h.countScopes]
  keeps := by
    rw [mutedScopes_matchingOnly, mutedScopes_matchingOnly]
    exact h.keeps
  gains := by
    rw [mutedScopes_matchingOnly, mutedScopes_matchingOnly]
    exact fun scope hscope => (h.gains scope hscope).imp_right fun hmissed =>
      hmissed.mono fun c hflag => flag_of_flag_matchingOnly hkept hflag

/-- Rows are split alike, muted or not. -/
theorem MutesMissed.splitRow (h : MutesMissed forest row muted) (legs : List String)
    (anchor : Nat) :
    List.Forall₂ (MutesMissed forest) (splitRow legs anchor row) (splitRow legs anchor muted) := by
  unfold Rows.splitRow
  rw [Row.flag_of_cells h.cells]
  split
  · rename_i first second others hmatched
    have hflag {leg : String} (hleg : leg ∈ first :: second :: others) : row.flag leg = true :=
      (List.mem_filter.mp (hmatched ▸ hleg)).2
    refine .cons (h.matchingOnly legs (hflag List.mem_cons_self)) ?_
    rw [List.forall₂_map_left_iff, List.forall₂_map_right_iff, List.forall₂_same]
    intro leg hleg
    obtain ⟨hcells, hcount, hkeeps, hgains⟩ :=
      h.matchingOnly legs (hflag (List.mem_cons_of_mem first hleg))
    refine ⟨hcells, ?_, hkeeps, fun scope hscope => (hgains scope hscope).imp_right fun hmissed =>
      hmissed.mono fun _ hother => hother⟩
    rw [scopedCopy, scopedCopy, hcount]
  · exact .cons h .nil

/-- A row that is kept has a copy that is kept. -/
theorem exists_isKept_of_splitRow {columns : List String} (hkept : isKept columns row = true)
    (legs : List String) (anchor : Nat) :
    ∃ copy ∈ splitRow legs anchor row, isKept columns copy = true := by
  unfold splitRow
  split
  · rename_i first second others hmatched
    rw [isKept, Bool.or_eq_true, List.any_eq_true] at hkept
    -- the copy for a leg that matters, if it is one of them
    obtain ⟨leg, hleg, hcopy⟩ : ∃ leg ∈ first :: second :: others,
        isKept columns (Rows.matchingOnly legs leg row) = true := by
      simp only [isKept, Bool.or_eq_true, List.any_eq_true]
      rcases hkept with hempty | ⟨c, hc, hflag⟩
      · exact ⟨first, List.mem_cons_self, Or.inl hempty⟩
      · by_cases hmem : c ∈ legs
        · refine ⟨c, hmatched ▸ List.mem_filter.mpr ⟨hmem, hflag⟩, Or.inr ⟨c, hc, ?_⟩⟩
          rw [flag_matchingOnly hmem, decide_eq_true rfl]
        · refine ⟨first, List.mem_cons_self, Or.inr ⟨c, hc, ?_⟩⟩
          rwa [Row.flag_congr (get?_matchingOnly hmem first row)]
    rcases List.mem_cons.mp hleg with rfl | hleg
    · exact ⟨_, List.mem_cons_self, hcopy⟩
    · exact ⟨_, List.mem_cons_of_mem _ (List.mem_map_of_mem hleg), hcopy⟩
  · exact ⟨row, List.mem_singleton.mpr rfl, hkept⟩

/-- The cells of blanked metrics are emptied alike, muted or not. -/
theorem MutesMissed.blank (h : MutesMissed forest row muted) (blanked : List String) :
    MutesMissed forest (blanked.foldl (fun row column => row.set column .null) row)
      (blanked.foldl (fun row column => row.set column .null) muted) := by
  have hset (row : Row) : blanked.foldl (fun row column => row.set column .null) row =
      { row with
        cells := blanked.foldl (fun cells column => cells.insert column .null) row.cells } := by
    induction blanked generalizing row with
    | nil => rfl
    | cons column rest ih => exact ih (row.set column .null)
  have hflag (c : String)
      (hc : (blanked.foldl (fun row column => row.set column .null) row).flag c = true) :
      row.flag c = true := flag_of_flag_blanked hc
  rw [hset] at hflag
  rw [hset, hset]
  refine ⟨?_, h.countScopes, h.keeps, fun scope hscope => (h.gains scope hscope).imp_right
    fun hmissed => hmissed.mono hflag⟩
  dsimp only
  rw [h.cells]

theorem isFlagged_set (row : Row) (c : String) (p : Prop) [Decidable p] :
    (row.set c (.ofInt (if p then 1 else 0))).IsFlagged c := by
  rw [Row.IsFlagged, Row.cellOrNull_eq, Row.get?_set_self]
  split
  · rw [Row.flag_set_one]
    decide +kernel
  · rw [Row.flag_set_zero]
    decide +kernel

/-- A copy says in the columns of legs in one of two ways whether it matches. -/
theorem isFlagged_matchingOnly {c : String} (h : row.IsFlagged c) (legs : List String)
    (kept : String) : (matchingOnly legs kept row).IsFlagged c := by
  unfold matchingOnly
  induction legs generalizing row with
  | nil => exact h
  | cons leg rest ih =>
      refine ih ?_
      by_cases hleg : c = leg
      · subst hleg
        exact isFlagged_set row c _
      · exact (Row.isFlagged_congr (Row.get?_set_of_ne row hleg _)).mpr h

end

/-- Rows that are the same but for idle ones, and for what is muted in aggregations that they miss.
The columns that matter say of every row whether it matches, and some row is not idle. -/
structure SameButMuted (forest : Forest) (columns : List String) (rows settled : List Row) :
    Prop where
  kept : List.Forall₂ (MutesMissed forest) (rows.filter (isKept columns))
    (settled.filter (isKept columns))
  flagged : ∀ row ∈ rows, ∀ c ∈ columns, row.IsFlagged c
  settledFlagged : ∀ row ∈ settled, ∀ c ∈ columns, row.IsFlagged c
  nonempty : ∃ row ∈ settled, isKept columns row = true

namespace SameButMuted

variable {columns : List String} {rows settled : List Row}

theorem exists_isKept (h : SameButMuted forest columns rows settled) :
    ∃ row ∈ rows, isKept columns row = true := by
  by_contra hnone
  have hnil : rows.filter (isKept columns) = [] :=
    List.filter_eq_nil_iff.mpr fun row hrow hkept => hnone ⟨row, hrow, hkept⟩
  have hkept := h.kept
  rw [hnil, List.forall₂_nil_left_iff, List.filter_eq_nil_iff] at hkept
  obtain ⟨row, hrow, hrowKept⟩ := h.nonempty
  exact hkept row hrow hrowKept

theorem splitRun (h : SameButMuted forest columns rows settled) (run : List Nat) :
    SameButMuted forest columns (splitRun forest rows run) (splitRun forest settled run) := by
  unfold Rows.splitRun
  split
  · exact h
  · rename_i start _
    dsimp only
    split
    · exact h
    · have hflagged {rows : List Row} (hrows : ∀ row ∈ rows, ∀ c ∈ columns, row.IsFlagged c)
          (legs : List String) :
          ∀ copy ∈ rows.flatMap (splitRow legs (forest.anchor start)), ∀ c ∈ columns,
            copy.IsFlagged c := by
        intro copy hcopy c hc
        obtain ⟨row, hrow, hsplit⟩ := List.mem_flatMap.mp hcopy
        rcases of_mem_splitRow hsplit with rfl | ⟨kept, -, -, rfl | rfl⟩
        · exact hrows copy hrow c hc
        · exact isFlagged_matchingOnly (hrows row hrow c hc) legs kept
        · exact isFlagged_matchingOnly (hrows row hrow c hc) legs kept
      refine ⟨?_, hflagged h.flagged _, hflagged h.settledFlagged _, ?_⟩
      · rw [filter_flatMap_of_gained (fun _ _ => isKept_of_mem_splitRow) rows,
          filter_flatMap_of_gained (fun _ _ => isKept_of_mem_splitRow) settled]
        refine List.rel_filter (fun row muted hrow => ?_)
          (List.rel_flatMap h.kept fun row muted hrow => hrow.splitRow _ _)
        show isKept columns row = true ↔ isKept columns muted = true
        rw [hrow.isKept]
      · obtain ⟨row, hrow, hkept⟩ := h.nonempty
        obtain ⟨copy, hcopy, hcopyKept⟩ := exists_isKept_of_splitRow hkept _ _
        exact ⟨copy, List.mem_flatMap.mpr ⟨row, hrow, hcopy⟩, hcopyKept⟩

theorem splitConcurrent (h : SameButMuted forest columns rows settled) :
    SameButMuted forest columns (splitConcurrent forest rows) (splitConcurrent forest settled) := by
  unfold Rows.splitConcurrent
  induction forest.concurrentRuns generalizing rows settled with
  | nil => exact h
  | cons run rest ih => exact ih (h.splitRun run)

end SameButMuted

/-! ## Empty intervals -/

/-- Whether some columns come before all others. -/
def LeadsWith (columns outer : List String) : Prop :=
  ∃ first rest, outer = first ++ rest ∧ ∀ c, c ∈ first ↔ c ∈ columns

/-- Rows of one group match the same of the columns that lead its key. -/
theorem flag_eq_of_groupKey_append {first rest : List String} {row other : Row}
    (hrow : ∀ c ∈ first, row.IsFlagged c) (hother : ∀ c ∈ first, other.IsFlagged c)
    (hkey : row.groupKey (first ++ rest) = other.groupKey (first ++ rest)) :
    ∀ c ∈ first, row.flag c = other.flag c := by
  induction first with
  | nil => exact fun _ hc => nomatch hc
  | cons c columns ih =>
      rw [List.forall_mem_cons] at hrow hother
      have hflag : row.flag c = other.flag c := by
        have hboth : ∀ either ∈ [row, other], either.IsFlagged c := by
          simp [hrow.1, hother.1]
        exact flag_eq_of_groupKey hboth row (by simp) other (by simp) hkey
      rw [List.cons_append, groupKey_of_isFlagged hrow.1, groupKey_of_isFlagged hother.1, hflag,
        ← String.toList_inj, String.toList_append, String.toList_append,
        List.append_cancel_left_eq, String.toList_inj] at hkey
      exact List.forall_mem_cons.mpr ⟨hflag, ih hrow.2 hother.2 hkey⟩

/-- The row of an empty interval is made of cells only. -/
theorem gapRow_of_cells {template other : Row} (h : other.cells = template.cells)
    (target : GapTarget) (outer : List String) (countColumn : String) (k : Int) :
    gapRow target outer countColumn other k = gapRow target outer countColumn template k := by
  rw [gapRow, gapRow, h]

theorem forall₂_fillGroup_of_muted {target : GapTarget} (outer : List String)
    (countColumn : String) (limit : Nat) {group others : List Row}
    (h : List.Forall₂ (MutesMissed forest) group others) :
    List.Forall₂ (MutesMissed forest) (fillGroup target outer countColumn limit group)
      (fillGroup target outer countColumn limit others) := by
  have hmissing : missingIndices target limit group = missingIndices target limit others :=
    missingIndices_congr limit (h.imp fun row muted hrow =>
      (congrFun (Row.get?_of_cells hrow.cells) target.column).symm)
  cases h with
  | nil => exact .nil
  | cons hrow hrest =>
      unfold fillGroup
      dsimp only
      rw [← hmissing]
      refine List.rel_append (.cons hrow hrest) ?_
      rw [List.forall₂_map_left_iff, List.forall₂_map_right_iff, List.forall₂_same]
      intro k _
      rw [gapRow_of_cells hrow.cells]
      exact .refl forest _

section

variable {columns : List String} {target : GapTarget} (htarget : gapTarget? forest = some target)
  (hleads : LeadsWith columns (forest.groupColumnsBefore target.index))
  (hcolumns : ∀ c ∈ columns, c ≠ target.column ∧ c ≠ countColumn)

include hleads hcolumns

/-- What is made of an idle row is idle, and what is made of another row is not. -/
theorem exists_of_mem_fillGroup {limit : Nat} {group : List Row} {row : Row}
    (hrow : row ∈ fillGroup target (forest.groupColumnsBefore target.index) countColumn limit
      group) : ∃ before ∈ group, ∀ c ∈ columns, row.get? c = before.get? c := by
  obtain ⟨before, hbefore, hget⟩ := exists_get?_eq_of_mem_fillGroup hrow
  obtain ⟨first, rest, houter, hfirst⟩ := hleads
  refine ⟨before, hbefore, fun c hc => hget c ?_ (hcolumns c hc).1 (hcolumns c hc).2⟩
  rw [houter]
  exact List.mem_append_left rest ((hfirst c).mpr hc)

include htarget

/-- The rows that are kept are filled in by themselves. -/
theorem filter_fillGaps {rows : List Row} (hflagged : ∀ row ∈ rows, ∀ c ∈ columns, row.IsFlagged c)
    (limit : Nat) :
    (fillGaps forest countColumn limit rows).filter (isKept columns) =
      (groups (forest.groupColumnsBefore target.index) (rows.filter (isKept columns))).flatMap
        fun entry => fillGroup target (forest.groupColumnsBefore target.index) countColumn limit
          entry.2 := by
  have hkeep : ∀ row ∈ rows, ∀ other ∈ rows,
      row.groupKey (forest.groupColumnsBefore target.index) =
        other.groupKey (forest.groupColumnsBefore target.index) →
      isKept columns row = isKept columns other := by
    obtain ⟨first, rest, houter, hfirst⟩ := hleads
    intro row hrow other hother hkey
    rw [houter] at hkey
    have hflags := flag_eq_of_groupKey_append
      (fun c hc => hflagged row hrow c ((hfirst c).mp hc))
      (fun c hc => hflagged other hother c ((hfirst c).mp hc)) hkey
    exact isKept_congr fun c hc => hflags c ((hfirst c).mpr hc)
  rw [← filter_groups hkeep]
  unfold fillGaps
  rw [htarget]
  refine filter_flatMap fun group hgroup row hrow => ?_
  obtain ⟨before, hbefore, hget⟩ := exists_of_mem_fillGroup hleads hcolumns hrow
  rw [any_of_mem_groups hkeep hgroup hbefore]
  exact isKept_congr fun c hc => Row.flag_congr (hget c hc)

/-- A row of a filled group says of the columns what a row before said. -/
theorem isFlagged_fillGaps {rows : List Row}
    (hflagged : ∀ row ∈ rows, ∀ c ∈ columns, row.IsFlagged c) (limit : Nat) :
    ∀ row ∈ fillGaps forest countColumn limit rows, ∀ c ∈ columns, row.IsFlagged c := by
  intro row hrow c hc
  unfold fillGaps at hrow
  rw [htarget] at hrow
  obtain ⟨group, hgroup, hfilled⟩ := List.mem_flatMap.mp hrow
  obtain ⟨before, hbefore, hget⟩ := exists_of_mem_fillGroup hleads hcolumns hfilled
  exact (Row.isFlagged_congr (hget c hc)).mpr
    (hflagged before (mem_of_mem_groups hgroup before hbefore) c hc)

end

theorem SameButMuted.fillGaps {columns : List String} {rows settled : List Row}
    (h : SameButMuted forest columns rows settled)
    (hcolumns : ∀ target, gapTarget? forest = some target →
      LeadsWith columns (forest.groupColumnsBefore target.index) ∧
        ∀ c ∈ columns, c ≠ target.column ∧ c ≠ countColumn) (limit : Nat) :
    SameButMuted forest columns (fillGaps forest countColumn limit rows)
      (fillGaps forest countColumn limit settled) := by
  cases htarget : gapTarget? forest with
  | none =>
      unfold Rows.fillGaps
      rw [htarget]
      exact h
  | some target =>
      obtain ⟨hleads, hne⟩ := hcolumns target htarget
      refine ⟨?_, isFlagged_fillGaps htarget hleads hne h.flagged limit,
        isFlagged_fillGaps htarget hleads hne h.settledFlagged limit, ?_⟩
      · rw [filter_fillGaps htarget hleads hne h.flagged,
          filter_fillGaps htarget hleads hne h.settledFlagged]
        refine List.rel_flatMap (forall₂_groups (fun row muted hrow => ?_) h.kept)
          fun entry other hentry => forall₂_fillGroup_of_muted _ countColumn limit hentry
        exact (Row.groupKey_of_cells hrow.cells _).symm
      · obtain ⟨row, hrow, hkept⟩ := h.nonempty
        obtain ⟨gaps, hperm, -⟩ := exists_gaps_perm forest countColumn limit settled
        exact ⟨row, hperm.mem_iff.mpr (List.mem_append_left gaps hrow), hkept⟩

end Rows
end Rollup
