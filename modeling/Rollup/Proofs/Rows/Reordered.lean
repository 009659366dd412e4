/-
# Passes over reordered rows

The passes settle every row by itself, with two exceptions. A row that misses a filter outside of
which nothing is read stays only if a later row matches; such rows are idle, and whether some row is
left does not depend on the order. And the rows of empty intervals are made after the first row of a
group, which is like every other row of the group in the columns that are taken over. So what rows
tell that does not come from idle rows, and is the same for rows that are alike, does not depend on
their order.
-/

import Rollup.Proofs.Plan.Selection
import Rollup.Proofs.Rows.Alike
import Rollup.Proofs.Rows.Gaps

namespace Rollup.Rows

variable {forest : Forest} {countColumn : String}

/-- Whether a row matches some column of those that matter, if there are any. -/
def isKept (columns : List String) (row : Row) : Bool := columns.isEmpty || columns.any row.flag

/-- A row that matches no less than one that is not idle is not idle. -/
theorem isKept_mono {columns : List String} {row other : Row}
    (hflag : ∀ c ∈ columns, row.flag c = true → other.flag c = true)
    (h : isKept columns row = true) : isKept columns other = true := by
  rw [isKept, Bool.or_eq_true, List.any_eq_true] at h ⊢
  exact h.imp_right fun ⟨c, hc, hmatched⟩ => ⟨c, hc, hflag c hc hmatched⟩

theorem isKept_congr {columns : List String} {row other : Row}
    (h : ∀ c ∈ columns, row.flag c = other.flag c) : isKept columns row = isKept columns other :=
  Bool.eq_iff_iff.mpr ⟨isKept_mono fun c hc hmatched => h c hc ▸ hmatched,
    isKept_mono fun c hc hmatched => h c hc ▸ hmatched⟩

/-- Rows that are not empty together, and the same up to their order but for idle ones. -/
structure SameKept (columns : List String) (rows others : List Row) : Prop where
  kept : (rows.filter (isKept columns)).Perm (others.filter (isKept columns))
  nil_iff : rows = [] ↔ others = []
  real : ∀ row ∈ rows, row.origin ≠ .empty
  others_real : ∀ row ∈ others, row.origin ≠ .empty

theorem sameKept_of_perm {rows others : List Row} (hperm : rows.Perm others)
    (hreal : ∀ row ∈ rows, row.origin ≠ .empty) (columns : List String) :
    SameKept columns rows others where
  kept := hperm.filter _
  nil_iff := ⟨fun h => (h ▸ hperm).nil_eq.symm, fun h => (h ▸ hperm).eq_nil⟩
  real := hreal
  others_real := fun row hrow => hreal row (hperm.mem_iff.mpr hrow)

variable {columns : List String} {rows others : List Row}

/-- A change of every row by itself that keeps what it matches. -/
theorem SameKept.map (h : SameKept columns rows others) {f : Row → Row}
    (hkept : ∀ row, isKept columns (f row) = isKept columns row)
    (hreal : ∀ row, row.origin ≠ .empty → (f row).origin ≠ .empty) :
    SameKept columns (rows.map f) (others.map f) where
  kept := by
    rw [List.filter_map, List.filter_map]
    have hcomp : isKept columns ∘ f = isKept columns := funext hkept
    rw [hcomp]
    exact h.kept.map f
  nil_iff := by rw [List.map_eq_nil_iff, List.map_eq_nil_iff, h.nil_iff]
  real := by
    intro row hrow
    obtain ⟨before, hbefore, rfl⟩ := List.mem_map.mp hrow
    exact hreal before (h.real before hbefore)
  others_real := by
    intro row hrow
    obtain ⟨before, hbefore, rfl⟩ := List.mem_map.mp hrow
    exact hreal before (h.others_real before hbefore)

/-- What gains nothing can be left out before lists are joined. -/
theorem filter_flatMap_of_gained {α β : Type} {f : α → List β} {keep : β → Bool}
    {keepAll : α → Bool}
    (h : ∀ item, ∀ other ∈ f item, keep other = true → keepAll item = true) (items : List α) :
    (items.flatMap f).filter keep = ((items.filter keepAll).flatMap f).filter keep := by
  induction items with
  | nil => rfl
  | cons item rest ih =>
      rw [List.flatMap_cons, List.filter_append, ih, List.filter_cons]
      split
      · rw [List.flatMap_cons, List.filter_append]
      · rename_i hnot
        rw [List.filter_eq_nil_iff.mpr fun other hother hkept => hnot (h item other hother hkept),
          List.nil_append]

/-- A split of every row by itself that gains no match. -/
theorem SameKept.flatMap (h : SameKept columns rows others) {f : Row → List Row}
    (hkept : ∀ row, ∀ copy ∈ f row, isKept columns copy = true → isKept columns row = true)
    (hsome : ∀ row, f row ≠ [])
    (hreal : ∀ row, row.origin ≠ .empty → ∀ copy ∈ f row, copy.origin ≠ .empty) :
    SameKept columns (rows.flatMap f) (others.flatMap f) where
  kept := by
    rw [filter_flatMap_of_gained hkept rows, filter_flatMap_of_gained hkept others]
    exact (h.kept.flatMap_right f).filter _
  nil_iff := by
    have hnil (list : List Row) : list.flatMap f = [] ↔ list = [] := by
      rw [List.flatMap_eq_nil_iff]
      constructor
      · intro hall
        exact List.eq_nil_iff_forall_not_mem.mpr fun row hrow => hsome row (hall row hrow)
      · rintro rfl row hrow
        cases hrow
    rw [hnil, hnil, h.nil_iff]
  real := by
    intro row hrow
    obtain ⟨before, hbefore, hcopy⟩ := List.mem_flatMap.mp hrow
    exact hreal before (h.real before hbefore) row hcopy
  others_real := by
    intro row hrow
    obtain ⟨before, hbefore, hcopy⟩ := List.mem_flatMap.mp hrow
    exact hreal before (h.others_real before hbefore) row hcopy

/-! ## Rows that miss a filter -/

/-- Every row that matches stays. -/
theorem filter_dropUnread (unit : FilterUnit) (outer : List String) (rows : List Row) :
    (dropUnread unit outer rows).1.filter unit.isMatchedBy = rows.filter unit.isMatchedBy := by
  induction rows with
  | nil => rfl
  | cons row rest ih =>
      rw [dropUnread, List.filter_cons, ← ih]
      obtain ⟨kept, matched⟩ := dropUnread unit outer rest
      dsimp only
      split
      · rw [List.filter_cons]
      · split
        · rename_i hmatched
          rw [List.filter_cons, if_pos hmatched]
        · rename_i hmissed
          split
          · rw [List.filter_cons, if_neg hmissed]
          · rfl

/-- No row stays when none matches. -/
theorem dropUnread_eq_nil_iff (unit : FilterUnit) (outer : List String) {rows : List Row}
    (hreal : ∀ row ∈ rows, row.origin ≠ .empty) :
    (dropUnread unit outer rows).1 = [] ↔ rows.filter unit.isMatchedBy = [] := by
  constructor
  · intro hnil
    rw [← filter_dropUnread unit outer, hnil, List.filter_nil]
  · suffices hboth : rows.filter unit.isMatchedBy = [] → dropUnread unit outer rows = ([], []) by
      intro hnone
      rw [hboth hnone]
    induction rows with
    | nil => exact fun _ => rfl
    | cons row rest ih =>
        intro hnone
        rw [List.filter_cons] at hnone
        split at hnone
        · cases hnone
        · rename_i hmissed
          rw [dropUnread, ih (fun row hrow => hreal row (by simp [hrow])) hnone]
          simp [hreal row (by simp), hmissed]

/-- By the columns of a unit those rows are kept that it matches. -/
theorem isKept_columns {unit : FilterUnit} (hnonempty : unit.columns ≠ []) :
    isKept unit.columns = unit.isMatchedBy := by
  funext row
  simp [isKept, FilterUnit.isMatchedBy, List.isEmpty_iff, hnonempty]

/-- A unit keeps the rows that matter, when no unit but that of the columns drops any. -/
theorem SameKept.settleUnit (h : SameKept columns rows others) {unit : FilterUnit}
    (hnonempty : unit.columns ≠ [])
    (hdrops : isReadOutside forest (forest.anchor unit.first) = false → unit.columns = columns) :
    SameKept columns (settleUnit forest rows unit) (settleUnit forest others unit) := by
  let settle (row : Row) : Row :=
    if unit.isMissedBy row then placeholder (forest.anchor unit.first) row else row
  have hsettled : ∀ row, isKept columns (settle row) = isKept columns row ∧
      (row.origin ≠ .empty → (settle row).origin ≠ .empty) := by
    intro row
    unfold settle
    split
    · exact ⟨rfl, fun _ => by simp [placeholder]⟩
    · exact ⟨rfl, id⟩
  unfold Rows.settleUnit
  dsimp only
  cases houtside : isReadOutside forest (forest.anchor unit.first) with
  | true => exact h.map (fun row => (hsettled row).1) fun row => (hsettled row).2
  | false =>
      obtain rfl := hdrops houtside
      have hmatched := isKept_columns hnonempty
      let outer := forest.groupColumnsBefore unit.first
      have hdropped : SameKept unit.columns (dropUnread unit outer rows).1
          (dropUnread unit outer others).1 :=
        { kept := by
            rw [hmatched, filter_dropUnread, filter_dropUnread, ← hmatched]
            exact h.kept
          nil_iff := by
            rw [dropUnread_eq_nil_iff unit outer h.real,
              dropUnread_eq_nil_iff unit outer h.others_real, ← hmatched]
            exact ⟨fun hnil => (hnil ▸ h.kept).nil_eq.symm, fun hnil => (hnil ▸ h.kept).eq_nil⟩
          real := fun row hrow => h.real row (mem_of_mem_dropUnread hrow)
          others_real := fun row hrow => h.others_real row (mem_of_mem_dropUnread hrow) }
      exact hdropped.map (fun row => (hsettled row).1) fun row => (hsettled row).2

theorem columns_ne_nil_of_mem_filterUnits {unit : FilterUnit} (hunit : unit ∈ filterUnits forest) :
    unit.columns ≠ [] := by
  obtain ⟨legs, -, hsome⟩ := List.mem_filterMap.mp hunit
  unfold filterUnit? at hsome
  dsimp only at hsome
  split at hsome
  · cases hsome
  · split at hsome
    · cases hsome
    · rename_i hnone
      obtain rfl := Option.some.inj hsome
      simp only [Bool.or_eq_true, not_or, List.isEmpty_iff] at hnone
      exact hnone.2

theorem SameKept.settleUnmatched (h : SameKept columns rows others)
    (hdrops : ∀ unit ∈ filterUnits forest,
      isReadOutside forest (forest.anchor unit.first) = false → unit.columns = columns) :
    SameKept columns (settleUnmatched forest rows) (settleUnmatched forest others) := by
  unfold Rows.settleUnmatched
  have hnonempty := fun unit (hunit : unit ∈ filterUnits forest) =>
    columns_ne_nil_of_mem_filterUnits hunit
  generalize filterUnits forest = units at hdrops hnonempty
  induction units generalizing rows others with
  | nil => exact h
  | cons unit rest ih =>
      rw [List.foldl_cons, List.foldl_cons]
      exact ih (h.settleUnit (hnonempty unit (by simp)) (hdrops unit (by simp)))
        (fun other hother => hdrops other (by simp [hother]))
        fun other hother => hnonempty other (by simp [hother])

/-! ## Rows that match several filters -/

/-- A copy for one leg matches nothing that the row does not match. -/
theorem flag_of_flag_matchingOnly {legs : List String} {kept c : String} {row : Row}
    (hkept : row.flag kept = true) (h : (matchingOnly legs kept row).flag c = true) :
    row.flag c = true := by
  by_cases hc : c ∈ legs
  · rw [flag_matchingOnly hc, decide_eq_true_iff] at h
    exact h ▸ hkept
  · rwa [Row.flag_congr (get?_matchingOnly hc kept row)] at h

/-- The copies of a row are made for legs that it matches, or are the row itself. -/
theorem of_mem_splitRow {legs : List String} {anchor : Nat} {row copy : Row}
    (h : copy ∈ splitRow legs anchor row) :
    copy = row ∨ ∃ kept, kept ∈ legs ∧ row.flag kept = true ∧
      (copy = matchingOnly legs kept row ∨
        copy = scopedCopy anchor (matchingOnly legs kept row)) := by
  unfold splitRow at h
  split at h
  · rename_i first second rest hlegs
    have hmem {leg : String} (hleg : leg ∈ first :: second :: rest) :
        leg ∈ legs ∧ row.flag leg = true := List.mem_filter.mp (hlegs ▸ hleg)
    rcases List.mem_cons.mp h with rfl | hcopy
    · exact Or.inr ⟨first, (hmem (by simp)).1, (hmem (by simp)).2, Or.inl rfl⟩
    · obtain ⟨leg, hleg, rfl⟩ := List.mem_map.mp hcopy
      have hboth := hmem (List.mem_cons_of_mem _ hleg)
      exact Or.inr ⟨leg, hboth.1, hboth.2, Or.inr rfl⟩
  · exact Or.inl (List.mem_singleton.mp h)

/-- The copies of an idle row are idle. -/
theorem isKept_of_mem_splitRow {legs : List String} {anchor : Nat} {row copy : Row}
    (hcopy : copy ∈ splitRow legs anchor row) (hkept : isKept columns copy = true) :
    isKept columns row = true := by
  rcases of_mem_splitRow hcopy with rfl | ⟨leg, -, hleg, heq⟩
  · exact hkept
  · refine isKept_mono (fun c _ hflag => ?_) hkept
    rcases heq with rfl | rfl
    · exact flag_of_flag_matchingOnly hleg hflag
    · exact flag_of_flag_matchingOnly hleg hflag

theorem splitRow_ne_nil (legs : List String) (anchor : Nat) (row : Row) :
    splitRow legs anchor row ≠ [] := by
  unfold splitRow
  split <;> simp

theorem SameKept.splitConcurrent (h : SameKept columns rows others) :
    SameKept columns (splitConcurrent forest rows) (splitConcurrent forest others) := by
  unfold Rows.splitConcurrent
  induction forest.concurrentRuns generalizing rows others with
  | nil => exact h
  | cons run rest ih =>
      rw [List.foldl_cons, List.foldl_cons]
      refine ih ?_
      unfold splitRun
      split
      · exact h
      · dsimp only
        split
        · exact h
        · refine h.flatMap ?_ (splitRow_ne_nil _ _) ?_
          · exact fun _ _ hcopy => isKept_of_mem_splitRow hcopy
          · intro row hreal copy hcopy
            rcases of_mem_splitRow hcopy with rfl | ⟨leg, -, -, rfl | rfl⟩
            · exact hreal
            · rwa [origin_matchingOnly]
            · simp [scopedCopy]

/-! ## Empty intervals -/

theorem mem_groupColumns {count : Nat} {c : String} (h : c ∈ forest.groupColumnsBefore count) :
    c ∈ forest.groupColumns := by
  unfold Forest.groupColumns
  unfold Forest.groupColumnsBefore at h ⊢
  rw [List.mem_eraseDups, List.mem_filterMap] at h ⊢
  obtain ⟨x, hx, hgroups⟩ := h
  exact ⟨x, by simpa using List.mem_of_mem_take hx, hgroups⟩

/-- Rows that are not empty together and tell the same, when idle rows tell nothing and rows that
are alike tell the same. -/
structure TellSame (columns : List String) (rows others : List Row) : Prop where
  nil_iff : rows = [] ↔ others = []
  sum : ∀ told : Row → Nat, (∀ row other, row.IsAlike other → told row = told other) →
    (∀ row, isKept columns row = false → told row = 0) →
    (rows.map told).sum = (others.map told).sum

/-- What does not count can be left out of a sum. -/
theorem sum_filter_of_zero {α : Type} (items : List α) (f : α → Nat) (p : α → Bool)
    (hzero : ∀ item ∈ items, p item = false → f item = 0) :
    ((items.filter p).map f).sum = (items.map f).sum := by
  induction items with
  | nil => rfl
  | cons item rest ih =>
      have hrest := ih fun other hother => hzero other (by simp [hother])
      rw [List.filter_cons, List.map_cons, List.sum_cons, ← hrest]
      split
      · rw [List.map_cons, List.sum_cons]
      · rename_i hnot
        rw [hzero item (by simp) (by simpa using hnot), Nat.zero_add]

theorem SameKept.tellSame (h : SameKept columns rows others) : TellSame columns rows others where
  nil_iff := h.nil_iff
  sum := by
    intro told _ hidle
    rw [← sum_filter_of_zero rows told (isKept columns) fun row _ => hidle row,
      ← sum_filter_of_zero others told (isKept columns) fun row _ => hidle row]
    exact (h.kept.map told).sum_nat

theorem TellSame.symm (h : TellSame columns rows others) : TellSame columns others rows where
  nil_iff := h.nil_iff.symm
  sum := fun told halike hidle => (h.sum told halike hidle).symm

/-- A change of every row by itself that keeps rows alike and gains no match. -/
theorem TellSame.map (h : TellSame columns rows others) {f : Row → Row}
    (halike : ∀ row other, row.IsAlike other → (f row).IsAlike (f other))
    (hkept : ∀ row, isKept columns (f row) = true → isKept columns row = true) :
    TellSame columns (rows.map f) (others.map f) where
  nil_iff := by rw [List.map_eq_nil_iff, List.map_eq_nil_iff, h.nil_iff]
  sum := by
    intro told htold hidle
    rw [List.map_map, List.map_map]
    refine h.sum (told ∘ f) (fun row other hrows => htold _ _ (halike row other hrows)) ?_
    intro row hrow
    refine hidle _ ?_
    by_contra hnot
    rw [hkept row (by simpa using hnot)] at hrow
    cases hrow

theorem isKept_of_alike {row other : Row}
    (h : ∀ c ∈ columns, Option.Rel Cell.IsAlike (row.get? c) (other.get? c)) :
    isKept columns row = isKept columns other :=
  isKept_congr fun c hc => Row.flag_of_alike (h c hc)

/-- What some row has that is not idle, and every row like it, some other row has. -/
theorem TellSame.exists_kept (h : TellSame columns rows others) {p : Row → Bool}
    (halike : ∀ row other, row.IsAlike other → p row = p other) {row : Row} (hrow : row ∈ rows)
    (hkept : isKept columns row = true) (hp : p row = true) : ∃ other ∈ others, p other = true := by
  let told (row : Row) : Nat := if isKept columns row && p row then 1 else 0
  have hsum : (rows.map told).sum = (others.map told).sum := by
    refine h.sum told ?_ ?_
    · intro row other hrows
      dsimp only [told]
      rw [isKept_of_alike fun c _ => hrows.cells c, halike row other hrows]
    · intro row hidle
      simp [told, hidle]
  have hpos : 0 < (rows.map told).sum := List.sum_pos_iff_exists_pos_nat.mpr
    ⟨told row, List.mem_map_of_mem hrow, by simp [told, hkept, hp]⟩
  rw [hsum, List.sum_pos_iff_exists_pos_nat] at hpos
  obtain ⟨n, hn, hpositive⟩ := hpos
  obtain ⟨other, hother, rfl⟩ := List.mem_map.mp hn
  refine ⟨other, hother, ?_⟩
  by_contra hnot
  simp [told, hnot] at hpositive

/-- The groups of rows, each with the rows of one key. -/
theorem groups_eq (columns : List String) (rows : List Row) :
    groups columns rows = ((rows.map fun row => row.groupKey columns).eraseDups).map fun key =>
      (key, rows.filter fun row => row.groupKey columns = key) := by
  unfold groups
  simp [Function.comp_def, List.filter_map]

section

variable {keep : Row → Bool} {outer : List String}
  (hkeep : ∀ row ∈ rows, ∀ other ∈ rows,
    row.groupKey outer = other.groupKey outer → keep row = keep other)

include hkeep

/-- What rows of one group have in common, all have that some row has. -/
theorem any_of_mem_groups {group : String × List Row} (hgroup : group ∈ groups outer rows)
    {row : Row} (hrow : row ∈ group.2) : group.2.any keep = keep row := by
  rw [groups_eq] at hgroup
  obtain ⟨key, -, rfl⟩ := List.mem_map.mp hgroup
  obtain ⟨hmem, hkey⟩ := List.mem_filter.mp hrow
  rw [Bool.eq_iff_iff, List.any_eq_true]
  refine ⟨?_, fun hkept => ⟨row, hrow, hkept⟩⟩
  rintro ⟨other, hother, hkept⟩
  obtain ⟨hotherMem, hotherKey⟩ := List.mem_filter.mp hother
  rwa [hkeep row hmem other hotherMem (by simp_all)]

/-- The groups with rows that are kept are the groups of the rows that are kept, when the rows of
one group are kept together. -/
theorem filter_groups : (groups outer rows).filter (fun entry => entry.2.any keep) =
    groups outer (rows.filter keep) := by
  have hsome : ∀ row ∈ rows,
      ((rows.filter fun other => other.groupKey outer = row.groupKey outer).any keep) =
        keep row := by
    intro row hrow
    have hgroup : (row.groupKey outer, rows.filter fun other =>
        other.groupKey outer = row.groupKey outer) ∈ groups outer rows := by
      rw [groups_eq]
      exact List.mem_map.mpr ⟨_, List.mem_eraseDups.mpr (List.mem_map_of_mem hrow), rfl⟩
    exact any_of_mem_groups hkeep hgroup (List.mem_filter.mpr ⟨hrow, decide_eq_true rfl⟩)
  rw [groups_eq, groups_eq, List.filter_map, Statement.filter_eraseDups, List.filter_map]
  have hkeys : rows.filter ((fun key => ((rows.filter fun other =>
      other.groupKey outer = key).any keep)) ∘ fun row => row.groupKey outer) =
        rows.filter keep := List.filter_congr hsome
  refine (congrArg (fun kept : List Row => (kept.map fun row =>
    row.groupKey outer).eraseDups.map fun key =>
      (key, rows.filter fun row => row.groupKey outer = key)) hkeys).trans ?_
  refine List.map_congr_left fun key hkey => ?_
  obtain ⟨first, hfirst, rfl⟩ := List.mem_map.mp (List.mem_eraseDups.mp hkey)
  obtain ⟨hmem, hkept⟩ := List.mem_filter.mp hfirst
  refine Prod.ext rfl ?_
  rw [List.filter_filter]
  refine List.filter_congr fun row hrow => ?_
  by_cases hsame : row.groupKey outer = first.groupKey outer
  · simp [hsame, hkeep row hrow first hmem hsame, hkept]
  · simp [hsame]

end

section

variable {target : GapTarget}

theorem min?_eq_of_mem_iff {first second : List Int} (h : ∀ k, k ∈ first ↔ k ∈ second) :
    first.min? = second.min? := by
  cases hfirst : first.min? with
  | none =>
      rw [List.min?_eq_none_iff] at hfirst
      have hnil : second = [] := List.eq_nil_iff_forall_not_mem.mpr fun k hk => by
        have := (h k).mpr hk
        simp [hfirst] at this
      rw [hnil]
      rfl
  | some low =>
      rw [List.min?_eq_some_iff] at hfirst
      exact (List.min?_eq_some_iff.mpr ⟨(h low).mp hfirst.1, fun k hk =>
        hfirst.2 k ((h k).mpr hk)⟩).symm

theorem max?_eq_of_mem_iff {first second : List Int} (h : ∀ k, k ∈ first ↔ k ∈ second) :
    first.max? = second.max? := by
  cases hfirst : first.max? with
  | none =>
      rw [List.max?_eq_none_iff] at hfirst
      have hnil : second = [] := List.eq_nil_iff_forall_not_mem.mpr fun k hk => by
        have := (h k).mpr hk
        simp [hfirst] at this
      rw [hnil]
      rfl
  | some high =>
      rw [List.max?_eq_some_iff] at hfirst
      exact (List.max?_eq_some_iff.mpr ⟨(h high).mp hfirst.1, fun k hk =>
        hfirst.2 k ((h k).mpr hk)⟩).symm

theorem missingFrom_eq_of_mem_iff {present present' : List Int}
    (h : ∀ k, k ∈ present ↔ k ∈ present') (steps limit : Nat) (index : Int) :
    missingFrom present steps limit index = missingFrom present' steps limit index := by
  have hcontains (k : Int) : present.contains k = present'.contains k := by
    rw [Bool.eq_iff_iff, List.contains_iff_mem, List.contains_iff_mem, h]
  induction steps generalizing limit index with
  | zero => rfl
  | succ steps ih =>
      cases limit <;> simp only [missingFrom, hcontains, ih]

/-- Which intervals are missing does not depend on the order of a group. -/
theorem missingIndices_eq_of_perm {group group' : List Row} (h : group.Perm group') (limit : Nat) :
    missingIndices target limit group = missingIndices target limit group' := by
  have hpresent (k : Int) :
      k ∈ presentIndices target group ↔ k ∈ presentIndices target group' := by
    rw [mem_presentIndices, mem_presentIndices]
    simp only [h.mem_iff]
  have happend (bounds : List Int) (k : Int) : k ∈ presentIndices target group ++ bounds ↔
      k ∈ presentIndices target group' ++ bounds := by
    rw [List.mem_append, List.mem_append, hpresent]
  unfold missingIndices
  dsimp only
  rw [min?_eq_of_mem_iff (happend _), max?_eq_of_mem_iff (happend _)]
  simp only [missingBetween, missingFrom_eq_of_mem_iff hpresent]

/-- The rows of an empty interval that are made after rows of one group are alike. -/
theorem isAlike_gapRow {outer : List String} {template other : Row}
    (hclean : template.IsClean outer)
    (hother : other.IsClean outer) (hkey : template.groupKey outer = other.groupKey outer)
    (countColumn : String) (k : Int) :
    (gapRow target outer countColumn template k).IsAlike
      (gapRow target outer countColumn other k) := by
  let kept (row : Row) : Row := Row.ofCells (row.cells.map fun cell =>
    (cell.1, if outer.contains cell.1 then cell.2 else .null)) .gapFill
  have hset (row : Row) : gapRow target outer countColumn row k =
      ((kept row).set target.column (target.grid.valueAt k)).set countColumn (.ofInt 0) := rfl
  have hget (row : Row) (c : String) :
      (kept row).get? c = if outer.contains c then row.get? c else none := by
    unfold Row.get?
    have hcells := get?_map_cells row.cells (fun name => outer.contains name) c
    dsimp only [kept, Row.ofCells]
    rw [hcells]
    cases row.cells.get? c with
    | none => simp
    | some value => cases hc : outer.contains c <;> simp [Json.isNull]
  have hkept : (kept template).IsAlike (kept other) := by
    refine ⟨rfl, rfl, fun c => ?_⟩
    rw [hget, hget]
    split
    · rename_i hc
      exact Row.isAlike_of_groupKey_eq hclean hother hkey (List.contains_iff_mem.mp hc)
    · exact Option.Rel.none
  rw [hset, hset]
  exact (hkept.set _ _).set _ _

/-- The row of an empty interval that is made after an idle row is idle. -/
theorem isKept_gapRow {outer : List String} {template : Row} {k : Int}
    (htarget : ∀ c ∈ columns, c ≠ target.column)
    (h : isKept columns (gapRow target outer countColumn template k) = true) :
    isKept columns template = true := by
  refine isKept_mono (fun c hc hflag => ?_) h
  by_cases hcount : c = countColumn
  · subst hcount
    have hzero : (gapRow target outer c template k).flag c = false :=
      Row.flag_set_zero (Row.ofCells _ .gapFill) c
    rw [hzero] at hflag
    cases hflag
  · exact flag_of_flag_gapRow (htarget c hc) hcount hflag

/-- What the rows of the empty intervals of a group tell. -/
def gapSum (target : GapTarget) (outer : List String) (countColumn : String) (limit : Nat)
    (told : Row → Nat) (group : List Row) : Nat :=
  match group with
  | [] => 0
  | template :: _ => ((missingIndices target limit group).map fun k =>
      told (gapRow target outer countColumn template k)).sum

theorem sum_map_flatMap {α β : Type} (f : α → List β) (told : β → Nat) (items : List α) :
    ((items.flatMap f).map told).sum = (items.map fun item => ((f item).map told).sum).sum := by
  rw [List.map_flatMap, List.flatMap_def, List.sum_flatten, List.map_map]
  rfl

/-- What rows and the rows of their empty intervals tell is told group by group. -/
theorem sum_fillGaps (htarget : gapTarget? forest = some target) (limit : Nat)
    (told : Row → Nat) (rows : List Row) :
    ((fillGaps forest countColumn limit rows).map told).sum = (rows.map told).sum +
      (((rows.map fun row => row.groupKey (forest.groupColumnsBefore target.index)).eraseDups).map
        fun key => gapSum target (forest.groupColumnsBefore target.index) countColumn limit told
          (rows.filter fun row => row.groupKey (forest.groupColumnsBefore target.index) = key)).sum
    := by
  let outer := forest.groupColumnsBefore target.index
  have hgroup (group : List Row) :
      ((fillGroup target outer countColumn limit group).map told).sum =
        (group.map told).sum + gapSum target outer countColumn limit told group := by
    cases group with
    | nil => rfl
    | cons template rest =>
        rw [fillGroup, List.map_append, List.sum_append, List.map_map]
        rfl
  have hfill : fillGaps forest countColumn limit rows = (groups outer rows).flatMap fun entry =>
      fillGroup target outer countColumn limit entry.2 := by
    unfold fillGaps
    rw [htarget]
  calc
    _ = ((groups outer rows).map fun entry => (entry.2.map told).sum +
          gapSum target outer countColumn limit told entry.2).sum := by
        rw [hfill, sum_map_flatMap]
        simp only [hgroup]
    _ = (((groups outer rows).flatMap Prod.snd).map told).sum + ((groups outer rows).map
          fun entry => gapSum target outer countColumn limit told entry.2).sum := by
        rw [List.sum_map_add, sum_map_flatMap]
    _ = _ := by
        rw [((flatMap_groups_perm outer rows).map told).sum_nat, groups_eq, List.map_map]
        rfl

/-- The empty intervals of a group tell the same in any order of the group. -/
theorem gapSum_eq_of_perm {outer : List String} (limit : Nat) {told : Row → Nat}
    (htold : ∀ row other, row.IsAlike other → told row = told other) {group group' : List Row}
    (hperm : group.Perm group') (hclean : ∀ row ∈ group, row.IsClean outer) {key : String}
    (hkey : ∀ row ∈ group, row.groupKey outer = key) :
    gapSum target outer countColumn limit told group =
      gapSum target outer countColumn limit told group' := by
  have hmissing : missingIndices target limit group = missingIndices target limit group' :=
    missingIndices_eq_of_perm hperm limit
  cases group with
  | nil => rw [hperm.nil_eq]
  | cons template rest =>
      cases group' with
      | nil => exact absurd hperm.eq_nil (by simp)
      | cons other rest' =>
          have hmem : other ∈ template :: rest := hperm.mem_iff.mpr (by simp)
          unfold gapSum
          rw [hmissing]
          dsimp only
          congr 1
          refine List.map_congr_left fun k _ => htold _ _ ?_
          exact isAlike_gapRow (hclean template (by simp)) (hclean other hmem)
            ((hkey template (by simp)).trans (hkey other hmem).symm) countColumn k

theorem fillGaps_eq_nil_iff {limit : Nat} {rows : List Row} :
    fillGaps forest countColumn limit rows = [] ↔ rows = [] := by
  obtain ⟨gaps, hperm, hgaps⟩ := exists_gaps_perm forest countColumn limit rows
  constructor
  · intro hfilled
    rw [hfilled] at hperm
    exact (List.append_eq_nil_iff.mp hperm.nil_eq.symm).1
  · rintro rfl
    rw [List.nil_append] at hperm
    cases gaps with
    | nil => exact hperm.eq_nil
    | cons gap rest =>
        obtain ⟨_, _, _, htemplate, _⟩ := hgaps gap (by simp)
        cases htemplate

/-- What is made of idle rows is idle. -/
theorem exists_isKept_of_mem_fillGroup {outer : List String} {limit : Nat} {group : List Row}
    {row : Row} (htarget : ∀ c ∈ columns, c ≠ target.column)
    (hrow : row ∈ fillGroup target outer countColumn limit group)
    (hkept : isKept columns row = true) : ∃ before ∈ group, isKept columns before = true := by
  cases group with
  | nil => cases hrow
  | cons template rest =>
      rcases List.mem_append.mp hrow with hmem | hgap
      · exact ⟨row, hmem, hkept⟩
      · obtain ⟨k, -, rfl⟩ := List.mem_map.mp hgap
        exact ⟨template, List.mem_cons_self, isKept_gapRow htarget hkept⟩

/-- Idle rows tell nothing with their empty intervals either, when the rows of one group are idle
together. -/
theorem sum_fillGaps_filter (htarget : gapTarget? forest = some target)
    (hcolumns : ∀ c ∈ columns, c ≠ target.column)
    (hkeep : ∀ row ∈ rows, ∀ other ∈ rows,
      row.groupKey (forest.groupColumnsBefore target.index) =
        other.groupKey (forest.groupColumnsBefore target.index) →
      isKept columns row = isKept columns other)
    {told : Row → Nat} (hidle : ∀ row, isKept columns row = false → told row = 0) (limit : Nat) :
    ((fillGaps forest countColumn limit (rows.filter (isKept columns))).map told).sum =
      ((fillGaps forest countColumn limit rows).map told).sum := by
  unfold fillGaps
  rw [htarget]
  dsimp only
  rw [← filter_groups hkeep, sum_map_flatMap, sum_map_flatMap]
  refine sum_filter_of_zero _ _ _ fun entry _ hnone => List.sum_eq_zero fun n hn => ?_
  obtain ⟨row, hrow, rfl⟩ := List.mem_map.mp hn
  refine hidle row (Bool.eq_false_iff.mpr fun hkept => ?_)
  obtain ⟨before, hbefore, hbeforeKept⟩ := exists_isKept_of_mem_fillGroup hcolumns hrow hkept
  exact List.any_eq_false.mp hnone before hbefore hbeforeKept

/-- Rows tell the same with their empty intervals in any order. -/
theorem sum_fillGaps_of_perm (htarget : gapTarget? forest = some target) {told : Row → Nat}
    (htold : ∀ row other, row.IsAlike other → told row = told other) (hperm : rows.Perm others)
    (hclean : ∀ row ∈ rows, row.IsClean (forest.groupColumnsBefore target.index)) (limit : Nat) :
    ((fillGaps forest countColumn limit rows).map told).sum =
      ((fillGaps forest countColumn limit others).map told).sum := by
  have hkeys : ((rows.map fun row =>
      row.groupKey (forest.groupColumnsBefore target.index)).eraseDups).Perm
        ((others.map fun row =>
          row.groupKey (forest.groupColumnsBefore target.index)).eraseDups) := by
    rw [List.perm_ext_iff_of_nodup (nodup_eraseDups _) (nodup_eraseDups _)]
    intro key
    rw [List.mem_eraseDups, List.mem_eraseDups, (hperm.map _).mem_iff]
  rw [sum_fillGaps htarget, sum_fillGaps htarget, (hperm.map told).sum_nat,
    ← (hkeys.map _).sum_nat]
  congr 2
  refine List.map_congr_left fun key _ => ?_
  have hgroup : ∀ row ∈ rows.filter (fun row =>
      row.groupKey (forest.groupColumnsBefore target.index) = key),
      row ∈ rows ∧ row.groupKey (forest.groupColumnsBefore target.index) = key :=
    fun row hrow => (List.mem_filter.mp hrow).imp_right of_decide_eq_true
  exact gapSum_eq_of_perm limit htold (hperm.filter _)
    (fun row hrow => hclean row (hgroup row hrow).1) fun row hrow => (hgroup row hrow).2

/-- Rows tell the same with their empty intervals, when the columns that matter are among those of
the groups and none is the one that is filled in. -/
theorem SameKept.fillGaps (h : SameKept columns rows others)
    (hclean : ∀ row ∈ rows, row.IsClean forest.groupColumns)
    (hothers : ∀ row ∈ others, row.IsClean forest.groupColumns) (limit : Nat)
    (hcolumns : ∀ target, gapTarget? forest = some target → ∀ c ∈ columns,
      c ∈ forest.groupColumnsBefore target.index ∧ c ≠ target.column) :
    TellSame columns (fillGaps forest countColumn limit rows)
      (fillGaps forest countColumn limit others) := by
  cases htarget : gapTarget? forest with
  | none =>
      unfold Rows.fillGaps
      rw [htarget]
      exact h.tellSame
  | some target =>
      have houter {row : Row} (hrow : row.IsClean forest.groupColumns) :
          row.IsClean (forest.groupColumnsBefore target.index) :=
        fun c hc => hrow c (mem_groupColumns hc)
      have hne : ∀ c ∈ columns, c ≠ target.column := fun c hc => (hcolumns target htarget c hc).2
      have hkeep {list : List Row} (hlist : ∀ row ∈ list, row.IsClean forest.groupColumns) :
          ∀ row ∈ list, ∀ other ∈ list,
            row.groupKey (forest.groupColumnsBefore target.index) =
              other.groupKey (forest.groupColumnsBefore target.index) →
            isKept columns row = isKept columns other :=
        fun row hrow other hother hkey => isKept_of_alike fun c hc =>
          Row.isAlike_of_groupKey_eq (houter (hlist row hrow)) (houter (hlist other hother)) hkey
            (hcolumns target htarget c hc).1
      refine ⟨?_, fun told htold hidle => ?_⟩
      · rw [fillGaps_eq_nil_iff, fillGaps_eq_nil_iff, h.nil_iff]
      · rw [← sum_fillGaps_filter htarget hne (hkeep hclean) hidle,
          ← sum_fillGaps_filter htarget hne (hkeep hothers) hidle]
        exact sum_fillGaps_of_perm htarget htold h.kept
          (fun row hrow => houter (hclean row (List.mem_filter.mp hrow).1)) limit

end

/-! ## All passes -/

/-- A split makes clean rows of clean rows. -/
theorem isClean_splitConcurrent (hclean : ∀ row ∈ rows, row.IsClean forest.groupColumns) :
    ∀ row ∈ splitConcurrent forest rows, row.IsClean forest.groupColumns := by
  have hmatching {row : Row} (hrow : row.IsClean forest.groupColumns) (legs : List String)
      (kept : String) : (matchingOnly legs kept row).IsClean forest.groupColumns := by
    unfold matchingOnly
    induction legs generalizing row with
    | nil => exact hrow
    | cons leg rest ih =>
        refine ih (hrow.set leg (Cell.isClean_ofInt ?_))
        split <;> decide
  unfold splitConcurrent
  induction forest.concurrentRuns generalizing rows with
  | nil => exact hclean
  | cons run rest ih =>
      refine ih ?_
      unfold splitRun
      split
      · exact hclean
      · dsimp only
        split
        · exact hclean
        · intro row hrow
          obtain ⟨before, hbefore, hcopy⟩ := List.mem_flatMap.mp hrow
          rcases of_mem_splitRow hcopy with rfl | ⟨leg, -, -, rfl | rfl⟩
          · exact hclean _ hbefore
          · exact hmatching (hclean before hbefore) _ _
          · exact hmatching (hclean before hbefore) _ _

/-- Settled rows are clean when the rows of the result are. -/
theorem isClean_settleUnmatched (hclean : ∀ row ∈ rows, row.IsClean forest.groupColumns) :
    ∀ row ∈ settleUnmatched forest rows, row.IsClean forest.groupColumns := by
  intro row hrow column hcolumn
  obtain ⟨before, hbefore, hcells⟩ := exists_of_mem_settleUnmatched hrow
  rw [Row.cellOrNull, hcells]
  exact hclean before hbefore column hcolumn

/-- A row with emptied cells matches nothing that it did not match. -/
theorem flag_of_flag_blanked {blanked : List String} {row : Row} {c : String}
    (h : (blanked.foldl (fun row column => row.set column .null) row).flag c = true) :
    row.flag c = true := by
  by_cases hblanked : c ∈ blanked
  · rw [Row.flag, Row.number?, get?_blanked hblanked] at h
    cases h
  · rwa [Row.flag_congr (get?_blank hblanked row)] at h

theorem isKept_of_blanked {blanked : List String} {row : Row}
    (h : isKept columns (blanked.foldl (fun row column => row.set column .null) row) = true) :
    isKept columns row = true :=
  isKept_mono (fun _ _ hflag => flag_of_flag_blanked hflag) h

/-- Rows with emptied cells tell the same. -/
theorem TellSame.blank (h : TellSame columns rows others) :
    TellSame columns (blank forest rows) (blank forest others) := by
  unfold Rows.blank
  dsimp only
  refine h.map ?_ ?_
  · intro row other halike
    induction blankedColumns forest generalizing row other with
    | nil => exact halike
    | cons column rest ih => exact ih _ _ (halike.set column .null)
  · exact fun row => isKept_of_blanked

/-- After all passes rows tell the same as in any other order, sorted or not. -/
theorem tellSame_run {context : RowContext} (hperm : rows.Perm others)
    (hreal : ∀ row ∈ rows, row.origin ≠ .empty)
    (hclean : ∀ row ∈ rows, row.IsClean forest.groupColumns)
    (hdrops : ∀ unit ∈ filterUnits forest,
      isReadOutside forest (forest.anchor unit.first) = false → unit.columns = columns)
    (hcolumns : ∀ target, gapTarget? forest = some target → ∀ c ∈ columns,
      c ∈ forest.groupColumnsBefore target.index ∧ c ≠ target.column) (sorted sorted' : Bool) :
    TellSame columns (RowPass.run forest { context with complexOrder := sorted } rows)
      (RowPass.run forest { context with complexOrder := sorted' } others) := by
  have hsorted (flag : Bool) (list : List Row) :
      (if flag then sort forest context.countColumn list else list).Perm list := by
    split
    · exact sort_perm forest context.countColumn list
    · exact .refl list
  have hboth := (hsorted sorted rows).trans (hperm.trans (hsorted sorted' others).symm)
  have hclean' : ∀ row ∈ others, row.IsClean forest.groupColumns :=
    fun row hrow => hclean row (hperm.mem_iff.mpr hrow)
  have hsettled {flag : Bool} {list : List Row}
      (hlist : ∀ row ∈ list, row.IsClean forest.groupColumns) :
      ∀ row ∈ splitConcurrent forest (settleUnmatched forest
        (if flag then sort forest context.countColumn list else list)),
      row.IsClean forest.groupColumns :=
    isClean_splitConcurrent (isClean_settleUnmatched fun row hrow =>
      hlist row ((hsorted flag list).mem_iff.mp hrow))
  have hsame := sameKept_of_perm hboth (fun row hrow => hreal row
    ((hsorted sorted rows).mem_iff.mp hrow)) columns
  rw [RowPass.run_eq, RowPass.run_eq]
  exact ((hsame.settleUnmatched hdrops).splitConcurrent.fillGaps (hsettled hclean)
    (hsettled hclean') _ hcolumns).blank

end Rollup.Rows
