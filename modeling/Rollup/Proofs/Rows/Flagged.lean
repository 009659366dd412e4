/-
# Rows beside those that match

The rows that a direct leg lets through come back from its indirect form as well, with other rows
among them and a column that says which is which. The passes over the rows do the same to the rows
that match in both forms: they read the column of the leg to group by it only, and within the rows
that match it says the same everywhere. No row that matches is dropped or takes part in a group of
the others, so after all passes the rows that match are those of the direct form, the column apart.
-/

import Rollup.Proofs.Plan.Enclosing
import Rollup.Proofs.Rows.Reordered

namespace Rollup

/-! ## Rows that agree off one column -/

namespace Row

/-- Whether two rows agree in all but one column. -/
structure AgreesOff (c : String) (row other : Row) : Prop where
  cells : ∀ column, column ≠ c → row.get? column = other.get? column
  origin : row.origin = other.origin
  countScopes : row.countScopes = other.countScopes
  mutedScopes : row.mutedScopes = other.mutedScopes

/-- Whether a column says in one of two ways whether a row matches. -/
def IsFlagged (c : String) (row : Row) : Prop :=
  Cell.key (row.cellOrNull c) = if row.flag c then "1" else "0"

instance (c : String) (row : Row) : Decidable (row.IsFlagged c) :=
  inferInstanceAs (Decidable (_ = _))

theorem cellOrNull_eq (row : Row) (c : String) : row.cellOrNull c = (row.get? c).getD .null := by
  unfold cellOrNull get?
  cases hcell : row.cells.get? c with
  | none => rfl
  | some value =>
      cases value <;> rfl

theorem groupKey_congr {columns : List String} {row other : Row}
    (h : ∀ column ∈ columns, row.get? column = other.get? column) :
    row.groupKey columns = other.groupKey columns := by
  unfold groupKey
  refine congrArg String.join (List.map_congr_left fun column hcolumn => ?_)
  rw [cellOrNull_eq, cellOrNull_eq, h column hcolumn]

variable {c : String} {row other : Row}

theorem isFlagged_congr (h : row.get? c = other.get? c) : row.IsFlagged c ↔ other.IsFlagged c := by
  rw [IsFlagged, IsFlagged, cellOrNull_eq, cellOrNull_eq, h, flag_congr h]

theorem groupKey_cons (row : Row) (c : String) (columns : List String) :
    row.groupKey (c :: columns) =
      Cell.key (row.cellOrNull c) ++ "\x1f" ++ row.groupKey columns := by
  rw [groupKey, List.map_cons, String.join_cons]
  rfl

namespace AgreesOff

theorem refl (c : String) (row : Row) : row.AgreesOff c row := ⟨fun _ _ => rfl, rfl, rfl, rfl⟩

theorem set (h : row.AgreesOff c other) (column : String) (value : Json) :
    (row.set column value).AgreesOff c (other.set column value) where
  cells := by
    intro column' hne
    by_cases heq : column' = column
    · subst heq
      rw [get?_set_self, get?_set_self]
    · rw [get?_set_of_ne _ heq, get?_set_of_ne _ heq, h.cells column' hne]
  origin := h.origin
  countScopes := h.countScopes
  mutedScopes := h.mutedScopes

theorem groupKey (h : row.AgreesOff c other) {columns : List String} (hc : c ∉ columns) :
    row.groupKey columns = other.groupKey columns :=
  groupKey_congr fun column hcolumn => h.cells column fun heq => hc (heq ▸ hcolumn)

end AgreesOff
end Row

namespace Rows

/-- Whether some rows are the ones that match among all rows, the column of the leg apart, and there
are any. The column of every row says whether it matches. -/
structure IsPart (c : String) (part all : List Row) : Prop where
  nonempty : part ≠ []
  flagged : ∀ row ∈ all, row.IsFlagged c
  agrees : List.Forall₂ (Row.AgreesOff c) part (all.filter fun row => row.flag c)

/-- Lists may be left out before they are joined, if all that is in them would be afterwards. -/
theorem filter_flatMap {α β : Type} {f : α → List β} {keep : β → Bool} {keepAll : α → Bool}
    {items : List α} (h : ∀ item ∈ items, ∀ other ∈ f item, keep other = keepAll item) :
    (items.flatMap f).filter keep = (items.filter keepAll).flatMap f := by
  induction items with
  | nil => rfl
  | cons item rest ih =>
      have hitem := h item List.mem_cons_self
      rw [List.flatMap_cons, List.filter_append, List.filter_cons,
        ih fun other hother => h other (List.mem_cons_of_mem _ hother)]
      cases hkeep : keepAll item with
      | true =>
          rw [List.filter_eq_self.mpr fun other hother => (hitem other hother).trans hkeep]
          rfl
      | false =>
          rw [List.filter_eq_nil_iff.mpr fun other hother => by simp [hitem other hother, hkeep]]
          rfl

namespace IsPart

variable {c : String} {part all : List Row}

theorem of_flagged (hflagged : ∀ row ∈ all, row.IsFlagged c)
    (hsome : ∃ row ∈ all, row.flag c = true) : IsPart c (all.filter fun row => row.flag c) all where
  nonempty := by
    obtain ⟨row, hrow, hflag⟩ := hsome
    exact List.ne_nil_of_mem (List.mem_filter.mpr ⟨hrow, hflag⟩)
  flagged := hflagged
  agrees := List.forall₂_same.mpr fun row _ => .refl c row

/-- Putting rows in the place of each row keeps the part if their columns say what it said. -/
theorem flatMap {f g : Row → List Row} (h : IsPart c part all) (hsome : ∀ row, f row ≠ [])
    (hget : ∀ row, ∀ other ∈ g row, other.get? c = row.get? c)
    (hagree : ∀ row other, row.AgreesOff c other →
      List.Forall₂ (Row.AgreesOff c) (f row) (g other)) :
    IsPart c (part.flatMap f) (all.flatMap g) where
  nonempty := by
    rw [ne_eq, List.flatMap_eq_nil_iff, not_forall]
    obtain ⟨row, hrow⟩ := List.exists_mem_of_ne_nil part h.nonempty
    exact ⟨row, fun hnil => hsome row (hnil hrow)⟩
  flagged := by
    intro other hother
    obtain ⟨row, hrow, hmem⟩ := List.mem_flatMap.mp hother
    exact (Row.isFlagged_congr (hget row other hmem)).mpr (h.flagged row hrow)
  agrees := by
    have hfilter : (all.flatMap g).filter (fun row => row.flag c) =
        (all.filter fun row => row.flag c).flatMap g :=
      filter_flatMap fun row _ other hother => Row.flag_congr (hget row other hother)
    rw [hfilter]
    exact List.rel_flatMap h.agrees fun row other hrow => hagree row other hrow

theorem map {f g : Row → Row} (h : IsPart c part all) (hget : ∀ row, (g row).get? c = row.get? c)
    (hagree : ∀ row other, row.AgreesOff c other → (f row).AgreesOff c (g other)) :
    IsPart c (part.map f) (all.map g) := by
  rw [List.map_eq_flatMap, List.map_eq_flatMap]
  refine h.flatMap (fun _ => List.cons_ne_nil _ _) (fun row other hother => ?_)
    fun row other hrow => .cons (hagree row other hrow) .nil
  rw [List.mem_singleton.mp hother, hget]

end IsPart

/-! ## Rows that miss a filter -/

section

variable {forest : Forest} {index : Nat} {leg : Node} {c : String} {part all : List Row}

/-- Of the active legs of its aggregation the leg is the only one. -/
theorem eq_index_of_mem (h : forest.Encloses index leg c) (hlaid : forest.IsLaidOut)
    {group : List Nat} (hgroup : group ∈ forest.legGroups) (hmem : index ∈ group) {i : Nat}
    (hi : i ∈ group) {n : Node} (hn : forest[i]? = some n) (hactive : n.isActive = true) :
    i = index := by
  by_contra hne
  rw [Forest.eq_legsOf_of_mem hgroup hmem] at hi
  obtain ⟨⟨n', hn', hleg⟩, hanchor⟩ := Forest.mem_legsOf.mp hi
  obtain rfl := Option.some.inj (hn.symm.trans hn')
  have hquery := Node.isQuery_of_isLeg hleg
  have := hlaid.lt_of_isBelow (h.below i n hne hn hactive hquery) hn hquery hanchor
  omega

/-- Of the aggregation of the leg, its indirect form has one unit at most and its direct form
none. -/
theorem filterUnit?_of_mem (h : forest.Encloses index leg c) (hlaid : forest.IsLaidOut)
    {group : List Nat} (hgroup : group ∈ forest.legGroups) (hmem : index ∈ group) :
    filterUnit? forest group = none ∧
      ∀ unit, filterUnit? (forest.indirectAt index) group = some unit →
        unit = ⟨index, [c]⟩ := by
  have hdirect : group.filter (isIndirectLeg forest) = [] := by
    rw [List.filter_eq_nil_iff]
    intro i hi hindirect
    unfold isIndirectLeg at hindirect
    cases hn : forest[i]? with
    | none => simp [hn] at hindirect
    | some n =>
        simp only [hn, Bool.and_eq_true, Bool.not_eq_true'] at hindirect
        obtain rfl := eq_index_of_mem h hlaid hgroup hmem hi hn hindirect.1
        obtain rfl := Option.some.inj (hn.symm.trans h.at_index)
        exact Bool.false_ne_true (hindirect.2.symm.trans h.direct)
  have hindirect : group.filter (isIndirectLeg (forest.indirectAt index)) = [index] := by
    have hnodup : group.Nodup := by
      rw [Forest.eq_legsOf_of_mem hgroup hmem]
      exact (Forest.pairwise_legsOf forest _).imp Nat.ne_of_lt
    have hsame : group.filter (isIndirectLeg (forest.indirectAt index)) =
        group.filter (· == index) := by
      refine List.filter_congr fun i hi => ?_
      by_cases hindex : i = index
      · rw [hindex, beq_self_eq_true, isIndirectLeg, Forest.getElem?_indirectAt, h.at_index,
          Option.map_some, if_pos rfl]
        exact Bool.and_eq_true_iff.mpr ⟨h.active, rfl⟩
      · rw [beq_false_of_ne hindex, isIndirectLeg, Forest.getElem?_indirectAt]
        cases hn : forest[i]? with
        | none => rfl
        | some n =>
            have hinactive : n.isActive = false := by
              by_contra hactive
              exact hindex (eq_index_of_mem h hlaid hgroup hmem hi hn (by simpa using hactive))
            simp [hindex, hinactive]
    rw [hsame, List.filter_beq, List.count_eq_one_of_mem hnodup hmem]
    rfl
  constructor
  · unfold filterUnit?
    rw [hdirect]
  · intro unit hunit
    unfold filterUnit? at hunit
    rw [hindirect] at hunit
    have hcolumn : (forest.indirectAt index)[index]?.bind Node.groupColumn? = some c := by
      rw [Forest.getElem?_indirectAt, h.at_index, Option.map_some, if_pos rfl]
      exact h.groupColumn?_leg.2
    simp only [List.filterMap_cons, hcolumn, List.filterMap_nil] at hunit
    split at hunit
    · cases hunit
    · exact (Option.some.inj hunit).symm

/-- The units of all other aggregations are the same in both forms. -/
theorem filterUnit?_of_notMem {group : List Nat} (hmem : index ∉ group) :
    filterUnit? (forest.indirectAt index) group = filterUnit? forest group := by
  have hsame {i : Nat} (hi : i ∈ group) : (forest.indirectAt index)[i]? = forest[i]? := by
    have hne : i ≠ index := fun heq => hmem (heq ▸ hi)
    rw [Forest.getElem?_indirectAt]
    simp [hne]
  have hindirect : group.filter (isIndirectLeg (forest.indirectAt index)) =
      group.filter (isIndirectLeg forest) := by
    refine List.filter_congr fun i hi => ?_
    rw [isIndirectLeg, isIndirectLeg, hsame hi]
  have hall : isMatchAllLeg (forest.indirectAt index) = isMatchAllLeg forest := by
    funext i
    rw [isMatchAllLeg, isMatchAllLeg, Forest.getElem?_indirectAt]
    cases forest[i]? with
    | none => rfl
    | some n => by_cases hindex : i = index <;> simp [hindex]
  have hcolumns : (group.filter (isIndirectLeg forest)).filterMap
      (fun i => (forest.indirectAt index)[i]?.bind Node.groupColumn?) =
        (group.filter (isIndirectLeg forest)).filterMap
          (fun i => forest[i]?.bind Node.groupColumn?) := by
    refine List.filterMap_congr fun i hi => ?_
    rw [hsame (List.mem_filter.mp hi).1]
  unfold filterUnit?
  rw [hindirect]
  dsimp only
  rw [hall, hcolumns]

/-- Settling the rows that miss the leg itself leaves those that match alone. -/
theorem IsPart.settleOwn (h : IsPart c part all) (forest : Forest) (index : Nat) :
    IsPart c part (settleUnit forest all ⟨index, [c]⟩) := by
  let unit : FilterUnit := ⟨index, [c]⟩
  let settle (row : Row) : Row :=
    if unit.isMissedBy row then placeholder (forest.anchor index) row else row
  have hmatched (row : Row) : unit.isMatchedBy row = row.flag c := by
    simp [unit, FilterUnit.isMatchedBy]
  have hget (row : Row) : (settle row).get? c = row.get? c := by
    unfold settle
    split <;> rfl
  have hkeep (row : Row) (hflag : row.flag c = true) : settle row = row := by
    simp [settle, FilterUnit.isMissedBy, hmatched, hflag]
  -- what is dropped does not match
  obtain ⟨kept, hkept, hsub, hfilter⟩ : ∃ kept : List Row,
      settleUnit forest all unit = kept.map settle ∧ (∀ row ∈ kept, row ∈ all) ∧
      kept.filter (fun row => row.flag c) = all.filter fun row => row.flag c := by
    unfold settleUnit
    dsimp only
    split
    · exact ⟨all, rfl, fun _ hrow => hrow, rfl⟩
    · refine ⟨_, rfl, fun row hrow => mem_of_mem_dropUnread hrow, ?_⟩
      have hdropped := filter_dropUnread unit (forest.groupColumnsBefore unit.first) all
      rwa [funext hmatched] at hdropped
  show IsPart c part (settleUnit forest all unit)
  rw [hkept]
  refine ⟨h.nonempty, ?_, ?_⟩
  · intro other hother
    obtain ⟨row, hrow, rfl⟩ := List.mem_map.mp hother
    exact (Row.isFlagged_congr (hget row)).mpr (h.flagged row (hsub row hrow))
  · have hsame : (kept.map settle).filter (fun row => row.flag c) =
        kept.filter fun row => row.flag c := by
      have hflags : (fun row : Row => row.flag c) ∘ settle = fun row => row.flag c :=
        funext fun row => Row.flag_congr (hget row)
      rw [List.filter_map, hflags]
      exact (List.map_congr_left fun row hrow => hkeep row (List.mem_filter.mp hrow).2).trans
        (List.map_id _)
    rw [hsame, hfilter]
    exact h.agrees

/-- The leg reads rows outside of every aggregation below it. -/
theorem isReadOutside_of_notMem (h : forest.Encloses index leg c) (hlaid : forest.IsLaidOut)
    {i : Nat} {n : Node} (hne : i ≠ index) (hn : forest[i]? = some n) (hleg : n.isLeg = true)
    (hactive : n.isActive = true) (hanchor : forest.anchor i ≠ forest.anchor index) :
    isReadOutside forest (forest.anchor i) = true := by
  have hquery := Node.isQuery_of_isLeg hleg
  have hlegQuery := Node.isQuery_of_isLeg h.isLeg
  by_contra hnone
  have hwithin := isWithin_of_isReadOutside (by simpa using hnone) h.at_index
    (by simp [Node.isShown, h.active, hlegQuery])
  rw [Forest.isWithin, Bool.or_eq_true, beq_iff_eq] at hwithin
  rcases hwithin with heq | hbelow
  · exact hanchor heq.symm
  · have hfirst := hlaid.lt_of_isBelow hbelow hn hquery (hlaid.anchor_anchor hn hquery).symm
    have hlater := h.lt_of_active hlaid hne hn hactive hquery
    omega

/-- The legs of a unit are of its group. -/
theorem mem_of_filterUnit? {group : List Nat} {unit : FilterUnit}
    (hunit : filterUnit? forest group = some unit) :
    unit.first ∈ group ∧ ∀ column ∈ unit.columns, ∃ i ∈ group, ∃ n,
      forest[i]? = some n ∧ n.groupColumn? = some column := by
  unfold filterUnit? at hunit
  dsimp only at hunit
  split at hunit
  · cases hunit
  · rename_i first rest hindirect
    split at hunit
    · cases hunit
    · obtain rfl := Option.some.inj hunit
      have hsub : ∀ i ∈ group.filter (isIndirectLeg forest), i ∈ group := fun i hi =>
        (List.mem_filter.mp hi).1
      refine ⟨hsub first (hindirect ▸ List.mem_cons_self), fun column hcolumn => ?_⟩
      obtain ⟨i, hi, hgroup⟩ := List.mem_filterMap.mp hcolumn
      obtain ⟨n, hn, hcolumn⟩ := Option.bind_eq_some_iff.mp hgroup
      exact ⟨i, hsub i hi, n, hn, hcolumn⟩

/-- Settling the rows that miss an aggregation below the leg drops no row. -/
theorem IsPart.settleBelow (h : IsPart c part all) (henc : forest.Encloses index leg c)
    (hlaid : forest.IsLaidOut) {group : List Nat} (hgroup : group ∈ forest.legGroups)
    (hmem : index ∉ group) {unit : FilterUnit} (hunit : filterUnit? forest group = some unit) :
    IsPart c (settleUnit forest part unit) (settleUnit (forest.indirectAt index) all unit) := by
  obtain ⟨hfirst, hcolumns⟩ := mem_of_filterUnit? hunit
  obtain ⟨n, hn, hleg, hactive⟩ :=
    exists_first_of_mem_filterUnits (List.mem_filterMap.mpr ⟨group, hgroup, hunit⟩)
  have hne : unit.first ≠ index := fun heq => hmem (heq ▸ hfirst)
  have hanchor : forest.anchor unit.first ≠ forest.anchor index := by
    intro heq
    rw [Forest.eq_legsOf_of_mem hgroup hfirst, Forest.mem_legsOf, not_and] at hmem
    exact hmem ⟨leg, henc.at_index, henc.isLeg⟩ heq.symm
  have houtside := isReadOutside_of_notMem henc hlaid hne hn hleg hactive hanchor
  have hc : c ∉ unit.columns := by
    intro hmem'
    obtain ⟨i, hi, m, hm, hcolumn⟩ := hcolumns c hmem'
    exact henc.groupColumn?_ne (fun heq => hmem (heq ▸ hi)) hm hcolumn
  unfold settleUnit
  dsimp only
  rw [Forest.anchor_indirectAt, isReadOutside_indirectAt, if_pos houtside, if_pos houtside]
  refine h.map (fun row => by split <;> rfl) fun row other hagree => ?_
  have hmissed : unit.isMissedBy row = unit.isMissedBy other := by
    have hmatched : unit.isMatchedBy row = unit.isMatchedBy other := by
      rw [FilterUnit.isMatchedBy, FilterUnit.isMatchedBy, Bool.eq_iff_iff, List.any_eq_true,
        List.any_eq_true]
      refine exists_congr fun column => and_congr_right fun hcolumn => ?_
      rw [Row.flag_congr (hagree.cells column fun heq => hc (heq ▸ hcolumn))]
    rw [FilterUnit.isMissedBy, FilterUnit.isMissedBy, hmatched, hagree.origin]
  rw [hmissed]
  split
  · exact ⟨hagree.cells, rfl, hagree.countScopes, by
      unfold placeholder
      dsimp only
      rw [hagree.mutedScopes]⟩
  · exact hagree

theorem IsPart.settleUnmatched (h : IsPart c part all) (henc : forest.Encloses index leg c)
    (hlaid : forest.IsLaidOut) :
    IsPart c (settleUnmatched forest part) (settleUnmatched (forest.indirectAt index) all) := by
  suffices hfold : ∀ groups : List (List Nat), (∀ group ∈ groups, group ∈ forest.legGroups) →
      ∀ {part all}, IsPart c part all →
        IsPart c ((groups.filterMap (filterUnit? forest)).foldl (settleUnit forest) part)
          ((groups.filterMap (filterUnit? (forest.indirectAt index))).foldl
            (settleUnit (forest.indirectAt index)) all) by
    unfold Rows.settleUnmatched filterUnits
    rw [Forest.legGroups_indirectAt]
    exact hfold _ (fun _ hgroup => hgroup) h
  intro groups hall
  induction groups with
  | nil => exact id
  | cons group rest ih =>
      intro part all h
      have hfirst := hall group List.mem_cons_self
      have hrest {part all} (h : IsPart c part all) :=
        ih (fun other hother => hall other (List.mem_cons_of_mem _ hother)) h
      by_cases hmem : index ∈ group
      · obtain ⟨hnone, hone⟩ := filterUnit?_of_mem henc hlaid hfirst hmem
        rw [List.filterMap_cons_none hnone]
        cases hunit : filterUnit? (forest.indirectAt index) group with
        | none =>
            rw [List.filterMap_cons_none hunit]
            exact hrest h
        | some unit =>
            obtain rfl := hone unit hunit
            rw [List.filterMap_cons_some hunit, List.foldl_cons]
            exact hrest (h.settleOwn _ index)
      · have hsame : filterUnit? (forest.indirectAt index) group = filterUnit? forest group :=
          filterUnit?_of_notMem hmem
        cases hunit : filterUnit? forest group with
        | none =>
            rw [List.filterMap_cons_none hunit, List.filterMap_cons_none (hsame.trans hunit)]
            exact hrest h
        | some unit =>
            rw [List.filterMap_cons_some hunit, List.filterMap_cons_some (hsame.trans hunit),
              List.foldl_cons, List.foldl_cons]
            exact hrest (h.settleBelow henc hlaid hfirst hmem hunit)

/-! ## Rows that match several filters -/

theorem agreesOff_matchingOnly {row other : Row} (hagree : row.AgreesOff c other)
    (legs : List String) (kept : String) :
    (matchingOnly legs kept row).AgreesOff c (matchingOnly legs kept other) := by
  unfold matchingOnly
  induction legs generalizing row other with
  | nil => exact hagree
  | cons first rest ih => exact ih (hagree.set first _)

/-- Rows that agree are split alike. -/
theorem forall₂_splitRow {row other : Row} (hagree : row.AgreesOff c other) {legs : List String}
    (hc : c ∉ legs) (anchor : Nat) :
    List.Forall₂ (Row.AgreesOff c) (splitRow legs anchor row) (splitRow legs anchor other) := by
  have hlegs : legs.filter row.flag = legs.filter other.flag :=
    List.filter_congr fun column hcolumn =>
      Row.flag_congr (hagree.cells column fun heq => hc (heq ▸ hcolumn))
  unfold splitRow
  rw [hlegs]
  split
  · refine .cons (agreesOff_matchingOnly hagree legs _) ?_
    rw [List.forall₂_map_left_iff, List.forall₂_map_right_iff, List.forall₂_same]
    intro column _
    obtain ⟨hcells, -, hcount, hmuted⟩ := agreesOff_matchingOnly hagree legs column
    exact ⟨hcells, rfl, by rw [scopedCopy, scopedCopy, hcount], hmuted⟩
  · exact .cons hagree .nil

theorem IsPart.splitConcurrent (h : IsPart c part all) (henc : forest.Encloses index leg c) :
    IsPart c (splitConcurrent forest part) (splitConcurrent (forest.indirectAt index) all) := by
  have halone : ∀ run ∈ forest.concurrentRuns, index ∉ run := by
    intro run hrun hmem
    rw [Forest.eq_runOf_of_mem hrun hmem] at hmem
    obtain ⟨⟨n, hn, -, -, hconcurrent⟩, -⟩ := Forest.mem_runOf.mp hmem
    obtain rfl := Option.some.inj (hn.symm.trans henc.at_index)
    rw [henc.alone] at hconcurrent
    cases hconcurrent
  unfold Rows.splitConcurrent
  rw [Forest.concurrentRuns_indirectAt]
  generalize forest.concurrentRuns = runs at halone
  induction runs generalizing part all with
  | nil => exact h
  | cons run rest ih =>
      refine ih ?_ fun other hother => halone other (List.mem_cons_of_mem _ hother)
      have hrun := halone run List.mem_cons_self
      have hlegs : run.filterMap (fun i => (forest.indirectAt index)[i]?.bind Node.groupColumn?) =
          run.filterMap fun i => forest[i]?.bind Node.groupColumn? := by
        refine List.filterMap_congr fun i hi => ?_
        have hne : i ≠ index := fun heq => hrun (heq ▸ hi)
        rw [Forest.getElem?_indirectAt]
        simp [hne]
      have hc : c ∉ run.filterMap fun i => forest[i]?.bind Node.groupColumn? := by
        intro hmem
        obtain ⟨i, hi, hgroup⟩ := List.mem_filterMap.mp hmem
        obtain ⟨n, hn, hcolumn⟩ := Option.bind_eq_some_iff.mp hgroup
        exact henc.groupColumn?_ne (fun heq => hrun (heq ▸ hi)) hn hcolumn
      cases run with
      | nil => exact h
      | cons first others =>
          unfold splitRun
          dsimp only
          rw [hlegs, Forest.anchor_indirectAt]
          split
          · exact h
          · refine h.flatMap (splitRow_ne_nil _ _) (fun row other hother => ?_)
              fun row other hagree => forall₂_splitRow hagree hc _
            rcases of_mem_splitRow hother with rfl | ⟨kept, -, -, rfl | rfl⟩
            · rfl
            · exact get?_matchingOnly hc kept row
            · exact get?_matchingOnly hc kept row

/-! ## Empty intervals -/

/-- Rows of empty intervals agree as the rows that they are made of. -/
theorem agreesOff_gapRow {row other : Row} (hagree : row.AgreesOff c other) (target : GapTarget)
    (outer : List String) (countColumn : String) (k : Int) :
    (gapRow target outer countColumn row k).AgreesOff c
      (gapRow target (c :: outer) countColumn other k) := by
  have hkept : (Row.ofCells (row.cells.map fun cell =>
      (cell.1, if outer.contains cell.1 then cell.2 else .null)) .gapFill).AgreesOff c
      (Row.ofCells (other.cells.map fun cell =>
        (cell.1, if (c :: outer).contains cell.1 then cell.2 else .null)) .gapFill) := by
    refine ⟨fun column hne => ?_, rfl, rfl, rfl⟩
    rw [get?_keptCells row outer.contains, get?_keptCells other (c :: outer).contains,
      hagree.cells column hne]
    simp [hne]
  exact (hkept.set _ _).set _ _

/-- Rows with the same cells in the column of the histogram have the same intervals. -/
theorem missingIndices_congr {target : GapTarget} (limit : Nat) {group others : List Row}
    (hsame : List.Forall₂ (fun row other : Row =>
      row.get? target.column = other.get? target.column) group others) :
    missingIndices target limit group = missingIndices target limit others := by
  have hpresent : presentIndices target group = presentIndices target others := by
    unfold presentIndices
    congr 1
    induction hsame with
    | nil => rfl
    | cons hrow _ ih => rw [List.filterMap_cons, List.filterMap_cons, Row.number?_congr hrow, ih]
  unfold missingIndices
  rw [hpresent]

theorem forall₂_fillGroup {target : GapTarget} (hne : target.column ≠ c) (outer : List String)
    (countColumn : String) (limit : Nat) {group others : List Row}
    (hagree : List.Forall₂ (Row.AgreesOff c) group others) :
    List.Forall₂ (Row.AgreesOff c) (fillGroup target outer countColumn limit group)
      (fillGroup target (c :: outer) countColumn limit others) := by
  have hmissing := missingIndices_congr limit
    (hagree.imp fun row other hrow => hrow.cells target.column hne)
  cases hagree with
  | nil => exact .nil
  | cons hrow hrest =>
      unfold fillGroup
      dsimp only
      rw [← hmissing]
      refine List.rel_append (.cons hrow hrest) ?_
      rw [List.forall₂_map_left_iff, List.forall₂_map_right_iff, List.forall₂_same]
      exact fun k _ => agreesOff_gapRow hrow target outer countColumn k

/-- A filled group says in the columns of the levels above what it said there. -/
theorem exists_get?_eq_of_mem_fillGroup {target : GapTarget} {outer : List String}
    {countColumn : String} {limit : Nat} {group : List Row} {row : Row}
    (hrow : row ∈ fillGroup target outer countColumn limit group) :
    ∃ before ∈ group, ∀ c ∈ outer, c ≠ target.column → c ≠ countColumn →
      row.get? c = before.get? c := by
  obtain ⟨gaps, hfill, hgaps⟩ := exists_gaps_fillGroup target outer countColumn limit group
  rw [hfill] at hrow
  rcases List.mem_append.mp hrow with hmem | hgap
  · exact ⟨row, hmem, fun _ _ _ _ => rfl⟩
  · obtain ⟨template, htemplate, k, rfl⟩ := hgaps row hgap
    refine ⟨template, htemplate, fun c hc hne hcount => ?_⟩
    rw [get?_gapRow hne hcount, if_pos (List.contains_iff_mem.mpr hc)]

/-- The key of a row among groups by the column of the leg too. -/
theorem groupKey_of_isFlagged {row : Row} (hrow : row.IsFlagged c) (outer : List String) :
    row.groupKey (c :: outer) =
      (if row.flag c then "1\x1f" else "0\x1f") ++ row.groupKey outer := by
  rw [Row.groupKey_cons, hrow]
  split <;> rfl

theorem groupKey_eq_iff {row : Row} (hrow : row.IsFlagged c) {outer : List String} {key : String} :
    row.groupKey (c :: outer) = "1\x1f" ++ key ↔ row.flag c = true ∧ row.groupKey outer = key := by
  rw [groupKey_of_isFlagged hrow]
  cases row.flag c with
  | true => simp [← String.toList_inj]
  | false =>
      have hone : "1\x1f".toList = ['1', '\x1f'] := rfl
      have hzero : "0\x1f".toList = ['0', '\x1f'] := rfl
      simp [← String.toList_inj, hone, hzero]

/-- Rows of one group by the column of the leg too all match or none does. -/
theorem flag_eq_of_groupKey {all : List Row} (hflagged : ∀ row ∈ all, row.IsFlagged c)
    {outer : List String} : ∀ row ∈ all, ∀ other ∈ all,
      row.groupKey (c :: outer) = other.groupKey (c :: outer) → row.flag c = other.flag c := by
  suffices hflag : ∀ row ∈ all, ∀ other ∈ all,
      row.groupKey (c :: outer) = other.groupKey (c :: outer) →
        row.flag c = true → other.flag c = true by
    exact fun row hrow other hother hsame => Bool.eq_iff_iff.mpr
      ⟨hflag row hrow other hother hsame, hflag other hother row hrow hsame.symm⟩
  intro row hrow other hother hsame hflag
  rw [(groupKey_eq_iff (hflagged row hrow)).mpr ⟨hflag, rfl⟩] at hsame
  exact ((groupKey_eq_iff (hflagged other hother)).mp hsame.symm).1

/-- The groups of rows that match are the same by the column of the leg too. -/
theorem groups_cons_of_flag {matched : List Row}
    (hmatched : ∀ row ∈ matched, row.IsFlagged c ∧ row.flag c = true) (outer : List String) :
    groups (c :: outer) matched =
      (groups outer matched).map fun entry => ("1\x1f" ++ entry.1, entry.2) := by
  have hkey : ∀ row ∈ matched, row.groupKey (c :: outer) = "1\x1f" ++ row.groupKey outer :=
    fun row hrow => (groupKey_eq_iff (hmatched row hrow).1).mpr ⟨(hmatched row hrow).2, rfl⟩
  have hkeys : (matched.map fun row => row.groupKey (c :: outer)).eraseDups =
      ((matched.map fun row => row.groupKey outer).eraseDups).map ("1\x1f" ++ ·) := by
    calc
      _ = ((matched.map fun row => row.groupKey outer).map ("1\x1f" ++ ·)).eraseDups := by
          rw [List.map_map]
          exact congrArg _ (List.map_congr_left hkey)
      _ = _ := Statement.eraseDups_map fun a _ b _ heq => by simpa [← String.toList_inj] using heq
  rw [groups_eq, groups_eq, hkeys, List.map_map, List.map_map]
  refine List.map_congr_left fun key _ => Prod.ext rfl (List.filter_congr fun row hrow => ?_)
  rw [Bool.eq_iff_iff, decide_eq_true_eq, decide_eq_true_eq,
    groupKey_eq_iff (hmatched row hrow).1]
  exact and_iff_right (hmatched row hrow).2

/-- Rows with the same keys are grouped alike. -/
theorem forall₂_groups {rel : Row → Row → Prop} {outer : List String}
    (hkey : ∀ row other, rel row other → row.groupKey outer = other.groupKey outer)
    {group others : List Row} (hrows : List.Forall₂ rel group others) :
    List.Forall₂ (fun entry other => List.Forall₂ rel entry.2 other.2)
      (groups outer group) (groups outer others) := by
  have hkeys : group.map (fun row => row.groupKey outer) =
      others.map fun row => row.groupKey outer := by
    rw [← List.forall₂_eq_eq_eq, List.forall₂_map_left_iff, List.forall₂_map_right_iff]
    exact hrows.imp hkey
  rw [groups_eq, groups_eq, hkeys, List.forall₂_map_left_iff, List.forall₂_map_right_iff,
    List.forall₂_same]
  intro key _
  refine List.rel_filter (fun row other hrow => ?_) hrows
  dsimp only
  rw [hkey row other hrow]

theorem IsPart.fillGaps (h : IsPart c part all) (henc : forest.Encloses index leg c)
    (hlaid : forest.IsLaidOut) {countColumn : String} (hcount : c ≠ countColumn) (limit : Nat) :
    IsPart c (fillGaps forest countColumn limit part)
      (fillGaps (forest.indirectAt index) countColumn limit all) := by
  have hnonempty : Rows.fillGaps forest countColumn limit part ≠ [] :=
    fun hnil => h.nonempty (fillGaps_eq_nil_iff.mp hnil)
  unfold Rows.fillGaps at hnonempty ⊢
  rw [gapTarget?_indirectAt]
  cases hsome : gapTarget? forest with
  | none => exact h
  | some target =>
      obtain ⟨n, hn, hactive, hempty, -, hcolumn, -⟩ := gapTarget_spec hsome
      obtain ⟨hread, hshown, hnotLeg⟩ := readColumn?_of_gapTarget hactive hempty hcolumn
      have hindex : target.index ≠ index := by
        intro heq
        obtain rfl := Option.some.inj (hn.symm.trans (heq ▸ henc.at_index))
        exact Bool.false_ne_true (hnotLeg.symm.trans henc.isLeg)
      have hne : target.column ≠ c := fun heq =>
        henc.apart _ n hindex hn hshown (heq ▸ hread)
      have hquery : n.isQuery = false := by
        simpa [Node.isShown, hactive] using hshown
      obtain ⟨houter, hc⟩ := henc.groupColumnsBefore_indirectAt hlaid
        (henc.lt_of_active hlaid hindex hn hactive hquery)
      rw [hsome] at hnonempty
      dsimp only at hnonempty ⊢
      rw [houter]
      generalize forest.groupColumnsBefore target.index = outer at hc hnonempty
      refine ⟨hnonempty, ?_, ?_⟩
      · intro row hrow
        obtain ⟨group, hgroup, hfilled⟩ := List.mem_flatMap.mp hrow
        obtain ⟨before, hbefore, hget⟩ := exists_get?_eq_of_mem_fillGroup hfilled
        exact (Row.isFlagged_congr (hget c List.mem_cons_self hne.symm hcount)).mpr
          (h.flagged before (mem_of_mem_groups hgroup before hbefore))
      · let fill (entry : String × List Row) : List Row :=
          fillGroup target (c :: outer) countColumn limit entry.2
        have hfilter : ((groups (c :: outer) all).flatMap fill).filter (fun row => row.flag c) =
            ((groups (c :: outer) all).filter fun entry =>
              entry.2.any fun row => row.flag c).flatMap fill := by
          refine filter_flatMap fun group hgroup row hrow => ?_
          obtain ⟨before, hbefore, hget⟩ :=
            exists_get?_eq_of_mem_fillGroup hrow
          rw [Row.flag_congr (hget c List.mem_cons_self hne.symm hcount),
            any_of_mem_groups (flag_eq_of_groupKey h.flagged) hgroup hbefore]
        rw [hfilter, filter_groups (flag_eq_of_groupKey h.flagged), groups_cons_of_flag,
          List.flatMap_map]
        · exact List.rel_flatMap (forall₂_groups (fun row other hrow => hrow.groupKey hc) h.agrees)
            fun entry other hentry => forall₂_fillGroup hne outer countColumn limit hentry
        · exact fun row hrow => ⟨h.flagged row (List.mem_filter.mp hrow).1,
            (List.mem_filter.mp hrow).2⟩

/-! ## Blanked metrics -/

theorem readColumn?_of_isBlanked {n : Node} {c : String} (hblanked : isBlanked n = true)
    (hcolumn : n.decisions.column = some c) :
    n.isShown = true ∧ n.readColumn? = some c ∧ n.isLeg = false := by
  rw [isBlanked, Bool.and_eq_true] at hblanked
  obtain ⟨m, hm⟩ := Node.exists_metric hblanked.1
  simp [Node.isShown, Node.isQuery, Aggregation.isQuery, Aggregation.query?, Node.readColumn?,
    Node.isLeg, Aggregation.isLeg, Aggregation.leg?, hm, hcolumn, hblanked.2]

theorem IsPart.blank (h : IsPart c part all) (henc : forest.Encloses index leg c) :
    IsPart c (blank forest part) (blank (forest.indirectAt index) all) := by
  have hc : c ∉ blankedColumns forest := by
    intro hmem
    obtain ⟨n, hn, hblanked, hcolumn⟩ := mem_blankedColumns.mp hmem
    obtain ⟨i, hi⟩ := List.getElem?_of_mem hn
    obtain ⟨hshown, hread, hnotLeg⟩ := readColumn?_of_isBlanked hblanked hcolumn
    refine henc.apart i n ?_ hi hshown hread
    rintro rfl
    obtain rfl := Option.some.inj (hi.symm.trans henc.at_index)
    rw [henc.isLeg] at hnotLeg
    cases hnotLeg
  unfold Rows.blank
  rw [blankedColumns_indirectAt]
  refine h.map (fun row => get?_blank hc row) fun row other hagree => ?_
  generalize blankedColumns forest = columns
  induction columns generalizing row other with
  | nil => exact hagree
  | cons column rest ih => exact ih _ _ (hagree.set column .null)

end

end Rows
end Rollup
