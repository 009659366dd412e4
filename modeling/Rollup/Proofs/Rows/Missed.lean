/-
# Rows that miss a filter, and what they tell

A row that misses a filter aggregation tells nothing to the places within it, and as much as before
to the places outside when it becomes a placeholder. It is dropped only when there is no place
outside.
-/

import Rollup.Proofs.Rows.Split

namespace Rollup.Rows

variable {forest : Forest} {countColumn : String}

/-- A placeholder does not count within the aggregation. -/
theorem isSilenced_placeholder (forest : Forest) (anchor : Nat) (row : Row) (index : Nat) :
    forest.isSilenced (placeholder anchor row) index =
      (forest.isSilenced row index || forest.isWithin index anchor) := by
  unfold Forest.isSilenced placeholder
  dsimp only
  cases hmuted : row.mutedScopes.contains anchor with
  | true =>
      rw [if_pos rfl, Bool.or_assoc]
      congr 1
      cases hwithin : forest.isWithin index anchor with
      | false => rw [Bool.or_false]
      | true =>
          rw [Bool.or_true, List.any_eq_true]
          exact ⟨anchor, List.contains_iff_mem.mp hmuted, hwithin⟩
  | false => simp [Bool.or_assoc]

/-! ## Units -/

/-- The legs of a unit: all of one aggregation, of which some are indirect and none matches every
row. -/
theorem filterUnit_spec {unit : FilterUnit} (hunit : unit ∈ filterUnits forest) :
    ∃ legs first rest, legs = forest.legsOf (forest.anchor unit.first) ∧
      legs.filter (isIndirectLeg forest) = first :: rest ∧ unit.first = first ∧
      unit.columns =
        (first :: rest).filterMap (fun index => forest[index]?.bind Node.groupColumn?) ∧
      ∀ index ∈ first :: rest, isMatchAllLeg forest index = false := by
  unfold filterUnits at hunit
  obtain ⟨legs, hlegs, hsome⟩ := List.mem_filterMap.mp hunit
  unfold filterUnit? at hsome
  dsimp only at hsome
  split at hsome
  · cases hsome
  · rename_i first rest hindirect
    split at hsome
    · cases hsome
    · rename_i hnone
      obtain rfl := Option.some.inj hsome
      simp only [Bool.or_eq_true, not_or, Bool.not_eq_true, List.any_eq_false] at hnone
      have hfirst : first ∈ legs :=
        (List.mem_filter.mp (hindirect ▸ List.mem_cons_self)).1
      exact ⟨legs, first, rest, Forest.eq_legsOf_of_mem hlegs hfirst, hindirect, rfl,
        by rw [hindirect], fun index hindex => by simpa using hnone.1 index (hindirect ▸ hindex)⟩

/-- The columns of a unit are those of the active indirect legs of its aggregation. -/
theorem mem_columns_iff {unit : FilterUnit} (hunit : unit ∈ filterUnits forest) {c : String} :
    c ∈ unit.columns ↔ ∃ i x, forest[i]? = some x ∧ x.isLeg = true ∧ x.isActive = true ∧
      forest.anchor i = forest.anchor unit.first ∧ x.groupColumn? = some c := by
  obtain ⟨legs, first, rest, rfl, hindirect, -, hcolumns, -⟩ := filterUnit_spec hunit
  rw [hcolumns, ← hindirect, List.mem_filterMap]
  refine exists_congr fun i => ?_
  rw [List.mem_filter, Forest.mem_legsOf]
  constructor
  · rintro ⟨⟨⟨⟨x, hx, hleg⟩, hanchor⟩, hmarks⟩, hgroups⟩
    simp only [isIndirectLeg, hx, Bool.and_eq_true] at hmarks
    exact ⟨x, hx, hleg, hmarks.1, hanchor, by simpa [hx] using hgroups⟩
  · rintro ⟨x, hx, hleg, hactive, hanchor, hgroups⟩
    refine ⟨⟨⟨⟨x, hx, hleg⟩, hanchor⟩, ?_⟩, by simpa [hx] using hgroups⟩
    obtain ⟨l, hl⟩ := Node.exists_leg hleg
    cases hdirect : x.decisions.direct with
    | false => simp [isIndirectLeg, hx, hactive, hdirect]
    | true => simp [Node.groupColumn?, hactive, hl, hdirect] at hgroups

theorem legsOf_ne_nil_of_mem_filterUnits {unit : FilterUnit}
    (hunit : unit ∈ filterUnits forest) : forest.legsOf (forest.anchor unit.first) ≠ [] := by
  obtain ⟨legs, first, rest, hlegs, hindirect, -⟩ := filterUnit_spec hunit
  rw [← hlegs]
  intro hnil
  rw [hnil] at hindirect
  cases hindirect

/-- The leg that a unit is named after. -/
theorem exists_first_of_mem_filterUnits {unit : FilterUnit} (hunit : unit ∈ filterUnits forest) :
    ∃ x, forest[unit.first]? = some x ∧ x.isLeg = true ∧ x.isActive = true := by
  obtain ⟨legs, first, rest, hlegs, hindirect, hfirst, -⟩ := filterUnit_spec hunit
  have hmem : first ∈ legs ∧ isIndirectLeg forest first = true :=
    List.mem_filter.mp (hindirect ▸ List.mem_cons_self)
  obtain ⟨⟨x, hx, hleg⟩, -⟩ := Forest.mem_legsOf.mp (hlegs ▸ hmem.1)
  have hmarks := hmem.2
  simp only [isIndirectLeg, hx, Bool.and_eq_true] at hmarks
  exact ⟨x, hfirst ▸ hx, hleg, hmarks.1⟩

/-- What is shown lies within an aggregation outside of which nothing is read. -/
theorem isWithin_of_isReadOutside {a j : Nat} {y : Node}
    (houtside : isReadOutside forest a = false) (hy : forest[j]? = some y)
    (hshown : y.isShown = true) : forest.isWithin j a = true := by
  rw [isReadOutside, List.any_eq_false] at houtside
  have hnot := houtside (y, j) (List.mem_zipIdx_iff_getElem?.mpr hy)
  simpa [hshown] using hnot

theorem anchor_anchor_of_mem_filterUnits (h : forest.IsLaidOut) {unit : FilterUnit}
    (hunit : unit ∈ filterUnits forest) :
    forest.anchor (forest.anchor unit.first) = forest.anchor unit.first := by
  obtain ⟨i, hi⟩ := List.exists_mem_of_ne_nil _ (legsOf_ne_nil_of_mem_filterUnits hunit)
  obtain ⟨⟨y, hy, hleg⟩, hanchor⟩ := Forest.mem_legsOf.mp hi
  rw [← hanchor]
  exact h.anchor_anchor hy (Node.isQuery_of_isLeg hleg)

/-- A shown leg beside an indirect one is indirect. -/
theorem not_direct_of_beside (hmarked : forest.IsMarked) {i j : Nat} {x y : Node}
    (hx : forest[i]? = some x) (hxleg : x.isLeg = true) (hxactive : x.isActive = true)
    (hxdirect : x.decisions.direct = false) (hy : forest[j]? = some y) (hyleg : y.isLeg = true)
    (hyactive : y.isActive = true) (hanchor : forest.anchor i = forest.anchor j) :
    y.decisions.direct = false := by
  cases hdirect : y.decisions.direct with
  | false => rfl
  | true =>
      have halone := (hmarked.direct y (List.mem_of_getElem? hy) hyleg hdirect).2
      have hne : i ≠ j := by
        rintro rfl
        obtain rfl : x = y := Option.some.inj (hx.symm.trans hy)
        rw [hdirect] at hxdirect
        cases hxdirect
      rw [(hmarked.concurrent j y hy hyleg hyactive).mpr
        ⟨i, x, hne, hx, hxleg, hxactive, hanchor⟩] at halone
      cases halone

/-- A row that matches a shown leg of the aggregation does not miss it. -/
theorem isMatchedBy_of_matchesLeg (hmarked : forest.IsMarked) {unit : FilterUnit}
    (hunit : unit ∈ filterUnits forest) {i : Nat} {y : Node} (hy : forest[i]? = some y)
    (hshown : y.isShown = true) (hanchor : forest.anchor i = forest.anchor unit.first)
    {row : Row} (hmatches : y.matchesLeg row = true) : unit.isMatchedBy row = true := by
  obtain ⟨legs, first, rest, hlegs, hindirect, hfirst, hcolumns, hnone⟩ := filterUnit_spec hunit
  obtain ⟨l, hl⟩ : ∃ l, y.aggregation = .leg l := by
    cases haggregation : y.aggregation with
    | leg l => exact ⟨l, rfl⟩
    | _ => simp [Node.matchesLeg, haggregation] at hmatches
  have hleg := Node.isLeg_of_eq hl
  have hactive := hmarked.isActive_of_isShown (List.mem_of_getElem? hy) hleg hshown
  have hmem : first ∈ legs ∧ isIndirectLeg forest first = true :=
    List.mem_filter.mp (hindirect ▸ List.mem_cons_self)
  obtain ⟨⟨x, hx, hxleg⟩, hxanchor⟩ := Forest.mem_legsOf.mp (hlegs ▸ hmem.1)
  have hxmarks := hmem.2
  simp only [isIndirectLeg, hx, Bool.and_eq_true, Bool.not_eq_true'] at hxmarks
  have hdirect := not_direct_of_beside hmarked hx hxleg hxmarks.1 hxmarks.2 hy hleg hactive
    (hxanchor.trans hanchor.symm)
  have hindex : i ∈ first :: rest := by
    rw [← hindirect, List.mem_filter, hlegs, Forest.mem_legsOf]
    exact ⟨⟨⟨y, hy, hleg⟩, hanchor⟩, by simp [isIndirectLeg, hy, hactive, hdirect]⟩
  obtain ⟨c, hcolumn⟩ :=
    column_of_matchesLeg hmarked (List.mem_of_getElem? hy) hl hdirect hmatches
  have hflag : row.flag c = true := by
    simp only [Node.matchesLeg, hl, Leg.isMatchedBy, hdirect, hcolumn] at hmatches
    have hnot := hnone i hindex
    simp only [isMatchAllLeg, hy, Option.bind_some, Aggregation.leg?, hl] at hnot
    simpa [hnot] using hmatches
  rw [FilterUnit.isMatchedBy, List.any_eq_true]
  refine ⟨c, ?_, hflag⟩
  rw [hcolumns, List.mem_filterMap]
  exact ⟨i, hindex, by simp [hy, Node.groupColumn?, hactive, hl, hdirect, Node.outputColumn?,
    hcolumn]⟩

/-! ## What settled rows tell -/

namespace Question

variable {α : Type} (q : Question forest countColumn α)

/-- Within the aggregation a row that misses it tells nothing. -/
theorem answers_of_missed (h : forest.IsLaidOut) (hmarked : forest.IsMarked) {unit : FilterUnit}
    (hunit : unit ∈ filterUnits forest)
    (hwithin : forest.isWithin q.index (forest.anchor unit.first) = true) {row : Row}
    (hmissed : unit.isMatchedBy row = false) : q.answers [row] = [] := by
  apply q.answers_eq_nil_of_asks
  rw [← Bool.not_eq_true]
  intro hasks
  obtain ⟨i, y, hway, hanchor, hmatches⟩ :=
    q.isAsked.enters row _ hasks (anchor_anchor_of_mem_filterUnits h hunit) hwithin
    (legsOf_ne_nil_of_mem_filterUnits hunit)
  rw [isMatchedBy_of_matchesLeg hmarked hunit hway.1 hway.2.1 hanchor hmatches] at hmissed
  cases hmissed

/-- A row tells the same as a placeholder. -/
theorem answers_placeholder (h : forest.IsLaidOut) (hmarked : forest.IsMarked)
    {unit : FilterUnit} (hunit : unit ∈ filterUnits forest) {row : Row}
    (hmissed : unit.isMatchedBy row = false) :
    q.answers [placeholder (forest.anchor unit.first) row] = q.answers [row] := by
  have hsilenced := isSilenced_placeholder forest (forest.anchor unit.first) row q.index
  cases hwithin : forest.isWithin q.index (forest.anchor unit.first) with
  | true =>
      rw [hwithin, Bool.or_true] at hsilenced
      rw [q.answers_eq_nil_of_isSilenced hsilenced,
        q.answers_of_missed h hmarked hunit hwithin hmissed]
  | false =>
      rw [hwithin, Bool.or_false] at hsilenced
      exact q.answers_congr hsilenced (fun _ y _ => Node.seesAlike_of_get? fun _ _ => rfl)
        fun _ _ => rfl

/-- What is dropped told nothing. -/
theorem answers_dropUnread {unit : FilterUnit}
    (hmissed : ∀ row, unit.isMatchedBy row = false → q.answers [row] = [])
    (outer : List String) (rows : List Row) :
    q.answers (dropUnread unit outer rows).1 = q.answers rows := by
  induction rows with
  | nil => rfl
  | cons row rest ih =>
      rw [q.answers_cons row rest, ← ih, dropUnread]
      obtain ⟨kept, matched⟩ := dropUnread unit outer rest
      dsimp only
      split
      · exact q.answers_cons row _
      · cases hmatched : unit.isMatchedBy row with
        | true => exact q.answers_cons row _
        | false =>
            rw [hmissed row hmatched, List.nil_append, if_neg Bool.false_ne_true]
            split
            · rw [q.answers_cons, hmissed row hmatched, List.nil_append]
            · rfl

/-- Rows tell the same when those that miss one aggregation are settled. -/
theorem answers_settleUnit (h : forest.IsLaidOut) (hmarked : forest.IsMarked) {unit : FilterUnit}
    (hunit : unit ∈ filterUnits forest) (rows : List Row) :
    q.answers (settleUnit forest rows unit) = q.answers rows := by
  unfold settleUnit
  dsimp only
  rw [q.answers_map]
  · split
    · rfl
    · rename_i houtside
      obtain ⟨y, hy, hshown⟩ := q.exists_shown
      have hwithin : forest.isWithin q.index (forest.anchor unit.first) = true :=
        isWithin_of_isReadOutside (by simpa using houtside) hy hshown
      exact q.answers_dropUnread
        (fun row hmissed => q.answers_of_missed h hmarked hunit hwithin hmissed) _ rows
  · intro row _
    split
    · rename_i hmissed
      simp only [FilterUnit.isMissedBy, Bool.and_eq_true, Bool.not_eq_true'] at hmissed
      exact q.answers_placeholder h hmarked hunit hmissed.2
    · rfl

/-- Rows tell the same when those that miss filters are settled. -/
theorem answers_settleUnmatched (h : forest.IsLaidOut) (hmarked : forest.IsMarked)
    (rows : List Row) : q.answers (settleUnmatched forest rows) = q.answers rows := by
  unfold settleUnmatched
  have hunits : ∀ unit ∈ filterUnits forest, unit ∈ filterUnits forest := fun _ hunit => hunit
  generalize hlist : filterUnits forest = units at hunits ⊢
  have hsub : ∀ unit ∈ units, unit ∈ filterUnits forest := hlist ▸ hunits
  clear hunits hlist
  induction units generalizing rows with
  | nil => rfl
  | cons unit rest ih =>
      rw [List.foldl_cons, ih _ fun other hother => hsub other (by simp [hother]),
        q.answers_settleUnit h hmarked (hsub unit (by simp))]

end Question
end Rollup.Rows
