/-
# Split rows

A row that matches several legs of one aggregation is split. To a place outside the aggregation the
first copy alone tells something, and the same as the row before; to a place within a leg it is the
copy for this leg alone. After the splits no row matches two legs of one aggregation.
-/

import Rollup.Proofs.Response.Walk
import Rollup.Proofs.Rows.Question

namespace Rollup.Rows

variable {forest : Forest} {countColumn : String}

/-! ## The cells of a copy -/

theorem get?_matchingOnly {legs : List String} {c : String} (hc : c ∉ legs) (kept : String)
    (row : Row) : (matchingOnly legs kept row).get? c = row.get? c := by
  unfold matchingOnly
  induction legs generalizing row with
  | nil => rfl
  | cons leg rest ih =>
      rw [List.mem_cons, not_or] at hc
      rw [List.foldl_cons, ih hc.2, Row.get?_set_of_ne _ hc.1]

theorem flag_matchingOnly {legs : List String} {c : String} (hc : c ∈ legs) (kept : String)
    (row : Row) : (matchingOnly legs kept row).flag c = decide (c = kept) := by
  unfold matchingOnly
  induction legs generalizing row with
  | nil => cases hc
  | cons leg rest ih =>
      rw [List.foldl_cons]
      by_cases hrest : c ∈ rest
      · exact ih hrest _
      · obtain rfl : c = leg := (List.mem_cons.mp hc).resolve_right hrest
        have hget := get?_matchingOnly hrest kept
          (row.set c (.ofInt (if c = kept then 1 else 0)))
        unfold matchingOnly at hget
        rw [Row.flag_congr hget]
        by_cases hkept : c = kept
        · rw [if_pos hkept, Row.flag_set_one, decide_eq_true hkept]
        · rw [if_neg hkept, Row.flag_set_zero, decide_eq_false hkept]

/-- Whatever writing a cell keeps of a row, a copy keeps. -/
theorem matchingOnly_keeps {α : Type} {f : Row → α}
    (hset : ∀ (row : Row) (column : String) (value : Json), f (row.set column value) = f row)
    (legs : List String) (kept : String) (row : Row) : f (matchingOnly legs kept row) = f row := by
  unfold matchingOnly
  induction legs generalizing row with
  | nil => rfl
  | cons leg rest ih => rw [List.foldl_cons, ih, hset]

theorem countScopes_matchingOnly (legs : List String) (kept : String) (row : Row) :
    (matchingOnly legs kept row).countScopes = row.countScopes :=
  matchingOnly_keeps (fun _ _ _ => rfl) legs kept row

theorem mutedScopes_matchingOnly (legs : List String) (kept : String) (row : Row) :
    (matchingOnly legs kept row).mutedScopes = row.mutedScopes :=
  matchingOnly_keeps (fun _ _ _ => rfl) legs kept row

theorem origin_matchingOnly (legs : List String) (kept : String) (row : Row) :
    (matchingOnly legs kept row).origin = row.origin :=
  matchingOnly_keeps (fun _ _ _ => rfl) legs kept row

theorem isSilenced_matchingOnly (legs : List String) (kept : String) (row : Row) (index : Nat) :
    forest.isSilenced (matchingOnly legs kept row) index = forest.isSilenced row index := by
  rw [Forest.isSilenced, Forest.isSilenced, countScopes_matchingOnly, mutedScopes_matchingOnly]

/-- A copy counts within the aggregation only. -/
theorem isSilenced_scopedCopy (anchor : Nat) (row : Row) (index : Nat) :
    forest.isSilenced (scopedCopy anchor row) index =
      (forest.isSilenced row index || !forest.isWithin index anchor) := by
  unfold Forest.isSilenced scopedCopy
  dsimp only
  rw [List.all_append]
  cases row.countScopes.all fun scope => forest.isWithin index scope <;>
    cases row.mutedScopes.any fun scope => forest.isWithin index scope <;> simp

/-! ## Columns of a run -/

/-- The columns of the legs of a run. -/
def legColumns (forest : Forest) (run : List Nat) : List String :=
  run.filterMap fun index => forest[index]?.bind Node.groupColumn?

/-- The column of a concurrent leg. -/
theorem groupColumn?_of_concurrent (hmarked : forest.IsMarked) {y : Node} (hy : y ∈ forest)
    (hleg : y.isLeg = true) (hactive : y.isActive = true)
    (hconcurrent : y.decisions.concurrent = true) : y.groupColumn? = y.decisions.column := by
  obtain ⟨l, hl⟩ := Node.exists_leg hleg
  have hdirect := hmarked.direct_eq_false hy hleg hconcurrent
  simp [Node.groupColumn?, hactive, hl, hdirect, Node.outputColumn?]

theorem mem_legColumns (hmarked : forest.IsMarked) {a : Nat} {c : String} :
    c ∈ legColumns forest (forest.runOf a) ↔
      ∃ i y, i ∈ forest.runOf a ∧ forest[i]? = some y ∧ y.decisions.column = some c := by
  unfold legColumns
  rw [List.mem_filterMap]
  constructor
  · rintro ⟨i, hi, hc⟩
    obtain ⟨⟨y, hy, hleg, hactive, hconcurrent⟩, -⟩ := Forest.mem_runOf.mp hi
    rw [hy, Option.bind_some, groupColumn?_of_concurrent hmarked (List.mem_of_getElem? hy) hleg
      hactive hconcurrent] at hc
    exact ⟨i, y, hi, hy, hc⟩
  · rintro ⟨i, y, hi, hy, hc⟩
    obtain ⟨⟨z, hz, hleg, hactive, hconcurrent⟩, -⟩ := Forest.mem_runOf.mp hi
    obtain rfl : y = z := Option.some.inj (hy.symm.trans hz)
    refine ⟨i, hi, ?_⟩
    rw [hy, Option.bind_some, groupColumn?_of_concurrent hmarked (List.mem_of_getElem? hy) hleg
      hactive hconcurrent, hc]

/-- A concurrent leg reads its column. -/
theorem readColumn?_of_mem_runOf (hmarked : forest.IsMarked) {a i : Nat} {y : Node}
    (hi : i ∈ forest.runOf a) (hy : forest[i]? = some y) :
    y.readColumn? = y.decisions.column ∧ y.isLeg = true ∧ y.isActive = true ∧
      y.decisions.concurrent = true ∧ y.isShown = true := by
  obtain ⟨⟨z, hz, hleg, hactive, hconcurrent⟩, -⟩ := Forest.mem_runOf.mp hi
  obtain rfl : y = z := Option.some.inj (hy.symm.trans hz)
  obtain ⟨l, hl⟩ := Node.exists_leg hleg
  have hdirect := hmarked.direct_eq_false (List.mem_of_getElem? hy) hleg hconcurrent
  refine ⟨by simp [Node.readColumn?, hl, hdirect], hleg, hactive, hconcurrent, ?_⟩
  simp [Node.isShown, Node.isQuery_of_isLeg hleg, hactive]

/-- Only legs of the run read columns of the run. -/
theorem mem_runOf_of_readColumn? (hmarked : forest.IsMarked)
    (hapart : forest.ReadsApart countColumn) {a j : Nat} {y : Node} (hj : forest[j]? = some y)
    (hshown : y.isShown = true) {c : String} (hread : y.readColumn? = some c)
    (hc : c ∈ legColumns forest (forest.runOf a)) : j ∈ forest.runOf a := by
  obtain ⟨i, x, hi, hx, hcolumn⟩ := (mem_legColumns hmarked).mp hc
  obtain ⟨-, hleg, hactive, hconcurrent, -⟩ := readColumn?_of_mem_runOf hmarked hi hx
  by_cases hij : i = j
  · exact hij ▸ hi
  · exact absurd hread (hapart.legs i j x y hij hx hj hleg hactive hconcurrent hshown c hcolumn)

theorem nodup_legColumns (hmarked : forest.IsMarked) (hapart : forest.ReadsApart countColumn)
    (a : Nat) : (legColumns forest (forest.runOf a)).Nodup := by
  have hnodup : (forest.runOf a).Nodup :=
    ((forest.pairwise_legsOf a).imp Nat.ne_of_lt).filter _
  have hcolumn {i : Nat} (hi : i ∈ forest.runOf a) {c : String}
      (hc : c ∈ forest[i]?.bind Node.groupColumn?) :
      ∃ y, forest[i]? = some y ∧ y.decisions.column = some c := by
    obtain ⟨⟨y, hy, hleg, hactive, hconcurrent⟩, -⟩ := Forest.mem_runOf.mp hi
    rw [hy, Option.bind_some, groupColumn?_of_concurrent hmarked (List.mem_of_getElem? hy) hleg
      hactive hconcurrent] at hc
    exact ⟨y, hy, hc⟩
  unfold legColumns
  rw [List.Nodup, List.pairwise_filterMap]
  refine hnodup.imp_of_mem ?_
  rintro i j hi hj hne c hc c' hc' rfl
  obtain ⟨x, hx, hxc⟩ := hcolumn hi hc
  obtain ⟨y, hy, hyc⟩ := hcolumn hj hc'
  obtain ⟨-, hleg, hactive, hconcurrent, -⟩ := readColumn?_of_mem_runOf hmarked hi hx
  obtain ⟨hread, -, -, -, hshown⟩ := readColumn?_of_mem_runOf hmarked hj hy
  exact hapart.legs i j x y hne hx hy hleg hactive hconcurrent hshown c hxc (hread.trans hyc)

theorem countColumn_not_mem_legColumns (hmarked : forest.IsMarked)
    (hapart : forest.ReadsApart countColumn) (a : Nat) :
    countColumn ∉ legColumns forest (forest.runOf a) := by
  intro hc
  obtain ⟨i, y, hi, hy, hcolumn⟩ := (mem_legColumns hmarked).mp hc
  obtain ⟨hread, -, -, -, hshown⟩ := readColumn?_of_mem_runOf hmarked hi hy
  exact hapart.count y (List.mem_of_getElem? hy) hshown (hread.trans hcolumn)

/-- An indirect leg that a row matches has a column. -/
theorem column_of_matchesLeg (hmarked : forest.IsMarked) {y : Node} (hy : y ∈ forest) {l : Leg}
    (hl : y.aggregation = .leg l) (hdirect : y.decisions.direct = false) {row : Row}
    (hmatches : y.matchesLeg row = true) : ∃ c, y.decisions.column = some c := by
  cases hcolumn : y.decisions.column with
  | none =>
      have hall : l.matchesAll = true := by
        simpa [Node.matchesLeg, hl, Leg.isMatchedBy, hdirect, hcolumn] using hmatches
      exact absurd hcolumn (hmarked.column_of_matchesAll hy hl hall)
  | some c => exact ⟨c, rfl⟩

/-- A leg that a row matches has a column, which says so. -/
theorem exists_column_of_matchesLeg (hmarked : forest.IsMarked) {a i : Nat} {y : Node}
    (hi : i ∈ forest.runOf a) (hy : forest[i]? = some y) {row : Row}
    (hmatches : y.matchesLeg row = true) :
    ∃ c, y.decisions.column = some c ∧ c ∈ legColumns forest (forest.runOf a) ∧
      ∀ row, y.matchesLeg row = row.flag c := by
  obtain ⟨-, hleg, -, hconcurrent, -⟩ := readColumn?_of_mem_runOf hmarked hi hy
  obtain ⟨l, hl⟩ := Node.exists_leg hleg
  have hmem := List.mem_of_getElem? hy
  have hdirect := hmarked.direct_eq_false hmem hleg hconcurrent
  obtain ⟨c, hcolumn⟩ := column_of_matchesLeg hmarked hmem hl hdirect hmatches
  refine ⟨c, hcolumn, (mem_legColumns hmarked).mpr ⟨i, y, hi, hy, hcolumn⟩, fun row => ?_⟩
  simp [Node.matchesLeg, hl, Leg.isMatchedBy, hdirect, hcolumn]

/-- A shown node of an aggregation with concurrent legs is one of them. -/
theorem mem_runOf_of_isShown (h : forest.IsLaidOut) (hmarked : forest.IsMarked) {i j : Nat}
    {y : Node} (hy : forest[i]? = some y) (hshown : y.isShown = true)
    (hj : j ∈ forest.runOf (forest.anchor i)) : i ∈ forest.runOf (forest.anchor i) := by
  obtain ⟨⟨z, hz, hzleg, hzactive, hzconcurrent⟩, hanchor⟩ := Forest.mem_runOf.mp hj
  by_contra hnot
  have hnone : Forest.lastLeg? forest.concurrentRuns i = none := by
    rw [Forest.lastLeg?_eq, if_neg hnot]
  have hsome : Forest.lastLeg? forest.concurrentRuns j ≠ none := by
    rw [Forest.lastLeg?_eq, if_pos (hanchor.symm ▸ hj)]
    simp
  obtain ⟨last, hlast⟩ := Option.ne_none_iff_exists'.mp hsome
  exact h.alone_of_lastLeg? hmarked hy hshown hnone hlast hanchor

/-! ## What the copies tell -/

namespace Question

variable {α : Type} (q : Question forest countColumn α)

/-- A copy for a leg on the way looks like the row that matches the leg. -/
theorem seesAlike_copy (h : forest.IsLaidOut) (hmarked : forest.IsMarked)
    (hapart : forest.ReadsApart countColumn) {a i : Nat} {y : Node} {leg : String}
    (hway : forest.OnWay q.steps i y) (hi : i ∈ forest.runOf a)
    (hcolumn : y.decisions.column = some leg) {row : Row} (hflag : row.flag leg = true)
    {j : Nat} {z : Node} (hz : forest.OnWay q.steps j z) :
    z.SeesAlike (matchingOnly (legColumns forest (forest.runOf a)) leg row) row := by
  by_cases hj : j ∈ forest.runOf a
  · have hanchor := (Forest.mem_runOf.mp hi).2.trans (Forest.mem_runOf.mp hj).2.symm
    obtain rfl := h.eq_of_onWay hway hz hanchor
    obtain rfl : y = z := Option.some.inj (hway.1.symm.trans hz.1)
    obtain ⟨hread, hleg, -⟩ := readColumn?_of_mem_runOf hmarked hi hway.1
    have hmem := (mem_legColumns hmarked).mpr ⟨i, y, hi, hway.1, hcolumn⟩
    refine ⟨?_, fun hnot => absurd hleg (by simp [hnot])⟩
    obtain ⟨l, hl⟩ := Node.exists_leg hleg
    have hmatches (row : Row) (hflag : row.flag leg = true) : y.matchesLeg row = true := by
      simp [Node.matchesLeg, hl, Leg.isMatchedBy, hcolumn, hflag]
    rw [hmatches row hflag, hmatches _ (by rw [flag_matchingOnly hmem]; simp)]
  · apply Node.seesAlike_of_get?
    intro c hc
    apply get?_matchingOnly
    exact fun hmem => hj (mem_runOf_of_readColumn? hmarked hapart hz.1 hz.2.1 hc hmem)

/-- What is read beside the legs is the same in a copy. -/
theorem get?_copy (hmarked : forest.IsMarked) (hapart : forest.ReadsApart countColumn) (a : Nat)
    (leg : String) (row : Row) {c : String} (hc : c ∈ countColumn :: q.columns) :
    (matchingOnly (legColumns forest (forest.runOf a)) leg row).get? c = row.get? c := by
  apply get?_matchingOnly
  intro hmem
  rcases List.mem_cons.mp hc with rfl | hcolumn
  · exact countColumn_not_mem_legColumns hmarked hapart a hmem
  · obtain ⟨j, y, hj, -, hshown, hleg, hread⟩ := q.readers c hcolumn
    have hrun := mem_runOf_of_readColumn? hmarked hapart hj hshown hread hmem
    obtain ⟨-, hyleg, -⟩ := readColumn?_of_mem_runOf hmarked hrun hj
    rw [hleg] at hyleg
    cases hyleg

/-- Items of which one alone contributes. -/
theorem flatMap_eq_of_unique {β γ : Type} {items : List β} (hnodup : items.Nodup) {item : β}
    (hitem : item ∈ items) {f : β → List γ} {value : List γ} (hvalue : f item = value)
    (hothers : ∀ other ∈ items, other ≠ item → f other = []) : items.flatMap f = value := by
  induction items with
  | nil => cases hitem
  | cons first rest ih =>
      rw [List.nodup_cons] at hnodup
      rw [List.flatMap_cons]
      by_cases hfirst : first = item
      · subst hfirst
        have hrest : rest.flatMap f = [] := by
          rw [List.flatMap_eq_nil_iff]
          intro other hother
          refine hothers other (by simp [hother]) ?_
          rintro rfl
          exact hnodup.1 hother
        rw [hrest, hvalue, List.append_nil]
      · have hmem := (List.mem_cons.mp hitem).resolve_left fun heq => hfirst heq.symm
        rw [hothers first (by simp) hfirst, List.nil_append]
        exact ih hnodup.2 hmem fun other hother => hothers other (by simp [hother])

/-- Within the aggregation the copy for the leg on the way alone tells something. -/
theorem answers_copies (h : forest.IsLaidOut) (hmarked : forest.IsMarked)
    (hapart : forest.ReadsApart countColumn) {a : Nat} (ha : forest.anchor a = a)
    (hrun : forest.runOf a ≠ []) (hwithin : forest.isWithin q.index a = true) (row : Row)
    {legs : List String} (hlegs : legs = (legColumns forest (forest.runOf a)).filter row.flag)
    {copy : String → Row}
    (hcells : ∀ leg c, (copy leg).get? c =
      (matchingOnly (legColumns forest (forest.runOf a)) leg row).get? c)
    (hsilent : ∀ leg, forest.isSilenced (copy leg) q.index = forest.isSilenced row q.index) :
    legs.flatMap (fun leg => q.answers [copy leg]) = q.answers [row] := by
  have hmemLegs (leg : String) : leg ∈ legs ↔
      leg ∈ legColumns forest (forest.runOf a) ∧ row.flag leg = true := by
    rw [hlegs, List.mem_filter]
  have hnodup : legs.Nodup := hlegs ▸ (nodup_legColumns hmarked hapart a).filter _
  have hnonempty : forest.legsOf a ≠ [] := by
    intro hnil
    simp [Forest.runOf, hnil] at hrun
  have halikeCopy (leg : String) (z : Node) :
      z.SeesAlike (copy leg) (matchingOnly (legColumns forest (forest.runOf a)) leg row) :=
    Node.seesAlike_of_get? fun c _ => hcells leg c
  -- a copy that comes to the place is the one for a leg on the way
  have hleg {other : Row} (hasks : q.asks other = true) :
      ∃ i y c, forest.OnWay q.steps i y ∧ i ∈ forest.runOf a ∧ y.decisions.column = some c ∧
        c ∈ legColumns forest (forest.runOf a) ∧ other.flag c = true := by
    obtain ⟨i, y, hway, hanchor, hmatches⟩ := q.isAsked.enters other a hasks ha hwithin hnonempty
    have hi : i ∈ forest.runOf a := by
      obtain ⟨j, hj⟩ := List.exists_mem_of_ne_nil _ hrun
      have hmem := mem_runOf_of_isShown h hmarked hway.1 hway.2.1 (hanchor.symm ▸ hj)
      rwa [hanchor] at hmem
    obtain ⟨c, hcolumn, hmem, hflag⟩ := exists_column_of_matchesLeg hmarked hi hway.1 hmatches
    exact ⟨i, y, c, hway, hi, hcolumn, hmem, (hflag other).symm.trans hmatches⟩
  have hcopy {leg : String} (hmem : leg ∈ legs) (hasks : q.asks (copy leg) = true) :
      ∃ i y, forest.OnWay q.steps i y ∧ i ∈ forest.runOf a ∧ y.decisions.column = some leg := by
    obtain ⟨i, y, c, hway, hi, hcolumn, hc, hflag⟩ := hleg hasks
    rw [Row.flag_congr (hcells leg c), flag_matchingOnly hc, decide_eq_true_iff] at hflag
    exact ⟨i, y, hway, hi, hflag ▸ hcolumn⟩
  have hsame {leg : String} (hmem : leg ∈ legs) {i : Nat} {y : Node}
      (hway : forest.OnWay q.steps i y) (hi : i ∈ forest.runOf a)
      (hcolumn : y.decisions.column = some leg) : q.answers [copy leg] = q.answers [row] := by
    apply q.answers_congr (hsilent leg)
    · intro j z hz
      exact (halikeCopy leg z).trans (q.seesAlike_copy h hmarked hapart hway hi hcolumn
        ((hmemLegs leg).mp hmem).2 hz)
    · intro c hc
      rw [hcells, q.get?_copy hmarked hapart a leg row hc]
  cases hasks : q.asks row with
  | true =>
      obtain ⟨i, y, c, hway, hi, hcolumn, hmem, hflag⟩ := hleg hasks
      have hcLegs := (hmemLegs c).mpr ⟨hmem, hflag⟩
      refine flatMap_eq_of_unique hnodup hcLegs (hsame hcLegs hway hi hcolumn) ?_
      intro leg hlegMem hne
      apply q.answers_eq_nil_of_asks
      by_contra hnot
      obtain ⟨j, z, hz, hj, hzcolumn⟩ := hcopy hlegMem (by simpa using hnot)
      have hanchor := (Forest.mem_runOf.mp hi).2.trans (Forest.mem_runOf.mp hj).2.symm
      obtain rfl := h.eq_of_onWay hway hz hanchor
      obtain rfl : y = z := Option.some.inj (hway.1.symm.trans hz.1)
      exact hne (Option.some.inj (hzcolumn.symm.trans hcolumn))
  | false =>
      rw [q.answers_eq_nil_of_asks hasks, List.flatMap_eq_nil_iff]
      intro leg hmem
      by_cases hcopied : q.asks (copy leg) = true
      · obtain ⟨i, y, hway, hi, hcolumn⟩ := hcopy hmem hcopied
        rw [hsame hmem hway hi hcolumn, q.answers_eq_nil_of_asks hasks]
      · exact q.answers_eq_nil_of_asks (by simpa using hcopied)

/-- What a row tells outside the aggregation at which it is split. -/
theorem answers_copy_outside (hmarked : forest.IsMarked)
    (hapart : forest.ReadsApart countColumn) {a : Nat}
    (houtside : forest.isWithin q.index a = false) (leg : String) (row : Row) :
    q.answers [matchingOnly (legColumns forest (forest.runOf a)) leg row] = q.answers [row] := by
  refine q.answers_of_get? (· ∈ legColumns forest (forest.runOf a))
    (fun c hc => get?_matchingOnly hc leg row) (countColumn_not_mem_legColumns hmarked hapart a) ?_
    (isSilenced_matchingOnly _ leg row q.index)
  intro j y hj hshown hread c hc hmem
  have hrun := mem_runOf_of_readColumn? hmarked hapart hj hshown hc hmem
  rcases hread with hway | ⟨-, hnotLeg⟩
  · have hwithin := q.isAsked.within j y hway
    rw [(Forest.mem_runOf.mp hrun).2, houtside] at hwithin
    cases hwithin
  · obtain ⟨-, hleg, -⟩ := readColumn?_of_mem_runOf hmarked hrun hj
    rw [hnotLeg] at hleg
    cases hleg

/-- A row tells the same when it is split. -/
theorem answers_splitRow (h : forest.IsLaidOut) (hmarked : forest.IsMarked)
    (hapart : forest.ReadsApart countColumn) {a : Nat} (ha : forest.anchor a = a)
    (hrun : forest.runOf a ≠ []) (row : Row) :
    q.answers (splitRow (legColumns forest (forest.runOf a)) a row) = q.answers [row] := by
  unfold splitRow
  split
  · rename_i first second others hmatched
    cases hwithin : forest.isWithin q.index a with
    | true =>
        let copy (leg : String) : Row :=
          if leg = first then matchingOnly (legColumns forest (forest.runOf a)) leg row
          else scopedCopy a (matchingOnly (legColumns forest (forest.runOf a)) leg row)
        have hcopies : matchingOnly (legColumns forest (forest.runOf a)) first row ::
            (second :: others).map (fun leg => scopedCopy a
              (matchingOnly (legColumns forest (forest.runOf a)) leg row)) =
            (first :: second :: others).map copy := by
          have hnodup := (nodup_legColumns hmarked hapart a).filter row.flag
          rw [hmatched, List.nodup_cons] at hnodup
          rw [List.map_cons (f := copy)]
          congr 1
          · simp [copy]
          · apply List.map_congr_left
            intro leg hleg
            have hne : leg ≠ first := by
              rintro rfl
              exact hnodup.1 hleg
            simp [copy, hne]
        rw [hcopies, List.map_eq_flatMap]
        have hanswers (legs : List String) : q.answers (legs.flatMap fun leg => [copy leg]) =
            legs.flatMap fun leg => q.answers [copy leg] := by
          induction legs with
          | nil => rfl
          | cons leg rest ih =>
              rw [List.flatMap_cons, List.flatMap_cons, answers_append, ih]
        rw [hanswers]
        refine q.answers_copies h hmarked hapart ha hrun hwithin row hmatched.symm ?_ ?_
        · intro leg c
          by_cases hfirst : leg = first <;> simp [copy, hfirst, scopedCopy, Row.get?]
        · intro leg
          by_cases hfirst : leg = first
          · simp [copy, hfirst, isSilenced_matchingOnly]
          · simp [copy, hfirst, isSilenced_scopedCopy, isSilenced_matchingOnly, hwithin]
    | false =>
        have hothers : q.answers ((second :: others).map fun leg => scopedCopy a
            (matchingOnly (legColumns forest (forest.runOf a)) leg row)) = [] := by
          apply q.answers_eq_nil
          intro other hother
          obtain ⟨leg, -, rfl⟩ := List.mem_map.mp hother
          apply q.answers_eq_nil_of_isSilenced
          rw [isSilenced_scopedCopy, hwithin]
          simp
        rw [q.answers_cons, hothers, List.append_nil,
          q.answers_copy_outside hmarked hapart hwithin]
  · rfl

/-- Rows tell the same when they are split at one aggregation. -/
theorem answers_splitRun (h : forest.IsLaidOut) (hmarked : forest.IsMarked)
    (hapart : forest.ReadsApart countColumn) {run : List Nat}
    (hrun : run ∈ forest.concurrentRuns) (rows : List Row) :
    q.answers (splitRun forest rows run) = q.answers rows := by
  unfold splitRun
  split
  · rfl
  · rename_i first rest
    dsimp only
    split
    · rfl
    · have heq := Forest.eq_runOf_of_mem hrun (i := first) (by simp)
      obtain ⟨⟨y, hy, hleg, -⟩, -⟩ := Forest.mem_runOf.mp (heq ▸ List.mem_cons_self)
      have ha := h.anchor_anchor hy (Node.isQuery_of_isLeg hleg)
      apply q.answers_flatMap
      intro row _
      rw [heq]
      exact q.answers_splitRow h hmarked hapart ha (heq ▸ List.cons_ne_nil first rest) row

/-- Rows tell the same when they are split at all aggregations. -/
theorem answers_splitConcurrent (h : forest.IsLaidOut) (hmarked : forest.IsMarked)
    (hapart : forest.ReadsApart countColumn) (rows : List Row) :
    q.answers (splitConcurrent forest rows) = q.answers rows := by
  unfold splitConcurrent
  have hall : ∀ run ∈ forest.concurrentRuns, run ∈ forest.concurrentRuns := fun _ hrun => hrun
  generalize hruns : forest.concurrentRuns = runs at hall ⊢
  have hsub : ∀ run ∈ runs, run ∈ forest.concurrentRuns := hruns ▸ hall
  clear hall hruns
  induction runs generalizing rows with
  | nil => rfl
  | cons run rest ih =>
      rw [List.foldl_cons, ih _ fun other hother => hsub other (by simp [hother]),
        q.answers_splitRun h hmarked hapart (hsub run (by simp))]

end Question

/-! ## No row matches two legs -/

/-- Whether a row matches one concurrent leg of an aggregation at most. -/
def MatchesOneOf (forest : Forest) (a : Nat) (row : Row) : Prop :=
  ∀ (i j : Nat) (x y : Node), i ≠ j → forest[i]? = some x → forest[j]? = some y →
    i ∈ forest.runOf a → j ∈ forest.runOf a →
    ¬(x.matchesLeg row = true ∧ y.matchesLeg row = true)

theorem matchesOne_of_matchesOneOf (h : forest.IsLaidOut) (hmarked : forest.IsMarked) {row : Row}
    (hall : ∀ a, MatchesOneOf forest a row) : forest.MatchesOne row := by
  intro i j x y hne hx hy hxshown hyshown hakin
  have hanchor := (h.anchor_eq_iff hx hy hakin.1 hakin.2.1).mpr hakin
  obtain ⟨l, l', hl, hl', -⟩ := h.sharesLegs hne hx hy hakin
  have hactive {i : Nat} {x : Node} (hx : forest[i]? = some x) (hshown : x.isShown = true)
      {l : Leg} (hl : x.aggregation = .leg l) : x.isActive = true :=
    hmarked.isActive_of_isShown (List.mem_of_getElem? hx) (Node.isLeg_of_eq hl) hshown
  have hi : i ∈ forest.runOf (forest.anchor i) := Forest.mem_runOf.mpr
    ⟨⟨x, hx, Node.isLeg_of_eq hl, hactive hx hxshown hl,
      (hmarked.concurrent i x hx (Node.isLeg_of_eq hl) (hactive hx hxshown hl)).mpr
        ⟨j, y, hne.symm, hy, Node.isLeg_of_eq hl', hactive hy hyshown hl', hanchor.symm⟩⟩, rfl⟩
  have hj := mem_runOf_of_isShown h hmarked hy hyshown (hanchor ▸ hi)
  exact hall _ i j x y hne hx hy hi (hanchor ▸ hj)

theorem matchesOneOf_congr (hmarked : forest.IsMarked) {a : Nat} {row row' : Row}
    (hone : MatchesOneOf forest a row)
    (hflag : ∀ c ∈ legColumns forest (forest.runOf a), row'.flag c = true →
      row.flag c = true) : MatchesOneOf forest a row' := by
  have hmatches {i : Nat} {x : Node} (hx : forest[i]? = some x) (hi : i ∈ forest.runOf a)
      (h : x.matchesLeg row' = true) : x.matchesLeg row = true := by
    obtain ⟨c, -, hmem, hcolumn⟩ := exists_column_of_matchesLeg hmarked hi hx h
    rw [hcolumn] at h ⊢
    exact hflag c hmem h
  rintro i j x y hne hx hy hi hj ⟨hxmatches, hymatches⟩
  exact hone i j x y hne hx hy hi hj ⟨hmatches hx hi hxmatches, hmatches hy hj hymatches⟩

/-- Two matched legs have two columns. -/
theorem matchesOneOf_of_columns (hmarked : forest.IsMarked)
    (hapart : forest.ReadsApart countColumn) {a : Nat} {row : Row}
    (hone : ∀ c ∈ legColumns forest (forest.runOf a), ∀ c' ∈ legColumns forest (forest.runOf a),
      row.flag c = true → row.flag c' = true → c = c') : MatchesOneOf forest a row := by
  rintro i j x y hne hx hy hi hj ⟨hxmatches, hymatches⟩
  obtain ⟨c, hc, hmem, hflag⟩ := exists_column_of_matchesLeg hmarked hi hx hxmatches
  obtain ⟨c', hc', hmem', hflag'⟩ := exists_column_of_matchesLeg hmarked hj hy hymatches
  obtain rfl := hone c hmem c' hmem' ((hflag row).symm.trans hxmatches)
    ((hflag' row).symm.trans hymatches)
  obtain ⟨-, hleg, hactive, hconcurrent, -⟩ := readColumn?_of_mem_runOf hmarked hi hx
  obtain ⟨hread, -, -, -, hshown⟩ := readColumn?_of_mem_runOf hmarked hj hy
  exact hapart.legs i j x y hne hx hy hleg hactive hconcurrent hshown c hc (hread.trans hc')

theorem matchesOneOf_splitRow (hmarked : forest.IsMarked)
    (hapart : forest.ReadsApart countColumn) {a anchor : Nat} {row row' : Row}
    (hrow' : row' ∈ splitRow (legColumns forest (forest.runOf a)) anchor row) :
    MatchesOneOf forest a row' := by
  apply matchesOneOf_of_columns hmarked hapart
  intro c hc c' hc' hflag hflag'
  unfold splitRow at hrow'
  split at hrow'
  · have hcopy (leg : String) (h : row'.flag = (matchingOnly (legColumns forest (forest.runOf a))
        leg row).flag) : c = c' := by
      rw [h, flag_matchingOnly hc, decide_eq_true_iff] at hflag
      rw [h, flag_matchingOnly hc', decide_eq_true_iff] at hflag'
      rw [hflag, hflag']
    rcases List.mem_cons.mp hrow' with rfl | hothers
    · exact hcopy _ rfl
    · obtain ⟨leg, -, rfl⟩ := List.mem_map.mp hothers
      exact hcopy leg rfl
  · rename_i hfew
    obtain rfl := List.mem_singleton.mp hrow'
    have hmatched : c ∈ (legColumns forest (forest.runOf a)).filter row'.flag :=
      List.mem_filter.mpr ⟨hc, hflag⟩
    have hmatched' : c' ∈ (legColumns forest (forest.runOf a)).filter row'.flag :=
      List.mem_filter.mpr ⟨hc', hflag'⟩
    cases hlist : (legColumns forest (forest.runOf a)).filter row'.flag with
    | nil =>
        rw [hlist] at hmatched
        cases hmatched
    | cons first rest =>
        cases rest with
        | nil =>
            rw [hlist] at hmatched hmatched'
            rw [List.mem_singleton.mp hmatched, List.mem_singleton.mp hmatched']
        | cons second others => exact absurd hlist (hfew first second others)

/-- Columns of other runs are kept. -/
theorem flag_splitRow {legs : List String} {anchor : Nat} {row row' : Row}
    (hrow' : row' ∈ splitRow legs anchor row) {c : String} (hc : c ∉ legs) :
    row'.flag c = row.flag c := by
  unfold splitRow at hrow'
  split at hrow'
  · rcases List.mem_cons.mp hrow' with rfl | hothers
    · exact Row.flag_congr (get?_matchingOnly hc _ row)
    · obtain ⟨leg, -, rfl⟩ := List.mem_map.mp hothers
      exact Row.flag_congr (get?_matchingOnly hc leg row)
  · rw [List.mem_singleton.mp hrow']

/-- After the split at one aggregation no row matches two of its legs, and what was split before
stays so. -/
theorem matchesOneOf_splitRun (hmarked : forest.IsMarked)
    (hapart : forest.ReadsApart countColumn) {b : Nat} (hrun : forest.runOf b ≠ [])
    {rows : List Row} {a : Nat} (hdone : a = b ∨ ∀ row ∈ rows, MatchesOneOf forest a row) :
    ∀ row ∈ splitRun forest rows (forest.runOf b), MatchesOneOf forest a row := by
  intro row' hrow'
  unfold splitRun at hrow'
  split at hrow'
  · rename_i hnil
    exact absurd hnil hrun
  · rename_i first rest hfirst
    dsimp only at hrow'
    split at hrow'
    · rename_i hfew
      rcases hdone with rfl | hdone
      · apply matchesOneOf_of_columns hmarked hapart
        intro c hc c' hc' _ _
        have hnodup := nodup_legColumns hmarked hapart a
        by_contra hne
        have hseveral := (Plan.one_lt_length_iff hnodup hc').mpr ⟨c, hc, hne⟩
        exact absurd hseveral (Nat.not_lt.mpr (Nat.le_of_lt_succ hfew))
      · exact hdone row' hrow'
    · obtain ⟨row, hrow, hsplit⟩ := List.mem_flatMap.mp hrow'
      rw [← legColumns] at hsplit
      by_cases hab : a = b
      · subst hab
        exact matchesOneOf_splitRow hmarked hapart hsplit
      · refine matchesOneOf_congr hmarked ((hdone.resolve_left hab) row hrow) ?_
        intro c hc hflag
        have hnot : c ∉ legColumns forest (forest.runOf b) := by
          intro hother
          obtain ⟨i, y, hi, hy, hcolumn⟩ := (mem_legColumns hmarked).mp hc
          obtain ⟨hread, -, -, -, hshown⟩ := readColumn?_of_mem_runOf hmarked hi hy
          have hj := mem_runOf_of_readColumn? hmarked hapart hy hshown (hread.trans hcolumn) hother
          exact hab ((Forest.mem_runOf.mp hi).2.symm.trans (Forest.mem_runOf.mp hj).2)
        rwa [flag_splitRow hsplit hnot] at hflag

/-- After all splits no row matches two concurrent legs of one aggregation. -/
theorem matchesOneOf_splitConcurrent (hmarked : forest.IsMarked)
    (hapart : forest.ReadsApart countColumn) (rows : List Row) (a : Nat) :
    ∀ row ∈ splitConcurrent forest rows, MatchesOneOf forest a row := by
  by_cases hnil : forest.runOf a = []
  · rintro row - i j x y - - - hi
    rw [hnil] at hi
    cases hi
  · have hmem : forest.runOf a ∈ forest.concurrentRuns := by
      obtain ⟨i, hi⟩ := List.exists_mem_of_ne_nil _ hnil
      rw [← (Forest.mem_runOf.mp hi).2]
      exact Forest.runOf_mem ((Forest.mem_runOf.mp hi).2.symm ▸ hi)
    have hruns : ∀ run ∈ forest.concurrentRuns, ∃ b, run = forest.runOf b ∧ run ≠ [] := by
      intro run hrun
      obtain ⟨i, hi, heq⟩ := Forest.mem_concurrentRuns.mp hrun
      exact ⟨_, heq, List.ne_nil_of_mem hi⟩
    unfold splitConcurrent
    generalize forest.concurrentRuns = runs at hmem hruns
    -- once its own run is done, every later split keeps the aggregation as it is
    have hkeep : ∀ (runs : List (List Nat)),
        (∀ run ∈ runs, ∃ b, run = forest.runOf b ∧ run ≠ []) → ∀ rows : List Row,
        (∀ row ∈ rows, MatchesOneOf forest a row) →
        ∀ row ∈ runs.foldl (splitRun forest) rows, MatchesOneOf forest a row := by
      intro runs hruns
      induction runs with
      | nil => exact fun rows hdone => hdone
      | cons run rest ih =>
          intro rows hdone
          obtain ⟨b, rfl, hb⟩ := hruns run (by simp)
          exact ih (fun other hother => hruns other (by simp [hother])) _
            (matchesOneOf_splitRun hmarked hapart hb (Or.inr hdone))
    obtain ⟨before, after, rfl⟩ := List.append_of_mem hmem
    rw [List.foldl_append, List.foldl_cons]
    refine hkeep after (fun run hrun => hruns run (by simp [hrun])) _ ?_
    exact matchesOneOf_splitRun hmarked hapart hnil (Or.inl rfl)

end Rollup.Rows
