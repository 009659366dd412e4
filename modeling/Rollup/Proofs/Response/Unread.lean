/-
# Rows that are not read

A row that misses a filter aggregation gets into none of its buckets, so nothing changes when it is
muted there. A row that matches nothing of the one aggregation that is read makes the outputs of the
request's own level and goes no further, and any other row makes them as well, so nothing changes
when it is dropped. Settling the rows that miss filters does no more than that: it leaves the
response as it is, unless it leaves no row.
-/

import Rollup.Proofs.Plan.Disabling
import Rollup.Proofs.Response.Direct
import Rollup.Proofs.Response.Idle
import Rollup.Proofs.Rows.Muted

namespace Rollup

open Rows

/-! ## Rows that get nowhere -/

/-- Whether a row has got into no bucket of what it misses. -/
def Places.IsOutside (places : Places) (forest : Forest) (row : Row) : Prop :=
  ∀ a, Misses forest row a → ∀ i, forest.isWithin i a = true →
    places.settled i = none ∧ places.pending i = none

namespace Forest

variable {forest : Forest} {countColumn : String} {row muted : Row} {places : Places}

/-- What lies in an aggregation and does not belong to it, has a parent there. -/
theorem IsLaidOut.isWithin_parent (h : forest.IsLaidOut) {i p a : Nat} {y : Node}
    (hy : forest[i]? = some y) (hparent : y.parent = some p) (ha : forest.anchor a = a)
    (hwithin : forest.isWithin i a = true) (hne : forest.anchor i ≠ a) :
    forest.isWithin p a = true := by
  obtain ⟨-, -, -, hp, -⟩ := h.parent_spec hy hparent
  rw [isWithin, Bool.or_eq_true, beq_iff_eq] at hwithin ⊢
  have hbelow := hwithin.resolve_left hne
  rw [isBelow, List.contains_iff_mem, ha, h.ancestors_eq, parent?_eq_some.mpr ⟨y, hy, hparent⟩]
    at hbelow
  rcases List.mem_cons.mp hbelow with rfl | hmem
  · exact Or.inl hp
  · refine Or.inr ?_
    rwa [isBelow, List.contains_iff_mem, ha]

/-- A row stays outside when it goes on in nothing that it misses. -/
theorem isOutside_remember (houtside : places.IsOutside forest row) {anchor : Nat}
    {lastLeg : Option Bool} {base : Path} {step : Step}
    (hstep : ∀ segment, step = .descend segment →
      ∀ a, Misses forest row a → forest.isWithin anchor a = false) :
    (remember places anchor lastLeg base step).IsOutside forest row := by
  intro a ha i hi
  obtain ⟨hsettled, hpending⟩ := houtside a ha i hi
  cases step with
  | stay => exact ⟨hsettled, hpending⟩
  | skip =>
      unfold remember
      dsimp only
      split
      · by_cases hanchor : i = anchor
        · subst hanchor
          simp [Places.settle, Places.suspend, hpending]
        · simp [Places.settle, Places.suspend, hanchor, hsettled, hpending]
      · exact ⟨hsettled, hpending⟩
  | descend segment =>
      have hanchor : i ≠ anchor := by
        rintro rfl
        rw [hstep segment rfl a ha] at hi
        cases hi
      unfold remember
      dsimp only
      split
      · simp [Places.suspend, hanchor, hsettled, hpending]
      · simp [Places.settle, hanchor, hsettled, hpending]

/-- A row that misses an aggregation makes its output at a leg and goes nowhere. -/
theorem IsLaidOut.placeAt_of_missed (h : forest.IsLaidOut) (hmarked : forest.IsMarked)
    {unit : FilterUnit} (hunit : unit ∈ filterUnits forest) {i : Nat} {y : Node}
    (hy : forest[i]? = some y) (hshown : y.isShown = true)
    (hanchor : forest.anchor i = forest.anchor unit.first)
    (hmissed : unit.isMatchedBy row = false) :
    forest.placeAt countColumn row (y, i) = fun level =>
      (.skip, level.ensure y.name (y.initial (forest.orderMetricName? y))) := by
  obtain ⟨l, hl⟩ := h.exists_leg_of_anchor hy (Node.isQuery_of_isShown hshown)
    (hanchor ▸ legsOf_ne_nil_of_mem_filterUnits hunit)
  have hmatch := matchesLeg_sourceAt_of_missed hmarked hunit hy hshown hanchor hmissed countColumn
  rw [Node.matchesLeg, hl] at hmatch
  funext level
  unfold placeAt Node.place
  rw [hl]
  dsimp only at hmatch ⊢
  rw [hmatch]
  exact Node.place_leg_of_missed hl _ _ level

/-- Where it is not within what it misses, a row is silenced as before. -/
theorem isSilenced_of_mutesMissed (h : MutesMissed forest row muted) {i : Nat}
    (hout : ∀ a, Misses forest row a → forest.isWithin i a = false) :
    forest.isSilenced muted i = forest.isSilenced row i := by
  unfold isSilenced
  rw [h.countScopes]
  congr 1
  rw [Bool.eq_iff_iff, List.any_eq_true, List.any_eq_true]
  constructor
  · rintro ⟨scope, hscope, hwithin⟩
    rcases h.gains scope hscope with hbefore | hmissed
    · exact ⟨scope, hbefore, hwithin⟩
    · rw [hout scope hmissed] at hwithin
      cases hwithin
  · rintro ⟨scope, hscope, hwithin⟩
    exact ⟨scope, h.keeps scope hscope, hwithin⟩

/-- Where it is not within what it misses, a row is placed as before. -/
theorem placeAt_of_mutesMissed (h : MutesMissed forest row muted) {i : Nat}
    (hout : ∀ a, Misses forest row a → forest.isWithin i a = false) (y : Node) :
    forest.placeAt countColumn muted (y, i) = forest.placeAt countColumn row (y, i) := by
  have hget : (forest.sourceAt countColumn muted i).get? =
      (forest.sourceAt countColumn row i).get? := by
    unfold sourceAt
    rw [isSilenced_of_mutesMissed h hout]
    apply Row.get?_of_cells
    split
    · rw [Row.muted, Row.muted, Row.set, Row.set, h.cells]
    · exact h.cells
  exact Node.place_congr (fun c _ => congrFun hget c) (Row.count_congr (congrFun hget countColumn))

/-- A row gets to a node of what it misses at a leg only. -/
theorem IsLaidOut.anchor_eq_of_isOutside (h : forest.IsLaidOut)
    (houtside : places.IsOutside forest row) {i : Nat} {y : Node} (hy : forest[i]? = some y)
    {base : Path} (hbase : places.base? y.parent = some base) {unit : FilterUnit}
    (hunit : unit ∈ filterUnits forest) (hmissed : unit.isMatchedBy row = false)
    (hwithin : forest.isWithin i (forest.anchor unit.first) = true) :
    forest.anchor i = forest.anchor unit.first := by
  by_contra hne
  cases hparent : y.parent with
  | none =>
      rw [isWithin, isBelow_of_root hy hparent, Bool.or_false, beq_iff_eq] at hwithin
      exact hne hwithin
  | some p =>
      have hp := h.isWithin_parent hy hparent (anchor_anchor_of_mem_filterUnits h hunit) hwithin hne
      rw [hparent, Places.base?, (houtside _ ⟨unit, hunit, rfl, hmissed⟩ p hp).1] at hbase
      cases hbase

/-- A node that a row gets to places it alike, muted in what it misses or not, and the row goes on in
nothing of that. -/
theorem IsLaidOut.placeAt_of_isOutside (h : forest.IsLaidOut) (hmarked : forest.IsMarked)
    (hmutes : MutesMissed forest row muted) (houtside : places.IsOutside forest row) {i : Nat}
    {y : Node} (hy : forest[i]? = some y) (hshown : y.isShown = true) {base : Path}
    (hbase : places.base? y.parent = some base) :
    forest.placeAt countColumn muted (y, i) = forest.placeAt countColumn row (y, i) ∧
      ∀ level segment, (forest.placeAt countColumn row (y, i) level).1 = .descend segment →
        ∀ a, Misses forest row a → forest.isWithin (forest.anchor i) a = false := by
  by_cases hin : ∃ a, Misses forest row a ∧ forest.isWithin i a = true
  · obtain ⟨-, ⟨unit, hunit, rfl, hmissed⟩, hwithin⟩ := hin
    have hanchor := h.anchor_eq_of_isOutside houtside hy hbase hunit hmissed hwithin
    have hmuted : unit.isMatchedBy muted = false := by
      rwa [unit.isMatchedBy_of_cells hmutes.cells]
    rw [h.placeAt_of_missed hmarked hunit hy hshown hanchor hmissed,
      h.placeAt_of_missed hmarked hunit hy hshown hanchor hmuted]
    exact ⟨rfl, fun _ _ hskip => nomatch hskip⟩
  · have hout : ∀ a, Misses forest row a → forest.isWithin i a = false := by
      simpa using hin
    refine ⟨placeAt_of_mutesMissed hmutes hout y, fun _ _ _ a ha => ?_⟩
    obtain ⟨⟨x, hx, hakin⟩, -⟩ := h.anchor_spec hy (Node.isQuery_of_isShown hshown)
    rw [h.isWithin_of_akin hx hy hakin, hout a ha]

/-- A row takes a node alike, muted in what it misses or not, and stays outside of that. -/
theorem IsLaidOut.visit_of_mutesMissed (h : forest.IsLaidOut) (hmarked : forest.IsMarked)
    (hmutes : MutesMissed forest row muted) (houtside : places.IsOutside forest row)
    (runs : List (List Nat)) (countColumn : String) (root : Level) {entry : Node × Nat}
    (hentry : forest[entry.2]? = some entry.1) :
    forest.visit runs countColumn muted (places, root) entry =
        forest.visit runs countColumn row (places, root) entry ∧
      (forest.visit runs countColumn row (places, root) entry).1.IsOutside forest row := by
  obtain ⟨y, i⟩ := entry
  dsimp only at hentry
  by_cases hcomes : y.isShown = true ∧ ∃ base, places.base? y.parent = some base
  · obtain ⟨hshown, base, hbase⟩ := hcomes
    obtain ⟨hplace, hstep⟩ :=
      h.placeAt_of_isOutside hmarked hmutes houtside hentry hshown hbase
    have hvisit (row : Row) : forest.visit runs countColumn row (places, root) (y, i) =
        (Level.atPath (forest.placeAt countColumn row (y, i)) base root).elim (places, root)
          fun result => (remember places (forest.anchor i) (lastLeg? runs i) base result.1,
            result.2) := by
      unfold visit placeAt sourceAt
      dsimp only
      rw [hshown, hbase]
      dsimp only [Bool.not_true]
      cases Level.atPath _ base root <;> rfl
    rw [hvisit, hvisit, hplace]
    refine ⟨rfl, ?_⟩
    cases hresult : Level.atPath (forest.placeAt countColumn row (y, i)) base root with
    | none => exact houtside
    | some result =>
        obtain ⟨level, -, hstepped, -⟩ := Level.exists_of_atPath hresult
        exact isOutside_remember houtside fun segment hdescend =>
          hstep level segment (hstepped.symm.trans hdescend)
  · have hvisit (row : Row) :
        forest.visit runs countColumn row (places, root) (y, i) = (places, root) := by
      unfold visit
      cases hshown : y.isShown with
      | false => simp [hshown]
      | true =>
          cases hbase : places.base? y.parent with
          | none => simp [hshown, hbase]
          | some base => exact absurd ⟨hshown, base, hbase⟩ hcomes
    rw [hvisit, hvisit]
    exact ⟨rfl, houtside⟩

/-- Muted in what it misses, a row leaves what it leaves otherwise. -/
theorem IsLaidOut.foldRow_of_mutesMissed (h : forest.IsLaidOut) (hmarked : forest.IsMarked)
    (hmutes : MutesMissed forest row muted) (runs : List (List Nat)) (root : Level) :
    forest.foldRow runs countColumn root muted = forest.foldRow runs countColumn root row := by
  have hentries : ∀ entry ∈ forest.zipIdx, forest[entry.2]? = some entry.1 :=
    fun entry => List.mem_zipIdx_iff_getElem?.mp
  have hnowhere : Places.nowhere.IsOutside forest row := fun _ _ _ _ => ⟨rfl, rfl⟩
  unfold foldRow
  generalize forest.zipIdx = entries at hentries
  generalize Places.nowhere = places at hnowhere
  refine congrArg Prod.snd ?_
  induction entries generalizing places root with
  | nil => rfl
  | cons entry rest ih =>
      rw [List.forall_mem_cons] at hentries
      obtain ⟨hvisit, houtside⟩ := h.visit_of_mutesMissed hmarked hmutes hnowhere runs
        countColumn root hentries.1
      rw [List.foldl_cons, List.foldl_cons, hvisit]
      exact ih _ hentries.2 _ houtside

/-- An idle row makes the outputs of the request's own level and nothing else. -/
theorem IsLaidOut.foldRow_of_idle (h : forest.IsLaidOut) (hmarked : forest.IsMarked)
    (hidle : isKept forest.soleColumns row = false) (runs : List (List Nat)) (root : Level) :
    forest.foldRow runs countColumn root row =
      root.ensureAll (forest.openings forest.zipIdx) := by
  obtain ⟨unit, hunit, hmissed, houtside⟩ := exists_unit_of_idle hidle
  refine foldRow_of_root (fun i y hy hshown hparent => ?_) runs root
  have hanchor := anchor_eq_of_root houtside hy hshown hparent
  rw [h.placeAt_of_missed hmarked hunit hy hshown hanchor hmissed]
  exact ⟨_, opening?_of_root hshown hparent, fun level => ⟨.skip, fun _ => Step.noConfusion, rfl⟩⟩

/-! ## All rows -/

section

variable {rows settled : List Row}

/-- Idle rows may be left out of rows that are not all idle. -/
theorem IsLaidOut.foldRows_blank (h : forest.IsLaidOut) (hmarked : forest.IsMarked)
    (countColumn : String) (hsome : ∃ row ∈ rows, isKept forest.soleColumns row = true)
    (root : Level) :
    forest.foldRows countColumn root (blank forest rows) =
      forest.foldRows countColumn root (blank forest (rows.filter (isKept forest.soleColumns))) := by
  unfold foldRows blank
  dsimp only
  rw [List.foldl_map, List.foldl_map]
  refine foldl_filter_of_absorbed
    (f := fun root row => forest.foldRow forest.concurrentRuns countColumn root
      ((blankedColumns forest).foldl (fun row column => row.set column .null) row))
    (fun row _ hidle root => ?_)
    (fun row _ _ root => foldRow_ensureAll forest _ countColumn root _) ?_ root
  · refine h.foldRow_of_idle hmarked ?_ _ root
    by_contra hkept
    rw [isKept_of_blanked (by simpa using hkept)] at hidle
    cases hidle
  · obtain ⟨row, hrow, hkept⟩ := hsome
    exact List.ne_nil_of_mem (List.mem_filter.mpr ⟨hrow, hkept⟩)

/-- Rows that are the same but for idle ones and for what is muted leave the same. -/
theorem IsLaidOut.foldRows_of_sameButMuted (h : forest.IsLaidOut) (hmarked : forest.IsMarked)
    (hsame : SameButMuted forest forest.soleColumns rows settled) (countColumn : String)
    (root : Level) :
    forest.foldRows countColumn root (blank forest settled) =
      forest.foldRows countColumn root (blank forest rows) := by
  rw [h.foldRows_blank hmarked countColumn hsame.nonempty,
    h.foldRows_blank hmarked countColumn hsame.exists_isKept]
  unfold foldRows blank
  dsimp only
  rw [List.foldl_map, List.foldl_map]
  have hkept := hsame.kept
  generalize rows.filter (isKept forest.soleColumns) = rows at hkept
  generalize settled.filter (isKept forest.soleColumns) = settled at hkept
  induction hkept generalizing root with
  | nil => rfl
  | cons hrow _ ih =>
      rw [List.foldl_cons, List.foldl_cons,
        h.foldRow_of_mutesMissed hmarked (hrow.blank (blankedColumns forest))]
      exact ih _

end

/-! ## The columns that are read -/

theorem exists_groupColumnsBefore_append (forest : Forest) {first count : Nat}
    (hle : first ≤ count) : ∃ rest,
      forest.groupColumnsBefore count = forest.groupColumnsBefore first ++ rest := by
  obtain ⟨more, rfl⟩ := Nat.exists_eq_add_of_le hle
  rw [groupColumnsBefore, List.take_add, List.filterMap_append, List.eraseDups_append]
  exact ⟨_, rfl⟩

/-- The columns of the one aggregation that is read lead those of the groups whose intervals are
filled in, as all else that groups lies below it. -/
theorem IsLaidOut.leadsWith_soleColumns (h : forest.IsLaidOut) {target : GapTarget}
    (htarget : gapTarget? forest = some target) :
    LeadsWith forest.soleColumns (forest.groupColumnsBefore target.index) := by
  by_cases hnil : forest.soleColumns = []
  · exact ⟨[], _, rfl, by simp [hnil]⟩
  obtain ⟨first, hfirst⟩ := List.exists_mem_of_ne_nil _ hnil
  obtain ⟨unit, hunit, hcolumns, houtside⟩ := exists_unit_of_mem_soleColumns hfirst
  obtain ⟨node, hnode, hactive, hempty, -, hcolumn, -⟩ := gapTarget_spec htarget
  obtain ⟨-, hshown, hnotLeg⟩ := readColumn?_of_gapTarget hactive hempty hcolumn
  have hleg {i : Nat} {y : Node} (hy : forest[i]? = some y) (hshown : y.isShown = true)
      (hanchor : forest.anchor i = forest.anchor unit.first) : y.isLeg = true := by
    obtain ⟨l, hl⟩ := h.exists_leg_of_anchor hy (Node.isQuery_of_isShown hshown)
      (hanchor ▸ legsOf_ne_nil_of_mem_filterUnits hunit)
    exact Node.isLeg_of_eq hl
  have hapart : forest.anchor target.index ≠ forest.anchor unit.first := by
    intro hanchor
    rw [hleg hnode hshown hanchor] at hnotLeg
    cases hnotLeg
  -- the legs come before the first node that is shown and is none of them
  have hexists : ∃ k y, forest[k]? = some y ∧ y.isShown = true ∧
      forest.anchor k ≠ forest.anchor unit.first := ⟨target.index, node, hnode, hshown, hapart⟩
  classical
  obtain ⟨y, hy, hyshown, hne⟩ := Nat.find_spec hexists
  have hle : Nat.find hexists ≤ target.index :=
    Nat.find_min' hexists ⟨node, hnode, hshown, hapart⟩
  have hmin {i : Nat} (hi : i < Nat.find hexists) {x : Node} (hx : forest[i]? = some x)
      (hxshown : x.isShown = true) : forest.anchor i = forest.anchor unit.first := by
    by_contra hanchor
    exact Nat.find_min hexists hi ⟨x, hx, hxshown, hanchor⟩
  generalize Nat.find hexists = k at hy hne hle hmin
  obtain ⟨rest, houter⟩ := forest.exists_groupColumnsBefore_append hle
  refine ⟨_, rest, houter, fun c => ?_⟩
  rw [← hcolumns, mem_columns_iff hunit]
  constructor
  · intro hc
    rw [groupColumnsBefore, List.mem_eraseDups, List.mem_filterMap] at hc
    obtain ⟨x, hx, hgroups⟩ := hc
    obtain ⟨i, hi⟩ := List.getElem?_of_mem hx
    rw [List.getElem?_take, Option.ite_none_right_eq_some] at hi
    obtain ⟨hlt, hi⟩ := hi
    obtain ⟨-, hxactive, hxquery⟩ := readColumn?_of_groupColumn? hgroups
    have hxshown : x.isShown = true := by simp [Node.isShown, hxactive, hxquery]
    have hanchor := hmin hlt hi hxshown
    exact ⟨i, x, hi, hleg hi hxshown hanchor, hxactive, hanchor, hgroups⟩
  · rintro ⟨i, x, hx, hxleg, -, hanchor, hgroups⟩
    refine mem_groupColumnsBefore hx ?_ hgroups
    have hwithin := isWithin_of_isReadOutside houtside hy hyshown
    rw [isWithin, Bool.or_eq_true, beq_iff_eq] at hwithin
    refine h.lt_of_isBelow (hwithin.resolve_left hne) hx (Node.isQuery_of_isLeg hxleg) ?_
    rw [anchor_anchor_of_mem_filterUnits h hunit, hanchor]

/-! ## With and without settling the rows that miss filters -/

section

variable {context : RowContext} {rows : List Row}

/-- What is left of a row as it comes back is muted in what it misses only, and is a placeholder
only if it misses something. -/
theorem misses_of_isSettledOf {before row : Row} (hbefore : before.mutedScopes = [])
    (horigin : before.origin ≠ .placeholder) (h : IsSettledOf forest before row) :
    (∀ scope ∈ row.mutedScopes, Misses forest row scope) ∧
      (row.origin = .placeholder → ∃ scope, Misses forest row scope) := by
  have hmuted : ∀ scope ∈ row.mutedScopes, Misses forest row scope := by
    intro scope hscope
    rcases h.mutes.gains scope hscope with hthere | hmissed
    · rw [hbefore] at hthere
      cases hthere
    · exact hmissed.mono fun c hflag => by rwa [← Row.flag_of_cells h.mutes.cells]
  refine ⟨hmuted, fun hplaceholder => ?_⟩
  rcases h.origin with hsame | ⟨-, hsome⟩
  · exact absurd (hsame.symm.trans hplaceholder) horigin
  · obtain ⟨scope, hscope⟩ := List.exists_mem_of_ne_nil _ hsome
    exact ⟨scope, hmuted scope hscope⟩

/-- In every group that is checked for an aggregation outside of which nothing is read, there is a
row left that matches. It is not muted there, and a placeholder only for an aggregation inside. -/
theorem IsLaidOut.exists_matched_of_mem_settleUnmatched (h : forest.IsLaidOut)
    (hrows : ∀ row ∈ rows, row.origin = .engine ∧ row.mutedScopes = []) {unit : FilterUnit}
    (hunit : unit ∈ filterUnits forest)
    (houtside : isReadOutside forest (forest.anchor unit.first) = false) :
    ∀ row ∈ settleUnmatched forest rows, ∃ other ∈ settleUnmatched forest rows,
      other.groupKey (forest.groupColumnsBefore unit.first) =
          row.groupKey (forest.groupColumnsBefore unit.first) ∧
        unit.isMatchedBy other = true ∧ forest.anchor unit.first ∉ other.mutedScopes ∧
        (other.origin = .placeholder → ∃ inner ∈ filterUnits forest,
          forest.isBelow inner.first (forest.anchor unit.first) = true ∧
            inner.isMatchedBy other = false) := by
  intro row hrow
  have hreal : ∀ row ∈ rows, row.origin ≠ .empty := fun row hrow => by
    rw [(hrows row hrow).1]
    exact Origin.noConfusion
  have hmatch := hasMatch_settleUnmatched hreal hunit houtside fun other hother hnone =>
    (h.columns_eq_soleColumns hother hnone).trans (h.columns_eq_soleColumns hunit houtside).symm
  obtain ⟨other, hother, hkey, hmatched⟩ := hmatch row hrow
  obtain ⟨before, hbefore, hsettled⟩ := exists_isSettledOf rows other hother
  obtain ⟨hmuted, hplaceholder⟩ := misses_of_isSettledOf (hrows before hbefore).2
    (by rw [(hrows before hbefore).1]; exact Origin.noConfusion) hsettled
  -- what the row misses is another aggregation
  have hapart {inner : FilterUnit} (hinner : inner ∈ filterUnits forest)
      (hmissed : inner.isMatchedBy other = false) :
      forest.anchor inner.first ≠ forest.anchor unit.first := by
    intro hanchor
    rw [FilterUnit.isMatchedBy, columns_eq_of_anchor_eq hinner hunit hanchor] at hmissed
    exact Bool.false_ne_true (hmissed.symm.trans hmatched)
  refine ⟨other, hother, hkey, hmatched, fun hscope => ?_, fun horigin => ?_⟩
  · obtain ⟨inner, hinner, hanchor, hmissed⟩ := hmuted _ hscope
    exact hapart hinner hmissed hanchor
  · obtain ⟨-, inner, hinner, -, hmissed⟩ := hplaceholder horigin
    obtain ⟨x, hx, hleg, hactive⟩ := exists_first_of_mem_filterUnits hinner
    have hwithin := isWithin_of_isReadOutside houtside hx
      (by simp [Node.isShown, hactive, Node.isQuery_of_isLeg hleg])
    rw [isWithin, Bool.or_eq_true, beq_iff_eq] at hwithin
    exact ⟨inner, hinner, hwithin.resolve_left (hapart hinner hmissed), hmissed⟩

/-- Settled rows are the same as before but for idle ones and for what is muted. -/
theorem IsLaidOut.sameButMuted_settleUnmatched (h : forest.IsLaidOut)
    (hrows : ∀ row ∈ rows, row.origin = .engine ∧ row.mutedScopes = [])
    (hflagged : ∀ row ∈ rows, ∀ c ∈ forest.soleColumns, row.IsFlagged c)
    (hleft : settleUnmatched forest rows ≠ []) :
    SameButMuted forest forest.soleColumns rows (settleUnmatched forest rows) where
  kept := forall₂_settleUnmatched (fun _ hunit => h.columns_eq_soleColumns hunit) rows
  flagged := hflagged
  settledFlagged := by
    intro row hrow c hc
    obtain ⟨before, hbefore, hsettled⟩ := exists_isSettledOf rows row hrow
    exact (Row.isFlagged_congr (congrFun (Row.get?_of_cells hsettled.mutes.cells) c)).mpr
      (hflagged before hbefore c hc)
  nonempty := by
    obtain ⟨row, hrow⟩ := List.exists_mem_of_ne_nil _ hleft
    by_cases hnil : forest.soleColumns = []
    · exact ⟨row, hrow, by rw [isKept, hnil]; rfl⟩
    · obtain ⟨c, hc⟩ := List.exists_mem_of_ne_nil _ hnil
      obtain ⟨unit, hunit, hcolumns, houtside⟩ := exists_unit_of_mem_soleColumns hc
      obtain ⟨other, hother, -, hmatched, -⟩ :=
        h.exists_matched_of_mem_settleUnmatched hrows hunit houtside row hrow
      refine ⟨other, hother, ?_⟩
      rwa [← hcolumns, isKept_columns (columns_ne_nil_of_mem_filterUnits hunit)]

/-- Rows leave the same whether those that miss filters are settled or not, if any is left. -/
theorem IsLaidOut.foldRows_run (h : forest.IsLaidOut) (hmarked : forest.IsMarked)
    (hrows : ∀ row ∈ rows, row.origin = .engine ∧ row.mutedScopes = [])
    (hflagged : ∀ row ∈ rows, ∀ c ∈ forest.soleColumns, row.IsFlagged c)
    (hcolumns : ∀ target, gapTarget? forest = some target →
      ∀ c ∈ forest.soleColumns, c ≠ target.column ∧ c ≠ context.countColumn)
    (hleft : RowPass.runOf [.sorting, .unmatched] forest context rows ≠ []) (root : Level) :
    forest.foldRows context.countColumn root (RowPass.run forest context rows) =
      forest.foldRows context.countColumn root
        (RowPass.runOf [.sorting, .concurrent, .gapFill, .blanking] forest context rows) := by
  rw [RowPass.runOf_eq] at hleft
  rw [RowPass.run_eq, RowPass.runOf_eq]
  have hperm := RowPass.sorting_perm forest context rows
  have hsame := h.sameButMuted_settleUnmatched
    (fun row hrow => hrows row (hperm.mem_iff.mp hrow))
    (fun row hrow => hflagged row (hperm.mem_iff.mp hrow)) hleft
  exact h.foldRows_of_sameButMuted hmarked (hsame.splitConcurrent.fillGaps
    (fun target htarget => ⟨h.leadsWith_soleColumns htarget, hcolumns target htarget⟩)
    context.maxGapBuckets) context.countColumn root

end

end Forest

namespace TablePlan

variable {now : Calendar.Instant} {json : Json} {forest : Forest} {tables : List Table}
  {settings : Settings} {plan : TablePlan}

/-- The column of a filter is not that of the count. -/
theorem ne_countColumn_of_mem_columns (hforest : Forest.ofJson now json = .ok forest)
    (hplan : plan ∈ forTables forest tables settings) (hskipped : plan.isSkipped = false)
    {unit : FilterUnit} (hunit : unit ∈ filterUnits plan.forest) {c : String}
    (hc : c ∈ unit.columns) : c ≠ plan.countColumn := by
  obtain ⟨x, hx, hactive, hcolumn, l, hl⟩ := exists_node_of_mem_columns hunit hc
  obtain ⟨record, -, hfree, hrecorded⟩ :=
    exists_record_of_mem_forTables (isUnnamed_of_ofJson hforest) hplan hskipped
  obtain ⟨e, column, -, hsame, hentry⟩ := hrecorded x hx hactive (by rw [hl]; rfl)
  obtain rfl := Option.some.inj (hcolumn.symm.trans hsame)
  exact (hfree _ hentry).uncounted

/-- Settling the rows that miss filters loses nothing. As long as it leaves a row, the rows give the
same response with it and without; and in every group that it checks for an aggregation outside of
which nothing is read, it leaves a row that is no placeholder of that aggregation. -/
theorem foldRows_run_eq (hforest : Forest.ofJson now json = .ok forest)
    (hkeys : json.hasDistinctKeys = true) (hplan : plan ∈ forTables forest tables settings)
    (hskipped : plan.isSkipped = false) {results : List Fields}
    (hflagged : ∀ cells ∈ results, ∀ unit ∈ filterUnits plan.forest, ∀ c ∈ unit.columns,
      (Row.ofCells cells .engine).IsFlagged c) :
    let context := plan.rowContext settings
    let rows := results.map fun cells => Row.ofCells cells .engine
    let left := RowPass.runOf [.sorting, .unmatched] plan.forest context rows
    (left ≠ [] → ∀ root,
      plan.forest.foldRows plan.countColumn root (RowPass.run plan.forest context rows) =
        plan.forest.foldRows plan.countColumn root
          (RowPass.runOf [.sorting, .concurrent, .gapFill, .blanking] plan.forest context
            rows)) ∧
      ∀ unit ∈ filterUnits plan.forest,
        isReadOutside plan.forest (plan.forest.anchor unit.first) = false →
        ∀ row ∈ left, ∃ other ∈ left,
          other.groupKey (plan.forest.groupColumnsBefore unit.first) =
              row.groupKey (plan.forest.groupColumnsBefore unit.first) ∧
            unit.isMatchedBy other = true ∧ plan.forest.anchor unit.first ∉ other.mutedScopes ∧
            (other.origin = .placeholder → ∃ inner ∈ filterUnits plan.forest,
              plan.forest.isBelow inner.first (plan.forest.anchor unit.first) = true ∧
                inner.isMatchedBy other = false) := by
  intro context rows left
  obtain ⟨hlaid, hmarked⟩ := isLaidOut_of_mem_forTables hforest hkeys hplan hskipped
  have hrows : ∀ row ∈ rows, row.origin = .engine ∧ row.mutedScopes = [] := by
    intro row hrow
    obtain ⟨cells, -, rfl⟩ := List.mem_map.mp hrow
    exact ⟨rfl, rfl⟩
  have hunits {c : String} (hc : c ∈ plan.forest.soleColumns) :
      ∃ unit ∈ filterUnits plan.forest, c ∈ unit.columns := by
    obtain ⟨unit, hunit, hcolumns, -⟩ := Forest.exists_unit_of_mem_soleColumns hc
    exact ⟨unit, hunit, hcolumns ▸ hc⟩
  constructor
  · intro hleft root
    refine hlaid.foldRows_run hmarked hrows ?_ ?_ hleft root
    · intro row hrow c hc
      obtain ⟨cells, hcells, rfl⟩ := List.mem_map.mp hrow
      obtain ⟨unit, hunit, hmem⟩ := hunits hc
      exact hflagged cells hcells unit hunit c hmem
    · intro target htarget c hc
      obtain ⟨unit, hunit, hmem⟩ := hunits hc
      exact ⟨ne_target_of_mem_columns hforest hplan hskipped htarget hunit hmem,
        ne_countColumn_of_mem_columns hforest hplan hskipped hunit hmem⟩
  · intro unit hunit houtside
    have hperm := RowPass.sorting_perm plan.forest context rows
    have hleft : left = settleUnmatched plan.forest
        (RowPass.sorting.effect plan.forest context rows) := RowPass.runOf_eq _ _ _ _
    rw [hleft]
    exact hlaid.exists_matched_of_mem_settleUnmatched
      (fun row hrow => hrows row (hperm.mem_iff.mp hrow)) hunit houtside

/-- The request, under a query, for the hosts of what one filter of a list lets through. -/
def listedRequest : Json :=
  .object [("query", flagFilter "y"), ("aggs", .object [("slow", .object [
    ("filters", .object [("filters", .array [flagFilter "s"])]),
    ("aggs", .object [("hosts", .object [("terms", .object [("field", .string "x")])])])])])]

def listedForest : Forest :=
  let large : Atom := .equals "y" (.number (.integer 1))
  [Node.new "query" none 0 false (.query ⟨some ⟨.atom large, [large]⟩, true⟩),
    Node.new "slow" none 0 true (Aggregation.legOf default .anonymous 0 ["0"] (flagFilter "s")),
    Node.new "hosts" (some 1) 1 false (.terms ⟨"x", 10, 1, Terms.defaultOrder⟩)]

def listedPlan : TablePlan := ofForest listedForest slowTable false ["s", "x", "y"] .standard

/-- A slow request of one host, or one that is not slow, between two that are not. -/
def listedRows (isSlow : Int) : List Fields :=
  [slowRow 0 "a" (.ofInt 1), slowRow isSlow "b" (.ofInt 1), slowRow 0 "b" (.ofInt 1)]

/-- The request that is not slow and comes last is dropped, and the response stays as it is. -/
theorem listedPlan_foldRows_run :
    let context := listedPlan.rowContext .standard
    let rows := (listedRows 1).map fun cells => Row.ofCells cells .engine
    let left := RowPass.runOf [.sorting, .unmatched] listedPlan.forest context rows
    left.map Row.origin = [.placeholder, .engine] ∧
      listedPlan.forest.foldRows "cnt" [] (RowPass.run listedPlan.forest context rows) =
        listedPlan.forest.foldRows "cnt" []
          (RowPass.runOf [.sorting, .concurrent, .gapFill, .blanking] listedPlan.forest context
            rows) ∧
      filterUnits listedPlan.forest = [⟨1, ["al1"]⟩] ∧
      ∀ row ∈ left, ∃ other ∈ left, (FilterUnit.mk 1 ["al1"]).isMatchedBy other = true := by
  have hforest : Forest.ofJson default listedRequest = .ok listedForest := rfl
  have hplan : listedPlan ∈ forTables listedForest [slowTable] .standard :=
    List.mem_singleton.mpr rfl
  have hunits : filterUnits listedPlan.forest = [⟨1, ["al1"]⟩] := by decide +kernel
  have hflagged : ∀ cells ∈ listedRows 1, ∀ unit ∈ filterUnits listedPlan.forest,
      ∀ c ∈ unit.columns, (Row.ofCells cells .engine).IsFlagged c := by decide +kernel
  obtain ⟨hsame, hmatched⟩ := foldRows_run_eq hforest (by decide +kernel) hplan rfl hflagged
  refine ⟨by decide +kernel, hsame (by decide +kernel) [], hunits, fun row hrow => ?_⟩
  obtain ⟨other, hother, -, hmatch, -⟩ := hmatched ⟨1, ["al1"]⟩ (by rw [hunits]; simp)
    (by decide +kernel) row hrow
  exact ⟨other, hother, hmatch⟩

/-- Where no row is left, the list of filters is not shown either. -/
example :
    let context := listedPlan.rowContext .standard
    let rows := (listedRows 0).map fun cells => Row.ofCells cells .engine
    let response := listedPlan.forest.foldRows "cnt" []
    (response (RowPass.run listedPlan.forest context rows)).map Prod.fst = [] ∧
      (response (RowPass.runOf [.sorting, .concurrent, .gapFill, .blanking] listedPlan.forest
        context rows)).map Prod.fst = ["slow"] := by
  decide +kernel

/-- The request, under a query, for what one filter of a list lets through and for what another
filter lets through of that. -/
def innerRequest : Json :=
  .object [("query", flagFilter "y"), ("aggs", .object [("slow", .object [
    ("filters", .object [("filters", .array [flagFilter "s"])]),
    ("aggs", .object [("large", .object [("filter", flagFilter "x")])])])])]

def innerForest : Forest :=
  let large : Atom := .equals "y" (.number (.integer 1))
  [Node.new "query" none 0 false (.query ⟨some ⟨.atom large, [large]⟩, true⟩),
    Node.new "slow" none 0 true (Aggregation.legOf default .anonymous 0 ["0"] (flagFilter "s")),
    Node.new "large" (some 1) 1 false
      (Aggregation.legOf default .single 0 ["large"] (flagFilter "x"))]

def innerPlan : TablePlan := ofForest innerForest slowTable false ["s", "x", "y"] .standard

/-- Requests that match the filter outside and miss the one inside. -/
def innerRow : Row := Row.ofCells [("al1", .ofInt 1), ("al2", .ofInt 0), ("cnt", .ofInt 3)] .engine

/-- The filter outside is checked and nothing is read outside of it, and a row that matches it is
left alone in its group, as a placeholder of the filter inside. -/
theorem innerPlan_leaves_placeholder :
    Forest.ofJson default innerRequest = .ok innerForest ∧
      innerPlan ∈ forTables innerForest [slowTable] .standard ∧ innerPlan.isSkipped = false ∧
      (∀ unit ∈ filterUnits innerPlan.forest, ∀ c ∈ unit.columns, innerRow.IsFlagged c) ∧
      ⟨1, ["al1"]⟩ ∈ filterUnits innerPlan.forest ∧
      isReadOutside innerPlan.forest (innerPlan.forest.anchor 1) = false ∧
      (RowPass.runOf [.sorting, .unmatched] innerPlan.forest (innerPlan.rowContext .standard)
        [innerRow]).map (fun row => (row.flag "al1", row.origin, row.mutedScopes)) =
          [(true, .placeholder, [2])] :=
  ⟨rfl, List.mem_singleton.mpr rfl, rfl, by decide +kernel, by decide +kernel, by decide +kernel,
    by decide +kernel⟩

end TablePlan

end Rollup
