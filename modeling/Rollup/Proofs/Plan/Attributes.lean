/-
# What a table lacks

The check of attributes goes over the nodes once and leaves nodes out on its way. What it finds
does not depend on that: a node is lost if the table lacks an attribute of its own and it does not
group by values, or if everything in an aggregation above it is lost. The table is left out if it
has nothing that is asked for, or cannot group by values for a node outside every lost
aggregation. Otherwise the lost nodes are left out and nothing else, and the metrics among them
that lack an attribute of their own are shown without a value.
-/

import Rollup.Proofs.Plan.Disabling

namespace Rollup

/-- Grouping and metrics need attributes that can be aggregated, ranges and filters attributes that
the table has. -/
def Node.IsUsable (table : Table) (n : Node) : Prop :=
  ∀ field ∈ n.aggregation.attributes,
    (if n.aggregation.isValueGroup || n.isMetric then table.isAggregatable field
      else table.has field) = true

namespace Plan

theorem unusable?_eq_none {table : Table} {n : Node} :
    unusable? table n = none ↔ n.IsUsable table := by
  unfold unusable? Node.IsUsable
  simp only [List.find?_eq_none, Bool.not_eq_true', Bool.not_eq_false]

/-- A node that cannot be answered, and does not group by values, is left out and the check goes
on. -/
theorem checkNode_of_lacking {table : Table} {forest : Forest} {index : Nat} {n : Node}
    (hn : forest[index]? = some n) (hquery : n.isQuery = false) (hactive : n.isActive = true)
    (hgroup : n.aggregation.isValueGroup = false) (hlacking : ¬ n.IsUsable table) :
    checkNode table forest index = ((forest.disable index).decideAt index fun d =>
      { d with blanked := n.isMetric }, .goOn) := by
  rw [checkNode, hn]
  cases hfield : unusable? table n with
  | none => exact absurd (unusable?_eq_none.mp hfield) hlacking
  | some field => simp [hquery, hactive, hgroup, hfield]

end Plan

namespace Node

variable {table : Table} {before after : Node}

theorem isUsable_of_isQuery (h : before.isQuery = true) : before.IsUsable table := by
  unfold isQuery at h
  intro field hfield
  cases hkind : before.aggregation with
  | query q => simp [hkind, Aggregation.attributes] at hfield
  | _ => simp [hkind, Aggregation.isQuery, Aggregation.query?] at h

theorem isUsable_congr (h : after.bare = before.bare) :
    after.IsUsable table ↔ before.IsUsable table := by
  rw [IsUsable, IsUsable, isMetric, isMetric, aggregation_of_bare_eq h]

theorem IsRevision.isUsable_iff (h : before.IsRevision after) :
    after.IsUsable table ↔ before.IsUsable table :=
  isUsable_congr h.bare

end Node

namespace Forest

/-- The nodes that are not there for a table, seen from the request alone. A node that groups by
values is lost only with an aggregation above it. -/
inductive IsLost (table : Table) (forest : Forest) : Nat → Prop
  | own {i : Nat} {x : Node} (hx : forest[i]? = some x)
      (hgroup : x.aggregation.isValueGroup = false) (hlacking : ¬ x.IsUsable table) :
      IsLost table forest i
  | inside {i a : Nat} (ha : a ∈ forest.ancestors i)
      (hlost : ∀ m z, forest[m]? = some z → z.isQuery = false → forest.anchor m = a →
        IsLost table forest m) :
      IsLost table forest i

/-- Whether the aggregations of a forest ask for attributes and the table has none of them. -/
def LacksAll (table : Table) (forest : Forest) : Prop :=
  (∃ n ∈ forest, n.isQuery = false ∧ n.aggregation.attributes ≠ []) ∧
    ∀ n ∈ forest, n.isQuery = false → ∀ field ∈ n.aggregation.attributes, table.has field = false

theorem attributes_of_isQuery {n : Node} (h : n.isQuery = true) :
    n.aggregation.attributes = [] := by
  unfold Node.isQuery at h
  cases hkind : n.aggregation with
  | query q => rfl
  | _ => simp [hkind, Aggregation.isQuery, Aggregation.query?] at h

variable {table : Table} {forest : Forest}

theorem lacksAll_iff : forest.LacksAll table ↔
    forest.attributes ≠ [] ∧ ∀ field ∈ forest.attributes, table.has field = false := by
  have hmem (field : String) : field ∈ forest.attributes ↔
      ∃ n ∈ forest, n.isQuery = false ∧ field ∈ n.aggregation.attributes := by
    unfold attributes
    rw [List.mem_eraseDups, List.mem_flatMap]
    constructor
    · rintro ⟨n, hn, hfield⟩
      refine ⟨n, hn, ?_, hfield⟩
      by_contra hquery
      rw [attributes_of_isQuery (by simpa using hquery)] at hfield
      cases hfield
    · rintro ⟨n, hn, -, hfield⟩
      exact ⟨n, hn, hfield⟩
  constructor
  · rintro ⟨⟨n, hn, hquery, hsome⟩, hnone⟩
    obtain ⟨field, hfield⟩ := List.exists_mem_of_ne_nil _ hsome
    refine ⟨List.ne_nil_of_mem ((hmem field).mpr ⟨n, hn, hquery, hfield⟩), fun other hother => ?_⟩
    obtain ⟨m, hm, hmquery, hmfield⟩ := (hmem other).mp hother
    exact hnone m hm hmquery other hmfield
  · rintro ⟨hsome, hnone⟩
    obtain ⟨field, hfield⟩ := List.exists_mem_of_ne_nil _ hsome
    obtain ⟨n, hn, hquery, hat⟩ := (hmem field).mp hfield
    refine ⟨⟨n, hn, hquery, List.ne_nil_of_mem hat⟩, fun m hm hmquery other hother => ?_⟩
    exact hnone other ((hmem other).mpr ⟨m, hm, hmquery, hother⟩)

/-! ## One node after the other -/

/-- Leaving out a node and deciding whether it is blanked decides nothing else. -/
theorem node_of_disable_blank {after : Forest} {index j : Nat} {x y : Node}
    (hx : after[index]? = some x) (hquery : x.isQuery = false) (blanked : Bool)
    (hy : ((after.disable index).decideAt index fun d => { d with blanked := blanked })[j]? =
      some y) :
    ∃ z, after[j]? = some z ∧ y.bare = z.bare ∧ y.decisions = { z.decisions with
      disabled := y.decisions.disabled
      blanked := if j = index then blanked else z.decisions.blanked } := by
  rw [getElem?_decideAt] at hy
  obtain ⟨w, hw, hyw⟩ := Option.map_eq_some_iff.mp hy
  obtain ⟨z, hz, -⟩ := (isRevision_disable after index fun y hy =>
    Option.some.inj (hx.symm.trans hy) ▸ hquery).node hw
  obtain ⟨w', hw', out, hkept⟩ := keepsNodes_disable after index j z hz
  obtain rfl := Option.some.inj (hw.symm.trans hw')
  refine ⟨z, hz, ?_⟩
  subst hkept hyw
  by_cases hj : index = j
  · simp [hj, Node.decide, Node.bare]
  · simp [hj, Ne.symm hj, Node.decide, Node.bare]

/-- What is shown of a forest of which the nodes before an index are checked. -/
structure IsCheckedTo (table : Table) (before : Forest) (index : Nat) (after : Forest) : Prop where
  revision : before.IsRevision after
  isOut : ∀ j, after.IsOut j ↔
    (j < index ∧ ∃ x, before[j]? = some x ∧ ¬ x.IsUsable table) ∨ before.IsOrphaned after.IsOut j
  valueGroup : ∀ (j : Nat) (x : Node), j < index → before[j]? = some x →
    x.aggregation.isValueGroup = true → ¬ x.IsUsable table → before.IsOrphaned after.IsOut j
  decisions : ∀ (j : Nat) (y : Node), after[j]? = some y →
    y.decisions = { disabled := y.decisions.disabled, blanked := y.decisions.blanked }
  blanked : ∀ (j : Nat) (y : Node), after[j]? = some y → (y.decisions.blanked = true ↔
    j < index ∧ y.isMetric = true ∧ ¬ y.IsUsable table ∧ ¬ before.IsOrphaned after.IsOut j)

namespace IsCheckedTo

variable {index : Nat} {after : Forest}

theorem isOut_of_isOrphaned (h : IsCheckedTo table forest index after) (j : Nat)
    (horphaned : forest.IsOrphaned after.IsOut j) : after.IsOut j :=
  (h.isOut j).mpr (Or.inr horphaned)

/-- Up to the index the nodes left out are those that are lost. -/
theorem isLost_iff (h : IsCheckedTo table forest index after) (hlaid : forest.IsLaidOut) {j : Nat}
    (hj : j < index) : forest.IsLost table j ↔ after.IsOut j := by
  induction j using Nat.strongRecOn with
  | ind j ih =>
      have hbefore (m : Nat) (hm : m < j) : forest.IsLost table m ↔ after.IsOut m :=
        ih m hm (by omega)
      constructor
      · intro hlost
        cases hlost with
        | own hx _ hlacking => exact (h.isOut j).mpr (Or.inl ⟨hj, _, hx, hlacking⟩)
        | inside ha hlost =>
            apply h.isOut_of_isOrphaned
            rw [← hlaid.isCutOff_iff h.isOut_of_isOrphaned, ← hlaid.isCutOff_congr hbefore]
            exact ⟨_, ha, hlost⟩
      · intro hout
        have horphan : forest.IsOrphaned after.IsOut j → forest.IsLost table j := by
          intro horphaned
          obtain ⟨a, ha, hlost⟩ : forest.IsCutOff (forest.IsLost table) j :=
            (hlaid.isCutOff_iff_or _ j).mpr
              (Or.inl ((hlaid.isOrphaned_congr hbefore).mpr horphaned))
          exact .inside ha hlost
        rcases (h.isOut j).mp hout with ⟨-, x, hx, hlacking⟩ | horphaned
        · cases hgroup : x.aggregation.isValueGroup with
          | false => exact .own hx hgroup hlacking
          | true => exact horphan (h.valueGroup j x hj hx hgroup hlacking)
        · exact horphan horphaned

theorem isCutOff_iff (h : IsCheckedTo table forest index after) (hlaid : forest.IsLaidOut) {j : Nat}
    (hj : j ≤ index) :
    forest.IsCutOff (forest.IsLost table) j ↔ forest.IsOrphaned after.IsOut j := by
  rw [hlaid.isCutOff_congr fun m hm => h.isLost_iff hlaid (Nat.lt_of_lt_of_le hm hj),
    hlaid.isCutOff_iff h.isOut_of_isOrphaned]

/-- A node that can be answered, or is out already, is left as it is. -/
theorem succ_of_kept (h : IsCheckedTo table forest index after)
    (hkept : ∀ x, forest[index]? = some x → x.IsUsable table ∨ after.IsOut index) :
    IsCheckedTo table forest (index + 1) after := by
  have horphaned {x : Node} (hx : forest[index]? = some x) (hlacking : ¬ x.IsUsable table) :
      forest.IsOrphaned after.IsOut index := by
    rcases hkept x hx with husable | hout
    · exact absurd husable hlacking
    · exact ((h.isOut index).mp hout).resolve_left fun hself => by omega
  exact
    { revision := h.revision
      isOut := by
        intro j
        rw [h.isOut]
        constructor
        · rintro (⟨hj, hown⟩ | horphan)
          · exact Or.inl ⟨by omega, hown⟩
          · exact Or.inr horphan
        · rintro (⟨hj, x, hx, hlacking⟩ | horphan)
          · rcases Nat.eq_or_lt_of_le (Nat.le_of_lt_succ hj) with rfl | hlt
            · exact Or.inr (horphaned hx hlacking)
            · exact Or.inl ⟨hlt, x, hx, hlacking⟩
          · exact Or.inr horphan
      valueGroup := by
        intro j x hj hx hgroup hlacking
        rcases Nat.eq_or_lt_of_le (Nat.le_of_lt_succ hj) with rfl | hlt
        · exact horphaned hx hlacking
        · exact h.valueGroup j x hlt hx hgroup hlacking
      decisions := h.decisions
      blanked := by
        intro j y hy
        rw [h.blanked j y hy]
        constructor
        · rintro ⟨hj, hrest⟩
          exact ⟨by omega, hrest⟩
        · rintro ⟨hj, hmetric, hlacking, hnot⟩
          rcases Nat.eq_or_lt_of_le (Nat.le_of_lt_succ hj) with rfl | hlt
          · obtain ⟨x, hx, hxr⟩ := h.revision.node hy
            exact absurd (horphaned hx (mt hxr.isUsable_iff.mpr hlacking)) hnot
          · exact ⟨hlt, hmetric, hlacking, hnot⟩ }

/-- Leaving out a node orphans none at it or before it. -/
theorem isOrphaned_disable_iff (h : IsCheckedTo table forest index after)
    (hheaded : forest.IsHeaded) {x : Node} (hx : after[index]? = some x) {j : Nat} (hj : j ≤ index) :
    forest.IsOrphaned (after.disable index).IsOut j ↔ forest.IsOrphaned after.IsOut j :=
  hheaded.laidOut.isOrphaned_congr fun _ hm =>
    (h.revision.isHeaded hheaded).isOut_disable_of_lt hx (Nat.lt_of_lt_of_le hm hj)

/-- A node that cannot be answered is left out with all that is orphaned by it. -/
theorem succ_of_lacking (h : IsCheckedTo table forest index after) (hheaded : forest.IsHeaded)
    {x : Node} (hx : after[index]? = some x) (hquery : x.isQuery = false)
    (hgroup : x.aggregation.isValueGroup = false) (hlacking : ¬ x.IsUsable table)
    (hactive : x.isActive = true) :
    IsCheckedTo table forest (index + 1)
      ((after.disable index).decideAt index fun d => { d with blanked := x.isMetric }) := by
  have hrevision := Plan.isRevision_checkNode table after index
  rw [Plan.checkNode_of_lacking hx hquery hactive hgroup hlacking] at hrevision
  obtain ⟨x', hx', hxr⟩ := h.revision.node hx
  have hafter := h.revision.isHeaded hheaded
  have hin : ¬ after.IsOut index := by simp [isOut_iff hx, hactive]
  have hclosed (j : Nat) (horphaned : after.IsOrphaned after.IsOut j) : after.IsOut j :=
    h.isOut_of_isOrphaned j ((h.revision.isOrphaned_iff _ j).mp horphaned)
  have hout := hafter.isOut_disable hx
  have hearlier {j : Nat} (hj : j ≤ index) := h.isOrphaned_disable_iff hheaded hx hj
  have hnext (j : Nat) := isOut_decideAt_same (after.disable index) index j
    (f := fun d => { d with blanked := x.isMetric }) fun _ => rfl
  have hfinal {j : Nat} {y : Node} := node_of_disable_blank (j := j) (y := y) hx hquery x.isMetric
  generalize (after.disable index).decideAt index _ = final at hrevision hnext hfinal ⊢
  have hcongr (j : Nat) : forest.IsOrphaned final.IsOut j ↔
      forest.IsOrphaned (after.disable index).IsOut j :=
    hheaded.laidOut.isOrphaned_congr fun m _ => hnext m
  have hmono {j : Nat} (horphan : forest.IsOrphaned after.IsOut j) :
      forest.IsOrphaned final.IsOut j :=
    (hcongr j).mpr (horphan.mono fun m hm => (hout m).mpr (Or.inl hm))
  have hnot : ¬ forest.IsOrphaned final.IsOut index := fun horphan =>
    hin (h.isOut_of_isOrphaned index ((hearlier (Nat.le_refl _)).mp ((hcongr index).mp horphan)))
  exact
    { revision := h.revision.trans hrevision
      isOut := by
        intro j
        rw [hcongr, hnext]
        constructor
        · intro hj
          rcases (hout j).mp hj with hbefore | rfl | ⟨-, horphan⟩
          · rcases (h.isOut j).mp hbefore with ⟨hlt, hown⟩ | horphan
            · exact Or.inl ⟨by omega, hown⟩
            · exact Or.inr ((hcongr j).mp (hmono horphan))
          · exact Or.inl ⟨by omega, x', hx', mt hxr.isUsable_iff.mpr hlacking⟩
          · exact Or.inr ((h.revision.isOrphaned_iff _ j).mp horphan)
        · rintro (⟨hj, hown⟩ | horphan)
          · rw [hout]
            rcases Nat.eq_or_lt_of_le (Nat.le_of_lt_succ hj) with rfl | hlt
            · exact Or.inr (Or.inl rfl)
            · exact Or.inl ((h.isOut j).mpr (Or.inl ⟨hlt, hown⟩))
          · exact hafter.isOut_of_isOrphaned_disable hclosed hx
              ((h.revision.isOrphaned_iff _ j).mpr horphan)
      valueGroup := by
        intro j z hj hz hzgroup hzlacking
        rcases Nat.eq_or_lt_of_le (Nat.le_of_lt_succ hj) with rfl | hlt
        · obtain rfl := Option.some.inj (hx'.symm.trans hz)
          rw [← hxr.aggregation, hgroup] at hzgroup
          cases hzgroup
        · exact hmono (h.valueGroup j z hlt hz hzgroup hzlacking)
      decisions := by
        intro j y hy
        obtain ⟨z, hz, -, hdecisions⟩ := hfinal hy
        rw [hdecisions, h.decisions j z hz]
      blanked := by
        intro j y hy
        obtain ⟨z, hz, hbare, hdecisions⟩ := hfinal hy
        have hmetric : y.isMetric = z.isMetric :=
          congrArg Aggregation.isMetric (Node.aggregation_of_bare_eq hbare)
        rw [hdecisions, hmetric, Node.isUsable_congr hbare]
        dsimp only
        by_cases hj : j = index
        · subst hj
          obtain rfl := Option.some.inj (hx.symm.trans hz)
          simp [hlacking, hnot]
        · rw [if_neg hj, h.blanked j z hz]
          constructor
          · rintro ⟨hlt, hrest, hzlacking, hzin⟩
            refine ⟨by omega, hrest, hzlacking, fun horphan => hzin ?_⟩
            exact (hearlier (Nat.le_of_lt hlt)).mp ((hcongr j).mp horphan)
          · rintro ⟨hlt, hrest, hzlacking, hzin⟩
            exact ⟨by omega, hrest, hzlacking, fun horphan => hzin (hmono horphan)⟩ }

end IsCheckedTo

/-- Nothing is checked yet of a forest about which nothing is decided. -/
theorem isCheckedTo_zero (hlaid : forest.IsLaidOut)
    (hfresh : ∀ n ∈ forest, n.decisions = {}) : IsCheckedTo table forest 0 forest := by
  have hactive (j : Nat) : ¬ forest.IsOut j := by
    rintro ⟨x, hx, hinactive⟩
    rw [Node.isActive, hfresh x (List.mem_of_getElem? hx)] at hinactive
    cases hinactive
  have hnone (j : Nat) : ¬ forest.IsOrphaned forest.IsOut j := by
    rintro ⟨p, hp, hemptied⟩
    obtain ⟨y, hy, hparent⟩ := parent?_eq_some.mp hp
    obtain ⟨x, hx, hquery, hself, -⟩ := hlaid.parent_spec hy hparent
    exact hactive p (hemptied p x hx hquery hself)
  exact
    { revision := .refl forest
      isOut := fun j => by simp [hactive, hnone]
      valueGroup := fun j x hj => by omega
      decisions := fun j y hy => by rw [hfresh y (List.mem_of_getElem? hy)]
      blanked := fun j y hy => by simp [hfresh y (List.mem_of_getElem? hy)] }

/-- What is shown of a forest after the check, if the table is not left out. -/
structure IsChecked (table : Table) (before after : Forest) : Prop where
  bare : after.bare = before.bare
  /-- Nothing else is decided. -/
  decisions : ∀ y ∈ after, y.decisions =
    { disabled := y.decisions.disabled, blanked := y.decisions.blanked }
  usable : ∀ y ∈ after, y.isQuery = false → y.isActive = true → y.IsUsable table
  disabled : ∀ (i : Nat) (y : Node), after[i]? = some y →
    (y.isActive = false ↔ ¬ y.IsUsable table ∨ after.IsCutOff after.IsOut i)
  blanked : ∀ (i : Nat) (y : Node), after[i]? = some y → (y.decisions.blanked = true ↔
    y.isMetric = true ∧ ¬ y.IsUsable table ∧ ¬ after.IsCutOff after.IsOut i)
  lost : ∀ (i : Nat) (y : Node), after[i]? = some y →
    (y.isActive = false ↔ before.IsLost table i)

theorem IsCheckedTo.isChecked {after : Forest}
    (h : IsCheckedTo table forest forest.length after) (hlaid : forest.IsLaidOut) :
    IsChecked table forest after := by
  have hlt {i : Nat} {y : Node} (hy : after[i]? = some y) : i < forest.length :=
    h.revision.length_eq ▸ (List.getElem?_eq_some_iff.mp hy).1
  have hcut (i : Nat) : after.IsCutOff after.IsOut i ↔ forest.IsOrphaned after.IsOut i := by
    rw [h.revision.isCutOff_iff, hlaid.isCutOff_iff h.isOut_of_isOrphaned]
  have hlacking {i : Nat} {y : Node} (hy : after[i]? = some y) :
      ¬ y.IsUsable table ↔ i < forest.length ∧ ∃ x, forest[i]? = some x ∧ ¬ x.IsUsable table := by
    obtain ⟨x, hx, hxr⟩ := h.revision.node hy
    rw [hxr.isUsable_iff, hx]
    simp [hlt hy]
  exact
    { bare := h.revision.bare_eq
      decisions := by
        intro y hy
        obtain ⟨i, hi⟩ := List.getElem?_of_mem hy
        exact h.decisions i y hi
      usable := by
        intro y hy _ hactive
        obtain ⟨i, hi⟩ := List.getElem?_of_mem hy
        by_contra husable
        have hout := (h.isOut i).mpr (Or.inl ((hlacking hi).mp husable))
        rw [isOut_iff hi, hactive] at hout
        cases hout
      disabled := fun i y hy => by rw [← isOut_iff hy, h.isOut, hlacking hy, hcut]
      blanked := fun i y hy => by rw [h.blanked i y hy, hcut]; simp [hlt hy]
      lost := fun i y hy => by rw [← isOut_iff hy, h.isLost_iff hlaid (hlt hy)] }

/-- A node that cannot be answered, groups by values and is not lost with an aggregation above
it. -/
def IsMissedGroup (table : Table) (forest : Forest) (i : Nat) : Prop :=
  ∃ x, forest[i]? = some x ∧ x.aggregation.isValueGroup = true ∧ ¬ x.IsUsable table ∧
    ¬ forest.IsCutOff (forest.IsLost table) i

end Forest

namespace Plan

variable {table : Table} {forest : Forest}

open Forest

/-- The next node is checked, or the table is left out for it. -/
theorem checkNode_spec (hheaded : forest.IsHeaded) {index : Nat} {after : Forest}
    (h : IsCheckedTo table forest index after) :
    ((checkNode table after index).2 = .goOn ∧
        IsCheckedTo table forest (index + 1) (checkNode table after index).1) ∨
      ((∃ reason, (checkNode table after index).2 = .skip reason) ∧
        forest.IsMissedGroup table index) := by
  cases hx : after[index]? with
  | none =>
      refine Or.inl ?_
      rw [checkNode, hx]
      refine ⟨rfl, h.succ_of_kept fun x hx' => ?_⟩
      obtain ⟨y, hy, -⟩ := h.revision.node_after hx'
      rw [hx] at hy
      cases hy
  | some x =>
      obtain ⟨x', hx', hxr⟩ := h.revision.node hx
      have hkeep (hkept : x.IsUsable table ∨ after.IsOut index) :
          IsCheckedTo table forest (index + 1) after := by
        refine h.succ_of_kept fun y hy => ?_
        obtain rfl := Option.some.inj (hx'.symm.trans hy)
        exact hkept.imp_left hxr.isUsable_iff.mp
      by_cases hskipped : (x.isQuery || !x.isActive) = true
      · refine Or.inl ?_
        rw [checkNode, hx]
        simp only [hskipped, if_true]
        refine ⟨trivial, hkeep ?_⟩
        rcases (Bool.or_eq_true _ _).mp hskipped with hquery | hinactive
        · exact Or.inl (Node.isUsable_of_isQuery hquery)
        · exact Or.inr ⟨x, hx, by simpa using hinactive⟩
      · cases hfield : unusable? table x with
        | none =>
            refine Or.inl ?_
            rw [checkNode, hx]
            simp only [hskipped, hfield]
            exact ⟨rfl, hkeep (Or.inl (unusable?_eq_none.mp hfield))⟩
        | some field =>
            have hlacking : ¬ x.IsUsable table := by
              rw [← unusable?_eq_none, hfield]
              exact Option.some_ne_none field
            obtain ⟨hquery, hactive⟩ : x.isQuery = false ∧ x.isActive = true := by
              simpa using hskipped
            cases hgroup : x.aggregation.isValueGroup with
            | false =>
                rw [checkNode_of_lacking hx hquery hactive hgroup hlacking]
                exact Or.inl ⟨rfl, h.succ_of_lacking hheaded hx hquery hgroup hlacking hactive⟩
            | true =>
                refine Or.inr ⟨?_, x', hx', hxr.aggregation ▸ hgroup,
                  mt hxr.isUsable_iff.mpr hlacking, ?_⟩
                · rw [checkNode, hx]
                  simp [hskipped, hfield, hgroup]
                · rw [h.isCutOff_iff hheaded.laidOut (Nat.le_refl index)]
                  intro horphan
                  have hout := h.isOut_of_isOrphaned index horphan
                  rw [isOut_iff hx, hactive] at hout
                  cases hout

/-- All nodes are checked, or the table is left out for one of them. -/
theorem checkNodes_spec (hheaded : forest.IsHeaded) {index count : Nat} {after : Forest}
    (h : IsCheckedTo table forest index after) :
    ((checkNodes table (List.range' index count) after).2 = .goOn ∧
        IsCheckedTo table forest (index + count)
          (checkNodes table (List.range' index count) after).1) ∨
      ((∃ reason, (checkNodes table (List.range' index count) after).2 = .skip reason) ∧
        ∃ i, forest.IsMissedGroup table i) := by
  induction count generalizing index after with
  | zero => exact Or.inl ⟨rfl, h⟩
  | succ count ih =>
      rw [List.range'_succ, checkNodes]
      rcases checkNode_spec hheaded h with ⟨hgoOn, hnext⟩ | ⟨⟨reason, hskip⟩, hmissed⟩
      · cases hcheck : checkNode table after index with
        | mk next outcome =>
            rw [hcheck] at hgoOn hnext
            obtain rfl : outcome = .goOn := hgoOn
            have hrest := ih hnext
            rwa [show index + 1 + count = index + (count + 1) by omega] at hrest
      · cases hcheck : checkNode table after index with
        | mk next outcome =>
            rw [hcheck] at hskip
            obtain rfl : outcome = .skip reason := hskip
            exact Or.inr ⟨⟨reason, rfl⟩, index, hmissed⟩

/-- The check of attributes is exact: it leaves the table out just when the table has nothing that
the aggregations ask for or cannot group by values where it has to, and otherwise it leaves out
the nodes that are lost and blanks the metrics that cannot be computed. -/
theorem checkAttributes_exact {now : Calendar.Instant} {json : Json}
    (h : ofJson now json = .ok forest) (hkeys : json.hasDistinctKeys = true) (table : Table) :
    ((∃ reason, (checkAttributes table forest).2 = .skip reason) ↔
        forest.LacksAll table ∨ ∃ i, forest.IsMissedGroup table i) ∧
      ((checkAttributes table forest).2 = .goOn →
        IsChecked table forest (checkAttributes table forest).1) := by
  have hheaded := isHeaded_of_ofJson h hkeys
  have hlacks : (!forest.attributes.isEmpty && forest.attributes.all fun field =>
      !table.has field) = true ↔ forest.LacksAll table := by
    rw [lacksAll_iff]
    simp [List.all_eq_true]
  unfold checkAttributes
  dsimp only
  by_cases hall : forest.LacksAll table
  · rw [if_pos (hlacks.mpr hall)]
    exact ⟨⟨fun _ => Or.inl hall, fun _ => ⟨_, rfl⟩⟩, fun hgoOn => nomatch hgoOn⟩
  · rw [if_neg (mt hlacks.mp hall), List.range_eq_range']
    rcases checkNodes_spec hheaded (isCheckedTo_zero hheaded.laidOut (decisions_of_ofJson h))
      with ⟨hgoOn, hchecked⟩ | ⟨⟨reason, hskip⟩, hmissed⟩
    · rw [Nat.zero_add] at hchecked
      refine ⟨⟨?_, ?_⟩, fun _ => hchecked.isChecked hheaded.laidOut⟩
      · rintro ⟨reason, hskip⟩
        rw [hgoOn] at hskip
        cases hskip
      · rintro (hlacks | ⟨i, x, hx, hgroup, hlacking, hnot⟩)
        · exact absurd hlacks hall
        · have hlt := (List.getElem?_eq_some_iff.mp hx).1
          have horphan := hchecked.valueGroup i x hlt hx hgroup hlacking
          exact absurd ((hchecked.isCutOff_iff hheaded.laidOut (Nat.le_of_lt hlt)).mpr horphan) hnot
    · refine ⟨⟨fun _ => Or.inr hmissed, fun _ => ⟨reason, hskip⟩⟩, fun hgoOn => ?_⟩
      rw [hskip] at hgoOn
      cases hgoOn

/-! ## A table without a host -/

/-- The greatest size, and for the web hosts the documents of each. -/
def webRequest : Json :=
  .object [("aggs", .object [
    ("greatest", .object [("max", .object [("field", .string "size")])]),
    ("web", .object [("filter", .object [("term", .object [("host", .string "web")])]),
      ("aggs", .object [("hosts", .object [("terms", .object [("field", .string "host")])])])])])]

/-- A table that has sizes only as text. -/
def textTable : Table := ⟨"t", [("size", false)]⟩

/-- The filter is left out with the groups below it, for which alone the table would be left out. -/
theorem webRequest_checked_exactly :
    ∃ forest, ofJson default webRequest = .ok forest ∧ webRequest.hasDistinctKeys = true ∧
      (checkAttributes textTable forest).2 = .goOn ∧
      (checkAttributes textTable forest).1.map (fun n : Node =>
          (n.name, n.isActive, n.decisions.blanked)) =
        [("greatest", false, true), ("web", false, false), ("hosts", false, false)] ∧
      IsChecked textTable forest (checkAttributes textTable forest).1 ∧
      ¬ ∃ i, forest.IsMissedGroup textTable i := by
  have hkeys : webRequest.hasDistinctKeys = true := by decide +kernel
  have hchecked : (ofJson default webRequest).map (fun forest =>
      ((checkAttributes textTable forest).2, (checkAttributes textTable forest).1.map
        fun n : Node => (n.name, n.isActive, n.decisions.blanked))) =
      .ok (.goOn, [("greatest", false, true), ("web", false, false), ("hosts", false, false)]) :=
    rfl
  cases hforest : ofJson default webRequest with
  | error e =>
      rw [hforest] at hchecked
      cases hchecked
  | ok forest =>
      rw [hforest] at hchecked
      obtain ⟨hgoOn, hnodes⟩ := Prod.mk.inj (Except.ok.inj hchecked)
      obtain ⟨hskip, hgo⟩ := checkAttributes_exact hforest hkeys textTable
      refine ⟨forest, rfl, hkeys, hgoOn, hnodes, hgo hgoOn, fun hmissed => ?_⟩
      obtain ⟨reason, hreason⟩ := hskip.mpr (Or.inr hmissed)
      rw [hgoOn] at hreason
      cases hreason

end Plan
end Rollup
