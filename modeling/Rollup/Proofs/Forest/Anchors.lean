/-
# Anchors

The first node of an aggregation stands for all its nodes. In a forest that is laid out the anchor
of a node is that first node, so two nodes have one anchor just when they belong to one
aggregation, and a parent is an anchor with its aggregation before the node. What is decided about
nodes changes none of this.
-/

import Rollup.Proofs.Forest.Layout
import Rollup.Proofs.Plan.Revision

namespace Rollup

namespace Node

theorem isAkin_bare {first second : Node} :
    first.bare.IsAkin second.bare ↔ first.IsAkin second := Iff.rfl

theorem sharesLegs_bare {first second : Node} :
    first.bare.SharesLegs second.bare ↔ first.SharesLegs second := Iff.rfl

theorem IsRevision.sharesLegs {first second first' second' : Node} (h : first.IsRevision first')
    (h' : second.IsRevision second') : first'.SharesLegs second' ↔ first.SharesLegs second := by
  rw [← sharesLegs_bare, h.bare, h'.bare, sharesLegs_bare]

end Node

namespace Forest

variable {forest : Forest}

/-- The first node of the aggregation that has a name below a parent. -/
def first? (forest : Forest) (parent : Option Nat) (name : String) : Option Nat :=
  forest.findIdx? fun n => !n.isQuery && n.parent == parent && n.name == name

theorem first?_of_akin {x : Node} {a : Nat} (hx : forest[a]? = some x) (hquery : x.isQuery = false)
    (hfirst : ∀ m z, forest[m]? = some z → z.IsAkin x → a ≤ m) :
    forest.first? x.parent x.name = some a := by
  obtain ⟨hlt, hget⟩ := List.getElem?_eq_some_iff.mp hx
  rw [first?, List.findIdx?_eq_some_iff_getElem]
  refine ⟨hlt, by simp [hget, hquery], ?_⟩
  intro m hm hfound
  have hmlt : m < forest.length := by omega
  simp only [Bool.and_eq_true, Bool.not_eq_true', beq_iff_eq] at hfound
  have := hfirst m _ (List.getElem?_eq_getElem hmlt)
    ⟨hfound.1.1, hquery, hfound.2, hfound.1.2⟩
  omega

theorem first?_spec {parent : Option Nat} {name : String} {a : Nat}
    (h : forest.first? parent name = some a) :
    ∃ x, forest[a]? = some x ∧ x.isQuery = false ∧ x.parent = parent ∧ x.name = name := by
  rw [first?, List.findIdx?_eq_some_iff_getElem] at h
  obtain ⟨hlt, hfound, -⟩ := h
  simp only [Bool.and_eq_true, Bool.not_eq_true', beq_iff_eq] at hfound
  exact ⟨_, List.getElem?_eq_getElem hlt, hfound.1.1, hfound.1.2, hfound.2⟩

/-! ## The anchor of a node -/

/-- The anchor is the first of the nodes that belong to one aggregation. -/
theorem IsLaidOut.anchor_spec (h : forest.IsLaidOut) {j : Nat} {y : Node}
    (hy : forest[j]? = some y) (hquery : y.isQuery = false) :
    (∃ x, forest[forest.anchor j]? = some x ∧ x.IsAkin y) ∧ forest.anchor j ≤ j ∧
      ∀ m z, forest[m]? = some z → z.IsAkin y → forest.anchor j ≤ m := by
  induction j generalizing y with
  | zero =>
      rw [anchor_zero]
      exact ⟨⟨y, hy, .refl hquery⟩, Nat.le_refl 0, fun m z _ _ => Nat.zero_le m⟩
  | succ i ih =>
      have hlt := (List.getElem?_eq_some_iff.mp hy).1
      have hbefore : forest[i]? = some forest[i] := List.getElem?_eq_getElem (by omega)
      rw [anchor_succ, hy, hbefore]
      dsimp only
      by_cases hlegs : areLegsOfOne forest[i] y
      · have hakin : forest[i].IsAkin y := by
          simp only [areLegsOfOne, Bool.and_eq_true, beq_iff_eq] at hlegs
          exact ⟨Node.isQuery_of_isLeg hlegs.1.1.1, hquery, hlegs.1.2, hlegs.2⟩
        obtain ⟨⟨x, hx, hxakin⟩, hle, hfirst⟩ := ih hbefore hakin.1
        rw [if_pos hlegs]
        exact ⟨⟨x, hx, hxakin.trans hakin⟩, by omega,
          fun m z hz hzakin => hfirst m z hz (hzakin.trans hakin.symm)⟩
      · rw [if_neg hlegs]
        refine ⟨⟨y, hy, .refl hquery⟩, Nat.le_refl _, ?_⟩
        intro m z hz hzakin
        by_contra hm
        -- an earlier node of the aggregation makes the one just before a leg of it too
        have hneighbour : forest[i].IsAkin y := by
          rcases Nat.lt_or_ge m i with hmi | hmi
          · obtain ⟨-, hbetween⟩ := h.neighbours m (i + 1) z y (by omega) hz hy hzakin
            obtain ⟨w, hw, hwakin⟩ := hbetween i hmi (by omega)
            obtain rfl : forest[i] = w := Option.some.inj (hbefore.symm.trans hw)
            exact hwakin.symm.trans hzakin
          · obtain rfl : m = i := by omega
            obtain rfl : forest[m] = z := Option.some.inj (hbefore.symm.trans hz)
            exact hzakin
        obtain ⟨⟨l, l', hl, hl', -⟩, -⟩ :=
          h.neighbours i (i + 1) _ y (by omega) hbefore hy hneighbour
        refine hlegs ?_
        simp [areLegsOfOne, Node.isLeg, Aggregation.isLeg, Aggregation.leg?, hl, hl',
          hneighbour.2.2.1, hneighbour.2.2.2]

theorem IsLaidOut.first?_eq (h : forest.IsLaidOut) {j : Nat} {y : Node}
    (hy : forest[j]? = some y) (hquery : y.isQuery = false) :
    forest.first? y.parent y.name = some (forest.anchor j) := by
  obtain ⟨⟨x, hx, hakin⟩, -, hfirst⟩ := h.anchor_spec hy hquery
  rw [← hakin.2.2.1, ← hakin.2.2.2]
  exact first?_of_akin hx hakin.1 fun m z hz hzakin => hfirst m z hz (hzakin.trans hakin)

/-- Nodes have one anchor just when they belong to one aggregation. -/
theorem IsLaidOut.anchor_eq_iff (h : forest.IsLaidOut) {i j : Nat} {x y : Node}
    (hx : forest[i]? = some x) (hy : forest[j]? = some y) (hxquery : x.isQuery = false)
    (hyquery : y.isQuery = false) : forest.anchor i = forest.anchor j ↔ x.IsAkin y := by
  constructor
  · intro heq
    obtain ⟨⟨z, hz, hzakin⟩, -⟩ := h.anchor_spec hx hxquery
    obtain ⟨⟨w, hw, hwakin⟩, -⟩ := h.anchor_spec hy hyquery
    rw [heq] at hz
    obtain rfl : z = w := Option.some.inj (hz.symm.trans hw)
    exact hzakin.symm.trans hwakin
  · intro hakin
    have hfirst := h.first?_eq hx hxquery
    rw [hakin.2.2.1, hakin.2.2.2, h.first?_eq hy hyquery] at hfirst
    exact (Option.some.inj hfirst).symm

theorem IsLaidOut.anchor_le (h : forest.IsLaidOut) {j : Nat} {y : Node}
    (hy : forest[j]? = some y) (hquery : y.isQuery = false) : forest.anchor j ≤ j :=
  (h.anchor_spec hy hquery).2.1

/-- An anchor is its own anchor. -/
theorem IsLaidOut.anchor_anchor (h : forest.IsLaidOut) {j : Nat} {y : Node}
    (hy : forest[j]? = some y) (hquery : y.isQuery = false) :
    forest.anchor (forest.anchor j) = forest.anchor j := by
  obtain ⟨⟨x, hx, hakin⟩, -⟩ := h.anchor_spec hy hquery
  exact (h.anchor_eq_iff hx hy hakin.1 hquery).mpr hakin

/-- Different nodes of one aggregation are different legs of it. -/
theorem IsLaidOut.sharesLegs (h : forest.IsLaidOut) {i j : Nat} {x y : Node} (hne : i ≠ j)
    (hx : forest[i]? = some x) (hy : forest[j]? = some y) (hakin : x.IsAkin y) :
    x.SharesLegs y := by
  rcases Nat.lt_or_gt_of_ne hne with hlt | hlt
  · exact (h.neighbours i j x y hlt hx hy hakin).1
  · obtain ⟨l, l', hl, hl', hshape, hlabels, hsingle, hindex⟩ :=
      (h.neighbours j i y x hlt hy hx hakin.symm).1
    exact ⟨l', l, hl', hl, hshape.symm, hlabels.symm, hshape ▸ hsingle, hindex.symm⟩

/-- A parent is an anchor, and all nodes of its aggregation come before the node. -/
theorem IsLaidOut.parent_spec (h : forest.IsLaidOut) {j a : Nat} {y : Node}
    (hy : forest[j]? = some y) (hparent : y.parent = some a) :
    ∃ x, forest[a]? = some x ∧ x.isQuery = false ∧ forest.anchor a = a ∧ a < j ∧
      ∀ m z, forest[m]? = some z → z.isQuery = false → forest.anchor m = a → m < j := by
  obtain ⟨x, hx, hquery, hakin⟩ := h.parents j y a hy hparent (Nat.zero_le a)
  have hx' : forest[a]? = some x := by simpa using hx
  have hself := hakin a x hx' (.refl hquery)
  have hanchor : forest.anchor a = a := by
    obtain ⟨⟨w, hw, hwakin⟩, hle, -⟩ := h.anchor_spec hx' hquery
    have := (hakin _ w hw hwakin.symm).1
    omega
  refine ⟨x, hx', hquery, hanchor, hself.2, ?_⟩
  intro m z hz hzquery hm
  rw [← hanchor] at hm
  exact (hakin m z hz ((h.anchor_eq_iff hz hx' hzquery hquery).mp hm).symm).2

/-- What lies below an aggregation comes after all its nodes. -/
theorem IsLaidOut.lt_of_isBelow (h : forest.IsLaidOut) {j a : Nat}
    (hbelow : forest.isBelow j a = true) {m : Nat} {z : Node} (hz : forest[m]? = some z)
    (hquery : z.isQuery = false) (hanchor : forest.anchor m = forest.anchor a) : m < j := by
  unfold isBelow ancestors at hbelow
  rw [List.contains_iff_mem] at hbelow
  generalize forest.length = fuel at hbelow
  induction fuel generalizing j with
  | zero => cases hbelow
  | succ fuel ih =>
      cases hparent : forest[j]?.bind Node.parent with
      | none =>
          rw [ancestorsFrom, hparent] at hbelow
          cases hbelow
      | some p =>
          obtain ⟨y, hy, hyparent⟩ := Option.bind_eq_some_iff.mp hparent
          obtain ⟨-, -, -, -, hlt, hbefore⟩ := h.parent_spec hy hyparent
          rw [ancestorsFrom, hparent] at hbelow
          rcases List.mem_cons.mp hbelow with heq | hmem
          · exact hbefore m z hz hquery (hanchor.trans heq)
          · exact Nat.lt_trans (ih hmem) hlt

/-- What lies in no other aggregation lies below none. -/
theorem isBelow_of_root {j : Nat} {y : Node} (hy : forest[j]? = some y) (hparent : y.parent = none)
    (a : Nat) : forest.isBelow j a = false := by
  have hnone (fuel : Nat) : forest.ancestorsFrom fuel j = [] := by
    cases fuel <;> simp [ancestorsFrom, hy, hparent]
  rw [isBelow, ancestors, hnone]
  rfl

/-! ## Anchors and decisions -/

variable {after : Forest}

theorem getElem?_bare (forest : Forest) (i : Nat) :
    forest.bare[i]? = forest[i]?.map Node.bare := List.getElem?_map

/-- Forests that differ in decisions alone have a node at the same places. -/
theorem exists_node_of_bare_eq (hbare : after.bare = forest.bare) {i : Nat} {x : Node}
    (hx : forest[i]? = some x) : ∃ y, after[i]? = some y ∧ y.bare = x.bare := by
  have hat : after.bare[i]? = some x.bare := by rw [hbare, getElem?_bare, hx, Option.map_some]
  rw [getElem?_bare] at hat
  exact Option.map_eq_some_iff.mp hat

theorem length_eq_of_bare_eq (hbare : after.bare = forest.bare) :
    after.length = forest.length := by
  simpa [bare] using congrArg List.length hbare

/-- How a forest is laid out is no matter of decisions. -/
theorem IsLaidOut.of_bare_eq (h : forest.IsLaidOut) (hbare : after.bare = forest.bare) :
    after.IsLaidOut where
  neighbours := by
    intro i j x y hij hx hy hakin
    obtain ⟨x', hx', hxx'⟩ := exists_node_of_bare_eq hbare.symm hx
    obtain ⟨y', hy', hyy'⟩ := exists_node_of_bare_eq hbare.symm hy
    rw [← Node.isAkin_bare, ← hxx', ← hyy'] at hakin
    obtain ⟨hshares, hbetween⟩ := h.neighbours i j x' y' hij hx' hy' hakin
    rw [← Node.sharesLegs_bare, hxx', hyy'] at hshares
    refine ⟨hshares, fun m him hmj => ?_⟩
    obtain ⟨z', hz', hzakin⟩ := hbetween m him hmj
    obtain ⟨z, hz, hzz'⟩ := exists_node_of_bare_eq hbare hz'
    rw [← Node.isAkin_bare, hxx', ← hzz'] at hzakin
    exact ⟨z, hz, hzakin⟩
  parents := by
    intro j y a hy hparent hle
    obtain ⟨y', hy', hyy'⟩ := exists_node_of_bare_eq hbare.symm hy
    obtain ⟨x', hx', hquery, hakin⟩ :=
      h.parents j y' a hy' ((congrArg Node.parent hyy').trans hparent) hle
    obtain ⟨x, hx, hxx'⟩ := exists_node_of_bare_eq hbare hx'
    refine ⟨x, hx, (congrArg Node.isQuery hxx').trans hquery, fun m z hz hxz => ?_⟩
    obtain ⟨z', hz', hzz'⟩ := exists_node_of_bare_eq hbare.symm hz
    rw [← Node.isAkin_bare, hxx', ← hzz'] at hxz
    exact hakin m z' hz' hxz
  labelled := by
    intro n hn l hl
    obtain ⟨i, hi⟩ := List.getElem?_of_mem hn
    obtain ⟨n', hn', hnn'⟩ := exists_node_of_bare_eq hbare.symm hi
    exact h.labelled n' (List.mem_of_getElem? hn') l
      ((congrArg Node.aggregation hnn').trans hl)

theorem anchor_bare (forest : Forest) (i : Nat) : forest.bare.anchor i = forest.anchor i := by
  induction i with
  | zero => rw [anchor_zero, anchor_zero]
  | succ i ih =>
      rw [anchor_succ, anchor_succ, ih, getElem?_bare, getElem?_bare]
      cases forest[i]? <;> cases forest[i + 1]? <;> rfl

theorem ancestors_bare (forest : Forest) (i : Nat) :
    forest.bare.ancestors i = forest.ancestors i := by
  have hfrom (fuel i : Nat) : forest.bare.ancestorsFrom fuel i = forest.ancestorsFrom fuel i := by
    induction fuel generalizing i with
    | zero => rfl
    | succ fuel ih =>
        have hparent : forest.bare[i]?.bind Node.parent = forest[i]?.bind Node.parent := by
          rw [getElem?_bare, Option.bind_map]
          rfl
        rw [ancestorsFrom, ancestorsFrom, hparent]
        cases forest[i]?.bind Node.parent with
        | none => rfl
        | some parent => exact congrArg (parent :: ·) (ih parent)
  rw [ancestors, ancestors, hfrom, bare, List.length_map]

theorem IsRevision.isLaidOut (hrevision : forest.IsRevision after) (h : forest.IsLaidOut) :
    after.IsLaidOut :=
  h.of_bare_eq hrevision.bare_eq

theorem IsRevision.anchor_eq (hrevision : forest.IsRevision after) (i : Nat) :
    after.anchor i = forest.anchor i := by
  rw [← anchor_bare after, hrevision.bare_eq, anchor_bare]

theorem IsRevision.ancestors_eq (hrevision : forest.IsRevision after) (i : Nat) :
    after.ancestors i = forest.ancestors i := by
  rw [← ancestors_bare after, hrevision.bare_eq, ancestors_bare]

/-- Two forests have a node at the same places. -/
theorem IsRevision.node_or_none (hrevision : forest.IsRevision after) (i : Nat) :
    (forest[i]? = none ∧ after[i]? = none) ∨
      ∃ x x', forest[i]? = some x ∧ after[i]? = some x' ∧ x.IsRevision x' := by
  cases hx : forest[i]? with
  | none =>
      rw [List.getElem?_eq_none_iff] at hx
      exact Or.inl ⟨rfl, List.getElem?_eq_none_iff.mpr (hrevision.length_eq ▸ hx)⟩
  | some x =>
      obtain ⟨x', hx', hxr⟩ := hrevision.node_after hx
      exact Or.inr ⟨x, x', rfl, hx', hxr⟩

/-- What is decided about nodes does not change what lies below what. -/
theorem IsRevision.isBelow_eq (hrevision : forest.IsRevision after)
    (i above : Nat) : after.isBelow i above = forest.isBelow i above := by
  rw [isBelow, isBelow, hrevision.ancestors_eq, hrevision.anchor_eq]

theorem IsRevision.isWithin_eq (hrevision : forest.IsRevision after)
    (i anchor : Nat) : after.isWithin i anchor = forest.isWithin i anchor := by
  rw [isWithin, isWithin, hrevision.anchor_eq, hrevision.isBelow_eq]

end Forest
end Rollup
