/-
# Leaving out as a closure

Leaving out nodes one after another leaves out the nodes that are named and, at any depth, every
node below an aggregation of which nothing is left, and no others. Nodes come after the aggregation
above them, so that this settles which nodes are out: the order in which they are named is no
matter, and neither is naming one twice.
-/

import Rollup.Proofs.Forest.Nesting
import Rollup.Proofs.Plan.Disabling

namespace Rollup.Forest

variable {forest : Forest}

/-- Whether the nodes that are out are those that are named and the orphans. -/
def IsClosure (forest : Forest) (named out : Nat → Prop) : Prop :=
  ∀ j, out j ↔ named j ∨ forest.IsOrphaned out j

namespace IsClosure

variable {named out : Nat → Prop}

theorem of_bare_eq {after : Forest} (h : forest.IsClosure named out)
    (hbare : after.bare = forest.bare) : after.IsClosure named out := by
  intro j
  rw [isOrphaned_iff_of_bare_eq hbare]
  exact h j

theorem congr {named' : Nat → Prop} (h : forest.IsClosure named out)
    (hnamed : ∀ j, named j ↔ named' j) : forest.IsClosure named' out := by
  intro j
  rw [← hnamed j]
  exact h j

/-- Orphans are found from the front, so that the named nodes settle which nodes are out. -/
theorem unique {out' : Nat → Prop} (h : forest.IsClosure named out)
    (h' : forest.IsClosure named out') (hlaid : forest.IsLaidOut) (j : Nat) : out j ↔ out' j := by
  induction j using Nat.strongRecOn with
  | ind j ih => rw [h j, h' j, hlaid.isOrphaned_congr ih]

/-- In a closure a node lies below an emptied aggregation, at any depth, just when it is an
orphan. -/
theorem isCutOff_iff (h : forest.IsClosure named out) (hlaid : forest.IsLaidOut) (j : Nat) :
    forest.IsCutOff out j ↔ forest.IsOrphaned out j :=
  hlaid.isCutOff_iff (fun i horphaned => (h i).mpr (Or.inr horphaned)) j

end IsClosure

/-! ## One node after another -/

/-- While no node is out, no aggregation is emptied. -/
theorem IsLaidOut.isClosure_of_active (h : forest.IsLaidOut) (hactive : ∀ j, ¬ forest.IsOut j) :
    forest.IsClosure (fun _ => False) forest.IsOut := by
  intro j
  constructor
  · exact fun hout => absurd hout (hactive j)
  · rintro (hnamed | ⟨p, hp, hemptied⟩)
    · exact hnamed.elim
    · obtain ⟨y, hy, hparent⟩ := parent?_eq_some.mp hp
      obtain ⟨x, hx, hquery, hself, -⟩ := h.parent_spec hy hparent
      exact absurd (hemptied p x hx hquery hself) (hactive p)

/-- Leaving out one more node names one more. -/
theorem IsHeaded.isClosure_disable (h : forest.IsHeaded) {named : Nat → Prop}
    (hclosure : forest.IsClosure named forest.IsOut) (i : Nat) :
    (forest.disable i).IsClosure (fun j => named j ∨ (j = i ∧ j < forest.length))
      (forest.disable i).IsOut := by
  rcases Nat.lt_or_ge i forest.length with hlt | hge
  · refine IsClosure.of_bare_eq (fun j => ?_) (bare_disable forest i)
    have hx := List.getElem?_eq_getElem hlt
    constructor
    · rw [h.isOut_disable hx]
      rintro (hout | rfl | ⟨-, horphaned⟩)
      · rcases (hclosure j).mp hout with hnamed | horphaned
        · exact Or.inl (Or.inl hnamed)
        · exact Or.inr (horphaned.mono fun m hm => (h.isOut_disable hx m).mpr (Or.inl hm))
      · exact Or.inl (Or.inr ⟨rfl, hlt⟩)
      · exact Or.inr horphaned
    · rintro ((hnamed | ⟨rfl, -⟩) | horphaned)
      · exact (h.isOut_disable hx j).mpr (Or.inl ((hclosure j).mpr (Or.inl hnamed)))
      · exact (h.isOut_disable hx j).mpr (Or.inr (Or.inl rfl))
      · exact h.isOut_of_isOrphaned_disable (fun m hm => (hclosure m).mpr (Or.inr hm)) hx horphaned
  · rw [disable, if_neg (Nat.not_lt.mpr hge)]
    refine hclosure.congr fun j => ⟨Or.inl, ?_⟩
    rintro (hnamed | ⟨rfl, hlt⟩)
    · exact hnamed
    · exact absurd hlt (Nat.not_lt.mpr hge)

/-- Leaving out nodes one after another names them all. -/
theorem IsHeaded.isClosure_foldl_disable (h : forest.IsHeaded) {named : Nat → Prop}
    (hclosure : forest.IsClosure named forest.IsOut) (calls : List Nat) :
    (calls.foldl disable forest).IsClosure (fun j => named j ∨ (j ∈ calls ∧ j < forest.length))
      (calls.foldl disable forest).IsOut := by
  induction calls generalizing forest named with
  | nil => exact hclosure.congr fun j => by simp
  | cons i rest ih =>
      have hrest := ih (h.of_bare_eq (bare_disable forest i)) (h.isClosure_disable hclosure i)
      rw [length_eq_of_bare_eq (bare_disable forest i)] at hrest
      refine hrest.congr fun j => ?_
      rw [List.mem_cons]
      tauto

theorem keepsNodes_foldl_disable (forest : Forest) (calls : List Nat) :
    forest.KeepsNodes (calls.foldl disable forest) := by
  induction calls generalizing forest with
  | nil => exact .refl forest
  | cons i rest ih => exact (keepsNodes_disable forest i).trans (ih (forest.disable i))

/-- Forests that come of one by leaving out the same nodes are the same. -/
theorem KeepsNodes.eq_of_isOut_iff {second third : Forest} (h : forest.KeepsNodes second)
    (h' : forest.KeepsNodes third) (hlength : second.length = forest.length)
    (hlength' : third.length = forest.length) (hout : ∀ j, second.IsOut j ↔ third.IsOut j) :
    second = third := by
  refine List.ext_getElem? fun j => ?_
  cases hx : forest[j]? with
  | none =>
      rw [List.getElem?_eq_none_iff] at hx
      rw [List.getElem?_eq_none (by omega), List.getElem?_eq_none (by omega)]
  | some x =>
      obtain ⟨y, hy, out, rfl⟩ := h j x hx
      obtain ⟨z, hz, out', rfl⟩ := h' j x hx
      have hsame : out = out' := by
        have hiff := hout j
        rw [isOut_iff hy, isOut_iff hz] at hiff
        simpa [Node.isActive, Node.decide] using hiff
      rw [hy, hz, hsame]

/-! ## The nodes of a request -/

/-- The nodes of a request after leaving out any nodes of it, in any order: a node is out just when
it was named or lies below an aggregation of which nothing is left. Whether a node is out is all
that changes, and it depends on which nodes are named alone. -/
theorem foldl_disable_isClosure {now : Calendar.Instant} {json : Json}
    (h : ofJson now json = .ok forest) (hkeys : json.hasDistinctKeys = true) (calls : List Nat) :
    (∀ j x, forest[j]? = some x →
      ∃ out, (calls.foldl disable forest)[j]? =
          some (x.decide fun d => { d with disabled := out }) ∧
        (out = true ↔ j ∈ calls ∨
          (calls.foldl disable forest).IsCutOff (calls.foldl disable forest).IsOut j)) ∧
      (calls.foldl disable forest).length = forest.length ∧
      ∀ others : List Nat, (∀ j, j ∈ others ↔ j ∈ calls) →
        others.foldl disable forest = calls.foldl disable forest := by
  have hheaded := isHeaded_of_ofJson h hkeys
  have hactive (j : Nat) : ¬ forest.IsOut j := by
    rintro ⟨n, hn, hout⟩
    rw [Node.isActive, decisions_of_ofJson h n (List.mem_of_getElem? hn)] at hout
    cases hout
  have hclosure := hheaded.isClosure_foldl_disable (hheaded.laidOut.isClosure_of_active hactive)
  have hbare := bare_foldl bare_disable calls forest
  have hlaid := hheaded.laidOut.of_bare_eq hbare
  refine ⟨fun j x hx => ?_, length_eq_of_bare_eq hbare, fun others hothers => ?_⟩
  · obtain ⟨y, hy, out, rfl⟩ := keepsNodes_foldl_disable forest calls j x hx
    have hlt := (List.getElem?_eq_some_iff.mp hx).1
    have hout := isOut_iff hy
    rw [(hclosure calls) j, ← (hclosure calls).isCutOff_iff hlaid] at hout
    refine ⟨out, hy, ?_⟩
    simpa [Node.isActive, Node.decide, hlt] using hout.symm
  · have hbare' := bare_foldl bare_disable others forest
    have hnamed := ((hclosure others).of_bare_eq (hbare.trans hbare'.symm)).congr
      (fun j => by rw [hothers j])
    exact (keepsNodes_foldl_disable forest others).eq_of_isOut_iff
      (keepsNodes_foldl_disable forest calls) (length_eq_of_bare_eq hbare')
      (length_eq_of_bare_eq hbare) (hnamed.unique (hclosure calls) hlaid)

/-- Once both legs are named, the metric below them goes as well, and naming the query takes nothing
along. -/
theorem nestedRequest_legs_closed :
    ∃ forest, ofJson default nestedRequest = .ok forest ∧
      nestedRequest.hasDistinctKeys = true ∧
      ([2, 0, 1].foldl disable forest).map Node.isActive =
        [false, false, false, false, true, true] ∧
      (∀ j x, forest[j]? = some x →
        ∃ out, ([2, 0, 1].foldl disable forest)[j]? =
            some (x.decide fun d => { d with disabled := out }) ∧
          (out = true ↔ j ∈ [2, 0, 1] ∨
            ([2, 0, 1].foldl disable forest).IsCutOff ([2, 0, 1].foldl disable forest).IsOut j)) ∧
      ([2, 0, 1].foldl disable forest).length = forest.length ∧
      ∀ others : List Nat, (∀ j, j ∈ others ↔ j ∈ [2, 0, 1]) →
        others.foldl disable forest = [2, 0, 1].foldl disable forest := by
  have hkeys : nestedRequest.hasDistinctKeys = true := by decide +kernel
  have hactive : (ofJson default nestedRequest).map
      (fun forest => ([2, 0, 1].foldl disable forest).map Node.isActive) =
        .ok [false, false, false, false, true, true] := rfl
  cases hforest : ofJson default nestedRequest with
  | error e =>
      rw [hforest] at hactive
      cases hactive
  | ok forest =>
      rw [hforest] at hactive
      exact ⟨forest, rfl, hkeys, Except.ok.inj hactive,
        foldl_disable_isClosure hforest hkeys [2, 0, 1]⟩

end Rollup.Forest
