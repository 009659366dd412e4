/-
# Leaving out nodes

A node that is left out takes with it every node below an aggregation of which nothing is left. In
a forest that is read this is all that happens: a later node is out just when it was out before or
all nodes of the aggregation above it are out.
-/

import Mathlib.Data.List.TakeWhile
import Rollup.Proofs.Forest.Anchors

namespace Rollup

namespace Node

/-- A node that may have been left out, and is the same in all else. -/
def IsKept (before after : Node) : Prop :=
  ∃ out, after = before.decide fun d => { d with disabled := out }

theorem IsKept.refl (n : Node) : n.IsKept n := ⟨n.decisions.disabled, rfl⟩

theorem IsKept.trans {first second third : Node} (h : first.IsKept second)
    (h' : second.IsKept third) : first.IsKept third := by
  obtain ⟨_, rfl⟩ := h
  obtain ⟨out, rfl⟩ := h'
  exact ⟨out, rfl⟩

end Node

namespace Forest

variable {forest : Forest}

/-- A forest that is laid out, with the query as its head if there is one. -/
structure IsHeaded (forest : Forest) : Prop where
  laidOut : forest.IsLaidOut
  query : ∀ i x, forest[i]? = some x → x.isQuery = true → i = 0 ∧ x.parent = none

/-- A forest that is read has its query at the head. -/
theorem isHeaded_of_ofJson {now : Calendar.Instant} {json : Json}
    (h : ofJson now json = .ok forest) (hkeys : json.hasDistinctKeys = true) :
    forest.IsHeaded := by
  refine ⟨isLaidOut_of_ofJson h hkeys, ?_⟩
  obtain ⟨request, hrequest, rfl⟩ := ofJson_spec h
  obtain ⟨fields, rfl, -, hbranches, -⟩ := Request.ofJson_spec hrequest
  intro i x hx hquery
  rw [ofRequest, List.getElem?_append] at hx
  split at hx
  · obtain ⟨query, hat, rfl⟩ := List.mem_map.mp (List.mem_of_getElem? hx)
    have hlt := (List.getElem?_eq_some_iff.mp hx).1
    have hone : request.query.toList.length ≤ 1 := by cases request.query <;> simp
    rw [List.length_map] at hlt
    exact ⟨by omega, rfl⟩
  · have hnot := isQuery_of_mem_ofBranches _ _ _ request.branches
      (fun branch hbranch => (hbranches branch hbranch).elim fun _ hread => hread.nodes) x
      (List.mem_of_getElem? hx)
    rw [hquery] at hnot
    cases hnot

theorem IsHeaded.of_bare_eq {after : Forest} (h : forest.IsHeaded)
    (hbare : after.bare = forest.bare) : after.IsHeaded where
  laidOut := h.laidOut.of_bare_eq hbare
  query := by
    intro i x hx hquery
    obtain ⟨x', hx', hxx'⟩ := exists_node_of_bare_eq hbare.symm hx
    obtain ⟨hhead, hparent⟩ := h.query i x' hx' ((congrArg Node.isQuery hxx').trans hquery)
    exact ⟨hhead, (congrArg Node.parent hxx').symm.trans hparent⟩

theorem IsRevision.isHeaded {after : Forest} (hrevision : forest.IsRevision after)
    (h : forest.IsHeaded) : after.IsHeaded :=
  h.of_bare_eq hrevision.bare_eq

/-! ## Parents -/

/-- The parent of the node at an index. -/
def parent? (forest : Forest) (index : Nat) : Option Nat := forest[index]?.bind Node.parent

theorem parent?_eq_some {j p : Nat} :
    forest.parent? j = some p ↔ ∃ y, forest[j]? = some y ∧ y.parent = some p :=
  Option.bind_eq_some_iff

theorem parent?_bare (forest : Forest) (i : Nat) : forest.bare.parent? i = forest.parent? i := by
  rw [parent?, parent?, getElem?_bare, Option.bind_map]
  rfl

theorem IsLaidOut.parent?_lt (h : forest.IsLaidOut) {j p : Nat}
    (hparent : forest.parent? j = some p) : p < j := by
  obtain ⟨y, hy, hp⟩ := parent?_eq_some.mp hparent
  obtain ⟨-, -, -, -, hlt, -⟩ := h.parent_spec hy hp
  exact hlt

/-- Parents come before, so that more fuel than the index finds no more of them. -/
theorem IsLaidOut.ancestorsFrom_eq (h : forest.IsLaidOut) {j fuel fuel' : Nat} (hfuel : j ≤ fuel)
    (hfuel' : j ≤ fuel') : forest.ancestorsFrom fuel j = forest.ancestorsFrom fuel' j := by
  induction j using Nat.strongRecOn generalizing fuel fuel' with
  | ind j ih =>
      cases hparent : forest.parent? j with
      | none =>
          have hnone (n : Nat) : forest.ancestorsFrom n j = [] := by
            cases n with
            | zero => rfl
            | succ n => rw [ancestorsFrom, show forest[j]?.bind Node.parent = none from hparent]
          rw [hnone, hnone]
      | some p =>
          have hlt := h.parent?_lt hparent
          obtain ⟨n, rfl⟩ :=
            Nat.exists_eq_add_of_lt (Nat.lt_of_lt_of_le (Nat.zero_lt_of_lt hlt) hfuel)
          obtain ⟨n', rfl⟩ :=
            Nat.exists_eq_add_of_lt (Nat.lt_of_lt_of_le (Nat.zero_lt_of_lt hlt) hfuel')
          rw [ancestorsFrom, ancestorsFrom,
            show forest[j]?.bind Node.parent = some p from hparent]
          exact congrArg (p :: ·) (ih p hlt (by omega) (by omega))

theorem IsLaidOut.ancestors_eq (h : forest.IsLaidOut) (j : Nat) :
    forest.ancestors j = match forest.parent? j with
      | some p => p :: forest.ancestors p
      | none => [] := by
  cases hparent : forest.parent? j with
  | none =>
      rw [ancestors]
      cases forest.length with
      | zero => rfl
      | succ n => rw [ancestorsFrom, show forest[j]?.bind Node.parent = none from hparent]
  | some p =>
      have hlt := h.parent?_lt hparent
      obtain ⟨y, hy, -⟩ := parent?_eq_some.mp hparent
      have hlength := (List.getElem?_eq_some_iff.mp hy).1
      have hfuel : forest.ancestorsFrom forest.length j =
          forest.ancestorsFrom (forest.length + 1) j := h.ancestorsFrom_eq (by omega) (by omega)
      rw [ancestors, hfuel, ancestorsFrom, show forest[j]?.bind Node.parent = some p from hparent]
      rfl

/-! ## Aggregations of which nothing is left -/

/-- Whether the node at an index is left out. -/
def IsOut (forest : Forest) (index : Nat) : Prop :=
  ∃ n, forest[index]? = some n ∧ n.isActive = false

theorem isOut_iff {i : Nat} {n : Node} (hn : forest[i]? = some n) :
    forest.IsOut i ↔ n.isActive = false := by
  refine ⟨?_, fun hinactive => ⟨n, hn, hinactive⟩⟩
  rintro ⟨m, hm, hinactive⟩
  rwa [Option.some.inj (hn.symm.trans hm)]

/-- Whether all nodes of the aggregation that starts at an anchor are out. -/
def IsEmptied (forest : Forest) (out : Nat → Prop) (anchor : Nat) : Prop :=
  ∀ m z, forest[m]? = some z → z.isQuery = false → forest.anchor m = anchor → out m

/-- Whether a node lies below an aggregation of which all nodes are out. -/
def IsCutOff (forest : Forest) (out : Nat → Prop) (index : Nat) : Prop :=
  ∃ a ∈ forest.ancestors index, forest.IsEmptied out a

/-- Whether all nodes of the aggregation right above a node are out. -/
def IsOrphaned (forest : Forest) (out : Nat → Prop) (index : Nat) : Prop :=
  ∃ p, forest.parent? index = some p ∧ forest.IsEmptied out p

theorem IsEmptied.mono {out out' : Nat → Prop} {a : Nat} (h : forest.IsEmptied out a)
    (himp : ∀ m, out m → out' m) : forest.IsEmptied out' a :=
  fun m z hz hquery hanchor => himp m (h m z hz hquery hanchor)

theorem IsOrphaned.mono {out out' : Nat → Prop} {j : Nat} (h : forest.IsOrphaned out j)
    (himp : ∀ m, out m → out' m) : forest.IsOrphaned out' j := by
  obtain ⟨p, hp, hemptied⟩ := h
  exact ⟨p, hp, hemptied.mono himp⟩

theorem IsCutOff.mono {out out' : Nat → Prop} {j : Nat} (h : forest.IsCutOff out j)
    (himp : ∀ m, out m → out' m) : forest.IsCutOff out' j := by
  obtain ⟨a, ha, hemptied⟩ := h
  exact ⟨a, ha, hemptied.mono himp⟩

/-- Only what comes before a node decides whether it is orphaned. -/
theorem IsLaidOut.isOrphaned_congr (h : forest.IsLaidOut) {out out' : Nat → Prop} {j : Nat}
    (hsame : ∀ m, m < j → (out m ↔ out' m)) :
    forest.IsOrphaned out j ↔ forest.IsOrphaned out' j := by
  have himp {out out' : Nat → Prop} (himp : ∀ m, m < j → out m → out' m)
      (horphaned : forest.IsOrphaned out j) : forest.IsOrphaned out' j := by
    obtain ⟨p, hp, hemptied⟩ := horphaned
    obtain ⟨y, hy, hparent⟩ := parent?_eq_some.mp hp
    obtain ⟨-, -, -, -, -, hbefore⟩ := h.parent_spec hy hparent
    exact ⟨p, hp, fun m z hz hquery hanchor =>
      himp m (hbefore m z hz hquery hanchor) (hemptied m z hz hquery hanchor)⟩
  exact ⟨himp fun m hm => (hsame m hm).mp, himp fun m hm => (hsame m hm).mpr⟩

theorem IsLaidOut.isCutOff_iff_or (h : forest.IsLaidOut) (out : Nat → Prop) (j : Nat) :
    forest.IsCutOff out j ↔
      forest.IsOrphaned out j ∨ ∃ p, forest.parent? j = some p ∧ forest.IsCutOff out p := by
  unfold IsCutOff IsOrphaned
  rw [h.ancestors_eq]
  cases forest.parent? j with
  | none => simp
  | some p => simp

/-- Only what comes before a node decides whether it is cut off. -/
theorem IsLaidOut.isCutOff_congr (h : forest.IsLaidOut) {out out' : Nat → Prop} {j : Nat}
    (hsame : ∀ m, m < j → (out m ↔ out' m)) :
    forest.IsCutOff out j ↔ forest.IsCutOff out' j := by
  induction j using Nat.strongRecOn with
  | ind j ih =>
      rw [h.isCutOff_iff_or, h.isCutOff_iff_or, h.isOrphaned_congr hsame]
      refine or_congr_right (exists_congr fun p => and_congr_right fun hp => ?_)
      have hlt := h.parent?_lt hp
      exact ih p hlt fun m hm => hsame m (Nat.lt_trans hm hlt)

/-- Where orphans are out, a node lies below an emptied aggregation just when the aggregation right
above it is emptied. -/
theorem IsLaidOut.isCutOff_iff (h : forest.IsLaidOut) {out : Nat → Prop}
    (hclosed : ∀ j, forest.IsOrphaned out j → out j) (j : Nat) :
    forest.IsCutOff out j ↔ forest.IsOrphaned out j := by
  refine ⟨?_, fun horphaned => (h.isCutOff_iff_or out j).mpr (Or.inl horphaned)⟩
  induction j using Nat.strongRecOn with
  | ind j ih =>
      intro hcut
      rcases (h.isCutOff_iff_or out j).mp hcut with horphaned | ⟨p, hp, hcut'⟩
      · exact horphaned
      · obtain ⟨q, hq, hemptied⟩ := ih p (h.parent?_lt hp) hcut'
        -- the nodes beside the parent have its parent, so that they are orphans as well
        obtain ⟨y, hy, hparent⟩ := parent?_eq_some.mp hp
        obtain ⟨x, hx, hquery, hself, -⟩ := h.parent_spec hy hparent
        refine ⟨p, hp, fun m z hz hzquery hanchor => hclosed m ⟨q, ?_, hemptied⟩⟩
        have hakin := (h.anchor_eq_iff hz hx hzquery hquery).mp (hanchor.trans hself.symm)
        obtain ⟨x', hx', hxparent⟩ := parent?_eq_some.mp hq
        obtain rfl : x = x' := Option.some.inj (hx.symm.trans hx')
        exact parent?_eq_some.mpr ⟨z, hz, hakin.2.2.2.trans hxparent⟩

theorem isEmptied_bare (forest : Forest) (out : Nat → Prop) (a : Nat) :
    forest.bare.IsEmptied out a ↔ forest.IsEmptied out a := by
  unfold IsEmptied
  refine forall_congr' fun m => ?_
  rw [getElem?_bare, anchor_bare]
  constructor
  · intro hemptied z hz hquery hanchor
    exact hemptied z.bare (by rw [hz, Option.map_some]) hquery hanchor
  · intro hemptied z hz hquery hanchor
    obtain ⟨w, hw, rfl⟩ := Option.map_eq_some_iff.mp hz
    exact hemptied w hw hquery hanchor

theorem isOrphaned_bare (forest : Forest) (out : Nat → Prop) (j : Nat) :
    forest.bare.IsOrphaned out j ↔ forest.IsOrphaned out j := by
  simp only [IsOrphaned, parent?_bare, isEmptied_bare]

theorem isCutOff_bare (forest : Forest) (out : Nat → Prop) (j : Nat) :
    forest.bare.IsCutOff out j ↔ forest.IsCutOff out j := by
  simp only [IsCutOff, ancestors_bare, isEmptied_bare]

/-- Which nodes would be orphans is no matter of decisions. -/
theorem isOrphaned_iff_of_bare_eq {after : Forest} (hbare : after.bare = forest.bare)
    (out : Nat → Prop) (j : Nat) : after.IsOrphaned out j ↔ forest.IsOrphaned out j := by
  rw [← isOrphaned_bare after, hbare, isOrphaned_bare]

namespace IsRevision

variable {after : Forest}

theorem isOrphaned_iff (h : forest.IsRevision after) (out : Nat → Prop) (j : Nat) :
    after.IsOrphaned out j ↔ forest.IsOrphaned out j :=
  isOrphaned_iff_of_bare_eq h.bare_eq out j

theorem isCutOff_iff (h : forest.IsRevision after) (out : Nat → Prop) (j : Nat) :
    after.IsCutOff out j ↔ forest.IsCutOff out j := by
  rw [← isCutOff_bare after, h.bare_eq, isCutOff_bare]

/-- A node that is left out stays out. -/
theorem isOut (h : forest.IsRevision after) {j : Nat} (hout : forest.IsOut j) : after.IsOut j := by
  obtain ⟨x, hx, hinactive⟩ := hout
  obtain ⟨x', hx', hxr⟩ := h.node_after hx
  refine ⟨x', hx', ?_⟩
  cases hactive : x'.isActive with
  | false => rfl
  | true => rw [hxr.active hactive] at hinactive; exact hinactive

end IsRevision

/-! ## What is left of an aggregation -/

theorem mem_takeWhile_iff {α : Type} {p : α → Bool} {items : List α} {item : α} :
    item ∈ items.takeWhile p ↔
      ∃ i : Nat, items[i]? = some item ∧
        ∀ (j : Nat) (y : α), j ≤ i → items[j]? = some y → p y = true := by
  induction items with
  | nil => simp
  | cons first rest ih =>
      by_cases hfirst : p first = true
      · rw [List.takeWhile_cons_of_pos hfirst, List.mem_cons, ih]
        constructor
        · rintro (rfl | ⟨i, hi, hbefore⟩)
          · refine ⟨0, rfl, fun j y hj hy => ?_⟩
            obtain rfl : j = 0 := by omega
            exact Option.some.inj hy ▸ hfirst
          · refine ⟨i + 1, hi, fun j y hj hy => ?_⟩
            cases j with
            | zero => exact Option.some.inj hy ▸ hfirst
            | succ j => exact hbefore j y (by omega) hy
        · rintro ⟨i, hi, hbefore⟩
          cases i with
          | zero => exact Or.inl (Option.some.inj hi).symm
          | succ i =>
              exact Or.inr ⟨i, hi, fun j y hj hy => hbefore (j + 1) y (by omega) hy⟩
      · rw [List.takeWhile_cons_of_neg hfirst]
        refine ⟨fun hitem => absurd hitem List.not_mem_nil, ?_⟩
        rintro ⟨i, -, hbefore⟩
        exact absurd (hbefore 0 first (Nat.zero_le i) rfl) hfirst

/-- The nodes of an aggregation are those that follow its first node with the same name and
parent. -/
theorem IsHeaded.mem_takeWhile (h : forest.IsHeaded) {p : Nat} {x z : Node}
    (hx : forest[p]? = some x) (hquery : x.isQuery = false) (hself : forest.anchor p = p) :
    z ∈ ((forest.drop p).takeWhile fun n => n.name == x.name && n.parent == x.parent) ↔
      ∃ m, forest[m]? = some z ∧ z.isQuery = false ∧ forest.anchor m = p := by
  simp only [mem_takeWhile_iff, List.getElem?_drop, Bool.and_eq_true, beq_iff_eq]
  constructor
  · rintro ⟨i, hz, hbefore⟩
    obtain ⟨hname, hparent⟩ := hbefore i z (Nat.le_refl i) hz
    have hzquery : z.isQuery = false := by
      by_contra hkind
      have hhead := (h.query _ z hz (by simpa using hkind)).1
      obtain ⟨rfl, rfl⟩ : p = 0 ∧ i = 0 := by omega
      obtain rfl : x = z := Option.some.inj (hx.symm.trans hz)
      exact hkind hquery
    refine ⟨p + i, hz, hzquery, ?_⟩
    exact ((h.laidOut.anchor_eq_iff hz hx hzquery hquery).mpr
      ⟨hzquery, hquery, hname, hparent⟩).trans hself
  · rintro ⟨m, hz, hzquery, hanchor⟩
    have hle : p ≤ m := hanchor ▸ h.laidOut.anchor_le hz hzquery
    have hakin := (h.laidOut.anchor_eq_iff hx hz hquery hzquery).mp (hself.trans hanchor.symm)
    obtain ⟨i, rfl⟩ := Nat.exists_eq_add_of_le hle
    refine ⟨i, hz, fun j y hj hy => ?_⟩
    suffices hy : x.IsAkin y from ⟨hy.2.2.1.symm, hy.2.2.2.symm⟩
    rcases Nat.eq_zero_or_pos j with rfl | hpos
    · obtain rfl : x = y := Option.some.inj (hx.symm.trans hy)
      exact .refl hquery
    · rcases Nat.eq_or_lt_of_le hj with rfl | hlt
      · obtain rfl : z = y := Option.some.inj (hz.symm.trans hy)
        exact hakin
      · obtain ⟨-, hbetween⟩ := h.laidOut.neighbours p (p + i) x z (by omega) hx hz hakin
        obtain ⟨w, hw, hwakin⟩ := hbetween (p + j) (by omega) (by omega)
        obtain rfl : w = y := Option.some.inj (hw.symm.trans hy)
        exact hwakin

theorem IsHeaded.isBranchDisabled_iff (h : forest.IsHeaded) {p : Nat} {x : Node}
    (hx : forest[p]? = some x) (hquery : x.isQuery = false) (hself : forest.anchor p = p) :
    forest.isBranchDisabled p = true ↔ forest.IsEmptied forest.IsOut p := by
  simp only [isBranchDisabled, hself, hx, List.all_eq_true]
  constructor
  · intro hall m z hz hzquery hanchor
    exact ⟨z, hz, by simpa using hall z ((h.mem_takeWhile hx hquery hself).mpr
      ⟨m, hz, hzquery, hanchor⟩)⟩
  · intro hemptied z hz
    obtain ⟨m, hm, hzquery, hanchor⟩ := (h.mem_takeWhile hx hquery hself).mp hz
    obtain ⟨z', hz', hinactive⟩ := hemptied m z hm hzquery hanchor
    obtain rfl : z = z' := Option.some.inj (hm.symm.trans hz')
    simp [hinactive]

/-! ## Leaving out one node -/

theorem getElem?_decideAt (forest : Forest) (i j : Nat) (f : Decisions → Decisions) :
    (forest.decideAt i f)[j]? = forest[j]?.map fun n => if i = j then n.decide f else n := by
  rw [decideAt, List.getElem?_modify]
  cases forest[j]? with
  | none => rfl
  | some n => by_cases hij : i = j <;> simp [hij]

theorem isOut_decideAt_same (forest : Forest) (i j : Nat) {f : Decisions → Decisions}
    (hf : ∀ d, (f d).disabled = d.disabled) : (forest.decideAt i f).IsOut j ↔ forest.IsOut j := by
  rw [IsOut, IsOut, getElem?_decideAt]
  cases forest[j]? with
  | none => simp
  | some n => by_cases hij : i = j <;> simp [hij, Node.isActive, Node.decide, hf]

theorem isOut_decideAt_disabled (forest : Forest) (i j : Nat) :
    (forest.decideAt i fun d => { d with disabled := true }).IsOut j ↔
      forest.IsOut j ∨ (j = i ∧ forest[j]? ≠ none) := by
  rw [IsOut, IsOut, getElem?_decideAt]
  cases forest[j]? with
  | none => simp
  | some n =>
      by_cases hij : i = j
      · simp [hij, Node.isActive, Node.decide]
      · simp [hij, Ne.symm hij]

@[simp] theorem bare_decideAt (forest : Forest) (i : Nat) (f : Decisions → Decisions) :
    (forest.decideAt i f).bare = forest.bare := by
  refine List.ext_getElem? fun j => ?_
  rw [getElem?_bare, getElem?_bare, getElem?_decideAt, Option.map_map]
  cases forest[j]? with
  | none => rfl
  | some n => by_cases hij : i = j <;> simp [hij]

@[simp] theorem bare_disableIfOrphaned (forest : Forest) (i : Nat) :
    (forest.disableIfOrphaned i).bare = forest.bare := by
  unfold disableIfOrphaned
  split
  · split
    · split
      · exact bare_decideAt forest i _
      · rfl
    · rfl
  · rfl

/-- Steps that each change decisions alone do so together. -/
theorem bare_foldl {α : Type} {step : Forest → α → Forest}
    (hstep : ∀ forest item, (step forest item).bare = forest.bare) (items : List α)
    (forest : Forest) : (items.foldl step forest).bare = forest.bare := by
  induction items generalizing forest with
  | nil => rfl
  | cons item rest ih => exact (ih (step forest item)).trans (hstep forest item)

/-- Leaving out a node, be it the query, changes decisions alone. -/
@[simp] theorem bare_disable (forest : Forest) (i : Nat) :
    (forest.disable i).bare = forest.bare := by
  unfold disable
  split
  · exact (bare_foldl bare_disableIfOrphaned _ _).trans (bare_decideAt forest i _)
  · rfl

/-- An orphan is left out, and every other node is kept. -/
theorem IsHeaded.isOut_disableIfOrphaned (h : forest.IsHeaded) (i j : Nat) :
    (forest.disableIfOrphaned i).IsOut j ↔
      forest.IsOut j ∨ (j = i ∧ forest.IsOrphaned forest.IsOut i) := by
  unfold disableIfOrphaned
  cases hx : forest[i]? with
  | none =>
      have hnot : ¬ forest.IsOrphaned forest.IsOut i := by
        rintro ⟨p, hp, -⟩
        obtain ⟨y, hy, -⟩ := parent?_eq_some.mp hp
        rw [hx] at hy
        cases hy
      simp [hnot]
  | some x =>
      cases hparent : x.parent with
      | none =>
          have hnot : ¬ forest.IsOrphaned forest.IsOut i := by
            rintro ⟨p, hp, -⟩
            simp [parent?, hx, hparent] at hp
          simp [hparent, hnot]
      | some p =>
          have hp : forest.parent? i = some p := parent?_eq_some.mpr ⟨x, hx, hparent⟩
          obtain ⟨w, hw, hquery, hself, -⟩ := h.laidOut.parent_spec hx hparent
          have horphaned : forest.isBranchDisabled p = true ↔ forest.IsOrphaned forest.IsOut i := by
            rw [h.isBranchDisabled_iff hw hquery hself]
            refine ⟨fun hemptied => ⟨p, hp, hemptied⟩, ?_⟩
            rintro ⟨q, hq, hemptied⟩
            rwa [Option.some.inj (hp.symm.trans hq)]
          dsimp only
          rw [hparent]
          dsimp only
          split
          · rename_i hboth
            rw [Bool.and_eq_true, horphaned] at hboth
            rw [isOut_decideAt_disabled]
            have hsome : j = i → forest[j]? ≠ none := by rintro rfl; simp [hx]
            tauto
          · rename_i hboth
            rw [Bool.and_eq_true, not_and, horphaned] at hboth
            constructor
            · exact Or.inl
            · rintro (hout | ⟨rfl, horphan⟩)
              · exact hout
              · exact ⟨x, hx, by simpa using mt hboth (not_not.mpr horphan)⟩

/-- Leaving out nodes leaves all else as it is. -/
def KeepsNodes (before after : Forest) : Prop :=
  ∀ (j : Nat) (x : Node), before[j]? = some x → ∃ y, after[j]? = some y ∧ x.IsKept y

theorem KeepsNodes.refl (forest : Forest) : forest.KeepsNodes forest :=
  fun _ x hx => ⟨x, hx, .refl x⟩

theorem KeepsNodes.trans {first second third : Forest} (h : first.KeepsNodes second)
    (h' : second.KeepsNodes third) : first.KeepsNodes third := by
  intro j x hx
  obtain ⟨y, hy, hxy⟩ := h j x hx
  obtain ⟨z, hz, hyz⟩ := h' j y hy
  exact ⟨z, hz, hxy.trans hyz⟩

theorem keepsNodes_decideAt (forest : Forest) (i : Nat) :
    forest.KeepsNodes (forest.decideAt i fun d => { d with disabled := true }) := by
  intro j x hx
  rw [getElem?_decideAt, hx]
  by_cases hij : i = j
  · exact ⟨_, rfl, true, if_pos hij⟩
  · exact ⟨_, rfl, x.decisions.disabled, if_neg hij⟩

theorem keepsNodes_disableIfOrphaned (forest : Forest) (i : Nat) :
    forest.KeepsNodes (forest.disableIfOrphaned i) := by
  unfold disableIfOrphaned
  split
  · split
    · split
      · exact keepsNodes_decideAt forest i
      · exact .refl forest
    · exact .refl forest
  · exact .refl forest

theorem keepsNodes_disable (forest : Forest) (i : Nat) :
    forest.KeepsNodes (forest.disable i) := by
  unfold disable
  split
  · refine (keepsNodes_decideAt forest i).trans ?_
    exact List.foldlRecOn _ _ (.refl _)
      fun earlier hearlier j _ => hearlier.trans (keepsNodes_disableIfOrphaned earlier j)
  · exact .refl forest

/-- The orphans among the later nodes are found in one go, since every node comes after the
aggregation above it. -/
theorem IsHeaded.isOut_foldl_disableIfOrphaned (h : forest.IsHeaded) (i k j : Nat) :
    let after := ((List.range k).filter (i < ·)).foldl disableIfOrphaned forest
    after.IsOut j ↔ forest.IsOut j ∨ (i < j ∧ j < k ∧ after.IsOrphaned after.IsOut j) := by
  induction k generalizing j with
  | zero => simp
  | succ k ih =>
      rw [List.range_succ, List.filter_append, List.foldl_append]
      generalize hearlier : ((List.range k).filter (i < ·)).foldl disableIfOrphaned forest =
        earlier at ih
      have hrevision : forest.IsRevision earlier :=
        hearlier ▸ IsRevision.foldl _ isRevision_disableIfOrphaned forest _
      by_cases hik : i < k
      · rw [List.filter_cons_of_pos (by simpa using hik), List.filter_nil, List.foldl_cons,
          List.foldl_nil]
        have hstep := (hrevision.isHeaded h).isOut_disableIfOrphaned k
        have hlast := isRevision_disableIfOrphaned earlier k
        dsimp only at ih ⊢
        -- the aggregation above a node up to this one is as it was
        have hsame (m : Nat) (hm : m ≤ k) :
            (earlier.disableIfOrphaned k).IsOrphaned (earlier.disableIfOrphaned k).IsOut m ↔
              earlier.IsOrphaned earlier.IsOut m := by
          rw [hlast.isOrphaned_iff]
          refine (hrevision.isHeaded h).laidOut.isOrphaned_congr fun l hl => ?_
          rw [hstep]
          have hne : l ≠ k := by omega
          tauto
        rw [hstep, ih]
        constructor
        · rintro ((hout | ⟨hij, hjk, horphaned⟩) | ⟨rfl, horphaned⟩)
          · exact Or.inl hout
          · exact Or.inr ⟨hij, by omega, (hsame j (by omega)).mpr horphaned⟩
          · exact Or.inr ⟨hik, by omega, (hsame j (Nat.le_refl j)).mpr horphaned⟩
        · rintro (hout | ⟨hij, hjk, horphaned⟩)
          · exact Or.inl (Or.inl hout)
          · rw [hsame j (by omega)] at horphaned
            rcases Nat.eq_or_lt_of_le (Nat.le_of_lt_succ hjk) with rfl | hlt
            · exact Or.inr ⟨rfl, horphaned⟩
            · exact Or.inl (Or.inr ⟨hij, hlt, horphaned⟩)
      · rw [List.filter_cons_of_neg (by simpa using hik), List.filter_nil, List.foldl_nil]
        dsimp only at ih ⊢
        rw [ih]
        constructor
        · rintro (hout | ⟨hij, hjk, horphaned⟩)
          · exact Or.inl hout
          · omega
        · rintro (hout | ⟨hij, hjk, horphaned⟩)
          · exact Or.inl hout
          · omega

/-- After a node is left out, a node is out if it was before, is the one left out, or comes later
and all of the aggregation above it is out. -/
theorem IsHeaded.isOut_disable (h : forest.IsHeaded) {i : Nat} {x : Node}
    (hx : forest[i]? = some x) (j : Nat) :
    (forest.disable i).IsOut j ↔ forest.IsOut j ∨ j = i ∨
      (i < j ∧ forest.IsOrphaned (forest.disable i).IsOut j) := by
  have hlt := (List.getElem?_eq_some_iff.mp hx).1
  have hfirst : IsHeaded (forest.decideAt i fun d => { d with disabled := true }) :=
    h.of_bare_eq (bare_decideAt forest i _)
  have hall := hfirst.isOut_foldl_disableIfOrphaned i forest.length j
  have heq : forest.disable i = ((List.range forest.length).filter (i < ·)).foldl
      disableIfOrphaned (forest.decideAt i fun d => { d with disabled := true }) := by
    simp only [disable, if_pos hlt, decideAt, List.length_modify]
  rw [← heq] at hall
  dsimp only at hall
  rw [hall, isOut_decideAt_disabled, isOrphaned_iff_of_bare_eq (bare_disable forest i)]
  have hsome : j = i → forest[j]? ≠ none := by rintro rfl; simp [hx]
  have hlength : forest.IsOrphaned (forest.disable i).IsOut j → j < forest.length := by
    rintro ⟨p, hp, -⟩
    obtain ⟨y, hy, -⟩ := parent?_eq_some.mp hp
    exact (List.getElem?_eq_some_iff.mp hy).1
  tauto

theorem IsHeaded.isOut_disable_of_lt (h : forest.IsHeaded) {i j : Nat} {x : Node}
    (hx : forest[i]? = some x) (hlt : j < i) :
    (forest.disable i).IsOut j ↔ forest.IsOut j := by
  rw [h.isOut_disable hx]
  constructor
  · rintro (hout | rfl | ⟨hij, -⟩)
    · exact hout
    · omega
    · omega
  · exact Or.inl

/-- Where orphans were out they are out again. -/
theorem IsHeaded.isOut_of_isOrphaned_disable (h : forest.IsHeaded)
    (hclosed : ∀ j, forest.IsOrphaned forest.IsOut j → forest.IsOut j) {i : Nat} {x : Node}
    (hx : forest[i]? = some x) {j : Nat}
    (horphaned : forest.IsOrphaned (forest.disable i).IsOut j) : (forest.disable i).IsOut j := by
  rw [h.isOut_disable hx]
  rcases Nat.lt_or_ge i j with hlt | hle
  · exact Or.inr (Or.inr ⟨hlt, horphaned⟩)
  · refine Or.inl (hclosed j ((h.laidOut.isOrphaned_congr fun m hm => ?_).mp horphaned))
    exact h.isOut_disable_of_lt hx (by omega)

end Forest
end Rollup
