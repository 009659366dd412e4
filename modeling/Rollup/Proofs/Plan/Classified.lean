/-
# Filters come to rest

Whether filters are concurrent or direct is decided round by round: the legs are marked, and the
legs that cannot be columns are left out. A round that leaves out a node leaves fewer active ones,
so after no more rounds than there are nodes nothing moves. What was left out stays out, and
nothing is left out without a reason: a leg is one that cannot be read or that searches in the
full text, and all other nodes went with all legs of an aggregation above them.
-/

import Mathlib.Logic.Function.Iterate
import Rollup.Proofs.Plan.Attributes
import Rollup.Proofs.Plan.Legs

namespace Rollup

/-- Whether the filter of a leg is one that can be left out: it cannot be read, or it searches in
the full text. -/
def Leg.IsDroppable (l : Leg) : Prop :=
  l.failure? ≠ none ∨ ∃ filter, l.filter? = some filter ∧ filter.isFullText = true

namespace Forest

variable {forest before after : Forest}

/-! ## Nodes that are left out for a reason -/

/-- Whether the node at an index is a leg that can be left out. -/
def IsDroppableAt (forest : Forest) (i : Nat) : Prop :=
  ∃ x l, forest[i]? = some x ∧ x.aggregation = .leg l ∧ l.IsDroppable

/-- A forest of which nodes are left out for a reason: legs that can be, and nodes below an
aggregation of which nothing is left. -/
structure IsPruned (before after : Forest) : Prop where
  revision : before.IsRevision after
  reason : ∀ i, after.IsOut i →
    before.IsOut i ∨ before.IsDroppableAt i ∨ before.IsOrphaned after.IsOut i

theorem IsRevision.isDroppableAt_iff (h : before.IsRevision after) (i : Nat) :
    after.IsDroppableAt i ↔ before.IsDroppableAt i := by
  constructor
  · rintro ⟨x, l, hx, hl, hdroppable⟩
    obtain ⟨x', hx', hxr⟩ := h.node hx
    exact ⟨x', l, hx', hxr.aggregation ▸ hl, hdroppable⟩
  · rintro ⟨x, l, hx, hl, hdroppable⟩
    obtain ⟨x', hx', hxr⟩ := h.node_after hx
    exact ⟨x', l, hx', hxr.aggregation ▸ hl, hdroppable⟩

namespace IsPruned

theorem refl (forest : Forest) : forest.IsPruned forest := ⟨.refl forest, fun _ => Or.inl⟩

theorem trans {first second third : Forest} (h : first.IsPruned second)
    (h' : second.IsPruned third) : first.IsPruned third where
  revision := h.revision.trans h'.revision
  reason := by
    intro i hout
    rcases h'.reason i hout with hbefore | hdroppable | horphan
    · rcases h.reason i hbefore with hfirst | hdroppable | horphan
      · exact Or.inl hfirst
      · exact Or.inr (Or.inl hdroppable)
      · exact Or.inr (Or.inr (horphan.mono fun m => h'.revision.isOut))
    · exact Or.inr (Or.inl ((h.revision.isDroppableAt_iff i).mp hdroppable))
    · exact Or.inr (Or.inr ((h.revision.isOrphaned_iff _ i).mp horphan))

/-- Steps that each leave out nodes for a reason do so together. -/
theorem foldl {α : Type} (step : Forest → α → Forest) {items : List α}
    (hstep : ∀ item ∈ items, ∀ after, forest.IsPruned after → after.IsPruned (step after item)) :
    forest.IsPruned (items.foldl step forest) :=
  List.foldlRecOn _ _ (.refl forest) fun after hafter item hitem =>
    hafter.trans (hstep item hitem after hafter)

end IsPruned

/-- Leaving out a leg that can be left out. -/
theorem IsHeaded.isPruned_disable (h : forest.IsHeaded) {i : Nat}
    (hdroppable : forest.IsDroppableAt i) : forest.IsPruned (forest.disable i) := by
  obtain ⟨x, l, hx, hl, hreason⟩ := hdroppable
  have hquery := Node.isQuery_of_isLeg (Node.isLeg_of_eq hl)
  refine ⟨isRevision_disable forest i fun y hy =>
    Option.some.inj (hx.symm.trans hy) ▸ hquery, fun j hout => ?_⟩
  rcases (h.isOut_disable hx j).mp hout with hbefore | rfl | ⟨-, horphan⟩
  · exact Or.inl hbefore
  · exact Or.inr (Or.inl ⟨x, l, hx, hl, hreason⟩)
  · exact Or.inr (Or.inr horphan)

/-! ## Forests with the same active nodes -/

/-- A revision that leaves out no node. -/
structure IsRemarked (before after : Forest) : Prop where
  revision : before.IsRevision after
  active : ∀ i, after.IsOut i → before.IsOut i

namespace IsRemarked

theorem isOut_iff (h : before.IsRemarked after) (i : Nat) : after.IsOut i ↔ before.IsOut i :=
  ⟨h.active i, h.revision.isOut⟩

theorem isPruned (h : before.IsRemarked after) : before.IsPruned after :=
  ⟨h.revision, fun i hout => Or.inl (h.active i hout)⟩

theorem isActive_eq (h : before.IsRemarked after) {i : Nat} {x y : Node}
    (hx : before[i]? = some x) (hy : after[i]? = some y) : y.isActive = x.isActive := by
  have hiff := h.isOut_iff i
  rw [Forest.isOut_iff hx, Forest.isOut_iff hy] at hiff
  exact Bool.eq_iff_iff.mpr (by simpa using not_congr hiff)

/-- What is below what, who is active and what the query is stay as they are. -/
theorem hasEffectiveQuery_eq (h : before.IsRemarked after) :
    after.hasEffectiveQuery = before.hasEffectiveQuery := by
  have hquery (forest : Forest) : forest.query? =
      ((forest.map fun n => (n.isActive, n.aggregation)).filter Prod.fst).findSome?
        fun entry => entry.2.query? := by
    rw [query?, List.filter_map, List.findSome?_map]
    rfl
  have hsame : after.map (fun n => (n.isActive, n.aggregation)) =
      before.map fun n => (n.isActive, n.aggregation) := by
    apply List.ext_getElem?
    intro i
    rw [List.getElem?_map, List.getElem?_map]
    rcases h.revision.node_or_none i with ⟨hx, hy⟩ | ⟨x, y, hx, hy, hxr⟩
    · rw [hx, hy]
    · rw [hx, hy, Option.map_some, Option.map_some, h.isActive_eq hx hy, hxr.aggregation]
  rw [hasEffectiveQuery, hasEffectiveQuery, hquery, hquery, hsame]

end IsRemarked

end Forest

namespace Plan

open Forest

variable {forest before after : Forest}

/-! ## Marks -/

theorem enclosesAll_iff {i : Nat} : enclosesAll forest i = true ↔
    ∀ (j : Nat) (y : Node), forest[j]? = some y → j ≠ i → y.isActive = true →
      y.isQuery = false → forest.isBelow j i = true := by
  rw [enclosesAll, List.all_eq_true]
  constructor
  · intro hall j y hy hne hactive hquery
    have hj := hall (y, j) (List.mem_zipIdx_iff_getElem?.mpr hy)
    simpa [hne, hactive, hquery] using hj
  · rintro hall ⟨y, j⟩ hmem
    have hy : forest[j]? = some y := List.mem_zipIdx_iff_getElem?.mp hmem
    dsimp only
    by_cases hne : j = i
    · simp [hne]
    · cases hactive : y.isActive with
      | false => simp
      | true =>
          cases hquery : y.isQuery with
          | true => simp
          | false => simp [hall j y hy hne hactive hquery]

theorem enclosesAll_eq_of_isRemarked (h : before.IsRemarked after) (i : Nat) :
    enclosesAll after i = enclosesAll before i := by
  rw [Bool.eq_iff_iff, enclosesAll_iff, enclosesAll_iff]
  constructor
  · intro hall j y hy hne hactive hquery
    obtain ⟨z, hz, hzr⟩ := h.revision.node_after hy
    rw [← h.revision.isBelow_eq]
    exact hall j z hz hne ((h.isActive_eq hy hz).trans hactive) (hzr.isQuery.trans hquery)
  · intro hall j y hy hne hactive hquery
    obtain ⟨z, hz, hzr⟩ := h.revision.node hy
    rw [h.revision.isBelow_eq]
    exact hall j z hz hne ((h.isActive_eq hz hy).symm.trans hactive)
      (hzr.isQuery.symm.trans hquery)

/-- Whether a leg has active ones beside it, as far as it is active itself. -/
theorem hasSeveral_eq_of_isRemarked (h : before.IsRemarked after) {i : Nat} {x y : Node}
    (hx : before[i]? = some x) (hy : after[i]? = some y) (hleg : x.isLeg = true)
    (hactive : x.isActive = true) : hasSeveral after i = hasSeveral before i := by
  obtain ⟨y', hy', hxr⟩ := h.revision.node_after hx
  obtain rfl := Option.some.inj (hy.symm.trans hy')
  have hleg' {x y : Node} (hxr : x.IsRevision y) : y.isLeg = x.isLeg :=
    congrArg Aggregation.isLeg hxr.aggregation
  rw [Bool.eq_iff_iff, hasSeveral_iff hx hleg hactive, hasSeveral_iff hy ((hleg' hxr).trans hleg)
    ((h.isActive_eq hx hy).trans hactive)]
  simp only [h.revision.anchor_eq]
  constructor
  · rintro ⟨j, z, hne, hz, hzleg, hzactive, hanchor⟩
    obtain ⟨w, hw, hwr⟩ := h.revision.node hz
    exact ⟨j, w, hne, hw, (hleg' hwr).symm.trans hzleg, (h.isActive_eq hw hz).symm.trans hzactive,
      hanchor⟩
  · rintro ⟨j, z, hne, hz, hzleg, hzactive, hanchor⟩
    obtain ⟨w, hw, hwr⟩ := h.revision.node_after hz
    exact ⟨j, w, hne, hw, (hleg' hwr).trans hzleg, (h.isActive_eq hz hw).trans hzactive, hanchor⟩

/-- The legs with all marks. -/
def marked (forest : Forest) : Forest := markDirect (markConcurrent forest)

/-- What marking says about a node. -/
def markedNode (forest : Forest) (i : Nat) (n : Node) : Node :=
  match n.aggregation.leg? with
  | some leg =>
      n.decide fun d =>
        { d with
          concurrent := n.isActive && hasSeveral forest i
          direct := n.isActive && !hasSeveral forest i && enclosesAll forest i &&
            (!forest.hasEffectiveQuery || leg.isNamed) }
  | none => n

theorem isRemarked_markConcurrent (forest : Forest) :
    forest.IsRemarked (markConcurrent forest) := by
  refine ⟨isRevision_markConcurrent forest, ?_⟩
  rintro i ⟨y, hy, hinactive⟩
  rw [getElem?_markConcurrent] at hy
  obtain ⟨x, hx, rfl⟩ := Option.map_eq_some_iff.mp hy
  refine ⟨x, hx, ?_⟩
  rw [← hinactive]
  split <;> rfl

theorem getElem?_marked (forest : Forest) (i : Nat) :
    (marked forest)[i]? = forest[i]?.map (markedNode forest i) := by
  have hconcurrent := isRemarked_markConcurrent forest
  rw [marked, markDirect, getElem?_zipIdx_map, getElem?_markConcurrent, Option.map_map]
  cases hx : forest[i]? with
  | none => rfl
  | some x =>
      rw [Option.map_some, Option.map_some, Option.some.injEq]
      dsimp only [Function.comp_apply]
      cases hleg : x.aggregation.leg? with
      | none => simp [Node.isLeg, Aggregation.isLeg, hleg, markedNode]
      | some l =>
          have hmark : (markOf forest i x).aggregation.leg? = some l := hleg
          simp only [Node.isLeg, Aggregation.isLeg, hleg, Option.isSome_some, if_true, hmark,
            markedNode]
          rw [isDirect, enclosesAll_eq_of_isRemarked hconcurrent, hconcurrent.hasEffectiveQuery_eq]
          cases hactive : x.isActive <;>
            simp_all [markOf, markAs, Node.decide, Node.isActive]

theorem aggregation_markedNode (forest : Forest) (i : Nat) (n : Node) :
    (markedNode forest i n).aggregation = n.aggregation := by
  unfold markedNode
  split <;> rfl

theorem isActive_markedNode (forest : Forest) (i : Nat) (n : Node) :
    (markedNode forest i n).isActive = n.isActive := by
  unfold markedNode
  split <;> rfl

theorem isRemarked_marked (forest : Forest) : forest.IsRemarked (marked forest) := by
  refine ⟨(isRevision_markConcurrent forest).trans (isRevision_markDirect _), ?_⟩
  rintro i ⟨y, hy, hinactive⟩
  rw [getElem?_marked] at hy
  obtain ⟨x, hx, rfl⟩ := Option.map_eq_some_iff.mp hy
  exact ⟨x, hx, isActive_markedNode forest i x ▸ hinactive⟩

/-- Marking again changes nothing. -/
theorem marked_marked (forest : Forest) : marked (marked forest) = marked forest := by
  have hremarked := isRemarked_marked forest
  apply List.ext_getElem?
  intro i
  rw [getElem?_marked (marked forest), getElem?_marked forest, Option.map_map]
  cases hx : forest[i]? with
  | none => rfl
  | some x =>
      rw [Option.map_some, Option.map_some, Option.some.injEq, Function.comp_apply]
      have hy : (marked forest)[i]? = some (markedNode forest i x) := by
        rw [getElem?_marked, hx, Option.map_some]
      rw [markedNode, aggregation_markedNode, isActive_markedNode,
        enclosesAll_eq_of_isRemarked hremarked, hremarked.hasEffectiveQuery_eq]
      cases hleg : x.aggregation.leg? with
      | none => rfl
      | some l =>
          cases hactive : x.isActive with
          | false => simp [markedNode, hleg, hactive, Node.decide]
          | true =>
              rw [hasSeveral_eq_of_isRemarked hremarked hx hy (by
                rw [Node.isLeg, Aggregation.isLeg, hleg, Option.isSome_some]) hactive]
              simp [markedNode, hleg, hactive, Node.decide]

theorem mem_unselectable {i : Nat} : i ∈ unselectable forest ↔
    ∃ n l filter, forest[i]? = some n ∧ n.aggregation = .leg l ∧ n.isActive = true ∧
      n.decisions.direct = false ∧ l.filter? = some filter ∧ filter.isFullText = true := by
  simp only [unselectable, List.mem_map, List.mem_filter, Prod.exists, Bool.and_eq_true,
    Bool.not_eq_true']
  constructor
  · rintro ⟨n, j, ⟨hmem, ⟨hactive, hdirect⟩, hfull⟩, rfl⟩
    cases hkind : n.aggregation with
    | leg l =>
        cases hfilter : l.filter? with
        | none => simp [hkind, Aggregation.leg?, hfilter] at hfull
        | some filter =>
            exact ⟨n, l, filter, List.mem_zipIdx_iff_getElem?.mp hmem, hkind, hactive, hdirect,
              hfilter, by simpa [hkind, Aggregation.leg?, hfilter] using hfull⟩
    | _ => simp [hkind, Aggregation.leg?] at hfull
  · rintro ⟨n, l, filter, hn, hkind, hactive, hdirect, hfilter, hfull⟩
    exact ⟨n, i, ⟨List.mem_zipIdx_iff_getElem?.mpr hn, ⟨hactive, hdirect⟩,
      by simpa [hkind, Aggregation.leg?, hfilter] using hfull⟩, rfl⟩

/-! ## Rounds -/

/-- Leave out the legs with filters that cannot be read. -/
def readable (forest : Forest) : Forest := (List.range forest.length).foldl dropUnreadable forest

/-- One round: mark the legs, and leave out those that cannot be columns. -/
def round (forest : Forest) : Forest :=
  (unselectable (marked forest)).foldl disable (marked forest)

theorem isPruned_round (h : forest.IsHeaded) : forest.IsPruned (round forest) := by
  have hmarked := isRemarked_marked forest
  refine hmarked.isPruned.trans (IsPruned.foldl _ fun i hi after hafter => ?_)
  obtain ⟨n, l, filter, hn, hkind, -, -, hfilter, hfull⟩ := mem_unselectable.mp hi
  have hheaded := hafter.revision.isHeaded (hmarked.revision.isHeaded h)
  refine hheaded.isPruned_disable ((hafter.revision.isDroppableAt_iff i).mpr ?_)
  exact ⟨n, l, hn, hkind, Or.inr ⟨filter, hfilter, hfull⟩⟩

theorem isPruned_readable (h : forest.IsHeaded) : forest.IsPruned (readable forest) := by
  refine IsPruned.foldl _ fun i _ after hafter => ?_
  unfold dropUnreadable
  split
  · rename_i n hn
    split
    · rename_i failure hfailure
      split
      · obtain ⟨l, hleg, hsome⟩ := Option.bind_eq_some_iff.mp hfailure
        refine (hafter.revision.isHeaded h).isPruned_disable ⟨n, l, hn, ?_, Or.inl ?_⟩
        · cases hkind : n.aggregation <;> simp_all [Aggregation.leg?]
        · rw [hsome]
          exact Option.some_ne_none failure
      · exact .refl after
    · exact .refl after
  · exact .refl after

/-- No leg with a filter that cannot be read is left. -/
theorem isOut_readable (h : forest.IsHeaded) {i : Nat} {x : Node} {l : Leg}
    (hx : forest[i]? = some x) (hl : x.aggregation = .leg l) (hfailure : l.failure? ≠ none) :
    (readable forest).IsOut i := by
  obtain ⟨failure, hsome⟩ := Option.ne_none_iff_exists'.mp hfailure
  have hlt := (List.getElem?_eq_some_iff.mp hx).1
  have hdropped (after : Forest) (hafter : forest.IsRevision after) :
      (dropUnreadable after i).IsOut i := by
    obtain ⟨y, hy, hyr⟩ := hafter.node_after hx
    have hleg : y.aggregation.leg? = some l := by rw [hyr.aggregation, hl]; rfl
    simp only [dropUnreadable, hy, hleg, Option.bind_some, hsome]
    cases hactive : y.isActive with
    | false => exact ⟨y, hy, hactive⟩
    | true =>
        have hquery : y.isQuery = false :=
          Node.isQuery_of_isLeg (by rw [Node.isLeg, Aggregation.isLeg, hleg]; rfl)
        exact ((hafter.isHeaded h).isOut_disable hy i).mpr (Or.inr (Or.inl rfl))
  obtain ⟨earlier, later, hsplit⟩ := List.append_of_mem (List.mem_range.mpr hlt)
  rw [readable, hsplit, List.foldl_append, List.foldl_cons]
  exact (IsRevision.foldl _ isRevision_dropUnreadable _ later).isOut
    (hdropped _ (IsRevision.foldl _ isRevision_dropUnreadable forest earlier))

/-! ## Coming to rest -/

/-- How many nodes are active. -/
def activeCount (forest : Forest) : Nat := forest.countP Node.isActive

theorem activeCount_le (h : before.IsRevision after) : activeCount after ≤ activeCount before := by
  unfold activeCount
  induction h with
  | nil => exact Nat.le_refl 0
  | @cons x y _ _ hnode _ ih =>
      rw [List.countP_cons, List.countP_cons]
      cases hactive : y.isActive with
      | false => simp only [Bool.false_eq_true, if_false]; omega
      | true => simp only [hnode.active hactive, if_true]; omega

/-- A node that is left out makes the active ones fewer. -/
theorem activeCount_lt (h : before.IsRevision after) {i : Nat} {x : Node}
    (hx : before[i]? = some x) (hactive : x.isActive = true) (hout : after.IsOut i) :
    activeCount after < activeCount before := by
  induction h generalizing i with
  | nil => cases hx
  | @cons x' y rest rest' hnode hrest ih =>
      rw [activeCount, activeCount, List.countP_cons, List.countP_cons]
      cases i with
      | zero =>
          obtain rfl := Option.some.inj hx
          rw [Forest.isOut_iff (List.getElem?_cons_zero)] at hout
          have hle := activeCount_le hrest
          unfold activeCount at hle
          simp only [hactive, hout, if_true, Bool.false_eq_true, if_false]
          omega
      | succ i =>
          have hlt := ih (i := i) (by simpa using hx) (by simpa [IsOut] using hout)
          unfold activeCount at hlt
          cases hy : y.isActive with
          | false => simp only [Bool.false_eq_true, if_false]; omega
          | true => simp only [hnode.active hy, if_true]; omega

theorem round_of_unselectable (h : unselectable (marked forest) = []) :
    round forest = marked forest := by rw [round, h, List.foldl_nil]

/-- A round that leaves out a leg leaves fewer active nodes. -/
theorem activeCount_round_lt (h : forest.IsHeaded) (hsome : unselectable (marked forest) ≠ []) :
    activeCount (round forest) < activeCount forest := by
  obtain ⟨first, rest, hdoomed⟩ := List.exists_cons_of_ne_nil hsome
  have hmem : first ∈ unselectable (marked forest) := hdoomed ▸ List.mem_cons_self
  obtain ⟨n, l, filter, hn, hkind, hactive, -⟩ := mem_unselectable.mp hmem
  have hmarked := isRemarked_marked forest
  have hheaded := hmarked.revision.isHeaded h
  have hquery := Node.isQuery_of_isLeg (Node.isLeg_of_eq hkind)
  obtain ⟨x, hx, hxr⟩ := hmarked.revision.node hn
  refine activeCount_lt (isPruned_round h).revision hx (hxr.active hactive) ?_
  rw [round, hdoomed, List.foldl_cons]
  have hfirst : forest.IsRevision ((marked forest).disable first) :=
    hmarked.revision.trans (isRevision_disable _ first fun y hy =>
      Option.some.inj (hn.symm.trans hy) ▸ hquery)
  refine (isRevision_foldl_disable _ rest fun i hi y hy => ?_).isOut
    ((hheaded.isOut_disable hn first).mpr (Or.inr (Or.inl rfl)))
  obtain ⟨y', hy', hyr⟩ := (isRevision_disable (marked forest) first fun y hy =>
    Option.some.inj (hn.symm.trans hy) ▸ hquery).node hy
  rw [hyr.isQuery]
  exact isQuery_of_mem_unselectable (hdoomed ▸ List.mem_cons_of_mem _ hi) y' hy'

theorem isPruned_iterate_round (h : forest.IsHeaded) (count : Nat) :
    forest.IsPruned (round^[count] forest) := by
  induction count with
  | zero => exact .refl forest
  | succ count ih =>
      rw [Function.iterate_succ_apply']
      exact ih.trans (isPruned_round (ih.revision.isHeaded h))

/-- After no more rounds than there are active nodes no leg is left that cannot be a column. -/
theorem exists_iterate_of_settleFilters {fuel : Nat} (h : forest.IsHeaded)
    (hfuel : activeCount forest ≤ fuel) :
    ∃ count ≤ activeCount forest, settleFilters fuel forest = marked (round^[count] forest) ∧
      unselectable (marked (round^[count] forest)) = [] := by
  induction fuel generalizing forest with
  | zero =>
      refine ⟨0, Nat.zero_le _, rfl, ?_⟩
      by_contra hsome
      have := activeCount_round_lt h hsome
      omega
  | succ fuel ih =>
      by_cases hnone : unselectable (marked forest) = []
      · refine ⟨0, Nat.zero_le _, ?_, hnone⟩
        rw [settleFilters, show unselectable (markDirect (markConcurrent forest)) = [] from hnone]
        rfl
      · have hlt := activeCount_round_lt h hnone
        obtain ⟨count, hcount, hsettled, hlast⟩ :=
          ih ((isPruned_round h).revision.isHeaded h) (by omega)
        refine ⟨count + 1, by omega, ?_, hlast⟩
        obtain ⟨first, rest, hdoomed⟩ := List.exists_cons_of_ne_nil hnone
        have hround : (first :: rest).foldl disable (marked forest) = round forest := by
          rw [← hdoomed, round]
        rw [settleFilters, show unselectable (markDirect (markConcurrent forest)) = first :: rest
          from hdoomed]
        exact (congrArg (settleFilters fuel) hround).trans hsettled

/-- What is shown of a forest whose filters are classified. -/
structure IsClassified (before after : Forest) : Prop where
  /-- Every active leg could be read. -/
  compiled : ∀ x ∈ after, ∀ l, x.aggregation = .leg l → x.isActive = true → l.failure? = none
  /-- A leg is concurrent if there are active legs beside it. -/
  concurrent : ∀ (i : Nat) (x : Node), after[i]? = some x → x.isLeg = true →
    (x.decisions.concurrent = true ↔ x.isActive = true ∧
      ∃ j y, j ≠ i ∧ after[j]? = some y ∧ y.isLeg = true ∧ y.isActive = true ∧
        after.anchor j = after.anchor i)
  /-- A leg is direct if it is alone, all else lies below it and no query restricts the rows, or the
  leg has a name. -/
  direct : ∀ (i : Nat) (x : Node) (l : Leg), after[i]? = some x → x.aggregation = .leg l →
    (x.decisions.direct = true ↔ x.isActive = true ∧ x.decisions.concurrent = false ∧
      (∀ (j : Nat) (y : Node), after[j]? = some y → j ≠ i → y.isActive = true →
        y.isQuery = false → after.isBelow j i = true) ∧
      (after.hasEffectiveQuery = false ∨ l.isNamed = true))
  /-- No indirect leg searches in the full text. -/
  indirect : ∀ x ∈ after, ∀ l, x.aggregation = .leg l → x.isActive = true →
    x.decisions.direct = false → ∀ filter, l.filter? = some filter → filter.isFullText = false
  /-- What is left out is left out for a reason. -/
  reason : ∀ (i : Nat) (x y : Node), before[i]? = some x → after[i]? = some y →
    x.isActive = true → y.isActive = false →
      (∃ l, y.aggregation = .leg l ∧ l.IsDroppable) ∨ after.IsCutOff after.IsOut i

/-- What holds of a forest that has come to rest. -/
theorem isClassified_marked {last : Forest} (h : before.IsHeaded) (hpruned : before.IsPruned last)
    (hreadable : ∀ i x l, before[i]? = some x → x.aggregation = .leg l → l.failure? ≠ none →
      last.IsOut i)
    (hrest : unselectable (marked last) = []) : IsClassified before (marked last) := by
  have hmarked := isRemarked_marked last
  have hall := hpruned.trans hmarked.isPruned
  have hnode {i : Nat} {x : Node} {l : Leg} (hx : (marked last)[i]? = some x)
      (hl : x.aggregation = .leg l) : ∃ z, last[i]? = some z ∧ z.aggregation = .leg l ∧
        x.isActive = z.isActive ∧
        x.decisions.concurrent = (z.isActive && hasSeveral last i) ∧
        x.decisions.direct = (z.isActive && !hasSeveral last i && enclosesAll last i &&
          (!last.hasEffectiveQuery || l.isNamed)) := by
    obtain ⟨z, hz, rfl⟩ := Option.map_eq_some_iff.mp (getElem?_marked last i ▸ hx)
    have hzl : z.aggregation = .leg l := aggregation_markedNode last i z ▸ hl
    have hleg : z.aggregation.leg? = some l := by rw [hzl]; rfl
    refine ⟨z, hz, hzl, isActive_markedNode last i z, ?_⟩
    rw [markedNode, hleg]
    exact ⟨rfl, rfl⟩
  exact
    { compiled := by
        intro x hx l hl hactive
        obtain ⟨i, hi⟩ := List.getElem?_of_mem hx
        obtain ⟨w, hw, hwr⟩ := hall.revision.node hi
        by_contra hfailure
        have hout := hmarked.revision.isOut (hreadable i w l hw (hwr.aggregation ▸ hl) hfailure)
        rw [Forest.isOut_iff hi, hactive] at hout
        cases hout
      concurrent := by
        intro i x hx hleg
        obtain ⟨l, hl⟩ := Node.exists_leg hleg
        obtain ⟨z, hz, hzl, hsame, hconcurrent, -⟩ := hnode hx hl
        rw [hconcurrent, hsame, Bool.and_eq_true]
        refine and_congr_right fun hactive => ?_
        rw [← hasSeveral_eq_of_isRemarked hmarked hz hx (Node.isLeg_of_eq hzl) hactive,
          hasSeveral_iff hx hleg (hsame.trans hactive)]
      direct := by
        intro i x l hx hl
        obtain ⟨z, hz, hzl, hsame, hconcurrent, hdirect⟩ := hnode hx hl
        rw [hdirect, hconcurrent, hsame, ← enclosesAll_iff,
          enclosesAll_eq_of_isRemarked hmarked, hmarked.hasEffectiveQuery_eq]
        cases z.isActive <;> simp [and_assoc]
      indirect := by
        intro x hx l hl hactive hdirect filter hfilter
        obtain ⟨i, hi⟩ := List.getElem?_of_mem hx
        by_contra hfull
        have hmem : i ∈ unselectable (marked last) := mem_unselectable.mpr
          ⟨x, l, filter, hi, hl, hactive, hdirect, hfilter, by simpa using hfull⟩
        rw [hrest] at hmem
        cases hmem
      reason := by
        intro i x y hx hy hactive hinactive
        rcases hall.reason i ((Forest.isOut_iff hy).mpr hinactive) with hout | hdroppable | horphan
        · rw [Forest.isOut_iff hx, hactive] at hout
          cases hout
        · obtain ⟨z, l, hz, hl, hreason⟩ := (hall.revision.isDroppableAt_iff i).mpr hdroppable
          obtain rfl := Option.some.inj (hy.symm.trans hz)
          exact Or.inl ⟨l, hl, hreason⟩
        · exact Or.inr (((hall.revision.isHeaded h).laidOut.isCutOff_iff_or _ i).mpr
            (Or.inl ((hall.revision.isOrphaned_iff _ i).mpr horphan))) }

/-- Filters that are classified are the marks of some round, after which nothing is left out. -/
theorem exists_rounds (h : before.IsHeaded) : ∃ count ≤ before.length,
    classifyFilters before = marked (round^[count] (readable before)) ∧
      unselectable (marked (round^[count] (readable before))) = [] := by
  have hreadable := isPruned_readable h
  have hlength : activeCount (readable before) ≤ before.length :=
    hreadable.revision.length_eq ▸ List.countP_le_length
  obtain ⟨count, hcount, hsettled, hrest⟩ :=
    exists_iterate_of_settleFilters (hreadable.revision.isHeaded h) hlength
  exact ⟨count, hcount.trans hlength, hsettled, hrest⟩

theorem isClassified_classifyFilters (h : before.IsHeaded) :
    IsClassified before (classifyFilters before) := by
  obtain ⟨count, -, hclassified, hrest⟩ := exists_rounds h
  have hreadable := isPruned_readable h
  have hiterate := isPruned_iterate_round (hreadable.revision.isHeaded h) count
  rw [hclassified]
  exact isClassified_marked h (hreadable.trans hiterate)
    (fun i x l hx hl hfailure => hiterate.revision.isOut (isOut_readable h hx hl hfailure)) hrest

/-- Filters come to rest, whatever was decided about the nodes before: after no more rounds than
there are nodes nothing moves, and the filters are classified. -/
theorem classifyFilters_rests {now : Calendar.Instant} {json : Json} {parsed before : Forest}
    (hparsed : ofJson now json = .ok parsed) (hkeys : json.hasDistinctKeys = true)
    (hbefore : parsed.IsRevision before) :
    (∃ count ≤ before.length + 1, round^[count] (readable before) = classifyFilters before) ∧
      round (classifyFilters before) = classifyFilters before ∧
      IsClassified before (classifyFilters before) := by
  have hheaded := hbefore.isHeaded (isHeaded_of_ofJson hparsed hkeys)
  obtain ⟨count, hcount, hclassified, hrest⟩ := exists_rounds hheaded
  refine ⟨⟨count + 1, by omega, ?_⟩, ?_, isClassified_classifyFilters hheaded⟩
  · rw [Function.iterate_succ_apply', round_of_unselectable hrest, hclassified]
  · rw [hclassified, round_of_unselectable (by rw [marked_marked, hrest]), marked_marked]

/-- The greatest size for three filters, one of which searches in the full text and one of which
cannot be read. -/
def threeFilters : Json :=
  .object [("aggs", .object [("kinds", .object [
    ("filters", .object [("filters", .object [
      ("text", .object [("query_string", .object [("query", .string "down")])]),
      ("web", .object [("term", .object [("host", .string "web")])]),
      ("odd", .object [("near", .object [("host", .string "web")])])])]),
    ("aggs", .object [("greatest", .object [("max", .object [("field", .string "size")])])])])])]

/-- A table with hosts and sizes. -/
def hostTable : Table := ⟨"t", [("host", true), ("size", true)]⟩

/-- The one filter that is left becomes direct in the second round. -/
theorem threeFilters_rest :
    ∃ parsed, ofJson default threeFilters = .ok parsed ∧ threeFilters.hasDistinctKeys = true ∧
      parsed.IsRevision (checkAttributes hostTable parsed).1 ∧
      (classifyFilters (checkAttributes hostTable parsed).1).map (fun n : Node =>
          (n.name, n.isActive, n.decisions.concurrent, n.decisions.direct)) =
        [("kinds", false, false, false), ("kinds", true, false, true),
          ("kinds", false, false, false), ("greatest", true, false, false)] ∧
      IsClassified (checkAttributes hostTable parsed).1
        (classifyFilters (checkAttributes hostTable parsed).1) := by
  have hkeys : threeFilters.hasDistinctKeys = true := by decide +kernel
  have hnodes : (ofJson default threeFilters).map (fun parsed =>
      (classifyFilters (checkAttributes hostTable parsed).1).map fun n : Node =>
        (n.name, n.isActive, n.decisions.concurrent, n.decisions.direct)) =
      .ok [("kinds", false, false, false), ("kinds", true, false, true),
        ("kinds", false, false, false), ("greatest", true, false, false)] := rfl
  cases hparsed : ofJson default threeFilters with
  | error e =>
      rw [hparsed] at hnodes
      cases hnodes
  | ok parsed =>
      rw [hparsed] at hnodes
      have hchecked := isRevision_checkAttributes hostTable parsed
      exact ⟨parsed, rfl, hkeys, hchecked, Except.ok.inj hnodes,
        (classifyFilters_rests hparsed hkeys hchecked).2.2⟩

end Plan
end Rollup
