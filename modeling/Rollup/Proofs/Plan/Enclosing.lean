/-
# A filter around everything

A leg is direct only when all other active nodes but the query lie below it. Its indirect form asks
for one more column, by which the statement groups before all others, and nothing else of the plan
depends on the form that a leg has.
-/

import Rollup.Proofs.Plan.Naming
import Rollup.Proofs.Plan.Selection
import Rollup.Proofs.Rows.Settled

namespace Rollup

/-! ## Legs without their form -/

namespace Node

/-- The node as an indirect filter. -/
def indirect (n : Node) : Node := n.decide fun d => { d with direct := false }

@[simp] theorem indirect_indirect (n : Node) : n.indirect.indirect = n.indirect := rfl
@[simp] theorem name_indirect (n : Node) : n.indirect.name = n.name := rfl
@[simp] theorem parent_indirect (n : Node) : n.indirect.parent = n.parent := rfl
@[simp] theorem aggregation_indirect (n : Node) : n.indirect.aggregation = n.aggregation := rfl
@[simp] theorem isLeg_indirect (n : Node) : n.indirect.isLeg = n.isLeg := rfl
@[simp] theorem isActive_indirect (n : Node) : n.indirect.isActive = n.isActive := rfl
@[simp] theorem isShown_indirect (n : Node) : n.indirect.isShown = n.isShown := rfl
@[simp] theorem column_indirect (n : Node) : n.indirect.decisions.column = n.decisions.column := rfl

@[simp] theorem direct_indirect (n : Node) : n.indirect.decisions.direct = false := rfl

@[simp] theorem concurrent_indirect (n : Node) :
    n.indirect.decisions.concurrent = n.decisions.concurrent := rfl

@[simp] theorem orderMetric_indirect (n : Node) :
    n.indirect.decisions.orderMetric = n.decisions.orderMetric := rfl

@[simp] theorem isBlanked_indirect (n : Node) : Rows.isBlanked n.indirect = Rows.isBlanked n := rfl

theorem isRevision_indirect (n : Node) : n.IsRevision n.indirect :=
  ⟨rfl, id, fun _ hcolumn => hcolumn, Or.inl, fun _ _ => rfl⟩

end Node

namespace Forest

variable {forest : Forest}

/-- The forest with the leg at an index as an indirect filter. -/
def indirectAt (forest : Forest) (index : Nat) : Forest :=
  forest.decideAt index fun d => { d with direct := false }

/-- The forest with every leg as an indirect filter. -/
def undirected (forest : Forest) : Forest := forest.map Node.indirect

theorem getElem?_indirectAt (forest : Forest) (index i : Nat) :
    (forest.indirectAt index)[i]? =
      (forest[i]?).map fun n => if i = index then n.indirect else n := by
  rw [indirectAt, decideAt, List.getElem?_modify]
  cases forest[i]? with
  | none => rfl
  | some n =>
      by_cases h : index = i
      · subst h
        simp [Node.indirect]
      · simp [h, Ne.symm h]

theorem zipIdx_indirectAt (forest : Forest) (index : Nat) :
    (forest.indirectAt index).zipIdx = forest.zipIdx.map fun entry =>
      (if entry.2 = index then entry.1.indirect else entry.1, entry.2) := by
  apply List.ext_getElem?
  intro i
  rw [List.getElem?_zipIdx, getElem?_indirectAt, List.getElem?_map, List.getElem?_zipIdx]
  cases forest[i]? with
  | none => rfl
  | some n => simp

theorem undirected_indirectAt (forest : Forest) (index : Nat) :
    (forest.indirectAt index).undirected = forest.undirected := by
  apply List.ext_getElem?
  intro i
  rw [undirected, undirected, List.getElem?_map, List.getElem?_map, getElem?_indirectAt]
  cases forest[i]? with
  | none => rfl
  | some n => by_cases h : i = index <;> simp [h]

theorem isRevision_undirected (forest : Forest) : forest.IsRevision forest.undirected := by
  unfold undirected IsRevision
  rw [List.forall₂_map_right_iff, List.forall₂_same]
  exact fun n _ => n.isRevision_indirect

@[simp] theorem getElem?_undirected (forest : Forest) (i : Nat) :
    forest.undirected[i]? = (forest[i]?).map Node.indirect := by
  rw [undirected, List.getElem?_map]

/-! ## What does not depend on the form of a leg -/

theorem anchor_undirected (forest : Forest) (i : Nat) :
    forest.undirected.anchor i = forest.anchor i := forest.isRevision_undirected.anchor_eq i

theorem isWithin_undirected (forest : Forest) (i a : Nat) :
    forest.undirected.isWithin i a = forest.isWithin i a :=
  forest.isRevision_undirected.isWithin_eq i a

theorem isSilenced_undirected (forest : Forest) (row : Row) (i : Nat) :
    forest.undirected.isSilenced row i = forest.isSilenced row i := by
  simp only [isSilenced, isWithin_undirected]

theorem legGroups_undirected (forest : Forest) :
    forest.undirected.legGroups = forest.legGroups := by
  have hanchor : Forest.anchor (forest.map Node.indirect) = forest.anchor :=
    funext forest.anchor_undirected
  simp [legGroups, undirected, hanchor, List.zipIdx_map, List.filter_map, Function.comp_def]

theorem concurrentRuns_undirected (forest : Forest) :
    forest.undirected.concurrentRuns = forest.concurrentRuns := by
  unfold concurrentRuns
  dsimp only
  rw [legGroups_undirected]
  congr 2
  funext legs
  congr 1
  funext i
  rw [getElem?_undirected]
  cases forest[i]? <;> rfl

theorem orderMetricName?_undirected (forest : Forest) (n : Node) :
    forest.undirected.orderMetricName? n = forest.orderMetricName? n := by
  unfold orderMetricName?
  cases n.decisions.orderMetric with
  | none => rfl
  | some i =>
      rw [Option.bind_some, Option.bind_some, getElem?_undirected]
      cases forest[i]? <;> rfl

end Forest

namespace Rows

theorem orderedMetric?_undirected (forest : Forest) (n : Node) :
    orderedMetric? forest.undirected n = orderedMetric? forest n := by
  unfold orderedMetric?
  cases n.decisions.orderMetric with
  | none => rfl
  | some i =>
      rw [Option.bind_some, Option.bind_some, Forest.getElem?_undirected]
      cases forest[i]? <;> rfl

theorem gapTarget?_undirected (forest : Forest) :
    gapTarget? forest.undirected = gapTarget? forest := by
  have hbehind (i : Nat) : isBehindTerms forest.undirected i = isBehindTerms forest i := by
    simp [isBehindTerms, Forest.undirected, ← List.map_drop, Function.comp_def]
  have hat (i : Nat) (n : Node) :
      gapTargetAt? forest.undirected i n.indirect = gapTargetAt? forest i n := by
    rw [gapTargetAt?, gapTargetAt?, hbehind]
    rfl
  simp only [gapTarget?, Forest.undirected, List.zipIdx_map, List.filterMap_map] at hat ⊢
  congr 2
  funext entry
  exact hat entry.2 entry.1

theorem isReadOutside_undirected (forest : Forest) (anchor : Nat) :
    isReadOutside forest.undirected anchor = isReadOutside forest anchor := by
  have hwithin := forest.isWithin_undirected
  simp only [isReadOutside, Forest.undirected, List.zipIdx_map, List.any_map] at hwithin ⊢
  congr 1
  funext entry
  exact congrArg (entry.1.isShown && !·) (hwithin entry.2 anchor)

theorem blankedColumns_undirected (forest : Forest) :
    blankedColumns forest.undirected = blankedColumns forest := by
  simp [blankedColumns, Forest.undirected, List.filter_map, List.filterMap_map, Function.comp_def]

end Rows

/-! ## The indirect form of one leg -/

namespace Forest

/-- What does not depend on the form of any leg does not depend on that of one. -/
theorem eq_of_undirected {α : Type} (f : Forest → α) (h : ∀ forest, f forest.undirected = f forest)
    (forest : Forest) (index : Nat) : f (forest.indirectAt index) = f forest := by
  rw [← h, undirected_indirectAt, h]

variable (forest : Forest) (index : Nat)

theorem anchor_indirectAt (i : Nat) : (forest.indirectAt index).anchor i = forest.anchor i :=
  eq_of_undirected (anchor · i) (anchor_undirected · i) forest index

theorem isSilenced_indirectAt (row : Row) (i : Nat) :
    (forest.indirectAt index).isSilenced row i = forest.isSilenced row i :=
  eq_of_undirected (isSilenced · row i) (isSilenced_undirected · row i) forest index

theorem legGroups_indirectAt : (forest.indirectAt index).legGroups = forest.legGroups :=
  eq_of_undirected legGroups legGroups_undirected forest index

theorem concurrentRuns_indirectAt :
    (forest.indirectAt index).concurrentRuns = forest.concurrentRuns :=
  eq_of_undirected concurrentRuns concurrentRuns_undirected forest index

theorem orderMetricName?_indirectAt (n : Node) :
    (forest.indirectAt index).orderMetricName? n = forest.orderMetricName? n :=
  eq_of_undirected (orderMetricName? · n) (orderMetricName?_undirected · n) forest index

end Forest

namespace Rows

open Forest

variable (forest : Forest) (index : Nat)

theorem orderedMetric?_indirectAt (n : Node) :
    orderedMetric? (forest.indirectAt index) n = orderedMetric? forest n :=
  eq_of_undirected (orderedMetric? · n) (orderedMetric?_undirected · n) forest index

theorem gapTarget?_indirectAt : gapTarget? (forest.indirectAt index) = gapTarget? forest :=
  eq_of_undirected gapTarget? gapTarget?_undirected forest index

theorem isReadOutside_indirectAt (anchor : Nat) :
    isReadOutside (forest.indirectAt index) anchor = isReadOutside forest anchor :=
  eq_of_undirected (isReadOutside · anchor) (isReadOutside_undirected · anchor) forest index

theorem blankedColumns_indirectAt :
    blankedColumns (forest.indirectAt index) = blankedColumns forest :=
  eq_of_undirected blankedColumns blankedColumns_undirected forest index

end Rows

/-! ## A leg around all other nodes -/

namespace Forest

/-- Whether a direct leg has all other active nodes but the query below it, and a column that none
of them reads. -/
structure Encloses (forest : Forest) (index : Nat) (leg : Node) (c : String) : Prop where
  at_index : forest[index]? = some leg
  isLeg : leg.isLeg = true
  active : leg.isActive = true
  direct : leg.decisions.direct = true
  alone : leg.decisions.concurrent = false
  column : leg.decisions.column = some c
  below : ∀ (i : Nat) (n : Node), i ≠ index → forest[i]? = some n → n.isActive = true →
    n.isQuery = false → forest.isBelow i index = true
  apart : ∀ (i : Nat) (n : Node), i ≠ index → forest[i]? = some n → n.isShown = true →
    n.readColumn? ≠ some c

/-- A node reads the column by which it groups. -/
theorem readColumn?_of_groupColumn? {n : Node} {c : String} (hgroup : n.groupColumn? = some c) :
    n.readColumn? = some c ∧ n.isActive = true ∧ n.isQuery = false := by
  unfold Node.groupColumn? at hgroup
  split at hgroup
  · cases hgroup
  · rename_i hactive
    refine ⟨?_, by simpa using hactive, ?_⟩ <;>
      cases haggregation : n.aggregation <;>
        simp_all [Node.readColumn?, Node.outputColumn?, Node.isQuery, Aggregation.isQuery,
          Aggregation.query?]

namespace Encloses

variable {forest : Forest} {index : Nat} {leg : Node} {c : String}

/-- All other active nodes but the query come later. -/
theorem lt_of_active (h : forest.Encloses index leg c) (hlaid : forest.IsLaidOut) {i : Nat}
    {n : Node} (hne : i ≠ index) (hn : forest[i]? = some n) (hactive : n.isActive = true)
    (hquery : n.isQuery = false) : index < i :=
  hlaid.lt_of_isBelow (h.below i n hne hn hactive hquery) h.at_index
    (Node.isQuery_of_isLeg h.isLeg) rfl

/-- No other node groups by the column of the leg. -/
theorem groupColumn?_ne (h : forest.Encloses index leg c) {i : Nat} {n : Node} (hne : i ≠ index)
    (hn : forest[i]? = some n) : n.groupColumn? ≠ some c := by
  intro hgroup
  obtain ⟨hread, hactive, hquery⟩ := readColumn?_of_groupColumn? hgroup
  exact h.apart i n hne hn (by simp [Node.isShown, hactive, hquery]) hread

theorem groupColumn?_leg (h : forest.Encloses index leg c) :
    leg.groupColumn? = none ∧ leg.indirect.groupColumn? = some c := by
  obtain ⟨l, hl⟩ := Node.exists_leg h.isLeg
  have hactive : leg.decisions.disabled = false := by simpa [Node.isActive] using h.active
  simp [Node.groupColumn?, Node.outputColumn?, Node.indirect, Node.decide, Node.isActive, hl,
    h.direct, h.column, hactive]

/-- Before the leg nothing groups the rows. -/
theorem filterMap_take (h : forest.Encloses index leg c) (hlaid : forest.IsLaidOut) :
    (forest.take index).filterMap Node.groupColumn? = [] := by
  rw [List.filterMap_eq_nil_iff]
  intro n hn
  obtain ⟨i, hi⟩ := List.getElem?_of_mem hn
  have hlt : i < index := by
    have := (List.getElem?_eq_some_iff.mp hi).1
    rw [List.length_take] at this
    omega
  rw [List.getElem?_take_of_lt hlt] at hi
  cases hgroup : n.groupColumn? with
  | none => rfl
  | some column =>
      obtain ⟨-, hactive, hquery⟩ := readColumn?_of_groupColumn? hgroup
      have := h.lt_of_active hlaid (Nat.ne_of_lt hlt) hi hactive hquery
      omega

theorem take_indirectAt (forest : Forest) (index : Nat) :
    (forest.indirectAt index).take index = forest.take index := by
  apply List.ext_getElem?
  intro i
  rw [List.getElem?_take, List.getElem?_take, getElem?_indirectAt]
  split
  · rename_i hlt
    simp [Nat.ne_of_lt hlt]
  · rfl

/-- The leg and what comes behind it, in both forms. -/
theorem drop_index (h : forest.Encloses index leg c) :
    forest.drop index = leg :: forest.drop (index + 1) ∧
      (forest.indirectAt index).drop index = leg.indirect :: forest.drop (index + 1) := by
  constructor <;> apply List.ext_getElem? <;> intro i <;> cases i with
  | zero => simp [List.getElem?_drop, getElem?_indirectAt, h.at_index]
  | succ i =>
      simp [List.getElem?_drop, getElem?_indirectAt, Nat.add_assoc, Nat.add_comm 1 i]

/-- Behind the leg the indirect form groups by the column of the leg and then by what the direct
form groups by. -/
theorem groupColumnsBefore_indirectAt (h : forest.Encloses index leg c) (hlaid : forest.IsLaidOut)
    {count : Nat} (hlt : index < count) :
    (forest.indirectAt index).groupColumnsBefore count = c :: forest.groupColumnsBefore count ∧
      c ∉ forest.groupColumnsBefore count := by
  obtain ⟨k, rfl⟩ : ∃ k, count = index + (k + 1) := ⟨count - index - 1, by omega⟩
  have hlater : c ∉ ((forest.drop (index + 1)).take k).filterMap Node.groupColumn? := by
    intro hmem
    obtain ⟨n, hn, hgroup⟩ := List.mem_filterMap.mp hmem
    obtain ⟨i, hi⟩ := List.getElem?_of_mem (List.mem_of_mem_take hn)
    rw [List.getElem?_drop] at hi
    exact h.groupColumn?_ne (by omega) hi hgroup
  simp only [groupColumnsBefore, List.take_add, take_indirectAt, h.drop_index, List.take_succ_cons,
    List.filterMap_append, h.filterMap_take hlaid, List.nil_append, List.filterMap_cons,
    h.groupColumn?_leg]
  refine ⟨?_, by simpa [List.mem_eraseDups] using hlater⟩
  rw [List.eraseDups_cons, List.filter_eq_self.mpr]
  intro other hother
  simpa using fun heq : other = c => hlater (heq ▸ hother)

end Encloses

end Forest

/-! ## Direct legs of a plan -/

namespace Plan

/-- A leg that is marked as direct encloses all. -/
theorem enclosesAll_of_direct {forest : Forest} {i : Nat} {x : Node}
    (hx : (markDirect forest)[i]? = some x) (hleg : x.isLeg = true)
    (hdirect : x.decisions.direct = true) : enclosesAll forest i = true := by
  unfold markDirect at hx
  rw [getElem?_zipIdx_map] at hx
  obtain ⟨y, hy, heq⟩ := Option.map_eq_some_iff.mp hx
  cases hl : y.aggregation.leg? with
  | none =>
      simp only [hl] at heq
      rw [← heq, Node.isLeg, Aggregation.isLeg, hl] at hleg
      cases hleg
  | some l =>
      simp only [hl] at heq
      rw [← heq] at hdirect
      have hparts : isDirect forest i y l = true := hdirect
      simp only [isDirect, Bool.and_eq_true] at hparts
      exact hparts.1.2

end Plan

namespace TablePlan

open Plan

/-- A direct leg of a plan has all other active nodes but the query below it, and its column is not
that of the count. -/
theorem encloses_of_direct {now : Calendar.Instant} {json : Json} {forest : Forest}
    {tables : List Table} {settings : Settings} {plan : TablePlan}
    (hforest : Forest.ofJson now json = .ok forest) (hkeys : json.hasDistinctKeys = true)
    (hplan : plan ∈ forTables forest tables settings) (hskipped : plan.isSkipped = false)
    {index : Nat} {leg : Node} {c : String} (hat : plan.forest[index]? = some leg)
    (hleg : leg.isLeg = true) (hdirect : leg.decisions.direct = true)
    (hcolumn : leg.decisions.column = some c)
    (hapart : ∀ (i : Nat) (n : Node), i ≠ index → plan.forest[i]? = some n → n.isShown = true →
      n.readColumn? ≠ some c) :
    plan.forest.Encloses index leg c ∧ c ≠ plan.countColumn := by
  obtain ⟨hlaid, hmarked⟩ := isLaidOut_of_mem_forTables hforest hkeys hplan hskipped
  have hmem := List.mem_of_getElem? hat
  obtain ⟨hactive, halone⟩ := hmarked.direct leg hmem hleg hdirect
  refine ⟨⟨hat, hleg, hactive, hdirect, halone, hcolumn, fun i n hne hn hnactive hquery => ?_,
    hapart⟩, ?_⟩
  · -- what encloses all before the orders are decided does so afterwards
    simp only [forTables, List.mem_map] at hplan
    obtain ⟨table, -, rfl⟩ := hplan
    obtain ⟨context, named, last, -, -, hordered⟩ := exists_marked hskipped
    rw [hordered] at hat hn ⊢
    have hall := enclosesAll_of_direct
      ((getElem?_orderNodes_iff (Node.terms?_of_isLeg hleg)).mp hat) hleg hdirect
    have hrevision : (markConcurrent last).IsRevision
        (orderNodes context (markDirect (markConcurrent last))).1 :=
      (isRevision_markDirect _).trans (isRevision_orderNodes context _)
    obtain ⟨before, hbefore, hnode⟩ := hrevision.node hn
    rw [enclosesAll, List.all_eq_true] at hall
    have hbelow := hall (before, i) (List.mem_zipIdx_iff_getElem?.mpr hbefore)
    rw [hrevision.isBelow_eq]
    simpa [hne, hnode.active hnactive, ← hnode.isQuery, hquery] using hbelow
  · obtain ⟨record, -, hfree, hrecorded⟩ :=
      exists_record_of_mem_forTables (isUnnamed_of_ofJson hforest) hplan hskipped
    obtain ⟨l, hl⟩ := Node.exists_leg hleg
    obtain ⟨e, column, -, hsame, hentry⟩ := hrecorded leg hmem hactive (by rw [hl]; rfl)
    obtain rfl := Option.some.inj (hcolumn.symm.trans hsame)
    exact (hfree _ hentry).uncounted

end TablePlan

end Rollup
