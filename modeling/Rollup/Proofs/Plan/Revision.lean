/-
# What planning may change

Passes decide about the nodes of a forest and never add, drop or move one. A later forest is
therefore a revision of an earlier one: node by node it asks for the same, a node that was left
out stays out, a column that was given stays, and the query is never left out. Every pass gives a
revision, so the forest of a plan is a revision of the forest of the request.
-/

import Mathlib.Data.List.Forall2
import Rollup.Plan.TablePlan

namespace Rollup

namespace Node

/-- The node without what is decided about it. -/
def bare (n : Node) : Node := { n with decisions := {} }

@[simp] theorem bare_decide (n : Node) (f : Decisions → Decisions) :
    (n.decide f).bare = n.bare := rfl

theorem aggregation_of_bare_eq {before after : Node} (h : after.bare = before.bare) :
    after.aggregation = before.aggregation := by
  simpa [bare] using congrArg aggregation h

/-- A node after more was decided about it. Only metrics are ever blanked, and the query has no
parent, so that no aggregation takes it along when it is left out. -/
structure IsRevision (before after : Node) : Prop where
  bare : after.bare = before.bare
  active : after.isActive = true → before.isActive = true
  column : ∀ c, before.decisions.column = some c → after.decisions.column = some c
  blanked : after.decisions.blanked = true →
    before.decisions.blanked = true ∨ before.isMetric = true
  query : before.isQuery = true → before.parent = none → after.isActive = before.isActive

namespace IsRevision

variable {first second third : Node}

@[refl] theorem refl (n : Node) : n.IsRevision n :=
  ⟨rfl, id, fun _ hcolumn => hcolumn, Or.inl, fun _ _ => rfl⟩

theorem aggregation (h : first.IsRevision second) :
    second.aggregation = first.aggregation := aggregation_of_bare_eq h.bare

theorem parent (h : first.IsRevision second) : second.parent = first.parent := by
  simpa [Node.bare] using congrArg Node.parent h.bare

theorem name (h : first.IsRevision second) : second.name = first.name := by
  simpa [Node.bare] using congrArg Node.name h.bare

theorem isMetric (h : first.IsRevision second) : second.isMetric = first.isMetric :=
  congrArg Aggregation.isMetric h.aggregation

theorem isQuery (h : first.IsRevision second) : second.isQuery = first.isQuery :=
  congrArg Aggregation.isQuery h.aggregation

theorem trans (hfirst : first.IsRevision second) (hsecond : second.IsRevision third) :
    first.IsRevision third where
  bare := hsecond.bare.trans hfirst.bare
  active := fun hactive => hfirst.active (hsecond.active hactive)
  column := fun c hcolumn => hsecond.column c (hfirst.column c hcolumn)
  blanked := by
    intro hblanked
    rcases hsecond.blanked hblanked with hearlier | hmetric
    · exact hfirst.blanked hearlier
    · exact Or.inr (hfirst.isMetric ▸ hmetric)
  query := by
    intro hquery hparent
    rw [hsecond.query (hfirst.isQuery ▸ hquery) (hfirst.parent ▸ hparent)]
    exact hfirst.query hquery hparent

end IsRevision

/-- A change of decisions that leaves activity, column and blanking alone is a revision. -/
theorem isRevision_decide (n : Node) (f : Decisions → Decisions)
    (hdisabled : (f n.decisions).disabled = n.decisions.disabled)
    (hcolumn : (f n.decisions).column = n.decisions.column)
    (hblanked : (f n.decisions).blanked = n.decisions.blanked) :
    n.IsRevision (n.decide f) where
  bare := rfl
  active := by simp [isActive, decide, hdisabled]
  column := by simp [decide, hcolumn]
  blanked := by
    intro h
    exact Or.inl (hblanked ▸ h)
  query := by simp [isActive, decide, hdisabled]

/-- Leaving out a node other than the query is a revision. -/
theorem isRevision_disabled (n : Node) (hnode : n.isQuery = false ∨ n.parent ≠ none) :
    n.IsRevision (n.decide fun d => { d with disabled := true }) where
  bare := rfl
  active := by simp [isActive, decide]
  column := fun _ hcolumn => hcolumn
  blanked := Or.inl
  query := by
    intro hquery hparent
    rcases hnode with h | h
    · exact absurd hquery (by simp [h])
    · exact absurd hparent h

end Node

namespace Forest

/-- A forest after more was decided about its nodes. -/
def IsRevision (before after : Forest) : Prop := List.Forall₂ Node.IsRevision before after

/-- The nodes without decisions. -/
def bare (forest : Forest) : Forest := forest.map Node.bare

namespace IsRevision

variable {first second third : Forest}

@[refl] theorem refl (forest : Forest) : forest.IsRevision forest :=
  List.forall₂_same.mpr fun n _ => Node.IsRevision.refl n

theorem trans (hfirst : first.IsRevision second) (hsecond : second.IsRevision third) :
    first.IsRevision third := by
  induction hfirst generalizing third with
  | nil => exact hsecond
  | cons hnode _ ih =>
      cases hsecond with
      | cons hnext hrest => exact List.Forall₂.cons (hnode.trans hnext) (ih hrest)

theorem length_eq (h : first.IsRevision second) : second.length = first.length :=
  (List.Forall₂.length_eq h).symm

theorem bare_eq (h : first.IsRevision second) : second.bare = first.bare := by
  induction h with
  | nil => rfl
  | cons hnode _ ih => exact congrArg₂ List.cons hnode.bare ih

/-- A node of the later forest is a revision of the node at the same place. -/
theorem node (h : first.IsRevision second) {index : Nat} {after : Node}
    (hafter : second[index]? = some after) :
    ∃ before, first[index]? = some before ∧ before.IsRevision after := by
  induction h generalizing index with
  | nil => simp at hafter
  | cons hnode _ ih =>
      cases index with
      | zero =>
          simp only [List.getElem?_cons_zero, Option.some.injEq] at hafter
          exact ⟨_, rfl, hafter ▸ hnode⟩
      | succ index => exact ih (by simpa using hafter)

/-- A node of the earlier forest has a revision at the same place. -/
theorem node_after (h : first.IsRevision second) {index : Nat} {before : Node}
    (hbefore : first[index]? = some before) :
    ∃ after, second[index]? = some after ∧ before.IsRevision after := by
  induction h generalizing index with
  | nil => simp at hbefore
  | cons hnode _ ih =>
      cases index with
      | zero =>
          simp only [List.getElem?_cons_zero, Option.some.injEq] at hbefore
          exact ⟨_, rfl, hbefore ▸ hnode⟩
      | succ index => exact ih (by simpa using hbefore)

/-- Steps that each give a revision give one together. -/
theorem foldl {α : Type} (step : Forest → α → Forest)
    (hstep : ∀ forest item, Forest.IsRevision forest (step forest item))
    (forest : Forest) (items : List α) :
    Forest.IsRevision forest (items.foldl step forest) := by
  induction items generalizing forest with
  | nil => exact refl forest
  | cons item rest ih => exact (hstep forest item).trans (ih (step forest item))

end IsRevision

/-- Revising the node at one place revises the forest. -/
theorem isRevision_decideAt (forest : Forest) (index : Nat) (f : Decisions → Decisions)
    (hnode : ∀ node, forest[index]? = some node → node.IsRevision (node.decide f)) :
    forest.IsRevision (forest.decideAt index f) := by
  induction forest generalizing index with
  | nil => simpa [decideAt] using IsRevision.refl []
  | cons node rest ih =>
      cases index with
      | zero => exact List.Forall₂.cons (hnode node rfl) (IsRevision.refl rest)
      | succ index =>
          exact List.Forall₂.cons (Node.IsRevision.refl node) (ih index hnode)

/-- Revising every node, each in view of its place, revises the forest. -/
theorem isRevision_zipIdx_map (forest : Forest) (f : Node × Nat → Node)
    (hnode : ∀ (node : Node) (index : Nat), node.IsRevision (f (node, index))) :
    forest.IsRevision (forest.zipIdx.map f) := by
  suffices h : ∀ start, forest.IsRevision ((forest.zipIdx start).map f) from h 0
  induction forest with
  | nil => intro start; exact IsRevision.refl []
  | cons node rest ih =>
      intro start
      exact List.Forall₂.cons (hnode node start) (ih (start + 1))

theorem isRevision_disableIfOrphaned (forest : Forest) (index : Nat) :
    forest.IsRevision (forest.disableIfOrphaned index) := by
  unfold disableIfOrphaned
  split
  · rename_i node hnode
    split
    · rename_i parent hparent
      split
      · apply isRevision_decideAt
        intro other hother
        obtain rfl : node = other := Option.some.inj (hnode.symm.trans hother)
        exact node.isRevision_disabled (Or.inr (by simp [hparent]))
      · exact IsRevision.refl forest
    · exact IsRevision.refl forest
  · exact IsRevision.refl forest

/-- Leaving out a node other than the query revises the forest. -/
theorem isRevision_disable (forest : Forest) (index : Nat)
    (hnode : ∀ node, forest[index]? = some node → node.isQuery = false) :
    forest.IsRevision (forest.disable index) := by
  unfold disable
  split
  · have hfirst : forest.IsRevision
        (forest.decideAt index fun d => { d with disabled := true }) :=
      isRevision_decideAt forest index _ fun node hat =>
        node.isRevision_disabled (Or.inl (hnode node hat))
    exact hfirst.trans (IsRevision.foldl _ isRevision_disableIfOrphaned _ _)
  · exact IsRevision.refl forest

/-- Leaving out several nodes, none of them the query, revises the forest. -/
theorem isRevision_foldl_disable (forest : Forest) (indices : List Nat)
    (hnodes : ∀ index ∈ indices, ∀ node, forest[index]? = some node → node.isQuery = false) :
    forest.IsRevision (indices.foldl disable forest) := by
  induction indices generalizing forest with
  | nil => exact IsRevision.refl forest
  | cons index rest ih =>
      have hfirst := isRevision_disable forest index (hnodes index (by simp))
      refine hfirst.trans (ih _ ?_)
      intro other hother after hafter
      obtain ⟨before, hbefore, hnode⟩ := hfirst.node hafter
      rw [hnode.isQuery]
      exact hnodes other (by simp [hother]) before hbefore

end Forest

namespace Plan

/-! ## The passes one by one -/

theorem isRevision_checkNode (table : Table) (forest : Forest) (index : Nat) :
    forest.IsRevision (checkNode table forest index).1 := by
  unfold checkNode
  split
  · rename_i node hnode
    split
    · exact Forest.IsRevision.refl forest
    · rename_i hkind
      split
      · exact Forest.IsRevision.refl forest
      · split
        · exact Forest.IsRevision.refl forest
        · have hquery : node.isQuery = false := by
            cases h : node.isQuery with
            | false => rfl
            | true => simp [h] at hkind
          have hout : forest.IsRevision (forest.disable index) := by
            apply Forest.isRevision_disable
            intro other hother
            rwa [← Option.some.inj (hnode.symm.trans hother)]
          refine hout.trans (Forest.isRevision_decideAt _ index _ ?_)
          intro after hafter
          obtain ⟨before, hbefore, hrevision⟩ := hout.node hafter
          obtain rfl : node = before := Option.some.inj (hnode.symm.trans hbefore)
          exact
            { bare := rfl
              active := id
              column := fun _ hcolumn => hcolumn
              blanked := fun hblanked => Or.inr (hrevision.isMetric.trans hblanked)
              query := fun _ _ => rfl }
  · exact Forest.IsRevision.refl forest

theorem isRevision_checkNodes (table : Table) (indices : List Nat) (forest : Forest) :
    forest.IsRevision (checkNodes table indices forest).1 := by
  induction indices generalizing forest with
  | nil => exact Forest.IsRevision.refl forest
  | cons index rest ih =>
      have hfirst := isRevision_checkNode table forest index
      unfold checkNodes
      split
      · rename_i next hnext
        rw [hnext] at hfirst
        exact hfirst.trans (ih next)
      · exact hfirst

theorem isRevision_checkAttributes (table : Table) (forest : Forest) :
    forest.IsRevision (checkAttributes table forest).1 := by
  unfold checkAttributes
  dsimp only
  split
  · exact Forest.IsRevision.refl forest
  · exact isRevision_checkNodes table _ forest

/-! ## Nodes without columns -/

end Plan

namespace Forest

/-- Whether no node has a column yet. -/
def IsUnnamed (forest : Forest) : Prop := ∀ n ∈ forest, n.decisions.column = none

theorem IsUnnamed.decideAt {forest : Forest} (h : forest.IsUnnamed) (index : Nat)
    (f : Decisions → Decisions) (hf : ∀ d, (f d).column = d.column) :
    (forest.decideAt index f).IsUnnamed := by
  intro n hn
  obtain ⟨i, hi⟩ := List.getElem?_of_mem hn
  rw [Forest.decideAt, List.getElem?_modify] at hi
  obtain ⟨m, hm, heq⟩ := Option.map_eq_some_iff.mp hi
  have hnone := h m (List.mem_of_getElem? hm)
  split at heq
  · rw [← heq]
    exact (hf m.decisions).trans hnone
  · rw [← heq]
    exact hnone

/-- Leaving out nodes names none. -/
theorem IsUnnamed.disable {forest : Forest} (h : forest.IsUnnamed) (index : Nat) :
    (forest.disable index).IsUnnamed := by
  have horphaned (earlier : Forest) (hearlier : earlier.IsUnnamed) (i : Nat) :
      (earlier.disableIfOrphaned i).IsUnnamed := by
    unfold disableIfOrphaned
    split
    · split
      · split
        · exact hearlier.decideAt i _ fun _ => rfl
        · exact hearlier
      · exact hearlier
    · exact hearlier
  unfold Forest.disable
  split
  · have hfirst := h.decideAt index (fun d => { d with disabled := true }) fun _ => rfl
    exact List.foldlRecOn _ _ hfirst fun earlier hearlier i _ => horphaned earlier hearlier i
  · exact h

end Forest

namespace Plan

theorem isUnnamed_checkNode {table : Table} {forest : Forest} (h : forest.IsUnnamed)
    (index : Nat) : (checkNode table forest index).1.IsUnnamed := by
  unfold checkNode
  split
  · split
    · exact h
    · split
      · exact h
      · split
        · exact h
        · exact (h.disable index).decideAt index _ fun _ => rfl
  · exact h

theorem isUnnamed_checkNodes {table : Table} (indices : List Nat) {forest : Forest}
    (h : forest.IsUnnamed) : (checkNodes table indices forest).1.IsUnnamed := by
  induction indices generalizing forest with
  | nil => exact h
  | cons index rest ih =>
      have hfirst : (checkNode table forest index).1.IsUnnamed := isUnnamed_checkNode h index
      unfold checkNodes
      split
      · rename_i next hnext
        rw [hnext] at hfirst
        exact ih hfirst
      · exact hfirst

/-- Checking attributes names no node. -/
theorem isUnnamed_checkAttributes {table : Table} {forest : Forest} (h : forest.IsUnnamed) :
    (checkAttributes table forest).1.IsUnnamed := by
  unfold checkAttributes
  dsimp only
  split
  · exact h
  · exact isUnnamed_checkNodes _ h

/-! ## The other passes -/

theorem isRevision_nameNode (context : PlanContext) (naming : Naming) (node : Node) :
    node.IsRevision (nameNode context naming node).1 := by
  unfold nameNode
  split
  · rename_i hneeds
    have hnone : node.decisions.column = none :=
      Option.isNone_iff_eq_none.mp (Bool.and_eq_true_iff.mp hneeds).2
    split
    · exact
        { bare := rfl
          active := id
          column := fun c hcolumn => by simp [hnone] at hcolumn
          blanked := Or.inl
          query := fun _ _ => rfl }
    · exact Node.IsRevision.refl node
  · exact Node.IsRevision.refl node

theorem isRevision_nameNodes (context : PlanContext) (naming : Naming) (forest : Forest) :
    forest.IsRevision (nameNodes context naming forest) := by
  induction forest generalizing naming with
  | nil => exact Forest.IsRevision.refl []
  | cons node rest ih =>
      exact List.Forall₂.cons (isRevision_nameNode context naming node) (ih _)

theorem isRevision_dropUnreadable (forest : Forest) (index : Nat) :
    forest.IsRevision (dropUnreadable forest index) := by
  unfold dropUnreadable
  split
  · rename_i node hnode
    split
    · rename_i failure hfailure
      split
      · apply Forest.isRevision_disable
        intro other hother
        rw [← Option.some.inj (hnode.symm.trans hother)]
        cases hkind : node.aggregation <;>
          simp_all [Node.isQuery, Aggregation.isQuery, Aggregation.query?, Aggregation.leg?]
      · exact Forest.IsRevision.refl forest
    · exact Forest.IsRevision.refl forest
  · exact Forest.IsRevision.refl forest

theorem isRevision_markConcurrentGroup (forest : Forest) (group : List Nat) :
    forest.IsRevision (markConcurrentGroup forest group) := by
  unfold markConcurrentGroup
  apply Forest.IsRevision.foldl
  intro earlier index
  exact Forest.isRevision_decideAt earlier index _ fun node _ =>
    node.isRevision_decide _ rfl rfl rfl

theorem isRevision_markConcurrent (forest : Forest) :
    forest.IsRevision (markConcurrent forest) :=
  Forest.IsRevision.foldl _ isRevision_markConcurrentGroup forest _

theorem isRevision_markDirect (forest : Forest) : forest.IsRevision (markDirect forest) := by
  unfold markDirect
  apply Forest.isRevision_zipIdx_map
  intro node index
  dsimp only
  split
  · exact node.isRevision_decide _ rfl rfl rfl
  · exact Node.IsRevision.refl node

/-- Only legs search in the full text and cannot be columns. -/
theorem isQuery_of_mem_unselectable {forest : Forest} {index : Nat}
    (hindex : index ∈ unselectable forest) (node : Node) (hnode : forest[index]? = some node) :
    node.isQuery = false := by
  simp only [unselectable, List.mem_map, List.mem_filter] at hindex
  obtain ⟨⟨other, place⟩, ⟨hmem, hother⟩, rfl⟩ := hindex
  obtain rfl : other = node :=
    Option.some.inj ((List.mem_zipIdx_iff_getElem?.mp hmem).symm.trans hnode)
  cases hkind : other.aggregation <;>
    simp_all [Node.isQuery, Aggregation.isQuery, Aggregation.query?, Aggregation.leg?]

theorem isRevision_settleFilters (fuel : Nat) (forest : Forest) :
    forest.IsRevision (settleFilters fuel forest) := by
  have hmarked (earlier : Forest) : earlier.IsRevision (markDirect (markConcurrent earlier)) :=
    (isRevision_markConcurrent earlier).trans (isRevision_markDirect _)
  induction fuel generalizing forest with
  | zero => exact hmarked forest
  | succ fuel ih =>
      rw [settleFilters]
      split
      · exact hmarked forest
      · exact (hmarked forest).trans ((Forest.isRevision_foldl_disable _ _
          fun _ hindex => isQuery_of_mem_unselectable hindex).trans (ih _))

theorem isRevision_classifyFilters (forest : Forest) :
    forest.IsRevision (classifyFilters forest) :=
  (Forest.IsRevision.foldl _ isRevision_dropUnreadable forest _).trans
    (isRevision_settleFilters _ _)

theorem isRevision_orderNodes (context : PlanContext) (forest : Forest) :
    forest.IsRevision (orderNodes context forest).1 := by
  apply Forest.isRevision_zipIdx_map
  intro node index
  dsimp only
  split
  · split
    · exact node.isRevision_decide _ rfl rfl rfl
    · exact Node.IsRevision.refl node
  · exact Node.IsRevision.refl node

end Plan

namespace PlanPass

/-- A pass revises the forest. -/
theorem isRevision_apply (pass : PlanPass) (draft : Draft) :
    draft.forest.IsRevision (pass.apply draft).1.forest := by
  cases pass with
  | attributes => exact Plan.isRevision_checkAttributes _ _
  | columns => exact Plan.isRevision_nameNodes _ _ _
  | filters => exact Plan.isRevision_classifyFilters _
  | orders => exact Plan.isRevision_orderNodes _ _

theorem isRevision_runEach (passes : List PlanPass) (draft : Draft) :
    draft.forest.IsRevision (runEach passes draft).1.forest := by
  induction passes generalizing draft with
  | nil => exact Forest.IsRevision.refl _
  | cons pass rest ih =>
      have hpass := isRevision_apply pass draft
      unfold runEach
      split
      · split
        · rename_i next hnext
          rw [hnext] at hpass
          exact hpass.trans (ih next)
        · exact hpass
      · exact ih draft

end PlanPass

namespace TablePlan

/-- A plan revises the forest that is planned. -/
theorem isRevision_ofForest (forest : Forest) (table : Table) (multiTable : Bool)
    (reserved : List String) (settings : Settings) :
    forest.IsRevision (ofForest forest table multiTable reserved settings).forest := by
  have hrun := PlanPass.isRevision_runEach PlanPass.all
    ⟨PlanContext.new table multiTable reserved settings.countColumn, forest⟩
  unfold ofForest
  dsimp only [PlanPass.run]
  split <;> rename_i hend <;> rwa [hend] at hrun

/-- Every plan for tables revises the forest of the request. -/
theorem isRevision_of_mem_forTables {forest : Forest} {tables : List Table}
    {settings : Settings} {plan : TablePlan} (hplan : plan ∈ forTables forest tables settings) :
    forest.IsRevision plan.forest := by
  simp only [forTables, List.mem_map] at hplan
  obtain ⟨table, -, rfl⟩ := hplan
  exact isRevision_ofForest forest table _ _ settings

end TablePlan
end Rollup
