/-
# The legs of a plan

In the forest of a plan the active legs of one aggregation are concurrent when there are several of
them, and a direct leg is active and alone. The runs of concurrent legs are therefore the
aggregations with several active legs, each run in the order of the forest.
-/

import Mathlib.Data.List.Nodup
import Rollup.Proofs.Forest.Anchors
import Rollup.Response.Fold

namespace Rollup

theorem nodup_eraseDups {α : Type} [BEq α] [LawfulBEq α] (items : List α) :
    items.eraseDups.Nodup := by
  induction hlength : items.length using Nat.strongRecOn generalizing items with
  | ind n ih =>
      cases items with
      | nil => simp
      | cons first rest =>
          rw [List.eraseDups_cons, List.nodup_cons]
          constructor
          · simp [List.mem_eraseDups]
          · refine ih _ ?_ _ rfl
            have := List.length_filter_le (fun b => !b == first) rest
            rw [← hlength, List.length_cons]
            omega

namespace Forest

variable {forest : Forest}

/-- Whether the node at an index is active. -/
def isActiveAt (forest : Forest) (index : Nat) : Bool :=
  match forest[index]? with
  | some node => node.isActive
  | none => false

/-- All legs, in order. -/
def legIndices (forest : Forest) : List Nat :=
  (forest.zipIdx.filter fun (n, _) => n.isLeg).map Prod.snd

/-- The legs of the aggregation that starts at an anchor, in order. -/
def legsOf (forest : Forest) (anchor : Nat) : List Nat :=
  forest.legIndices.filter fun index => forest.anchor index = anchor

theorem mem_legIndices {i : Nat} :
    i ∈ forest.legIndices ↔ ∃ n, forest[i]? = some n ∧ n.isLeg = true := by
  simp only [legIndices, List.mem_map, List.mem_filter, Prod.exists]
  constructor
  · rintro ⟨n, j, ⟨hmem, hleg⟩, rfl⟩
    exact ⟨n, List.mem_zipIdx_iff_getElem?.mp hmem, hleg⟩
  · rintro ⟨n, hn, hleg⟩
    exact ⟨n, i, ⟨List.mem_zipIdx_iff_getElem?.mpr hn, hleg⟩, rfl⟩

theorem mem_legsOf {anchor i : Nat} :
    i ∈ forest.legsOf anchor ↔
      (∃ n, forest[i]? = some n ∧ n.isLeg = true) ∧ forest.anchor i = anchor := by
  rw [legsOf, List.mem_filter, mem_legIndices, decide_eq_true_iff]

/-- Indices are in ascending order. -/
theorem pairwise_legIndices (forest : Forest) : forest.legIndices.Pairwise (· < ·) := by
  have hsublist := (List.filter_sublist (p := fun entry : Node × Nat => entry.1.isLeg)
    (l := forest.zipIdx)).map Prod.snd
  refine List.Pairwise.sublist hsublist ?_
  rw [List.zipIdx_map_snd]
  exact List.pairwise_lt_range'

theorem pairwise_legsOf (forest : Forest) (anchor : Nat) :
    (forest.legsOf anchor).Pairwise (· < ·) :=
  (pairwise_legIndices forest).sublist List.filter_sublist

theorem mem_legGroups {group : List Nat} :
    group ∈ forest.legGroups ↔
      ∃ i ∈ forest.legIndices, group = forest.legsOf (forest.anchor i) := by
  unfold legGroups legsOf legIndices
  simp only [List.mem_map, List.mem_eraseDups]
  constructor
  · rintro ⟨start, ⟨i, hi, rfl⟩, rfl⟩
    exact ⟨i, hi, rfl⟩
  · rintro ⟨i, hi, rfl⟩
    exact ⟨_, ⟨i, hi, rfl⟩, rfl⟩

/-- A node belongs to one group at most, the legs of its aggregation. -/
theorem eq_legsOf_of_mem {group : List Nat} (hgroup : group ∈ forest.legGroups) {i : Nat}
    (hi : i ∈ group) : group = forest.legsOf (forest.anchor i) := by
  obtain ⟨j, -, rfl⟩ := mem_legGroups.mp hgroup
  rw [(mem_legsOf.mp hi).2]

theorem mem_group_iff {i : Nat} :
    (∃ group ∈ forest.legGroups, i ∈ group) ↔ i ∈ forest.legIndices := by
  constructor
  · rintro ⟨group, hgroup, hi⟩
    rw [eq_legsOf_of_mem hgroup hi, mem_legsOf] at hi
    exact mem_legIndices.mpr hi.1
  · intro hi
    exact ⟨_, mem_legGroups.mpr ⟨i, hi, rfl⟩, mem_legsOf.mpr ⟨mem_legIndices.mp hi, rfl⟩⟩

/-- Different groups have no leg in common. -/
theorem pairwise_disjoint_legGroups (forest : Forest) :
    forest.legGroups.Pairwise List.Disjoint := by
  unfold legGroups
  rw [List.pairwise_map]
  refine (nodup_eraseDups _).imp fun hne i hfirst hsecond => hne ?_
  have hanchor := of_decide_eq_true (List.mem_filter.mp hfirst).2
  exact hanchor.symm.trans (of_decide_eq_true (List.mem_filter.mp hsecond).2)

/-- What is shown of the decisions about the legs in the forest of a plan. -/
structure IsMarked (forest : Forest) : Prop where
  concurrent : ∀ i x, forest[i]? = some x → x.isLeg = true → x.isActive = true →
    (x.decisions.concurrent = true ↔
      ∃ j y, j ≠ i ∧ forest[j]? = some y ∧ y.isLeg = true ∧ y.isActive = true ∧
        forest.anchor j = forest.anchor i)
  direct : ∀ n ∈ forest, n.isLeg = true → n.decisions.direct = true →
    n.isActive = true ∧ n.decisions.concurrent = false
  column : ∀ n ∈ forest, n.aggregation.needsColumn = true → n.aggregation.expression? ≠ none →
    n.decisions.column ≠ none
  blanked : ∀ n ∈ forest, n.decisions.blanked = true → n.isMetric = true

/-- A leg that matches every row has a column all the same. -/
theorem IsMarked.column_of_matchesAll (hmarked : forest.IsMarked) {n : Node} (hn : n ∈ forest)
    {l : Leg} (hl : n.aggregation = .leg l) (hall : l.matchesAll = true) :
    n.decisions.column ≠ none := by
  apply hmarked.column n hn
  · rw [hl]
    rfl
  · rw [hl]
    unfold Leg.matchesAll at hall
    split at hall
    · rename_i hfilter
      simp [Aggregation.expression?, Leg.expression?, hfilter]
    · cases hall

/-- A leg with others beside it is not direct. -/
theorem IsMarked.direct_eq_false (hmarked : forest.IsMarked) {n : Node} (hn : n ∈ forest)
    (hleg : n.isLeg = true) (hconcurrent : n.decisions.concurrent = true) :
    n.decisions.direct = false := by
  rw [Bool.eq_false_iff]
  intro hdirect
  rw [(hmarked.direct n hn hleg hdirect).2] at hconcurrent
  cases hconcurrent

/-- Whatever is shown is active, but for metrics without a value. -/
theorem IsMarked.isActive_or_isMetric (hmarked : forest.IsMarked) {n : Node} (hn : n ∈ forest)
    (hshown : n.isShown = true) : n.isActive = true ∨ n.isMetric = true := by
  simp only [Node.isShown, Bool.and_eq_true, Bool.or_eq_true] at hshown
  exact hshown.2.imp_right (hmarked.blanked n hn)

/-- A leg that is shown is active. -/
theorem IsMarked.isActive_of_isShown (hmarked : forest.IsMarked) {n : Node} (hn : n ∈ forest)
    (hleg : n.isLeg = true) (hshown : n.isShown = true) : n.isActive = true := by
  obtain ⟨l, hl⟩ := Node.exists_leg hleg
  refine (hmarked.isActive_or_isMetric hn hshown).resolve_right ?_
  simp [Node.isMetric, Aggregation.isMetric, Aggregation.metric?, hl]

/-! ## Runs -/

/-- Whether the node at an index is an active leg with others beside it. -/
def isConcurrentAt (forest : Forest) (index : Nat) : Bool :=
  match forest[index]? with
  | some node => node.isActive && node.decisions.concurrent
  | none => false

/-- The concurrent legs of the aggregation that starts at an anchor. -/
def runOf (forest : Forest) (anchor : Nat) : List Nat :=
  (forest.legsOf anchor).filter forest.isConcurrentAt

theorem mem_runOf {anchor i : Nat} :
    i ∈ forest.runOf anchor ↔ (∃ n, forest[i]? = some n ∧ n.isLeg = true ∧ n.isActive = true ∧
      n.decisions.concurrent = true) ∧ forest.anchor i = anchor := by
  rw [runOf, List.mem_filter, mem_legsOf, isConcurrentAt]
  constructor
  · rintro ⟨⟨⟨n, hn, hleg⟩, hanchor⟩, hconcurrent⟩
    rw [hn, Bool.and_eq_true] at hconcurrent
    exact ⟨⟨n, hn, hleg, hconcurrent⟩, hanchor⟩
  · rintro ⟨⟨n, hn, hleg, hconcurrent⟩, hanchor⟩
    rw [hn, Bool.and_eq_true]
    exact ⟨⟨⟨n, rfl, hleg⟩, hanchor⟩, hconcurrent⟩

theorem mem_concurrentRuns {run : List Nat} :
    run ∈ forest.concurrentRuns ↔ ∃ i ∈ run, run = forest.runOf (forest.anchor i) := by
  have hruns : forest.concurrentRuns =
      (forest.legGroups.map fun legs => legs.filter forest.isConcurrentAt).filter
        fun run => !run.isEmpty := rfl
  rw [hruns, List.mem_filter, List.mem_map]
  constructor
  · rintro ⟨⟨group, hgroup, rfl⟩, hnonempty⟩
    obtain ⟨i, hi⟩ := List.exists_mem_of_ne_nil _
      (by simpa using hnonempty : group.filter forest.isConcurrentAt ≠ [])
    refine ⟨i, hi, ?_⟩
    rw [runOf, ← eq_legsOf_of_mem hgroup (List.mem_filter.mp hi).1]
  · rintro ⟨i, hi, heq⟩
    have hmem := hi
    rw [heq, mem_runOf] at hmem
    obtain ⟨⟨n, hn, hleg, -⟩, -⟩ := hmem
    refine ⟨⟨forest.legsOf (forest.anchor i), mem_legGroups.mpr
      ⟨i, mem_legIndices.mpr ⟨n, hn, hleg⟩, rfl⟩, heq.symm⟩, ?_⟩
    cases run with
    | nil => cases hi
    | cons first rest => rfl

theorem eq_runOf_of_mem {run : List Nat} (hrun : run ∈ forest.concurrentRuns) {i : Nat}
    (hi : i ∈ run) : run = forest.runOf (forest.anchor i) := by
  obtain ⟨j, hj, heq⟩ := mem_concurrentRuns.mp hrun
  rw [heq, mem_runOf] at hi
  rw [heq, hi.2]

theorem runOf_mem {i : Nat} (hi : i ∈ forest.runOf (forest.anchor i)) :
    forest.runOf (forest.anchor i) ∈ forest.concurrentRuns :=
  mem_concurrentRuns.mpr ⟨i, hi, rfl⟩

/-- A node is the last concurrent leg, an earlier one, or none at all. -/
theorem lastLeg?_eq (forest : Forest) (i : Nat) :
    lastLeg? forest.concurrentRuns i =
      if i ∈ forest.runOf (forest.anchor i) then
        some ((forest.runOf (forest.anchor i)).getLast? == some i)
      else none := by
  unfold lastLeg?
  cases hfind : forest.concurrentRuns.find? fun run => run.contains i with
  | none =>
      rw [List.find?_eq_none] at hfind
      rw [Option.map_none, if_neg]
      intro hi
      exact hfind _ (runOf_mem hi) (by simpa using hi)
  | some run =>
      have hmem : i ∈ run := by simpa using List.find?_some hfind
      have heq := eq_runOf_of_mem (List.mem_of_find?_eq_some hfind) hmem
      rw [Option.map_some, ← heq, if_pos hmem]

/-- Behind an earlier leg stands the last one. -/
theorem exists_last_of_lastLeg? {i : Nat}
    (h : lastLeg? forest.concurrentRuns i = some false) :
    ∃ last, i < last ∧ forest.anchor last = forest.anchor i ∧
      lastLeg? forest.concurrentRuns last = some true := by
  rw [lastLeg?_eq] at h
  split at h
  · rename_i hi
    have hne : forest.runOf (forest.anchor i) ≠ [] := List.ne_nil_of_mem hi
    have hlast := List.getLast_mem hne
    have hanchor := (mem_runOf.mp hlast).2
    have hgetLast := List.getLast?_eq_getLast_of_ne_nil hne
    rw [hgetLast, Option.some.injEq, beq_eq_false_iff_ne, ne_eq, Option.some.injEq] at h
    refine ⟨_, ?_, hanchor, ?_⟩
    · have hpairwise : (forest.runOf (forest.anchor i)).Pairwise (· < ·) :=
        (pairwise_legsOf forest _).sublist List.filter_sublist
      have hsplit := List.dropLast_append_getLast hne
      rw [← hsplit, List.mem_append, List.mem_singleton] at hi
      rw [← hsplit, List.pairwise_append] at hpairwise
      rcases hi with hbefore | hself
      · exact hpairwise.2.2 i hbefore _ (by simp)
      · exact absurd hself.symm h
    · rw [lastLeg?_eq, hanchor, if_pos hlast, hgetLast]
      simp
  · cases h

/-- There is one last leg only. -/
theorem eq_of_lastLeg? {i j : Nat} (hi : lastLeg? forest.concurrentRuns i = some true)
    (hj : lastLeg? forest.concurrentRuns j = some true)
    (hanchor : forest.anchor i = forest.anchor j) : i = j := by
  rw [lastLeg?_eq] at hi hj
  split at hi
  · split at hj
    · simp only [Option.some.injEq, beq_iff_eq] at hi hj
      rw [hanchor, hj] at hi
      exact (Option.some.inj hi).symm
    · cases hj
  · cases hi

theorem mem_runOf_of_lastLeg? {i : Nat} {last : Bool}
    (h : lastLeg? forest.concurrentRuns i = some last) : i ∈ forest.runOf (forest.anchor i) := by
  rw [lastLeg?_eq] at h
  split at h
  · assumption
  · cases h

end Forest

namespace Plan

/-! ## Marking -/

variable {forest : Forest}

theorem getElem?_foldl_decideAt (f : Decisions → Decisions) (hidempotent : ∀ d, f (f d) = f d)
    (indices : List Nat) (forest : Forest) (i : Nat) :
    (indices.foldl (fun forest index => forest.decideAt index f) forest)[i]? =
      forest[i]?.map fun n => if i ∈ indices then n.decide f else n := by
  induction indices generalizing forest with
  | nil => simp
  | cons index rest ih =>
      rw [List.foldl_cons, ih, Forest.decideAt, List.getElem?_modify, Option.map_eq_map,
        Option.map_map]
      congr 1
      funext n
      by_cases hi : index = i
      · by_cases hrest : i ∈ rest <;> simp [hi, hrest, Node.decide, hidempotent]
      · have hne : i ≠ index := fun h => hi h.symm
        simp [hi, hne]

/-- Whether the aggregation of a leg has several active legs. -/
def hasSeveral (forest : Forest) (i : Nat) : Bool :=
  1 < ((forest.legsOf (forest.anchor i)).filter forest.isActiveAt).length

/-- An active leg is concurrent if there are several. -/
def markAs (several : Bool) (d : Decisions) : Decisions :=
  { d with concurrent := several && !d.disabled }

/-- What marking says about a leg. -/
def markOf (forest : Forest) (i : Nat) (n : Node) : Node :=
  n.decide (markAs (hasSeveral forest i))

/-- Marking the legs of some aggregations. -/
theorem getElem?_foldl_markConcurrentGroup (groups : List (List Nat))
    (hgroups : ∀ group ∈ groups, ∀ i ∈ group, group = forest.legsOf (forest.anchor i))
    (marked : Forest) (done : Nat → Prop) [DecidablePred done]
    (hmarked : ∀ i : Nat, marked[i]? =
      forest[i]?.map fun n => if done i then markOf forest i n else n) (i : Nat) :
    (groups.foldl markConcurrentGroup marked)[i]? =
      forest[i]?.map fun n =>
        if done i ∨ ∃ group ∈ groups, i ∈ group then markOf forest i n else n := by
  induction groups generalizing marked done with
  | nil => simp [hmarked]
  | cons group rest ih =>
      have hactive : marked.isActiveAt = forest.isActiveAt := by
        funext index
        rw [Forest.isActiveAt, hmarked, Forest.isActiveAt]
        cases forest[index]? with
        | none => rfl
        | some n =>
            by_cases hdone : done index <;>
              simp [hdone, markOf, markAs, Node.isActive, Node.decide]
      have hgroup (j : Nat) : (markConcurrentGroup marked group)[j]? =
          forest[j]?.map fun n => if done j ∨ j ∈ group then markOf forest j n else n := by
        have hmark : markConcurrentGroup marked group =
            group.foldl (fun forest index => forest.decideAt index
              (markAs (decide (1 < (group.filter marked.isActiveAt).length)))) marked := rfl
        rw [hmark, hactive, getElem?_foldl_decideAt (markAs _) (fun _ => rfl), hmarked,
          Option.map_map]
        congr 1
        funext n
        by_cases hj : j ∈ group
        · have heq := hgroups group (by simp) j hj
          have hseveral : decide (1 < (group.filter forest.isActiveAt).length) =
              hasSeveral forest j := by rw [hasSeveral, ← heq]
          by_cases hdone : done j <;> simp [hj, hdone, markOf, markAs, Node.decide, hseveral]
        · simp [hj]
      rw [List.foldl_cons,
        ih (fun other hother => hgroups other (by simp [hother])) _ (fun j => done j ∨ j ∈ group)
          hgroup]
      congr 1
      funext n
      simp [or_assoc]

/-- Marking says of every leg whether it has others beside it, and nothing else. -/
theorem getElem?_markConcurrent (forest : Forest) (i : Nat) :
    (markConcurrent forest)[i]? =
      forest[i]?.map fun n => if n.isLeg then markOf forest i n else n := by
  rw [markConcurrent, getElem?_foldl_markConcurrentGroup forest.legGroups
    (fun group hgroup i hi => Forest.eq_legsOf_of_mem hgroup hi) forest (fun _ => False) (by simp)]
  cases hnode : forest[i]? with
  | none => rfl
  | some n =>
      have hiff : (∃ group ∈ forest.legGroups, i ∈ group) ↔ n.isLeg = true := by
        rw [Forest.mem_group_iff, Forest.mem_legIndices, hnode]
        simp
      simp [hiff]

/-- Several members of a list without repetition are one and another. -/
theorem one_lt_length_iff {α : Type} {items : List α} (hnodup : items.Nodup) {item : α}
    (hitem : item ∈ items) : 1 < items.length ↔ ∃ other ∈ items, other ≠ item := by
  cases items with
  | nil => cases hitem
  | cons first rest =>
      cases rest with
      | nil =>
          obtain rfl := List.mem_singleton.mp hitem
          simp
      | cons second rest =>
          rw [List.nodup_cons] at hnodup
          refine ⟨fun _ => ?_, fun _ => by simp⟩
          by_cases hfirst : first = item
          · refine ⟨second, by simp, ?_⟩
            rintro rfl
            exact hnodup.1 (by simp [hfirst])
          · exact ⟨first, by simp, hfirst⟩

theorem hasSeveral_iff {i : Nat} {x : Node} (hx : forest[i]? = some x) (hleg : x.isLeg = true)
    (hactive : x.isActive = true) :
    hasSeveral forest i = true ↔ ∃ j y, j ≠ i ∧ forest[j]? = some y ∧ y.isLeg = true ∧
      y.isActive = true ∧ forest.anchor j = forest.anchor i := by
  have hmem (j : Nat) : j ∈ (forest.legsOf (forest.anchor i)).filter forest.isActiveAt ↔
      ∃ y, forest[j]? = some y ∧ y.isLeg = true ∧ y.isActive = true ∧
        forest.anchor j = forest.anchor i := by
    rw [List.mem_filter, Forest.mem_legsOf, Forest.isActiveAt]
    cases hj : forest[j]? with
    | none => simp
    | some y =>
        constructor
        · rintro ⟨⟨⟨z, hz, hzleg⟩, hzanchor⟩, hzactive⟩
          obtain rfl := Option.some.inj hz
          exact ⟨y, rfl, hzleg, hzactive, hzanchor⟩
        · rintro ⟨z, hz, hzleg, hzactive, hzanchor⟩
          obtain rfl := Option.some.inj hz
          exact ⟨⟨⟨y, rfl, hzleg⟩, hzanchor⟩, hzactive⟩
  have hself := (hmem i).mpr ⟨x, hx, hleg, hactive, rfl⟩
  have hnodup : ((forest.legsOf (forest.anchor i)).filter forest.isActiveAt).Nodup :=
    ((forest.pairwise_legsOf _).imp Nat.ne_of_lt).filter _
  rw [hasSeveral, decide_eq_true_iff, one_lt_length_iff hnodup hself]
  constructor
  · rintro ⟨j, hj, hne⟩
    obtain ⟨y, hy⟩ := (hmem j).mp hj
    exact ⟨j, y, hne, hy⟩
  · rintro ⟨j, y, hne, hy⟩
    exact ⟨j, (hmem j).mpr ⟨y, hy⟩, hne⟩

theorem getElem?_zipIdx_map (f : Node × Nat → Node) (i : Nat) :
    (forest.zipIdx.map f)[i]? = forest[i]?.map fun n => f (n, i) := by
  simp [List.getElem?_zipIdx, Function.comp_def]

/-- However often filters are left out, in the end all legs are marked. -/
theorem exists_settleFilters (fuel : Nat) (forest : Forest) :
    ∃ last, settleFilters fuel forest = markDirect (markConcurrent last) ∧
      forest.IsRevision last := by
  induction fuel generalizing forest with
  | zero => exact ⟨forest, rfl, .refl forest⟩
  | succ fuel ih =>
      rw [settleFilters]
      split
      · exact ⟨forest, rfl, .refl forest⟩
      · obtain ⟨last, hlast, hrevision⟩ := ih _
        exact ⟨last, hlast, (isRevision_markConcurrent forest).trans
          ((isRevision_markDirect _).trans ((Forest.isRevision_foldl_disable _ _
            fun _ hindex => isQuery_of_mem_unselectable hindex).trans hrevision))⟩

theorem column_nameNode (context : PlanContext) (naming : Naming) {node : Node}
    (hneeds : node.aggregation.needsColumn = true)
    (hexpression : node.aggregation.expression? ≠ none) :
    (nameNode context naming node).1.decisions.column ≠ none := by
  obtain ⟨expression, hsome⟩ := Option.ne_none_iff_exists'.mp hexpression
  unfold nameNode
  cases hcolumn : node.decisions.column with
  | none => simp [hneeds, hsome, Node.decide]
  | some column => simp [hcolumn]

/-- Every node that needs a column for an expression gets one. -/
theorem column_of_mem_nameNodes (context : PlanContext) (naming : Naming) {n : Node}
    (hn : n ∈ nameNodes context naming forest) (hneeds : n.aggregation.needsColumn = true)
    (hexpression : n.aggregation.expression? ≠ none) : n.decisions.column ≠ none := by
  induction forest generalizing naming with
  | nil => cases hn
  | cons node rest ih =>
      rw [nameNodes, List.mem_cons] at hn
      rcases hn with rfl | hrest
      · have haggregation := (isRevision_nameNode context naming node).aggregation
        exact column_nameNode context naming (haggregation ▸ hneeds) (haggregation ▸ hexpression)
      · exact ih _ hrest

/-- A node whose order is decided, in its place. -/
def orderNode (context : PlanContext) (forest : Forest) (node : Node) (index : Nat) : Node :=
  match node.aggregation.terms? with
  | some t =>
      if node.isActive then
        let metric := orderMetric? forest index t
        node.decide fun d =>
          { d with
            orderMetric := metric
            statementOrder := some (statementOrder forest context.countColumn
              (isComplexOrder forest) t metric) }
      else node
  | none => node

theorem getElem?_orderNodes (context : PlanContext) (forest : Forest) (i : Nat) :
    (orderNodes context forest).1[i]? =
      forest[i]?.map fun n => orderNode context forest n i :=
  getElem?_zipIdx_map _ i

@[simp] theorem aggregation_orderNode (context : PlanContext) (forest : Forest) (n : Node)
    (i : Nat) : (orderNode context forest n i).aggregation = n.aggregation := by
  unfold orderNode
  split
  · split <;> rfl
  · rfl

@[simp] theorem isActive_orderNode (context : PlanContext) (forest : Forest) (n : Node)
    (i : Nat) : (orderNode context forest n i).isActive = n.isActive := by
  unfold orderNode
  split
  · split <;> rfl
  · rfl

/-- Deciding about orders leaves all nodes alone but terms. -/
theorem getElem?_orderNodes_iff {context : PlanContext} {i : Nat} {x : Node}
    (hterms : x.aggregation.terms? = none) :
    (orderNodes context forest).1[i]? = some x ↔ forest[i]? = some x := by
  rw [getElem?_orderNodes]
  constructor
  · intro hx
    obtain ⟨n, hn, rfl⟩ := Option.map_eq_some_iff.mp hx
    rw [aggregation_orderNode] at hterms
    rw [hn, orderNode, hterms]
  · intro hx
    rw [hx, Option.map_some, orderNode, hterms]

/-- What is decided about the order of an active terms node. -/
theorem decisions_of_orderNodes {context : PlanContext} {i : Nat} {x : Node} {t : Terms}
    (hx : (orderNodes context forest).1[i]? = some x) (ht : x.aggregation = .terms t)
    (hactive : x.isActive = true) :
    x.decisions.orderMetric = orderMetric? forest i t ∧
      x.decisions.statementOrder = some (statementOrder forest context.countColumn
        (isComplexOrder forest) t (orderMetric? forest i t)) := by
  rw [getElem?_orderNodes] at hx
  obtain ⟨n, hn, rfl⟩ := Option.map_eq_some_iff.mp hx
  rw [aggregation_orderNode] at ht
  rw [isActive_orderNode] at hactive
  have hterms : n.aggregation.terms? = some t := by
    rw [ht]
    rfl
  unfold orderNode
  rw [hterms]
  dsimp only
  rw [if_pos hactive]
  exact ⟨rfl, rfl⟩

/-- What the marks of a leg say. -/
theorem marks_of_leg {i : Nat} {x : Node}
    (hx : (markDirect (markConcurrent forest))[i]? = some x) (hleg : x.isLeg = true) :
    ∃ y, forest[i]? = some y ∧ y.isLeg = true ∧ x.isActive = y.isActive ∧
      x.decisions.concurrent = (hasSeveral forest i && y.isActive) ∧
      (x.decisions.direct = true → x.isActive = true ∧ x.decisions.concurrent = false) := by
  unfold markDirect at hx
  rw [getElem?_zipIdx_map, getElem?_markConcurrent, Option.map_map] at hx
  obtain ⟨y, hy, heq⟩ := Option.map_eq_some_iff.mp hx
  have haggregation : x.aggregation = y.aggregation := by
    rw [← heq]
    dsimp only [Function.comp_apply]
    split <;> split <;> rfl
  have hyleg : y.isLeg = true := by
    unfold Node.isLeg at hleg ⊢
    rwa [haggregation] at hleg
  obtain ⟨l, hl⟩ : ∃ l, (markOf forest i y).aggregation.leg? = some l :=
    Option.isSome_iff_exists.mp hyleg
  simp only [Function.comp_apply, hyleg, if_true, hl] at heq
  subst heq
  refine ⟨y, hy, hyleg, rfl, rfl, ?_⟩
  intro hdirect
  have hsplit : isDirect (markConcurrent forest) i (markOf forest i y) l = true := hdirect
  simp only [isDirect, Bool.and_eq_true, Bool.not_eq_true'] at hsplit
  exact ⟨hsplit.1.1.1, hsplit.1.1.2⟩

end Plan

namespace TablePlan

open Plan

/-- The draft of a plan with a statement, pass by pass. -/
theorem draft_eq_of_isSkipped {forest : Forest} {table : Table} {multiTable : Bool}
    {reserved : List String} {settings : Settings}
    (h : (ofForest forest table multiTable reserved settings).isSkipped = false) :
    ∃ checked, forest.IsRevision checked ∧ (forest.IsUnnamed → checked.IsUnnamed) ∧
      (ofForest forest table multiTable reserved settings).draft =
        (PlanPass.orders.apply
          ⟨PlanContext.new table multiTable reserved settings.countColumn,
            classifyFilters (nameColumns
              (PlanContext.new table multiTable reserved settings.countColumn) checked)⟩).1 := by
  unfold ofForest at h ⊢
  dsimp only at h ⊢
  generalize PlanContext.new table multiTable reserved settings.countColumn = context at h ⊢
  have hrest (checked : Forest)
      (hrun : PlanPass.run ⟨context, forest⟩ =
        PlanPass.runEach [.columns, .filters, .orders] ⟨context, checked⟩) :
      PlanPass.run ⟨context, forest⟩ = ((PlanPass.orders.apply
        ⟨context, classifyFilters (nameColumns context checked)⟩).1, .goOn) := hrun
  cases hmulti : context.multiTable with
  | false =>
      have hrun := hrest forest (by
        simp [PlanPass.run, PlanPass.all, PlanPass.runEach, PlanPass.isAvailable, hmulti])
      rw [hrun]
      exact ⟨forest, .refl forest, id, rfl⟩
  | true =>
      have hchecked := isRevision_checkAttributes context.table forest
      have hunnamed (h : forest.IsUnnamed) :
          (checkAttributes context.table forest).1.IsUnnamed := isUnnamed_checkAttributes h
      cases hcheck : checkAttributes context.table forest with
      | mk checked outcome =>
          rw [hcheck] at hchecked hunnamed
          cases outcome with
          | skip reason =>
              have hrun : PlanPass.run ⟨context, forest⟩ = (⟨context, checked⟩, .skip reason) := by
                simp [PlanPass.run, PlanPass.all, PlanPass.runEach, PlanPass.isAvailable, hmulti,
                  PlanPass.apply, hcheck]
              rw [hrun] at h
              simp [isSkipped, skipped?] at h
          | goOn =>
              have hrun := hrest checked (by
                simp [PlanPass.run, PlanPass.all, PlanPass.runEach, PlanPass.isAvailable, hmulti,
                  PlanPass.apply, hcheck])
              rw [hrun]
              exact ⟨checked, hchecked, hunnamed, rfl⟩

/-- The forest of a plan with a statement, pass by pass. -/
theorem forest_eq_of_isSkipped {forest : Forest} {table : Table} {multiTable : Bool}
    {reserved : List String} {settings : Settings}
    (h : (ofForest forest table multiTable reserved settings).isSkipped = false) :
    ∃ checked, forest.IsRevision checked ∧ (forest.IsUnnamed → checked.IsUnnamed) ∧
      (ofForest forest table multiTable reserved settings).forest =
        (orderNodes (PlanContext.new table multiTable reserved settings.countColumn)
          (classifyFilters (nameColumns
            (PlanContext.new table multiTable reserved settings.countColumn) checked))).1 ∧
      (ofForest forest table multiTable reserved settings).countColumn =
        (PlanContext.new table multiTable reserved settings.countColumn).countColumn := by
  obtain ⟨checked, hrevision, hunnamed, hdraft⟩ := draft_eq_of_isSkipped h
  exact ⟨checked, hrevision, hunnamed, congrArg Draft.forest hdraft,
    congrArg (fun draft => draft.context.countColumn) hdraft⟩

/-- The forest of a plan with a statement: the columns are named, the legs marked and the orders
decided. -/
theorem exists_marked {forest : Forest} {table : Table} {multiTable : Bool}
    {reserved : List String} {settings : Settings}
    (h : (ofForest forest table multiTable reserved settings).isSkipped = false) :
    ∃ context named last, forest.IsRevision named ∧
      (nameColumns context named).IsRevision last ∧
      (ofForest forest table multiTable reserved settings).forest =
        (orderNodes context (markDirect (markConcurrent last))).1 := by
  obtain ⟨checked, hchecked, -, hforest, -⟩ := forest_eq_of_isSkipped h
  generalize PlanContext.new table multiTable reserved settings.countColumn = context at hforest
  obtain ⟨last, hlast, hrevision⟩ := exists_settleFilters (nameColumns context checked).length
    ((List.range (nameColumns context checked).length).foldl dropUnreadable
      (nameColumns context checked))
  refine ⟨context, checked, last, hchecked,
    (Forest.IsRevision.foldl _ isRevision_dropUnreadable _ _).trans hrevision, ?_⟩
  rw [hforest, ← hlast]
  rfl

/-- The legs in the forest of a plan with a statement are marked. -/
theorem isMarked_ofForest {forest : Forest} {table : Table} {multiTable : Bool}
    {reserved : List String} {settings : Settings}
    (hblanked : ∀ n ∈ forest, n.decisions.blanked = false)
    (h : (ofForest forest table multiTable reserved settings).isSkipped = false) :
    (ofForest forest table multiTable reserved settings).forest.IsMarked := by
  obtain ⟨context, named, last, hnamed, hlast, hforest⟩ := exists_marked h
  have hrevision := isRevision_ofForest forest table multiTable reserved settings
  rw [hforest] at hrevision ⊢
  have hordered : last.IsRevision (orderNodes context (markDirect (markConcurrent last))).1 :=
    (isRevision_markConcurrent last).trans
      ((isRevision_markDirect _).trans (isRevision_orderNodes context _))
  have hanchor := hordered.anchor_eq
  have hmarks {i : Nat} {x : Node}
      (hx : (orderNodes context (markDirect (markConcurrent last))).1[i]? = some x)
      (hleg : x.isLeg = true) := marks_of_leg ((getElem?_orderNodes_iff (Node.terms?_of_isLeg hleg)).mp hx) hleg
  exact
    { concurrent := by
        intro i x hx hleg hactive
        obtain ⟨y, hy, hyleg, hsame, hconcurrent, -⟩ := hmarks hx hleg
        rw [hconcurrent, ← hsame, hactive, Bool.and_true,
          hasSeveral_iff hy hyleg (hsame ▸ hactive)]
        constructor
        · rintro ⟨j, z, hne, hz, hzleg, hzactive, hzanchor⟩
          obtain ⟨w, hw, hwr⟩ := hordered.node_after hz
          have hwleg : w.isLeg = true := (congrArg Aggregation.isLeg hwr.aggregation).trans hzleg
          obtain ⟨z', hz', -, hwsame, -⟩ := hmarks hw hwleg
          obtain rfl : z = z' := Option.some.inj (hz.symm.trans hz')
          exact ⟨j, w, hne, hw, hwleg, hwsame.trans hzactive, by rw [hanchor, hanchor, hzanchor]⟩
        · rintro ⟨j, w, hne, hw, hwleg, hwactive, hwanchor⟩
          obtain ⟨z, hz, hzleg, hwsame, -⟩ := hmarks hw hwleg
          rw [hanchor, hanchor] at hwanchor
          exact ⟨j, z, hne, hz, hzleg, hwsame ▸ hwactive, hwanchor⟩
      direct := by
        intro n hn hleg
        obtain ⟨i, hi⟩ := List.getElem?_of_mem hn
        obtain ⟨y, -, -, -, -, hdirect⟩ := hmarks hi hleg
        exact hdirect
      column := by
        intro n hn hneeds hexpression
        obtain ⟨i, hi⟩ := List.getElem?_of_mem hn
        obtain ⟨y, hy, hyr⟩ := (hlast.trans hordered).node hi
        have hsome := column_of_mem_nameNodes context _ (List.mem_of_getElem? hy)
          (hyr.aggregation ▸ hneeds) (hyr.aggregation ▸ hexpression)
        obtain ⟨c, hc⟩ := Option.ne_none_iff_exists'.mp hsome
        rw [hyr.column c hc]
        simp
      blanked := by
        intro n hn hsome
        obtain ⟨i, hi⟩ := List.getElem?_of_mem hn
        obtain ⟨y, hy, hyr⟩ := hrevision.node hi
        rcases hyr.blanked hsome with hbefore | hmetric
        · rw [hblanked y (List.mem_of_getElem? hy)] at hbefore
          cases hbefore
        · exact hyr.isMetric.trans hmetric }

/-- The forest of a plan with a statement is laid out, and its legs are marked. -/
theorem isLaidOut_of_mem_forTables {now : Calendar.Instant} {json : Json} {forest : Forest}
    {tables : List Table} {settings : Settings} {plan : TablePlan}
    (hforest : Forest.ofJson now json = .ok forest) (hkeys : json.hasDistinctKeys = true)
    (hplan : plan ∈ forTables forest tables settings) (hskipped : plan.isSkipped = false) :
    plan.forest.IsLaidOut ∧ plan.forest.IsMarked := by
  refine ⟨(isRevision_of_mem_forTables hplan).isLaidOut
    (Forest.isLaidOut_of_ofJson hforest hkeys), ?_⟩
  simp only [forTables, List.mem_map] at hplan
  obtain ⟨table, -, rfl⟩ := hplan
  refine isMarked_ofForest ?_ hskipped
  intro n hn
  rw [Forest.decisions_of_ofJson hforest n hn]

end TablePlan
end Rollup
