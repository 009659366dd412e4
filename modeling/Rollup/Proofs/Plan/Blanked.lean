/-
# Metrics that a table cannot compute

Of several tables some may lack what a metric is about. The check of attributes leaves the metric
out for such a table and blanks it, so that the response shows it without a value. What comes after
the check names columns, marks legs and leaves out filters, and neither blanks a metric nor takes
that back; a metric is only left out with all of the aggregation above it. So where rows get to a
metric, it is active if their table can compute it and blanked if it cannot.
-/

import Rollup.Proofs.Plan.Classified

namespace Rollup

namespace Forest

/-! ## Blanked nodes -/

/-- Which nodes are blanked. -/
def blanks (forest : Forest) : List Bool := forest.map fun n => n.decisions.blanked

variable {forest before after : Forest}

theorem blanked_eq (h : after.blanks = before.blanks) {i : Nat} {x y : Node}
    (hx : before[i]? = some x) (hy : after[i]? = some y) :
    y.decisions.blanked = x.decisions.blanked := by
  have hat := congrArg (fun blanks => blanks[i]?) h
  simpa [blanks, hx, hy] using hat

theorem blanks_decideAt (forest : Forest) (i : Nat) {f : Decisions → Decisions}
    (hf : ∀ d, (f d).blanked = d.blanked) : (forest.decideAt i f).blanks = forest.blanks := by
  apply List.ext_getElem?
  intro j
  rw [blanks, blanks, List.getElem?_map, List.getElem?_map, getElem?_decideAt, Option.map_map]
  congr 1
  funext n
  dsimp only [Function.comp_apply]
  split
  · exact hf n.decisions
  · rfl

theorem blanks_foldl {α : Type} {step : Forest → α → Forest}
    (hstep : ∀ earlier item, (step earlier item).blanks = earlier.blanks) (items : List α)
    (forest : Forest) : (items.foldl step forest).blanks = forest.blanks := by
  induction items generalizing forest with
  | nil => rfl
  | cons item rest ih => rw [List.foldl_cons, ih, hstep]

theorem blanks_disable (forest : Forest) (i : Nat) :
    (forest.disable i).blanks = forest.blanks := by
  have horphan (earlier : Forest) (j : Nat) :
      (earlier.disableIfOrphaned j).blanks = earlier.blanks := by
    unfold disableIfOrphaned
    split
    · split
      · split
        · exact blanks_decideAt earlier j fun _ => rfl
        · rfl
      · rfl
    · rfl
  unfold disable
  split
  · exact (blanks_foldl horphan _ _).trans (blanks_decideAt forest i fun _ => rfl)
  · rfl

theorem blanks_zipIdx_map {f : Node × Nat → Node}
    (hf : ∀ entry, (f entry).decisions.blanked = entry.1.decisions.blanked) :
    Forest.blanks (forest.zipIdx.map f) = forest.blanks := by
  apply List.ext_getElem?
  intro i
  rw [blanks, List.getElem?_map, Plan.getElem?_zipIdx_map, Option.map_map, blanks,
    List.getElem?_map]
  congr 1
  funext n
  exact hf (n, i)

end Forest

namespace Plan

open Forest

variable {forest : Forest}

/-! ## The passes after the check -/

theorem isRemarked_nameColumns (context : PlanContext) (forest : Forest) :
    forest.IsRemarked (nameColumns context forest) := by
  refine ⟨isRevision_nameNodes context _ forest, ?_⟩
  have hactive (naming : Naming) (node : Node) :
      (nameNode context naming node).1.isActive = node.isActive := by
    unfold nameNode
    split
    · split <;> rfl
    · rfl
  unfold nameColumns
  generalize Naming.ofForest forest = naming
  induction forest generalizing naming with
  | nil => exact fun _ => id
  | cons node rest ih =>
      rintro (_ | i) ⟨y, hy, hinactive⟩
      · obtain rfl := Option.some.inj hy
        exact ⟨node, rfl, hactive naming node ▸ hinactive⟩
      · obtain ⟨x, hx, hout⟩ := ih _ i ⟨y, hy, hinactive⟩
        exact ⟨x, hx, hout⟩

theorem blanks_nameColumns (context : PlanContext) (forest : Forest) :
    (nameColumns context forest).blanks = forest.blanks := by
  have hnode (naming : Naming) (node : Node) :
      (nameNode context naming node).1.decisions.blanked = node.decisions.blanked := by
    unfold nameNode
    split
    · split <;> rfl
    · rfl
  unfold nameColumns
  generalize Naming.ofForest forest = naming
  induction forest generalizing naming with
  | nil => rfl
  | cons node rest ih => exact List.cons_eq_cons.mpr ⟨hnode naming node, ih _⟩

theorem blanks_marked (forest : Forest) : (marked forest).blanks = forest.blanks := by
  apply List.ext_getElem?
  intro i
  rw [blanks, blanks, List.getElem?_map, List.getElem?_map, getElem?_marked, Option.map_map]
  congr 1
  funext n
  dsimp only [Function.comp_apply, markedNode]
  split <;> rfl

theorem blanks_classifyFilters (h : forest.IsHeaded) :
    (classifyFilters forest).blanks = forest.blanks := by
  have hdrop (earlier : Forest) (i : Nat) : (dropUnreadable earlier i).blanks = earlier.blanks := by
    unfold dropUnreadable
    split
    · split
      · split
        · exact blanks_disable earlier i
        · rfl
      · rfl
    · rfl
  have hround (earlier : Forest) : (round earlier).blanks = earlier.blanks :=
    (blanks_foldl blanks_disable _ _).trans (blanks_marked earlier)
  have hiterate (count : Nat) (earlier : Forest) :
      (round^[count] earlier).blanks = earlier.blanks := by
    induction count with
    | zero => rfl
    | succ count ih => rw [Function.iterate_succ_apply', hround, ih]
  obtain ⟨count, -, hclassified, -⟩ := exists_rounds h
  rw [hclassified, blanks_marked, hiterate]
  exact blanks_foldl hdrop _ forest

theorem isPruned_classifyFilters (h : forest.IsHeaded) :
    forest.IsPruned (classifyFilters forest) := by
  obtain ⟨count, -, hclassified, -⟩ := exists_rounds h
  have hreadable := isPruned_readable h
  rw [hclassified]
  exact hreadable.trans ((isPruned_iterate_round (hreadable.revision.isHeaded h) count).trans
    (isRemarked_marked _).isPruned)

/-- Deciding about the orders of a node leaves all else as it is. -/
theorem exists_orderNodes (context : PlanContext) (forest : Forest) :
    ∃ f : Node × Nat → Node, (orderNodes context forest).1 = forest.zipIdx.map f ∧
      ∀ entry, (f entry).isActive = entry.1.isActive ∧
        (f entry).decisions.blanked = entry.1.decisions.blanked := by
  refine ⟨_, rfl, fun entry => ?_⟩
  dsimp only
  split
  · split
    · exact ⟨rfl, rfl⟩
    · exact ⟨rfl, rfl⟩
  · exact ⟨rfl, rfl⟩

theorem isRemarked_orderNodes (context : PlanContext) (forest : Forest) :
    forest.IsRemarked (orderNodes context forest).1 := by
  refine ⟨isRevision_orderNodes context forest, ?_⟩
  obtain ⟨f, heq, hf⟩ := exists_orderNodes context forest
  rintro i ⟨y, hy, hinactive⟩
  rw [heq, getElem?_zipIdx_map] at hy
  obtain ⟨x, hx, rfl⟩ := Option.map_eq_some_iff.mp hy
  exact ⟨x, hx, (hf (x, i)).1 ▸ hinactive⟩

theorem blanks_orderNodes (context : PlanContext) (forest : Forest) :
    (orderNodes context forest).1.blanks = forest.blanks := by
  obtain ⟨f, heq, hf⟩ := exists_orderNodes context forest
  rw [heq]
  exact blanks_zipIdx_map fun entry => (hf entry).2

end Plan

/-! ## Metrics of a plan -/

/-- What is shown of the metrics in the forest of a plan for one of several tables. -/
structure Forest.BlanksFor (table : Table) (forest : Forest) : Prop where
  /-- Only metrics that the table can compute are active. -/
  active : ∀ n ∈ forest, n.isMetric = true → n.isActive = true → n.IsUsable table
  /-- Only metrics that the table cannot compute are blanked. -/
  blanked : ∀ n ∈ forest, n.decisions.blanked = true → n.isMetric = true ∧ ¬ n.IsUsable table
  /-- A metric that is not shown is left out with all of the aggregation above it. -/
  hidden : ∀ (i : Nat) (n : Node), forest[i]? = some n → n.isMetric = true → n.isShown = false →
    forest.IsOrphaned forest.IsOut i

namespace Node

theorem isMetric_of_eq {n : Node} {m : Metric} (h : n.aggregation = .metric m) :
    n.isMetric = true := by
  rw [isMetric, h]
  rfl

theorem isQuery_of_isMetric {n : Node} (h : n.isMetric = true) : n.isQuery = false := by
  obtain ⟨m, hm⟩ := exists_metric h
  exact isQuery_of_metric hm

/-- A metric that is not shown is neither active nor blanked. -/
theorem isShown_eq_false_of_metric {n : Node} (h : n.isMetric = true) :
    n.isShown = false ↔ n.isActive = false ∧ n.decisions.blanked = false := by
  simp [isShown, isQuery_of_isMetric h]

/-- A node that is shown without being active is blanked. -/
theorem blanked_of_isShown {n : Node} (hshown : n.isShown = true) (hinactive : n.isActive = false) :
    n.decisions.blanked = true := by
  simp only [isShown, hinactive, Bool.false_or, Bool.and_eq_true] at hshown
  exact hshown.2

end Node

namespace Forest

variable {table : Table} {parsed before after : Forest}

/-- After the check of attributes metrics are blanked as they should be. -/
theorem IsChecked.blanksFor (h : IsChecked table parsed before) (hlaid : before.IsLaidOut) :
    before.BlanksFor table where
  active := fun n hn hmetric => h.usable n hn (Node.isQuery_of_isMetric hmetric)
  blanked := by
    intro n hn hblanked
    obtain ⟨i, hi⟩ := List.getElem?_of_mem hn
    obtain ⟨hmetric, hlacking, -⟩ := (h.blanked i n hi).mp hblanked
    exact ⟨hmetric, hlacking⟩
  hidden := by
    intro i n hi hmetric hhidden
    obtain ⟨hinactive, hblanked⟩ := (Node.isShown_eq_false_of_metric hmetric).mp hhidden
    have hcut : before.IsCutOff before.IsOut i := by
      by_contra hin
      rcases (h.disabled i n hi).mp hinactive with hlacking | hcut
      · rw [(h.blanked i n hi).mpr ⟨hmetric, hlacking, hin⟩] at hblanked
        cases hblanked
      · exact hin hcut
    refine (hlaid.isCutOff_iff (fun j horphaned => ?_) i).mp hcut
    obtain ⟨p, hp, -⟩ := id horphaned
    obtain ⟨y, hy, -⟩ := parent?_eq_some.mp hp
    exact (isOut_iff hy).mpr ((h.disabled j y hy).mpr
      (Or.inr ((hlaid.isCutOff_iff_or _ j).mpr (Or.inl horphaned))))

/-- Metrics stay blanked as they should be when filters are left out. -/
theorem BlanksFor.of_isPruned (h : before.BlanksFor table) (hpruned : before.IsPruned after)
    (hblanks : after.blanks = before.blanks) : after.BlanksFor table where
  active := by
    intro n hn hmetric hactive
    obtain ⟨i, hi⟩ := List.getElem?_of_mem hn
    obtain ⟨x, hx, hxr⟩ := hpruned.revision.node hi
    exact hxr.isUsable_iff.mpr (h.active x (List.mem_of_getElem? hx) (hxr.isMetric ▸ hmetric)
      (hxr.active hactive))
  blanked := by
    intro n hn hblanked
    obtain ⟨i, hi⟩ := List.getElem?_of_mem hn
    obtain ⟨x, hx, hxr⟩ := hpruned.revision.node hi
    obtain ⟨hmetric, hlacking⟩ :=
      h.blanked x (List.mem_of_getElem? hx) (blanked_eq hblanks hx hi ▸ hblanked)
    exact ⟨hxr.isMetric ▸ hmetric, mt hxr.isUsable_iff.mp hlacking⟩
  hidden := by
    intro i n hi hmetric hhidden
    obtain ⟨x, hx, hxr⟩ := hpruned.revision.node hi
    have hxmetric : x.isMetric = true := hxr.isMetric ▸ hmetric
    obtain ⟨hinactive, hblanked⟩ := (Node.isShown_eq_false_of_metric hmetric).mp hhidden
    rw [hpruned.revision.isOrphaned_iff]
    rcases hpruned.reason i ((isOut_iff hi).mpr hinactive) with hout | hdroppable | horphaned
    · have hxhidden : x.isShown = false := (Node.isShown_eq_false_of_metric hxmetric).mpr
        ⟨(isOut_iff hx).mp hout, blanked_eq hblanks hx hi ▸ hblanked⟩
      exact (h.hidden i x hx hxmetric hxhidden).mono fun m => hpruned.revision.isOut
    · -- what can be left out by itself is a leg
      obtain ⟨y, l, hy, hl, -⟩ := hdroppable
      obtain rfl := Option.some.inj (hx.symm.trans hy)
      obtain ⟨m, hm⟩ := Node.exists_metric hxmetric
      rw [hl] at hm
      cases hm
    · exact horphaned

end Forest

namespace TablePlan

open Plan

/-- The forest of a plan for one of several tables, pass by pass. -/
theorem forest_eq_of_multiTable {forest : Forest} {table : Table} {reserved : List String}
    {settings : Settings} (h : (ofForest forest table true reserved settings).isSkipped = false) :
    ∃ context : PlanContext, (checkAttributes table forest).2 = .goOn ∧
      (ofForest forest table true reserved settings).forest = (orderNodes context
        (classifyFilters (nameColumns context (checkAttributes table forest).1))).1 ∧
      (ofForest forest table true reserved settings).draft.context.table = table := by
  unfold ofForest at h ⊢
  dsimp only at h ⊢
  cases hcheck : checkAttributes table forest with
  | mk checked outcome =>
      cases outcome with
      | skip reason =>
          simp [PlanPass.run, PlanPass.all, PlanPass.runEach, PlanPass.isAvailable,
            PlanContext.new, PlanPass.apply, hcheck, isSkipped, skipped?] at h
      | goOn =>
          refine ⟨PlanContext.new table true reserved settings.countColumn, rfl, ?_, ?_⟩
          · simp [PlanPass.run, PlanPass.all, PlanPass.runEach, PlanPass.isAvailable,
              PlanContext.new, PlanPass.apply, hcheck, TablePlan.forest]
          · simp [PlanPass.run, PlanPass.all, PlanPass.runEach, PlanPass.isAvailable,
              PlanContext.new, PlanPass.apply, hcheck, orderNodes]

/-- Where a request goes to several tables, a plan with a statement blanks the metrics that its
table cannot compute. -/
theorem blanksFor_of_mem_forTables {now : Calendar.Instant} {json : Json} {forest : Forest}
    {tables : List Table} {settings : Settings} {plan : TablePlan}
    (hforest : Forest.ofJson now json = .ok forest) (hkeys : json.hasDistinctKeys = true)
    (hmany : 1 < tables.length) (hplan : plan ∈ forTables forest tables settings)
    (hskipped : plan.isSkipped = false) : plan.forest.BlanksFor plan.draft.context.table := by
  simp only [forTables, List.mem_map, decide_eq_true hmany] at hplan
  obtain ⟨table, -, rfl⟩ := hplan
  obtain ⟨context, hgoOn, hpasses, htable⟩ := forest_eq_of_multiTable hskipped
  rw [hpasses, htable]
  have hheaded := (isRevision_checkAttributes table forest).isHeaded
    (Forest.isHeaded_of_ofJson hforest hkeys)
  have hchecked := ((checkAttributes_exact hforest hkeys table).2 hgoOn).blanksFor hheaded.laidOut
  generalize (checkAttributes table forest).1 = checked at hheaded hchecked ⊢
  have hnamed := isRemarked_nameColumns context checked
  have hheaded := hnamed.revision.isHeaded hheaded
  have hordered := isRemarked_orderNodes context (classifyFilters (nameColumns context checked))
  exact ((hchecked.of_isPruned hnamed.isPruned (blanks_nameColumns context checked)).of_isPruned
    (isPruned_classifyFilters hheaded) (blanks_classifyFilters hheaded)).of_isPruned
      hordered.isPruned (blanks_orderNodes context _)

end TablePlan
end Rollup
