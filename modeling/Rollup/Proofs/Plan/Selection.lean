/-
# What a statement selects

A statement selects every column that is read back from its rows, each under a name of its own, and
the count once. It groups by the columns that identify the group of a row, and orders by nothing
that it does not select. So a plan and its statement agree on the columns, though the one is
assembled node by node and the other reads them off the decisions.
-/

import Mathlib.Data.List.Induction
import Rollup.Proofs.Plan.Naming
import Rollup.Proofs.Plan.Query

namespace Rollup

namespace SelectItem

/-- How other clauses refer to an item. -/
def reference (item : SelectItem) : String := item.name.getD item.expression

/-- The column of the result: the name of the item, or the attribute that is selected. -/
def output (item : SelectItem) : String :=
  item.name.getD (String.ofList (item.expression.toList.filter (· ≠ Statement.backquote)))

end SelectItem

namespace Node

/-- The expression that a node selects under its column. -/
def computed? (n : Node) : Option SelectItem :=
  n.decisions.column.bind fun column =>
    n.aggregation.expression?.map fun expression => ⟨expression, some column⟩

/-- What a node selects. -/
def item? (n : Node) : Option SelectItem :=
  match n.aggregation with
  | .terms t => some ⟨Statement.quoteName t.field, none⟩
  | .leg _ => if n.decisions.direct then none else n.computed?
  | _ => n.computed?

/-- What a node groups by. -/
def group? (n : Node) : Option String :=
  if n.isMetric then none else n.item?.map SelectItem.reference

/-- What a node orders by. -/
def order? (n : Node) : Option (String × Direction) :=
  match n.aggregation with
  | .terms _ => n.decisions.statementOrder
  | .histogram _ => n.decisions.column.map fun column => (column, .ascending)
  | .dateHistogram _ => n.decisions.column.map fun column => (column, .ascending)
  | _ => none

end Node

namespace Statement

/-! ## Clauses -/

@[simp] theorem items_groupBy (s : Statement) (column : String) :
    (s.groupBy column).items = s.items := rfl

@[simp] theorem items_addCondition (s : Statement) (condition : String) :
    (s.addCondition condition).items = s.items := rfl

@[simp] theorem items_orderBy (s : Statement) (column : String) (direction : Direction) :
    (s.orderBy column direction).items = s.items := by
  unfold orderBy
  split <;> rfl

@[simp] theorem items_select (s : Statement) (expression : String) (name : Option String) :
    (s.select expression name).items = addOnce s.items ⟨expression, name⟩ := rfl

@[simp] theorem groups_select (s : Statement) (expression : String) (name : Option String) :
    (s.select expression name).groups = s.groups := rfl

@[simp] theorem groups_addCondition (s : Statement) (condition : String) :
    (s.addCondition condition).groups = s.groups := rfl

@[simp] theorem groups_orderBy (s : Statement) (column : String) (direction : Direction) :
    (s.orderBy column direction).groups = s.groups := by
  unfold orderBy
  split <;> rfl

@[simp] theorem groups_groupBy (s : Statement) (column : String) :
    (s.groupBy column).groups = addOnce s.groups column := rfl

@[simp] theorem orders_select (s : Statement) (expression : String) (name : Option String) :
    (s.select expression name).orders = s.orders := rfl

@[simp] theorem orders_groupBy (s : Statement) (column : String) :
    (s.groupBy column).orders = s.orders := rfl

@[simp] theorem orders_addCondition (s : Statement) (condition : String) :
    (s.addCondition condition).orders = s.orders := rfl

theorem mem_orders_orderBy {s : Statement} {column : String} {direction : Direction}
    {order : String × Direction} (h : order ∈ (s.orderBy column direction).orders) :
    order ∈ s.orders ∨ order = (column, direction) := by
  unfold orderBy at h
  split at h
  · exact Or.inl h
  · simpa using h

theorem eraseDups_concat {α : Type} [DecidableEq α] (items : List α) (item : α) :
    (items ++ [item]).eraseDups = addOnce items.eraseDups item := by
  rw [List.eraseDups_append, addOnce]
  by_cases hmem : item ∈ items <;> simp [hmem, List.removeAll, List.eraseDups_cons]

/-- Putting items behind others one by one keeps the first of each. -/
theorem foldl_addOnce {α : Type} [DecidableEq α] (items : List α) :
    items.foldl addOnce [] = items.eraseDups := by
  induction items using List.reverseRecOn with
  | nil => simp
  | append_singleton before item ih =>
      rw [List.foldl_append, ih, List.foldl_cons, List.foldl_nil, eraseDups_concat]

/-- Items may be left out before repetitions are erased or after. -/
theorem filter_eraseDups {α : Type} [DecidableEq α] (keep : α → Bool) (items : List α) :
    items.eraseDups.filter keep = (items.filter keep).eraseDups := by
  induction items using List.reverseRecOn with
  | nil => rfl
  | append_singleton before item ih =>
      rw [eraseDups_concat, List.filter_append, addOnce]
      by_cases hkeep : keep item = true
      · rw [List.filter_singleton, hkeep, cond_true, eraseDups_concat, ← ih, addOnce]
        simp only [List.mem_filter, hkeep, and_true]
        split
        · rfl
        · rw [List.filter_append, List.filter_singleton, hkeep, cond_true]
      · have hdrop : [item].filter keep = [] := by simpa using hkeep
        rw [hdrop, List.append_nil, ← ih]
        split
        · rfl
        · rw [List.filter_append, hdrop, List.append_nil]

/-- Erasing repetitions commutes with a function that tells the items apart. -/
theorem eraseDups_map {α β : Type} [DecidableEq α] [DecidableEq β] {f : α → β} {items : List α}
    (hf : ∀ a ∈ items, ∀ b ∈ items, f a = f b → a = b) :
    (items.map f).eraseDups = items.eraseDups.map f := by
  induction items using List.reverseRecOn with
  | nil => simp
  | append_singleton before item ih =>
      have hbefore := ih fun a ha b hb => hf a (by simp [ha]) b (by simp [hb])
      have hmem : f item ∈ before.eraseDups.map f ↔ item ∈ before.eraseDups := by
        refine ⟨fun hfound => ?_, fun hitem => List.mem_map_of_mem hitem⟩
        obtain ⟨other, hother, heq⟩ := List.mem_map.mp hfound
        rw [List.mem_eraseDups] at hother ⊢
        exact hf other (by simp [hother]) item (by simp) heq ▸ hother
      rw [List.map_append, List.map_singleton, eraseDups_concat, eraseDups_concat, hbefore,
        addOnce, addOnce]
      by_cases hitem : item ∈ before.eraseDups
      · rw [if_pos (hmem.mpr hitem), if_pos hitem]
      · rw [if_neg (hmem.not.mpr hitem), if_neg hitem, List.map_append, List.map_singleton]

end Statement

namespace Node

/-- A node adds what it selects. -/
theorem items_contribute (n : Node) (s : Statement) :
    (n.contribute s).items = n.item?.toList.foldl Statement.addOnce s.items := by
  obtain ⟨name, parent, depth, hasChildren, aggregation, decisions⟩ := n
  cases aggregation with
  | terms t =>
      cases horder : decisions.statementOrder <;> simp [contribute, item?, horder]
  | leg l =>
      cases hdirect : decisions.direct with
      | true => cases hfilter : l.filter? <;> simp [contribute, item?, hdirect, hfilter]
      | false =>
          cases hcolumn : decisions.column <;> cases hexpression : l.expression? <;>
            simp [contribute, item?, computed?, hdirect, hcolumn, Aggregation.expression?,
              hexpression]
  | query q =>
      cases hfilter : q.filter with
      | none => simp [contribute, item?, computed?, hfilter, Aggregation.expression?]
      | some filter =>
          simp only [contribute, hfilter]
          split <;> simp [item?, computed?, Aggregation.expression?]
  | _ =>
      cases hcolumn : decisions.column <;>
        simp [contribute, contribute.bucketColumn, item?, computed?, hcolumn,
          Aggregation.expression?]

/-- A node adds what it groups by. -/
theorem groups_contribute (n : Node) (s : Statement) :
    (n.contribute s).groups = n.group?.toList.foldl Statement.addOnce s.groups := by
  obtain ⟨name, parent, depth, hasChildren, aggregation, decisions⟩ := n
  cases aggregation with
  | terms t =>
      cases horder : decisions.statementOrder <;>
        simp [contribute, group?, item?, horder, isMetric, Aggregation.isMetric,
          Aggregation.metric?, SelectItem.reference]
  | leg l =>
      cases hdirect : decisions.direct with
      | true =>
          cases hfilter : l.filter? <;> simp [contribute, group?, item?, hdirect, hfilter]
      | false =>
          cases hcolumn : decisions.column <;> cases hexpression : l.expression? <;>
            simp [contribute, group?, item?, computed?, hdirect, hcolumn, Aggregation.expression?,
              hexpression, isMetric, Aggregation.isMetric, Aggregation.metric?,
              SelectItem.reference]
  | query q =>
      cases hfilter : q.filter with
      | none => simp [contribute, group?, item?, computed?, hfilter, Aggregation.expression?]
      | some filter =>
          simp only [contribute, hfilter]
          split <;> simp [group?, item?, computed?, Aggregation.expression?]
  | _ =>
      cases hcolumn : decisions.column <;>
        simp [contribute, contribute.bucketColumn, group?, item?, computed?, hcolumn,
          Aggregation.expression?, isMetric, Aggregation.isMetric, Aggregation.metric?,
          SelectItem.reference]

/-- A node adds no other order than its own. -/
theorem mem_orders_contribute {n : Node} {s : Statement} {order : String × Direction}
    (h : order ∈ (n.contribute s).orders) : order ∈ s.orders ∨ n.order? = some order := by
  obtain ⟨name, parent, depth, hasChildren, aggregation, decisions⟩ := n
  have hadded {column : String} {direction : Direction} {t : Statement}
      (h : order ∈ (t.orderBy column direction).orders) (ht : t.orders = s.orders) :
      order ∈ s.orders ∨ some (column, direction) = some order := by
    rcases Statement.mem_orders_orderBy h with hold | rfl
    · exact Or.inl (ht ▸ hold)
    · exact Or.inr rfl
  cases aggregation with
  | terms t =>
      cases horder : decisions.statementOrder with
      | none => simpa [contribute, order?, horder] using h
      | some own =>
          simp only [contribute, horder] at h
          simpa [order?, horder] using hadded h rfl
  | histogram g =>
      cases hcolumn : decisions.column with
      | none => simpa [contribute, contribute.bucketColumn, order?, hcolumn] using h
      | some column =>
          simp only [contribute, contribute.bucketColumn, hcolumn] at h
          simpa [order?, hcolumn] using hadded h rfl
  | dateHistogram g =>
      cases hcolumn : decisions.column with
      | none => simpa [contribute, contribute.bucketColumn, order?, hcolumn] using h
      | some column =>
          simp only [contribute, contribute.bucketColumn, hcolumn] at h
          simpa [order?, hcolumn] using hadded h rfl
  | metric m =>
      cases hcolumn : decisions.column <;> simp [contribute, hcolumn] at h <;> exact Or.inl h
  | ranges r =>
      cases hcolumn : decisions.column <;> simp [contribute, hcolumn] at h <;> exact Or.inl h
  | leg l =>
      refine Or.inl ?_
      simp only [contribute] at h
      split at h
      · split at h <;> exact h
      · split at h <;> exact h
  | query q =>
      refine Or.inl ?_
      simp only [contribute] at h
      split at h
      · split at h <;> exact h
      · exact h

end Node

namespace Statement

/-! ## The whole statement -/

/-- What no node adds anything to. -/
def frame (s : Statement) : String × String × Fields := (s.table, s.countColumn, s.options)

theorem frame_contribute (n : Node) (s : Statement) : (n.contribute s).frame = s.frame := by
  have horder (s : Statement) (column : String) (direction : Direction) :
      (s.orderBy column direction).frame = s.frame := by
    unfold orderBy
    split <;> rfl
  unfold Node.contribute Node.contribute.bucketColumn
  repeat' split
  all_goals first | rfl | exact horder _ _ _

theorem frame_foldl_contribute (nodes : List Node) (s : Statement) :
    (nodes.foldl (fun s node => node.contribute s) s).frame = s.frame := by
  induction nodes generalizing s with
  | nil => rfl
  | cons node rest ih => rw [List.foldl_cons, ih, frame_contribute]

theorem countColumn_foldl_contribute (nodes : List Node) (s : Statement) :
    (nodes.foldl (fun s node => node.contribute s) s).countColumn = s.countColumn :=
  congrArg (fun frame : String × String × Fields => frame.2.1) (frame_foldl_contribute nodes s)

theorem options_foldl_contribute (nodes : List Node) (s : Statement) :
    (nodes.foldl (fun s node => node.contribute s) s).options = s.options :=
  congrArg (fun frame : String × String × Fields => frame.2.2) (frame_foldl_contribute nodes s)

theorem items_foldl_contribute (nodes : List Node) (s : Statement) :
    (nodes.foldl (fun s node => node.contribute s) s).items =
      (nodes.filterMap Node.item?).foldl addOnce s.items := by
  induction nodes generalizing s with
  | nil => rfl
  | cons node rest ih =>
      rw [List.foldl_cons, ih, Node.items_contribute, List.filterMap_cons]
      cases node.item? <;> rfl

theorem groups_foldl_contribute (nodes : List Node) (s : Statement) :
    (nodes.foldl (fun s node => node.contribute s) s).groups =
      (nodes.filterMap Node.group?).foldl addOnce s.groups := by
  induction nodes generalizing s with
  | nil => rfl
  | cons node rest ih =>
      rw [List.foldl_cons, ih, Node.groups_contribute, List.filterMap_cons]
      cases node.group? <;> rfl

theorem mem_orders_foldl_contribute {nodes : List Node} {s : Statement}
    {order : String × Direction}
    (h : order ∈ (nodes.foldl (fun s node => node.contribute s) s).orders) :
    order ∈ s.orders ∨ ∃ node ∈ nodes, node.order? = some order := by
  induction nodes generalizing s with
  | nil => exact Or.inl h
  | cons node rest ih =>
      rcases ih h with hbefore | ⟨other, hother, horder⟩
      · rcases Node.mem_orders_contribute hbefore with hold | hnew
        · exact Or.inl hold
        · exact Or.inr ⟨node, by simp, hnew⟩
      · exact Or.inr ⟨other, by simp [hother], horder⟩

/-- Options change no other clause. -/
theorem setOptions_eq (options : List (String × Json)) (s : Statement) :
    ∃ all, options.foldl (fun s option => s.setOption option.1 option.2) s =
      { s with options := all } := by
  induction options generalizing s with
  | nil => exact ⟨s.options, rfl⟩
  | cons option rest ih =>
      obtain ⟨all, hall⟩ := ih (s.setOption option.1 option.2)
      exact ⟨all, hall⟩

end Statement

namespace TablePlan

open Statement Plan

/-- The active nodes fill the statement, and then the count is selected. -/
theorem exists_statementOf (draft : Draft) (settings : Settings) :
    ∃ options, statementOf draft settings =
      { ((draft.forest.filter Node.isActive).foldl (fun s node => node.contribute s)
          (Statement.empty draft.context.table.name draft.context.countColumn)).selectCount with
        options } :=
  setOptions_eq _ _

theorem countColumn_statementOf (draft : Draft) (settings : Settings) :
    (statementOf draft settings).countColumn = draft.context.countColumn := by
  obtain ⟨options, hstatement⟩ := exists_statementOf draft settings
  rw [hstatement]
  exact countColumn_foldl_contribute _ _

theorem items_statementOf (draft : Draft) (settings : Settings) :
    (statementOf draft settings).items =
      ((draft.forest.filter Node.isActive).filterMap Node.item? ++
        [(⟨countExpression, some draft.context.countColumn⟩ : SelectItem)]).eraseDups := by
  obtain ⟨options, hstatement⟩ := exists_statementOf draft settings
  rw [hstatement, selectCount, countColumn_foldl_contribute]
  dsimp only [Statement.select]
  rw [items_foldl_contribute, eraseDups_concat, ← foldl_addOnce]
  rfl

theorem mem_items_statementOf (draft : Draft) (settings : Settings) {item : SelectItem} :
    item ∈ (statementOf draft settings).items ↔
      (∃ n ∈ draft.forest, n.isActive = true ∧ n.item? = some item) ∨
        item = ⟨countExpression, some draft.context.countColumn⟩ := by
  rw [items_statementOf, List.mem_eraseDups, List.mem_append, List.mem_filterMap,
    List.mem_singleton]
  simp only [List.mem_filter, and_assoc]

theorem groups_statementOf (draft : Draft) (settings : Settings) :
    (statementOf draft settings).groups =
      ((draft.forest.filter Node.isActive).filterMap Node.group?).eraseDups := by
  obtain ⟨options, hstatement⟩ := exists_statementOf draft settings
  rw [hstatement, selectCount]
  dsimp only [Statement.select]
  rw [groups_foldl_contribute, ← foldl_addOnce]
  rfl

theorem exists_order_of_mem_statementOf {draft : Draft} {settings : Settings}
    {order : String × Direction} (h : order ∈ (statementOf draft settings).orders) :
    ∃ n ∈ draft.forest, n.isActive = true ∧ n.order? = some order := by
  obtain ⟨options, hstatement⟩ := exists_statementOf draft settings
  rw [hstatement] at h
  rcases mem_orders_foldl_contribute h with hnone | ⟨n, hn, horder⟩
  · cases hnone
  · exact ⟨n, (List.mem_filter.mp hn).1, (List.mem_filter.mp hn).2, horder⟩

/-! ## Orders -/

/-- The metric that a node is ordered by is active and below the node. -/
theorem exists_of_orderMetric? {forest : Forest} {i k : Nat} {t : Terms}
    (h : orderMetric? forest i t = some k) :
    ∃ name m, t.order.target = .metric name ∧ forest[k]? = some m ∧ m.parent = some i ∧
      m.name = name ∧ m.isMetric = true ∧ m.isActive = true := by
  unfold orderMetric? at h
  split at h
  · rename_i name hname
    obtain ⟨hlt, hfound, -⟩ := List.findIdx?_eq_some_iff_getElem.mp h
    simp only [Bool.and_eq_true, beq_iff_eq] at hfound
    obtain ⟨⟨⟨hparent, hmetric⟩, hactive⟩, hnamed⟩ := hfound
    exact ⟨name, forest[k], hname, List.getElem?_eq_getElem hlt, hparent, hnamed, hmetric, hactive⟩
  · cases h

/-- An active terms node orders by its attribute, by the count or by the column of a metric that is
active. -/
theorem target_of_statementOrder {context : PlanContext} {forest : Forest} {n : Node} {t : Terms}
    {order : String × Direction} (hn : n ∈ (orderNodes context forest).1)
    (hactive : n.isActive = true) (ht : n.aggregation = .terms t)
    (horder : n.decisions.statementOrder = some order) :
    order.1 = quoteName t.field ∨ order.1 = context.countColumn ∨
      ∃ m ∈ (orderNodes context forest).1, m.isActive = true ∧ m.isMetric = true ∧
        m.decisions.column = some order.1 := by
  obtain ⟨i, hi⟩ := List.getElem?_of_mem hn
  obtain rfl := Option.some.inj
    ((decisions_of_orderNodes hi ht hactive).2.symm.trans horder)
  unfold statementOrder
  dsimp only
  split
  · exact Or.inl rfl
  · split
    · exact Or.inl rfl
    · rename_i column _ hcolumn
      obtain ⟨k, hk, hcolumn⟩ := Option.bind_eq_some_iff.mp hcolumn
      obtain ⟨m, hm, hmcolumn⟩ := Option.bind_eq_some_iff.mp hcolumn
      obtain ⟨-, m', -, hm', -, -, hmetric, hmactive⟩ := exists_of_orderMetric? hk
      obtain rfl : m = m' := Option.some.inj (hm.symm.trans hm')
      exact Or.inr (Or.inr ⟨m, List.mem_of_getElem?
        ((getElem?_orderNodes_iff (Node.terms?_of_isMetric hmetric)).mpr hm), hmactive, hmetric,
        hmcolumn⟩)
    · exact Or.inr (Or.inl rfl)

end TablePlan

/-! ## Names -/

/-- Without its quotes a quoted name is the name. -/
theorem Statement.output_quoteName {name : String} (h : backquote ∉ name.toList) :
    String.ofList ((quoteName name).toList.filter (· ≠ backquote)) = name := by
  have hkept : name.toList.filter (· ≠ backquote) = name.toList := by
    rw [List.filter_eq_self]
    rintro c hc
    simpa using fun heq : c = backquote => h (heq ▸ hc)
  unfold quoteName
  dsimp only
  split
  · rw [hkept, String.ofList_toList]
  · rw [String.toList_ofList, hkept, List.filter_cons_of_neg (by simp), List.filter_append, hkept,
      List.filter_cons_of_neg (by simp), List.filter_nil, List.append_nil, String.ofList_toList]

/-- An attribute is not the count. -/
theorem Statement.quoteName_ne_count {name : String} (h : backquote ∉ name.toList) :
    quoteName name ≠ countExpression := by
  intro heq
  have hname := output_quoteName h
  rw [heq] at hname
  rw [← hname] at heq
  exact absurd heq (by decide)

/-- No node computes the count. -/
theorem Aggregation.expression?_ne_count (a : Aggregation) :
    a.expression? ≠ some Statement.countExpression := by
  -- no expression starts with the letter that the count starts with
  suffices h : ∀ e, a.expression? = some e → e.toList.head? ≠ some 'c' by
    intro hcount
    exact h _ hcount (by decide)
  intro e he
  cases a with
  | metric m =>
      obtain rfl := Option.some.inj he
      rw [Metric.expression]
      cases m.function <;> simp [MetricFunction.name]
  | terms t => cases he
  | histogram h =>
      obtain rfl := Option.some.inj he
      rw [Histogram.expression]
      dsimp only
      split <;> simp
  | dateHistogram h =>
      obtain rfl := Option.some.inj he
      unfold DateHistogram.expression DateInterval.expression
      dsimp only
      split
      · split <;> simp
      · split
        · simp
        · split <;> simp
  | ranges r =>
      obtain rfl := Option.some.inj he
      rw [Ranges.expression]
      split <;> simp
  | leg l =>
      simp only [expression?, Leg.expression?] at he
      split at he
      · obtain rfl := Option.some.inj he
        simp
      · obtain rfl := Option.some.inj he
        simp
      · cases he
  | query q => cases he

namespace Forest

/-- The attributes that terms nodes group by. -/
def termsFields (forest : Forest) : List String :=
  forest.filterMap fun n => n.aggregation.terms?.map Terms.field

/-- A column as the statement writes it: attributes are quoted, generated names are not. -/
def spelled (forest : Forest) (column : String) : String :=
  if column ∈ forest.termsFields then Statement.quoteName column else column

theorem mem_termsFields {forest : Forest} {n : Node} {t : Terms} (hn : n ∈ forest)
    (ht : n.aggregation = .terms t) : t.field ∈ forest.termsFields :=
  List.mem_filterMap.mpr ⟨n, hn, by rw [ht]; rfl⟩

end Forest

namespace TablePlan

open Statement Plan

/-- What the clauses of a statement and the decisions of its plan have to do with each other. -/
structure IsAligned (plan : TablePlan) (statement : Statement) : Prop where
  /-- The count is selected once, under its column. -/
  count : statement.items.filter (fun item => item.expression = countExpression) =
    [⟨countExpression, some plan.countColumn⟩]
  /-- So the text of the statement adds nothing to what is selected. -/
  selectList : statement.selectList = statement.items
  groups : statement.groups = plan.forest.groupColumns.map plan.forest.spelled
  /-- Whatever is read back is selected: an attribute as it is, an expression under its column. -/
  selected : ∀ n ∈ plan.forest, n.isActive = true → ¬ (n.isLeg = true ∧ n.decisions.direct = true) →
    ∀ column, n.outputColumn? = some column → ∃ item ∈ statement.items, item.output = column ∧
      (∀ t, n.aggregation = .terms t → item = ⟨quoteName t.field, none⟩) ∧
      ∀ e, n.aggregation.expression? = some e → item = ⟨e, some column⟩
  distinct : (statement.items.map SelectItem.output).Nodup
  orders : ∀ order ∈ statement.orders, ∃ item ∈ statement.items, order.1 = item.reference

/-- A forest whose columns are on a record, free of the attributes that it groups by. -/
structure IsNamed (forest : Forest) (reserved : List String) (countColumn : String)
    (record : List (String × String)) : Prop where
  apart : (record.map Prod.snd).Nodup
  free : ∀ entry ∈ record, IsFree reserved countColumn entry.2
  recorded : ∀ n ∈ forest, n.isActive = true → n.aggregation.needsColumn = true →
    ∃ e c, n.aggregation.expression? = some e ∧ n.decisions.column = some c ∧ (e, c) ∈ record
  count : countColumn ∉ reserved
  fields : ∀ field ∈ forest.termsFields, field ∈ reserved ∧ backquote ∉ field.toList

/-- What may be selected: an attribute, an expression on record, or the count. -/
inductive IsItem (forest : Forest) (countColumn : String) (record : List (String × String)) :
    SelectItem → Prop
  | field {field : String} (h : field ∈ forest.termsFields) :
      IsItem forest countColumn record ⟨quoteName field, none⟩
  | computed {e c : String} (h : (e, c) ∈ record) (he : e ≠ countExpression) :
      IsItem forest countColumn record ⟨e, some c⟩
  | count : IsItem forest countColumn record ⟨countExpression, some countColumn⟩

namespace IsNamed

variable {forest : Forest} {reserved : List String} {countColumn : String}
  {record : List (String × String)}

theorem exists_computed (h : IsNamed forest reserved countColumn record) {n : Node}
    (hn : n ∈ forest) (hactive : n.isActive = true) (hneeds : n.aggregation.needsColumn = true) :
    ∃ e c, n.aggregation.expression? = some e ∧ n.decisions.column = some c ∧ (e, c) ∈ record ∧
      n.computed? = some ⟨e, some c⟩ := by
  obtain ⟨e, c, he, hc, hmem⟩ := h.recorded n hn hactive hneeds
  exact ⟨e, c, he, hc, hmem, by simp [Node.computed?, he, hc]⟩

/-- What an active node selects. -/
theorem isItem (h : IsNamed forest reserved countColumn record) {n : Node} (hn : n ∈ forest)
    (hactive : n.isActive = true) {item : SelectItem} (hitem : n.item? = some item) :
    IsItem forest countColumn record item := by
  have hcomputed (hneeds : n.aggregation.needsColumn = true) (hitem : n.computed? = some item) :
      IsItem forest countColumn record item := by
    obtain ⟨e, c, he, -, hmem, heq⟩ := h.exists_computed hn hactive hneeds
    obtain rfl := Option.some.inj (heq.symm.trans hitem)
    refine .computed hmem ?_
    rintro rfl
    exact Aggregation.expression?_ne_count _ he
  unfold Node.item? at hitem
  split at hitem
  · rename_i t ht
    obtain rfl := Option.some.inj hitem
    exact .field (Forest.mem_termsFields hn ht)
  · rename_i l hl
    split at hitem
    · cases hitem
    · exact hcomputed (by rw [hl]; rfl) hitem
  · rename_i hterms hleg
    cases hkind : n.aggregation with
    | query q => simp [Node.computed?, hkind, Aggregation.expression?] at hitem
    | terms t => exact absurd hkind (hterms t)
    | leg l => exact absurd hkind (hleg l)
    | _ => exact hcomputed (by rw [hkind]; rfl) hitem

/-- Whatever is selected has an output of its own. -/
theorem eq_of_output_eq (h : IsNamed forest reserved countColumn record) {a b : SelectItem}
    (ha : IsItem forest countColumn record a) (hb : IsItem forest countColumn record b)
    (heq : a.output = b.output) : a = b := by
  have hfield {field : String} (hfield : field ∈ forest.termsFields) :
      SelectItem.output ⟨quoteName field, none⟩ = field :=
    output_quoteName (h.fields field hfield).2
  cases ha with
  | @field field ha =>
      rw [hfield ha] at heq
      cases hb with
      | @field field' hb => rw [heq, hfield hb]
      | @computed e c hb =>
          obtain rfl : field = c := heq
          exact absurd (h.fields field ha).1 (h.free _ hb).unreserved
      | count =>
          obtain rfl : field = countColumn := heq
          exact absurd (h.fields field ha).1 h.count
  | @computed e c ha =>
      cases hb with
      | @field field hb =>
          rw [hfield hb] at heq
          obtain rfl : c = field := heq
          exact absurd (h.fields c hb).1 (h.free _ ha).unreserved
      | @computed e' c' hb =>
          obtain rfl : c = c' := heq
          have hsame : (e, c) = (e', c) := List.inj_on_of_nodup_map h.apart ha hb rfl
          rw [(Prod.mk.inj hsame).1]
      | count => exact absurd heq (h.free _ ha).uncounted
  | count =>
      cases hb with
      | @field field hb =>
          rw [hfield hb] at heq
          obtain rfl : countColumn = field := heq
          exact absurd (h.fields countColumn hb).1 h.count
      | computed hb => exact absurd heq.symm (h.free _ hb).uncounted
      | count => rfl

/-- An active node selects what is read back, unless it is a condition of the statement. -/
theorem exists_item (h : IsNamed forest reserved countColumn record) {n : Node} (hn : n ∈ forest)
    (hactive : n.isActive = true) (hdirect : ¬ (n.isLeg = true ∧ n.decisions.direct = true))
    {column : String} (hcolumn : n.outputColumn? = some column) :
    ∃ item, n.item? = some item ∧ item.output = column ∧
      (∀ t, n.aggregation = .terms t → item = ⟨quoteName t.field, none⟩) ∧
      ∀ e, n.aggregation.expression? = some e → item = ⟨e, some column⟩ := by
  have hcomputed (hneeds : n.aggregation.needsColumn = true) (hitem : n.item? = n.computed?)
      (hcolumn : n.decisions.column = some column) :
      ∃ item, n.item? = some item ∧ item.output = column ∧
        (∀ t, n.aggregation = .terms t → item = ⟨quoteName t.field, none⟩) ∧
        ∀ e, n.aggregation.expression? = some e → item = ⟨e, some column⟩ := by
    obtain ⟨e, c, he, hc, -, heq⟩ := h.exists_computed hn hactive hneeds
    obtain rfl := Option.some.inj (hcolumn.symm.trans hc)
    refine ⟨⟨e, some column⟩, hitem.trans heq, rfl, fun t ht => ?_, fun e' he' => ?_⟩
    · rw [ht] at hneeds
      cases hneeds
    · rw [Option.some.inj (he.symm.trans he')]
  unfold Node.outputColumn? at hcolumn
  cases hkind : n.aggregation with
  | terms t =>
      rw [hkind] at hcolumn
      obtain rfl := Option.some.inj hcolumn
      refine ⟨⟨quoteName t.field, none⟩, by rw [Node.item?, hkind],
        output_quoteName (h.fields _ (Forest.mem_termsFields hn hkind)).2, fun t' ht' => ?_,
        fun e he => by cases he⟩
      rw [Aggregation.terms.inj ht']
  | query q =>
      rw [hkind] at hcolumn
      cases hcolumn
  | leg l =>
      rw [hkind] at hcolumn
      have hindirect : n.decisions.direct = false := by
        simpa [Node.isLeg_of_eq hkind] using hdirect
      rw [← hkind]
      exact hcomputed (by rw [hkind]; rfl) (by simp [Node.item?, hkind, hindirect]) hcolumn
  | _ =>
      rw [hkind] at hcolumn
      rw [← hkind]
      exact hcomputed (by rw [hkind]; rfl) (by simp [Node.item?, hkind]) hcolumn

/-- An active node groups by its column as the statement writes it. -/
theorem group?_eq (h : IsNamed forest reserved countColumn record) {n : Node} (hn : n ∈ forest)
    (hactive : n.isActive = true) : n.group? = n.groupColumn?.map forest.spelled := by
  have hcomputed (hneeds : n.aggregation.needsColumn = true) :
      n.computed?.map SelectItem.reference = n.decisions.column.map forest.spelled := by
    obtain ⟨e, c, -, hc, hmem, heq⟩ := h.exists_computed hn hactive hneeds
    have hfresh : c ∉ forest.termsFields := fun hfield =>
      (h.free _ hmem).unreserved (h.fields c hfield).1
    rw [heq, hc, Option.map_some, Option.map_some, Forest.spelled, if_neg hfresh]
    rfl
  unfold Node.group? Node.groupColumn? Node.item? Node.outputColumn? Node.isMetric
  rw [hactive, Bool.not_true, if_neg Bool.false_ne_true]
  cases hkind : n.aggregation with
  | metric m => rfl
  | query q => simp [Node.computed?, hkind, Aggregation.expression?]
  | terms t =>
      have hfield := Forest.mem_termsFields hn hkind
      simp [Aggregation.isMetric, Aggregation.metric?, SelectItem.reference, Forest.spelled, hfield]
  | leg l =>
      have hall := hcomputed (by rw [hkind]; rfl)
      cases hdirect : n.decisions.direct <;>
        simp [Aggregation.isMetric, Aggregation.metric?, hall]
  | _ =>
      have hall := hcomputed (by rw [hkind]; rfl)
      simpa [Aggregation.isMetric, Aggregation.metric?] using hall

/-- Without quotes a column is what it is read back as. -/
theorem unquoted_spelled (h : IsNamed forest reserved countColumn record) {n : Node}
    (hn : n ∈ forest) {c : String} (hc : n.groupColumn? = some c) :
    String.ofList ((forest.spelled c).toList.filter (· ≠ backquote)) = c := by
  unfold Forest.spelled
  split
  · rename_i hfield
    exact output_quoteName (h.fields c hfield).2
  · rename_i hfresh
    have hcolumn : n.isActive = true ∧ n.aggregation.needsColumn = true ∧
        n.decisions.column = some c := by
      unfold Node.groupColumn? Node.outputColumn? at hc
      split at hc
      · cases hc
      · rename_i hactive
        have hactive : n.isActive = true := by simpa using hactive
        cases hkind : n.aggregation with
        | metric m => simp [hkind] at hc
        | query q => simp [hkind] at hc
        | terms t =>
            rw [hkind] at hc
            obtain rfl := Option.some.inj hc
            exact absurd (Forest.mem_termsFields hn hkind) hfresh
        | leg l =>
            rw [hkind] at hc
            dsimp only at hc
            split at hc
            · cases hc
            · exact ⟨hactive, rfl, hc⟩
        | _ =>
            rw [hkind] at hc
            exact ⟨hactive, rfl, hc⟩
    obtain ⟨e, d, -, hd, hmem⟩ := h.recorded n hn hcolumn.1 hcolumn.2.1
    obtain rfl := Option.some.inj (hcolumn.2.2.symm.trans hd)
    rw [List.filter_eq_self.mpr, String.ofList_toList]
    intro letter hletter
    simpa using fun heq : letter = backquote => (h.free _ hmem).unquoted (heq ▸ hletter)

/-- What active nodes group by are the columns that identify a group, as the statement writes
them. -/
theorem eraseDups_groups (h : IsNamed forest reserved countColumn record) :
    ((forest.filter Node.isActive).filterMap Node.group?).eraseDups =
      forest.groupColumns.map forest.spelled := by
  have hgroups : (forest.filter Node.isActive).filterMap Node.group? =
      (forest.filterMap Node.groupColumn?).map forest.spelled := by
    rw [List.filterMap_filter, List.map_filterMap]
    refine List.filterMap_congr fun n hn => ?_
    split
    · rename_i hactive
      exact h.group?_eq hn hactive
    · rename_i hactive
      simp [Node.groupColumn?, hactive]
  have hcolumns : forest.groupColumns = (forest.filterMap Node.groupColumn?).eraseDups := by
    rw [Forest.groupColumns, Forest.groupColumnsBefore, List.take_length]
  rw [hgroups, hcolumns, ← eraseDups_map]
  intro c hc d hd heq
  obtain ⟨n, hn, hnc⟩ := List.mem_filterMap.mp hc
  obtain ⟨m, hm, hmd⟩ := List.mem_filterMap.mp hd
  rw [← h.unquoted_spelled hn hnc, heq, h.unquoted_spelled hm hmd]

/-- Nothing else is written as the count is. -/
theorem expression_eq_count_iff (h : IsNamed forest reserved countColumn record)
    {item : SelectItem} (hitem : IsItem forest countColumn record item) :
    item.expression = countExpression ↔ item = ⟨countExpression, some countColumn⟩ := by
  refine ⟨fun hcount => ?_, fun heq => heq ▸ rfl⟩
  cases hitem with
  | field hfield => exact absurd hcount (quoteName_ne_count (h.fields _ hfield).2)
  | computed _ hother => exact absurd hcount hother
  | count => rfl

end IsNamed

/-- Planning changes no attribute. -/
theorem termsFields_of_isRevision {before after : Forest} (h : before.IsRevision after) :
    after.termsFields = before.termsFields := by
  have hbare (forest : Forest) : forest.bare.termsFields = forest.termsFields := by
    rw [Forest.termsFields, Forest.bare, List.filterMap_map]
    rfl
  rw [← hbare after, h.bare_eq, hbare]

theorem exists_isNamed {now : Calendar.Instant} {json : Json} {forest : Forest}
    {tables : List Table} {settings : Settings} {plan : TablePlan}
    (hforest : Forest.ofJson now json = .ok forest)
    (hfields : ∀ field ∈ forest.termsFields,
      field ∈ tables.flatMap Table.fieldNames ∧ backquote ∉ field.toList)
    (hplan : plan ∈ forTables forest tables settings) (hskipped : plan.isSkipped = false) :
    ∃ record, IsNamed plan.forest (tables.flatMap Table.fieldNames) plan.countColumn record := by
  obtain ⟨record, hapart, hfree, hrecorded⟩ :=
    exists_record_of_mem_forTables (isUnnamed_of_ofJson hforest) hplan hskipped
  refine ⟨record, hapart, hfree, hrecorded, ?_, ?_⟩
  · simp only [forTables, List.mem_map] at hplan
    obtain ⟨table, -, rfl⟩ := hplan
    obtain ⟨-, -, -, -, hcount⟩ := forest_eq_of_isSkipped hskipped
    rw [hcount]
    exact PlanContext.countColumn_notMem_reserved _ _ _ _
  · rw [termsFields_of_isRevision (isRevision_of_mem_forTables hplan)]
    exact hfields

/-- Whatever an active node orders by is selected. -/
theorem exists_item_of_order {forest : Forest} {tables : List Table} {settings : Settings}
    {plan : TablePlan} (hnew : forest.IsUnnamed) (hplan : plan ∈ forTables forest tables settings)
    (hskipped : plan.isSkipped = false) {n : Node} (hn : n ∈ plan.forest)
    (hactive : n.isActive = true) {order : String × Direction} (horder : n.order? = some order) :
    order.1 = plan.countColumn ∨ ∃ m ∈ plan.forest, m.isActive = true ∧
      ∃ item, m.item? = some item ∧ order.1 = item.reference := by
  obtain ⟨record, -, -, hrecorded⟩ := exists_record_of_mem_forTables hnew hplan hskipped
  have hcomputed {m : Node} (hm : m ∈ plan.forest) (hactive : m.isActive = true)
      (hneeds : m.aggregation.needsColumn = true) (hitem : m.item? = m.computed?)
      (hcolumn : m.decisions.column = some order.1) :
      ∃ m ∈ plan.forest, m.isActive = true ∧
        ∃ item, m.item? = some item ∧ order.1 = item.reference := by
    obtain ⟨e, c, he, hc, -⟩ := hrecorded m hm hactive hneeds
    obtain rfl := Option.some.inj (hcolumn.symm.trans hc)
    have hselected : m.computed? = some ⟨e, some order.1⟩ := by simp [Node.computed?, he, hc]
    exact ⟨m, hm, hactive, _, hitem.trans hselected, rfl⟩
  have hhistogram (hkind : n.aggregation.isHistogram = true)
      (horder : n.decisions.column.map (fun column => (column, Direction.ascending)) =
        some order) :
      ∃ m ∈ plan.forest, m.isActive = true ∧
        ∃ item, m.item? = some item ∧ order.1 = item.reference := by
    obtain ⟨column, hcolumn, rfl⟩ := Option.map_eq_some_iff.mp horder
    refine hcomputed hn hactive ?_ ?_ hcolumn
    · cases haggregation : n.aggregation <;> simp_all [Aggregation.isHistogram,
        Aggregation.needsColumn]
    · unfold Node.item?
      cases haggregation : n.aggregation <;> simp_all [Aggregation.isHistogram]
  unfold Node.order? at horder
  split at horder
  · rename_i t ht
    have htarget : order.1 = quoteName t.field ∨ order.1 = plan.countColumn ∨
        ∃ m ∈ plan.forest, m.isActive = true ∧ m.isMetric = true ∧
          m.decisions.column = some order.1 := by
      simp only [forTables, List.mem_map] at hplan
      obtain ⟨table, -, rfl⟩ := hplan
      obtain ⟨checked, -, -, hforest, hcount⟩ := forest_eq_of_isSkipped hskipped
      rw [hforest] at hn ⊢
      rw [hcount]
      exact target_of_statementOrder hn hactive ht horder
    rcases htarget with hfield | hcount | ⟨m, hm, hmactive, hmetric, hcolumn⟩
    · exact Or.inr ⟨n, hn, hactive, ⟨quoteName t.field, none⟩, by rw [Node.item?, ht], hfield⟩
    · exact Or.inl hcount
    · refine Or.inr (hcomputed hm hmactive ?_ ?_ hcolumn)
      · cases hkind : m.aggregation <;> simp_all [Node.isMetric, Aggregation.isMetric,
          Aggregation.metric?, Aggregation.needsColumn]
      · unfold Node.item?
        cases hkind : m.aggregation <;> simp_all [Node.isMetric, Aggregation.isMetric,
          Aggregation.metric?]
  · rename_i h hkind
    exact Or.inr (hhistogram (by rw [hkind]; rfl) horder)
  · rename_i h hkind
    exact Or.inr (hhistogram (by rw [hkind]; rfl) horder)
  · cases horder

/-- A plan with a statement is not left out. -/
theorem isSkipped_of_statement? {plan : TablePlan} {statement : Statement}
    (h : plan.statement? = some statement) : plan.isSkipped = false := by
  unfold statement? at h
  unfold isSkipped skipped?
  cases hresult : plan.result with
  | ok s => rfl
  | error reason => simp [hresult] at h

/-- The statement of a plan selects what is read back, groups by what identifies a group, and orders
by what it selects. -/
theorem isAligned_of_mem_forTables {now : Calendar.Instant} {json : Json} {forest : Forest}
    {tables : List Table} {settings : Settings} {plan : TablePlan} {statement : Statement}
    (hforest : Forest.ofJson now json = .ok forest)
    (hfields : ∀ field ∈ forest.termsFields,
      field ∈ tables.flatMap Table.fieldNames ∧ backquote ∉ field.toList)
    (hplan : plan ∈ forTables forest tables settings)
    (hstatement : plan.statement? = some statement) : plan.IsAligned statement := by
  have hskipped := isSkipped_of_statement? hstatement
  obtain ⟨record, hnamed⟩ := exists_isNamed hforest hfields hplan hskipped
  obtain rfl := eq_statementOf hplan hstatement
  have hitems (item : SelectItem) : item ∈ (statementOf plan.draft settings).items ↔
      (∃ n ∈ plan.forest, n.isActive = true ∧ n.item? = some item) ∨
        item = ⟨countExpression, some plan.countColumn⟩ := mem_items_statementOf plan.draft settings
  have hallowed : ∀ item ∈ (statementOf plan.draft settings).items,
      IsItem plan.forest plan.countColumn record item := by
    intro item hitem
    rcases (hitems item).mp hitem with ⟨n, hn, hactive, hselected⟩ | rfl
    · exact hnamed.isItem hn hactive hselected
    · exact .count
  have hnodup : (statementOf plan.draft settings).items.Nodup := by
    rw [items_statementOf]
    exact nodup_eraseDups _
  have hcounted := (hitems ⟨countExpression, some plan.countColumn⟩).mpr (Or.inr rfl)
  exact
    { count := by
        have honly : ∀ item ∈ (statementOf plan.draft settings).items,
            decide (item.expression = countExpression) =
              decide (item = ⟨countExpression, some plan.countColumn⟩) :=
          fun item hitem =>
            decide_eq_decide.mpr (hnamed.expression_eq_count_iff (hallowed item hitem))
        rw [List.filter_congr honly, List.filter_eq, List.count_eq_one_of_mem hnodup hcounted]
        rfl
      selectList := by
        rw [Statement.selectList, if_pos]
        exact List.any_eq_true.mpr ⟨_, hcounted, by simp⟩
      groups := (groups_statementOf plan.draft settings).trans hnamed.eraseDups_groups
      selected := by
        intro n hn hactive hdirect column hcolumn
        obtain ⟨item, hitem, hshown⟩ := hnamed.exists_item hn hactive hdirect hcolumn
        exact ⟨item, (hitems item).mpr (Or.inl ⟨n, hn, hactive, hitem⟩), hshown⟩
      distinct := List.Nodup.map_on
        (fun a ha b hb => hnamed.eq_of_output_eq (hallowed a ha) (hallowed b hb)) hnodup
      orders := by
        intro order horder
        obtain ⟨n, hn, hactive, hown⟩ := exists_order_of_mem_statementOf horder
        rcases exists_item_of_order (isUnnamed_of_ofJson hforest) hplan hskipped hn hactive hown
          with hcount | ⟨m, hm, hmactive, item, hitem, htarget⟩
        · exact ⟨_, hcounted, hcount⟩
        · exact ⟨item, (hitems item).mpr (Or.inl ⟨m, hm, hmactive, hitem⟩), htarget⟩ }

/-! ## Hosts by their greatest size -/

/-- The request for hosts in the order of their greatest sizes. -/
def rankedRequest : Json :=
  .object [("aggs", .object [("hosts", .object [
    ("terms", .object [("field", .string "host name"),
      ("order", .object [("size", .string "desc")])]),
    ("aggs", .object [("size", .object [("max", .object [("field", .string "size")])])])])])]

def rankedForest : Forest :=
  [Node.new "hosts" none 0 true (.terms ⟨"host name", 10, 1, ⟨.metric "size", .descending, true⟩⟩),
    Node.new "size" (some 0) 1 false (.metric ⟨.max, "size"⟩)]

def rankedTable : Table := ⟨"t", [("host name", true), ("size", true)]⟩

def rankedPlan : TablePlan :=
  ofForest rankedForest rankedTable false ["host name", "size"] .standard

def rankedStatement : Statement :=
  ⟨"t", "cnt", [⟨"\x60host name\x60", none⟩, ⟨"max(size)", some "al1"⟩, ⟨"count(*)", some "cnt"⟩],
    [], ["\x60host name\x60"], [("al1", .descending)], []⟩

/-- A quoted attribute, a metric that orders it, and the count. -/
theorem rankedPlan_isAligned :
    rankedPlan.statement? = some rankedStatement ∧ rankedPlan.IsAligned rankedStatement := by
  have hforest : Forest.ofJson default rankedRequest = .ok rankedForest := rfl
  have hplan : rankedPlan ∈ forTables rankedForest [rankedTable] .standard :=
    List.mem_singleton.mpr rfl
  have hstatement : rankedPlan.statement? = some rankedStatement := rfl
  have hfields : ∀ field ∈ rankedForest.termsFields,
      field ∈ [rankedTable].flatMap Table.fieldNames ∧ backquote ∉ field.toList := by
    decide
  exact ⟨hstatement, isAligned_of_mem_forTables hforest hfields hplan hstatement⟩

end TablePlan

end Rollup
