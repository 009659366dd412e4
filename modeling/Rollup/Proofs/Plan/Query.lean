/-
# The query in the statement

The query of a request is never left out by planning, so its filter is a condition of the
statement of every table, if the query counts as one that restricts. What counts is whether the
query holds any data. A query with an atom that is not hollow always does; a query of hollow atoms
alone, such as a comparison with the empty text, may hold none, and then its filter is dropped
although it was read.
-/

import Rollup.Proofs.Filter.Data
import Rollup.Proofs.Forest.Layout
import Rollup.Proofs.Plan.Revision

namespace Rollup

namespace Node

/-- The condition that a node adds to the statement. -/
def condition? (n : Node) : Option String :=
  match n.aggregation with
  | .leg l => if n.decisions.direct then l.filter?.map Filter.text else none
  | .query q => if q.isEffective then q.filter.map Filter.text else none
  | _ => none

theorem condition?_eq_some_iff {n : Node} {text : String} : n.condition? = some text ↔
    (∃ l filter, n.aggregation = .leg l ∧ n.decisions.direct = true ∧ l.filter? = some filter ∧
      filter.text = text) ∨
      ∃ q filter, n.aggregation = .query q ∧ q.isEffective = true ∧ q.filter = some filter ∧
        filter.text = text := by
  unfold condition?
  cases n.aggregation with
  | leg l => simp
  | query q => simp
  | _ => simp

end Node

namespace Clause

variable {now : Calendar.Instant} {clause : Json} {filter : Filter}

/-- A clause that is a filter is there. -/
theorem isNull_of_compile (h : compile now clause = .ok (some filter)) : clause.isNull = false := by
  cases clause with
  | null => simp [compile, read, unrestricted, bind, Except.bind, pure, Except.pure] at h
  | _ => rfl

theorem hasData_of_compile (h : compile now clause = .ok (some filter))
    (hsolid : ∃ a ∈ filter.met, a.isHollow = false) : hasData clause = true := by
  obtain ⟨outcome, hread, hfilter⟩ := exists_read_of_compile h
  obtain ⟨condition, -, rfl⟩ := Option.map_eq_some_iff.mp hfilter.symm
  exact hasData_of_read now clause outcome hread hsolid

end Clause

namespace Statement

theorem mem_addOnce {α : Type} [DecidableEq α] (items : List α) (item other : α) :
    other ∈ addOnce items item ↔ other ∈ items ∨ item = other := by
  unfold addOnce
  split
  · rename_i hmem
    constructor
    · exact Or.inl
    · rintro (h | rfl)
      · exact h
      · exact hmem
  · simp [eq_comm]

@[simp] theorem conditions_select (s : Statement) (expression : String)
    (name : Option String) : (s.select expression name).conditions = s.conditions := rfl

@[simp] theorem conditions_groupBy (s : Statement) (column : String) :
    (s.groupBy column).conditions = s.conditions := rfl

@[simp] theorem conditions_orderBy (s : Statement) (column : String) (direction : Direction) :
    (s.orderBy column direction).conditions = s.conditions := by
  unfold orderBy
  split <;> rfl

theorem conditions_addCondition (s : Statement) (condition : String) :
    (s.addCondition condition).conditions = addOnce s.conditions condition := rfl

/-- The conditions of a statement to which a node has added what it needs. -/
theorem mem_conditions_contribute (node : Node) (s : Statement) (condition : String) :
    condition ∈ (node.contribute s).conditions ↔
      condition ∈ s.conditions ∨ node.condition? = some condition := by
  obtain ⟨name, parent, depth, hasChildren, aggregation, decisions⟩ := node
  cases aggregation with
  | metric m =>
      cases hcolumn : decisions.column <;> simp [Node.contribute, Node.condition?, hcolumn]
  | terms t =>
      cases horder : decisions.statementOrder <;>
        simp [Node.contribute, Node.condition?, horder]
  | histogram h =>
      cases hcolumn : decisions.column <;>
        simp [Node.contribute, Node.contribute.bucketColumn, Node.condition?, hcolumn]
  | dateHistogram h =>
      cases hcolumn : decisions.column <;>
        simp [Node.contribute, Node.contribute.bucketColumn, Node.condition?, hcolumn]
  | ranges r =>
      cases hcolumn : decisions.column <;> simp [Node.contribute, Node.condition?, hcolumn]
  | leg l =>
      cases hdirect : decisions.direct with
      | true =>
          cases hfilter : l.filter? <;>
            simp [Node.contribute, Node.condition?, hdirect, hfilter, conditions_addCondition,
              mem_addOnce]
      | false =>
          simp only [Node.contribute, Node.condition?, hdirect, Bool.false_eq_true, if_false]
          split <;> simp
  | query q =>
      cases hfilter : q.filter with
      | none => simp [Node.contribute, Node.condition?, hfilter]
      | some filter =>
          simp only [Node.contribute, Node.condition?, hfilter]
          split <;> simp [conditions_addCondition, mem_addOnce]

/-- The conditions that nodes add one after the other. -/
theorem mem_conditions_foldl_contribute (nodes : List Node) (s : Statement)
    (condition : String) :
    condition ∈ (nodes.foldl (fun s node => node.contribute s) s).conditions ↔
      condition ∈ s.conditions ∨ ∃ node ∈ nodes, node.condition? = some condition := by
  induction nodes generalizing s with
  | nil => simp
  | cons node rest ih =>
      rw [List.foldl_cons, ih, mem_conditions_contribute]
      simp [or_assoc]

theorem conditions_setOptions (options : List (String × Json)) (s : Statement) :
    (options.foldl (fun s option => s.setOption option.1 option.2) s).conditions =
      s.conditions := by
  induction options generalizing s with
  | nil => rfl
  | cons option rest ih => rw [List.foldl_cons, ih]; rfl

end Statement

namespace TablePlan

/-- The conditions of a statement are those of the active nodes. -/
theorem mem_conditions_statementOf (draft : Draft) (settings : Settings) (condition : String) :
    condition ∈ (statementOf draft settings).conditions ↔
      ∃ node ∈ draft.forest, node.isActive = true ∧ node.condition? = some condition := by
  unfold statementOf
  rw [Statement.conditions_setOptions]
  simp only [Statement.selectCount, Statement.conditions_select,
    Statement.mem_conditions_foldl_contribute, List.mem_filter]
  simp [Statement.empty, and_assoc]

/-- The statement of a plan is the one that its forest makes up. -/
theorem eq_statementOf {forest : Forest} {tables : List Table} {settings : Settings}
    {plan : TablePlan} {statement : Statement} (hplan : plan ∈ forTables forest tables settings)
    (hstatement : plan.statement? = some statement) :
    statement = statementOf plan.draft settings := by
  simp only [forTables, List.mem_map] at hplan
  obtain ⟨table, -, rfl⟩ := hplan
  unfold ofForest at hstatement ⊢
  dsimp only at hstatement ⊢
  split at hstatement
  · simpa [statement?] using hstatement.symm
  · simp [statement?] at hstatement

/-- The filter of the query is among the conditions of every statement exactly when the query
counts as one that restricts, or a direct filter bucket happens to say the same. It counts
whenever some atom of it is not hollow. -/
theorem query_text_mem_conditions_iff {now : Calendar.Instant} {request clause : Json}
    {forest : Forest} {filter : Filter} {tables : List Table} {settings : Settings}
    {plan : TablePlan} {statement : Statement}
    (hforest : Forest.ofJson now request = .ok forest)
    (hclause : request.field? "query" = some clause)
    (hfilter : Clause.compile now clause = .ok (some filter))
    (hplan : plan ∈ forTables forest tables settings)
    (hstatement : plan.statement? = some statement) :
    (filter.text ∈ statement.conditions ↔
      Clause.hasData clause = true ∨
        ∃ node ∈ plan.forest, node.isActive = true ∧ node.decisions.direct = true ∧
          ∃ leg other, node.aggregation = .leg leg ∧ leg.filter? = some other ∧
            other.text = filter.text) ∧
      ((∃ a ∈ filter.met, a.isHollow = false) → Clause.hasData clause = true) := by
  obtain ⟨rest, rfl, hrest⟩ :=
    Forest.query_of_ofJson hforest hclause hfilter (Clause.isNull_of_compile hfilter)
  have hrevision := isRevision_of_mem_forTables hplan
  refine ⟨?_, Clause.hasData_of_compile hfilter⟩
  rw [eq_statementOf hplan hstatement, mem_conditions_statementOf]
  constructor
  · rintro ⟨node, hnode, hactive, hcondition⟩
    rcases Node.condition?_eq_some_iff.mp hcondition with
      ⟨leg, other, hleg, hdirect, hother, htext⟩ | ⟨query, -, hquery, heffective, -, -⟩
    · exact Or.inr ⟨node, hnode, hactive, hdirect, leg, other, hleg, hother, htext⟩
    · left
      obtain ⟨index, hindex⟩ := List.getElem?_of_mem hnode
      obtain ⟨before, hbefore, hnodes⟩ := hrevision.node hindex
      cases index with
      | zero =>
          obtain rfl := Option.some.inj hbefore
          have haggregation := hnodes.aggregation.symm.trans hquery
          obtain rfl := Aggregation.query.inj haggregation
          simpa [Query.isEffective] using heffective
      | succ index =>
          have hplace := hrest before (List.mem_of_getElem? hbefore)
          rw [← hnodes.isQuery, Node.isQuery, hquery] at hplace
          simp [Aggregation.isQuery, Aggregation.query?] at hplace
  · rintro (hdata | ⟨node, hnode, hactive, hdirect, leg, other, hleg, hother, htext⟩)
    · obtain ⟨node, hnode, hnodes⟩ := hrevision.node_after List.getElem?_cons_zero
      refine ⟨node, List.mem_of_getElem? hnode, ?_, ?_⟩
      · rw [hnodes.query rfl rfl]
        rfl
      · refine Node.condition?_eq_some_iff.mpr (Or.inr ⟨_, _, hnodes.aggregation, ?_, rfl, rfl⟩)
        simp [Query.isEffective, hdata]
    · exact ⟨node, hnode, hactive,
        Node.condition?_eq_some_iff.mpr (Or.inl ⟨leg, other, hleg, hdirect, hother, htext⟩)⟩

/-! ## A query for one word -/

/-- The query for the documents of one host. -/
def hostQuery (host : String) : Json := .object [("term", .object [("host", .string host)])]

/-- The request with the query for one host and nothing else. -/
def hostRequest (host : String) : Json := .object [("query", hostQuery host)]

/-- What the query for one host is read into. -/
def hostFilter (host : String) : Filter :=
  ⟨.atom (.equals "host" (.text host)), [.equals "host" (.text host)]⟩

/-- The forest of the request with the query for one host. -/
def hostForest (host : String) : Forest :=
  [Node.new "query" none 0 false (.query ⟨some (hostFilter host), Clause.hasData (hostQuery host)⟩)]

/-- The plan of that request for a table that has hosts. -/
def hostPlan (host : String) : TablePlan :=
  ofForest (hostForest host) ⟨"t", [("host", true)]⟩ false ["host"] .standard

/-- The statement that only counts the documents under some conditions. -/
def countStatement (conditions : List String) : Statement :=
  ⟨"t", "cnt", [⟨"count(*)", some "cnt"⟩], conditions, [], [], []⟩

/-- A query for a word restricts. -/
theorem hostQuery_web_restricts :
    (hostPlan "web").statement? = some (countStatement ["host = 'web'"]) ∧
      (hostFilter "web").text ∈ (countStatement ["host = 'web'"]).conditions := by
  have hforest : Forest.ofJson default (hostRequest "web") = .ok (hostForest "web") := rfl
  have hplan : hostPlan "web" ∈
      forTables (hostForest "web") [⟨"t", [("host", true)]⟩] .standard :=
    List.mem_singleton.mpr rfl
  have hclause : (hostRequest "web").field? "query" = some (hostQuery "web") := rfl
  have hstatement : (hostPlan "web").statement? = some (countStatement ["host = 'web'"]) := rfl
  exact ⟨hstatement, (query_text_mem_conditions_iff hforest hclause rfl hplan hstatement).1.mpr
    (Or.inl rfl)⟩

/-- A query for the empty text is read into a filter, and the statement has no condition. -/
theorem hostQuery_empty_dropped :
    Forest.ofJson default (hostRequest "") = .ok (hostForest "") ∧
      hostPlan "" ∈ forTables (hostForest "") [⟨"t", [("host", true)]⟩] .standard ∧
      Clause.compile default (hostQuery "") = .ok (some (hostFilter "")) ∧
      (hostPlan "").statement? = some (countStatement []) ∧
      (hostFilter "").text ∉ (countStatement []).conditions := by
  exact ⟨rfl, List.mem_singleton.mpr rfl, rfl, rfl, by simp [countStatement]⟩

end TablePlan
end Rollup
