/-
# The number of documents

The total of a response adds up the documents of all rows as they came back. Of a table whose
answers are exact, with one row for every group of the documents that meet the conditions of the
statement, that is the number of these documents. So the total counts the documents that the query
matches as long as no filter leg has become a condition beside it; with such a leg it counts only
those of them that pass the filter, and a request with aggregations may report fewer documents than
its query alone.
-/

import Rollup.Proofs.Plan.Query
import Rollup.Proofs.Plan.Selection
import Rollup.Proofs.Response.Answered
import Rollup.Proofs.Response.Steady

namespace Rollup

/-! ## Documents and exact answers -/

/-- The documents of a table: of which of them a condition holds, and what an attribute or an
expression says of them. -/
structure Collection (δ : Type) where
  documents : List δ
  satisfies : String → δ → Bool
  value : String → δ → String

namespace Statement

/-- What a column of the result is computed from: the expression that it names, or else an
attribute. -/
def source (s : Statement) (column : String) : String :=
  match s.items.find? fun item => item.reference = column with
  | some item => item.expression
  | none => column

end Statement

namespace Collection

variable {δ : Type} (c : Collection δ)

/-- The documents that meet the conditions of a statement. -/
def selected (s : Statement) : List δ :=
  c.documents.filter fun d => s.conditions.all fun condition => c.satisfies condition d

/-- The group of a document. -/
def groupOf (s : Statement) (d : δ) : List String :=
  s.groups.map fun column => c.value (s.source column) d

/-- Whether a result has one row for every group of the documents that meet the conditions, with
their number, and no more groups than the statement asks for. A group without documents may have a
row as well, as the only one of a statement without groups has. -/
def Answers (s : Statement) (result : ResultSet) : Prop :=
  ∃ groups : List (List String), groups.Nodup ∧ groups.length ≤ Statement.rowLimit ∧
    (∀ d ∈ c.selected s, c.groupOf s d ∈ groups) ∧
    List.Forall₂ (fun cells group => Fields.get? cells s.countColumn =
      some (.ofNat (((c.selected s).map (c.groupOf s)).count group))) result.rows groups

/-- Whether the query matches a document, as far as it counts as one that restricts. -/
def isMatched (forest : Forest) (d : δ) : Bool :=
  forest.all fun n =>
    match n.aggregation with
    | .query q => !q.isEffective || q.filter.all fun filter => c.satisfies filter.text d
    | _ => true

/-- Whether a document passes every active filter leg that is a condition of the statement. -/
def passes (forest : Forest) (d : δ) : Bool :=
  forest.all fun n =>
    match n.aggregation with
    | .leg l =>
        !(n.isActive && n.decisions.direct) || l.filter?.all fun filter => c.satisfies filter.text d
    | _ => true

theorem isMatched_iff {forest : Forest} {d : δ} : c.isMatched forest d = true ↔
    ∀ n ∈ forest, ∀ q, n.aggregation = .query q → q.isEffective = true →
      ∀ filter, q.filter = some filter → c.satisfies filter.text d = true := by
  rw [isMatched, List.all_eq_true]
  refine forall₂_congr fun n _ => ?_
  cases haggregation : n.aggregation with
  | query q => cases heffective : q.isEffective <;> cases hfilter : q.filter <;> simp_all
  | _ => simp

theorem passes_iff {forest : Forest} {d : δ} : c.passes forest d = true ↔
    ∀ n ∈ forest, ∀ l, n.aggregation = .leg l → n.isActive = true → n.decisions.direct = true →
      ∀ filter, l.filter? = some filter → c.satisfies filter.text d = true := by
  rw [passes, List.all_eq_true]
  refine forall₂_congr fun n _ => ?_
  cases haggregation : n.aggregation with
  | leg l =>
      cases hactive : n.isActive <;> cases hdirect : n.decisions.direct <;>
        cases hfilter : l.filter? <;> simp_all
  | _ => simp

end Collection

/-! ## Counts -/

/-- Every item is counted in exactly one of some groups that cover them. -/
theorem sum_map_count {κ : Type} [BEq κ] [LawfulBEq κ] {groups items : List κ}
    (hnodup : groups.Nodup) (hcover : ∀ item ∈ items, item ∈ groups) :
    (groups.map fun group => items.count group).sum = items.length := by
  induction items with
  | nil => simp
  | cons item rest ih =>
      have hone (groups : List κ) :
          (groups.map fun group => if item == group then 1 else 0).sum = groups.count item := by
        induction groups with
        | nil => rfl
        | cons group groups ih =>
            rw [List.map_cons, List.sum_cons, ih, List.count_cons, Nat.add_comm, Bool.beq_comm]
      have hrest := ih fun other hother => hcover other (List.mem_cons_of_mem _ hother)
      simp only [List.count_cons]
      rw [List.sum_map_add, hone, hrest, List.length_cons,
        List.count_eq_one_of_mem hnodup (hcover item List.mem_cons_self)]

/-- A row whose count is written as a small number has that many documents. -/
theorem Row.count_ofNat {cells : Fields} {column : String} {n : Nat} (hsmall : n < 2 ^ 53)
    (h : Fields.get? cells column = some (.ofNat n)) (origin : Origin) :
    (Row.ofCells cells origin).count column = n := by
  have hnumber : (Row.ofCells cells origin).number? column = some (.finite ((n : Int) : Rat)) := by
    have hround : Binary64.round ((n : Int) : Rat) = .finite ((n : Int) : Rat) :=
      Binary64.round_intCast (by simpa using hsmall)
    have hget : (Row.ofCells cells origin).cells.get? column = some (.ofNat n) := h
    rw [← hround, Row.number?, Row.get?, hget]
    rfl
  rw [Row.count, hnumber]
  rcases Nat.eq_zero_or_pos n with rfl | hpos
  · rfl
  · have hlt : (0 : Rat) < ((n : Int) : Rat) := by exact_mod_cast hpos
    have hless : Binary64.less 0 (.finite ((n : Int) : Rat)) = true := by
      have hzero : (0 : Binary64) = .finite 0 := by decide +kernel
      rw [hzero, Binary64.less, Binary64.compare?, Binary64.compareRat, if_pos hlt]
      rfl
    have htruncate : Binary64.truncate ((n : Int) : Rat) = n := by
      rw [Binary64.truncate, if_pos hlt.le, Rat.floor_intCast]
    simp only [hless, if_true, Binary64.toNat64, htruncate, Int.toNat_natCast]
    exact Nat.min_eq_left (by omega)

namespace Collection

variable {δ : Type} {c : Collection δ}

/-- The rows of an exact answer have the documents that meet the conditions. -/
theorem documents_of_answers (hsmall : c.documents.length < 2 ^ 53) {s : Statement}
    {result : ResultSet} (h : c.Answers s result) :
    Rows.documents s.countColumn (result.rows.map fun cells => Row.ofCells cells .engine) =
      (c.selected s).length := by
  obtain ⟨groups, hnodup, -, hcover, hrows⟩ := h
  have hcounts : (result.rows.map fun cells => (Row.ofCells cells .engine).count s.countColumn) =
      groups.map fun group => ((c.selected s).map (c.groupOf s)).count group := by
    refine List.forall₂_eq_eq_eq ▸ (List.forall₂_map_left_iff.mpr
      (List.forall₂_map_right_iff.mpr (hrows.imp fun cells group hcell => ?_)))
    refine Row.count_ofNat (lt_of_le_of_lt ?_ hsmall) hcell .engine
    calc ((c.selected s).map (c.groupOf s)).count group
        ≤ ((c.selected s).map (c.groupOf s)).length := List.count_le_length
      _ = (c.selected s).length := List.length_map _
      _ ≤ c.documents.length := List.length_filter_le _ _
  rw [Rows.documents_eq_sum, List.map_map]
  have hcover' : ∀ group ∈ (c.selected s).map (c.groupOf s), group ∈ groups := by
    intro group hgroup
    obtain ⟨d, hd, rfl⟩ := List.mem_map.mp hgroup
    exact hcover d hd
  exact (congrArg List.sum hcounts).trans ((sum_map_count hnodup hcover').trans (List.length_map _))

end Collection

/-! ## The query alone -/

/-- A request with its query and nothing else. -/
def Json.queryAlone : Json → Json
  | .object fields => .object (fields.filter fun field => field.1 = "query")
  | other => other

theorem Fields.get?_filter (fields : Fields) (name : String) (keep : String → Bool) :
    Fields.get? (fields.filter fun field => keep field.1) name =
      if keep name then Fields.get? fields name else none := by
  induction fields with
  | nil => simp [Fields.get?]
  | cons field rest ih =>
      obtain ⟨key, value⟩ := field
      have hcons (rest : Fields) : Fields.get? ((key, value) :: rest) name =
          if name = key then some value else Fields.get? rest name := by
        by_cases hkey : name = key
        · simp [Fields.get?, hkey]
        · simp [Fields.get?, List.lookup_cons, beq_false_of_ne hkey, hkey]
      rw [List.filter_cons, hcons]
      by_cases hkey : name = key
      · subst hkey
        cases hkeep : keep name <;> simp [hkeep, hcons, ih]
      · cases hkept : keep key <;> simp [hcons, ih, hkey]

/-- Of a request that is read, its query alone is read into the same query. -/
theorem Forest.ofJson_queryAlone {now : Calendar.Instant} {json : Json} {forest : Forest}
    (h : Forest.ofJson now json = .ok forest) :
    ∃ query rest : Forest, forest = query ++ rest ∧
      Forest.ofJson now json.queryAlone = .ok query ∧
      (∀ n ∈ query, n.isQuery = true ∧ n.parent = none) ∧ ∀ n ∈ rest, n.isQuery = false := by
  obtain ⟨request, hrequest, rfl⟩ := ofJson_spec h
  obtain ⟨fields, rfl, hquery, hbranches, -⟩ := Request.ofJson_spec hrequest
  have hfields (name : String) : Fields.get? (fields.filter fun field => field.1 = "query") name =
      if name = "query" then Fields.get? fields name else none := by
    simpa using Fields.get?_filter fields name (fun name => name = "query")
  have halone : Request.ofJson now (Json.object fields).queryAlone = .ok ⟨request.query, []⟩ := by
    have hread : Request.readQuery now (fields.filter fun field => field.1 = "query") =
        .ok request.query := by
      rw [← hquery, Request.readQuery, Request.readQuery, hfields, if_pos rfl]
    have hblock : Request.blockName? "request" (fields.filter fun field => field.1 = "query") =
        .ok none := by
      simp [Request.blockName?, Request.blockNames, hfields, pure, Except.pure, bind, Except.bind]
    rw [Json.queryAlone, Request.ofJson, hread, hblock]
    rfl
  refine ⟨request.query.toList.map (Node.new "query" none 0 false),
    ofBranches none 0 _ request.branches, rfl, ?_, ?_, ?_⟩
  · rw [Forest.ofJson, halone]
    cases hread : request.query with
    | none => rfl
    | some query =>
        obtain ⟨q, hq⟩ := Option.isSome_iff_exists.mp
          (isQuery_of_readQuery (hquery.trans (by rw [hread])))
        cases query with
        | query q => rfl
        | _ => cases hq
  · intro n hn
    obtain ⟨query, hmem, rfl⟩ := List.mem_map.mp hn
    rw [Option.mem_toList] at hmem
    exact ⟨isQuery_of_readQuery (hquery.trans (congrArg Except.ok hmem)), rfl⟩
  · exact isQuery_of_mem_ofBranches _ _ _ _ fun branch hbranch =>
      (hbranches branch hbranch).elim fun _ hread => hread.nodes

/-- The query of a request is active and stands at the top. -/
theorem Forest.query_spec {now : Calendar.Instant} {json : Json} {forest : Forest}
    (h : Forest.ofJson now json = .ok forest) :
    ∀ n ∈ forest, n.isQuery = true → n.isActive = true ∧ n.parent = none := by
  intro n hn hkind
  have hactive : n.isActive = true := by rw [Node.isActive, decisions_of_ofJson h n hn]; rfl
  obtain ⟨query, rest, rfl, -, hquery, hrest⟩ := ofJson_queryAlone h
  rcases List.mem_append.mp hn with hmem | hmem
  · exact ⟨hactive, (hquery n hmem).2⟩
  · rw [hrest n hmem] at hkind
    cases hkind

/-! ## What a statement selects -/

namespace TablePlan

theorem exists_statement_of_isSkipped {plan : TablePlan} (h : plan.isSkipped = false) :
    ∃ s, plan.statement? = some s := by
  unfold isSkipped skipped? at h
  unfold statement?
  cases hresult : plan.result with
  | ok s => exact ⟨s, rfl⟩
  | error reason => simp [hresult] at h

variable {δ : Type} {c : Collection δ}

/-- A statement selects the documents that the query matches and that pass the filters among its
conditions. -/
theorem selected_eq {forest : Forest} {tables : List Table} {settings : Settings}
    {plan : TablePlan} {s : Statement}
    (hquery : ∀ n ∈ forest, n.isQuery = true → n.isActive = true ∧ n.parent = none)
    (hplan : plan ∈ forTables forest tables settings) (hstatement : plan.statement? = some s) :
    c.selected s =
      c.documents.filter fun d => c.isMatched forest d && c.passes plan.forest d := by
  have hrevision := isRevision_of_mem_forTables hplan
  have hconditions (condition : String) : condition ∈ s.conditions ↔
      ∃ n ∈ plan.forest, n.isActive = true ∧ n.condition? = some condition := by
    rw [eq_statementOf hplan hstatement, mem_conditions_statementOf]
    rfl
  refine List.filter_congr fun d _ => Bool.eq_iff_iff.mpr ?_
  rw [List.all_eq_true, Bool.and_eq_true, Collection.isMatched_iff, Collection.passes_iff]
  constructor
  · intro hall
    constructor
    · intro before hbefore q hq heffective filter hfilter
      obtain ⟨i, hi⟩ := List.getElem?_of_mem hbefore
      obtain ⟨n, hn, hnode⟩ := hrevision.node_after hi
      obtain ⟨hactive, hparent⟩ := hquery before hbefore (by rw [Node.isQuery, hq]; rfl)
      refine hall _ ((hconditions _).mpr ⟨n, List.mem_of_getElem? hn, ?_, ?_⟩)
      · rw [hnode.query (by rw [Node.isQuery, hq]; rfl) hparent, hactive]
      · simp [Node.condition?, hnode.aggregation, hq, heffective, hfilter]
    · intro n hn leg hleg hactive hdirect filter hfilter
      refine hall _ ((hconditions _).mpr ⟨n, hn, hactive, ?_⟩)
      simp [Node.condition?, hleg, hdirect, hfilter]
  · rintro ⟨hmatched, hpasses⟩ condition hcondition
    obtain ⟨n, hn, hactive, hown⟩ := (hconditions condition).mp hcondition
    unfold Node.condition? at hown
    split at hown
    · rename_i leg hleg
      split_ifs at hown with hdirect
      obtain ⟨filter, hfilter, rfl⟩ := Option.map_eq_some_iff.mp hown
      exact hpasses n hn leg hleg hactive hdirect filter hfilter
    · rename_i q hq
      split_ifs at hown with heffective
      obtain ⟨filter, hfilter, rfl⟩ := Option.map_eq_some_iff.mp hown
      obtain ⟨i, hi⟩ := List.getElem?_of_mem hn
      obtain ⟨before, hbefore, hnode⟩ := hrevision.node hi
      exact hmatched before (List.mem_of_getElem? hbefore) q (hnode.aggregation.symm.trans hq)
        heffective filter hfilter
    · cases hown

end TablePlan

/-! ## The total of a search -/

namespace SearchState

theorem total_absorb (state : SearchState) (plan : TablePlan) (settings : Settings)
    (result : ResultSet) :
    (state.absorb plan settings result).response.total = state.response.total +
      Rows.documents plan.countColumn (result.rows.map fun cells => Row.ofCells cells .engine) := by
  unfold absorb
  dsimp only
  split <;> rfl

end SearchState

namespace AnsweredSearch

variable {δ : Type} {search alone : AnsweredSearch} {c : Collection δ}

/-- Whether a search asks for the query of another one and nothing else. -/
structure IsQueryOf (alone search : AnsweredSearch) : Prop where
  now : alone.now = search.now
  request : alone.request = search.request.queryAlone
  tables : alone.tables = search.tables
  settings : alone.settings = search.settings

/-- Whether all answers of a search are exact ones about some documents. -/
def IsAnsweredBy (search : AnsweredSearch) (c : Collection δ) : Prop :=
  ∀ answer ∈ search.answers, ∀ s, answer.1.statement? = some s → c.Answers s answer.2

/-- A search of one table has one plan and one answer. -/
theorem exists_answers_eq {table : Table} (htables : search.tables = [table]) :
    ∃ plan result, search.plans = [plan] ∧ search.answers = [(plan, result)] ∧
      plan.isSkipped = false := by
  obtain ⟨plan, hplans⟩ : ∃ plan, search.plans = [plan] := by
    rw [plans, htables]
    exact ⟨_, rfl⟩
  have hmem : plan ∈ TablePlan.forTables search.forest [table] search.settings := by
    rw [← htables, ← plans, hplans]
    exact List.mem_singleton_self plan
  have hskipped := (TablePlan.forest_of_mem_forTables hmem).1
  have hanswers : search.answers.map Prod.fst = [plan] := by
    rw [search.isComplete, ← plans, hplans, List.filter_singleton, hskipped]
    rfl
  obtain ⟨answer, hone, hplan⟩ := List.map_eq_singleton_iff.mp hanswers
  exact ⟨plan, answer.2, hplans, by rw [hone, ← hplan], hskipped⟩

/-- The total of the response to a search of one table counts the documents that the query matches
and that pass the filters among the conditions. -/
theorem total_response {table : Table} (htables : search.tables = [table])
    (hsmall : c.documents.length < 2 ^ 53) (hanswered : search.IsAnsweredBy c) :
    ∃ plan, search.plans = [plan] ∧ search.response.total =
      c.documents.countP fun d => c.isMatched search.forest d && c.passes plan.forest d := by
  obtain ⟨plan, result, hplans, hanswers, hskipped⟩ := exists_answers_eq htables
  refine ⟨plan, hplans, ?_⟩
  have hplan : plan ∈ TablePlan.forTables search.forest search.tables search.settings := by
    rw [← plans, hplans]
    exact List.mem_singleton_self plan
  obtain ⟨s, hs⟩ := TablePlan.exists_statement_of_isSkipped hskipped
  have htotal : search.response.total = Rows.documents plan.countColumn
      (result.rows.map fun cells => Row.ofCells cells .engine) := by
    have hstate : search.state = SearchState.start.absorb plan search.settings result := by
      rw [state, hanswers]
      rfl
    have hfinish : search.response.total = search.state.response.total := by
      unfold response SearchState.finish
      split <;> rfl
    rw [hfinish, hstate, SearchState.total_absorb]
    exact Nat.zero_add _
  have hcount : s.countColumn = plan.countColumn := by
    rw [TablePlan.eq_statementOf hplan hs]
    exact TablePlan.countColumn_statementOf _ _
  have hanswer : c.Answers s result :=
    hanswered _ (by rw [hanswers]; exact List.mem_singleton_self _) s hs
  rw [htotal, ← hcount, Collection.documents_of_answers hsmall hanswer,
    TablePlan.selected_eq (Forest.query_spec search.isAccepted) hplan hs,
    List.countP_eq_length_filter]

/-- The total of a search of one table is that of its query alone, the number of documents that the
query matches, exactly when all of these documents pass the filters among the conditions. It is
never more. -/
theorem total_eq_iff {table : Table} (htables : search.tables = [table])
    (halone : alone.IsQueryOf search) (hsmall : c.documents.length < 2 ^ 53)
    (hanswered : search.IsAnsweredBy c) (hmatched : alone.IsAnsweredBy c) :
    alone.response.total = c.documents.countP (c.isMatched search.forest) ∧
      search.response.total ≤ alone.response.total ∧
      (search.response.total = alone.response.total ↔
        ∀ d ∈ c.documents, c.isMatched search.forest d = true →
          ∀ plan ∈ search.plans, c.passes plan.forest d = true) := by
  obtain ⟨plan, hplans, htotal⟩ := total_response htables hsmall hanswered
  obtain ⟨plain, hplains, hplainTotal⟩ :=
    total_response (halone.tables.trans htables) hsmall hmatched
  have hquery : alone.response.total = c.documents.countP (c.isMatched search.forest) := by
    obtain ⟨query, rest, hforest, halone', hall, hrest⟩ :=
      Forest.ofJson_queryAlone search.isAccepted
    have hsame : alone.forest = query := by
      have haccepted := alone.isAccepted
      rw [halone.now, halone.request, halone'] at haccepted
      exact (Except.ok.inj haccepted).symm
    rw [hplainTotal, hsame]
    refine List.countP_congr fun d _ => ?_
    have hplainPlan : plain ∈ TablePlan.forTables query alone.tables alone.settings := by
      rw [← hsame, ← plans, hplains]
      exact List.mem_singleton_self plain
    have hrevision := TablePlan.isRevision_of_mem_forTables hplainPlan
    -- without aggregations there is no leg to pass
    have hpasses : c.passes plain.forest d = true := by
      rw [Collection.passes_iff]
      intro n hn l hl
      obtain ⟨i, hi⟩ := List.getElem?_of_mem hn
      obtain ⟨before, hbefore, hnode⟩ := hrevision.node hi
      have hkind := (hall before (List.mem_of_getElem? hbefore)).1
      rw [← hnode.isQuery, Node.isQuery, hl] at hkind
      cases hkind
    have hmatches : c.isMatched query d = true ↔ c.isMatched (query ++ rest) d = true := by
      rw [Collection.isMatched_iff, Collection.isMatched_iff]
      refine ⟨fun h n hn q hq => ?_, fun h n hn => h n (List.mem_append_left _ hn)⟩
      rcases List.mem_append.mp hn with hmem | hmem
      · exact h n hmem q hq
      · have hkind := hrest n hmem
        rw [Node.isQuery, hq] at hkind
        cases hkind
    rw [hforest, hpasses, Bool.and_true, hmatches]
  refine ⟨hquery, ?_, ?_⟩
  · rw [hquery, htotal]
    exact List.countP_mono_left fun d _ h => (Bool.and_eq_true_iff.mp h).1
  · have hsplit : (c.documents.countP fun d =>
        c.isMatched search.forest d && c.passes plan.forest d) =
        (c.documents.filter (c.isMatched search.forest)).countP (c.passes plan.forest) := by
      rw [List.countP_filter]
      exact congrArg (c.documents.countP ·) (funext fun d => Bool.and_comm _ _)
    rw [hquery, htotal, hplans, hsplit, List.countP_eq_length_filter (l := c.documents),
      List.countP_eq_length]
    simp [and_imp]

/-! ## The errors of one host -/

/-- The aggregation of the documents with an error. -/
def errorsClause : Json := .object [("term", .object [("status", .ofInt 500)])]

/-- The request for the errors of a host. -/
def errorsRequest : Json :=
  .object [("query", TablePlan.hostQuery "a"),
    ("aggs", .object [("errors", .object [("filter", errorsClause)])])]

def errorsForest : Forest :=
  TablePlan.hostForest "a" ++
    [Node.new "errors" none 0 false (Aggregation.legOf default .single 0 ["errors"] errorsClause)]

def errorsTable : Table := ⟨"t", [("host", true), ("status", true)]⟩

/-- The plan of a forest for that table. -/
def errorsPlan (forest : Forest) : TablePlan :=
  TablePlan.ofForest forest errorsTable false ["host", "status"] .standard

/-- An answer that says how many documents there are. -/
def countResult (count : Nat) : ResultSet := ⟨[[("cnt", .ofNat count)]], 1⟩

/-- The search for the errors of a host, with their number as the answer. -/
def errorsSearch (count : Nat) : AnsweredSearch where
  now := default
  request := errorsRequest
  tables := [errorsTable]
  settings := .standard
  forest := errorsForest
  answers := [(errorsPlan errorsForest, countResult count)]
  isAccepted := rfl
  hasDistinctKeys := rfl
  isComplete := rfl

/-- The search for the host alone, with the number of its documents as the answer. -/
def hostSearch (count : Nat) : AnsweredSearch where
  now := default
  request := TablePlan.hostRequest "a"
  tables := [errorsTable]
  settings := .standard
  forest := TablePlan.hostForest "a"
  answers := [(errorsPlan (TablePlan.hostForest "a"), countResult count)]
  isAccepted := rfl
  hasDistinctKeys := rfl
  isComplete := rfl

/-- Documents with a host and a status. -/
def hostDocuments (documents : List (String × Nat)) : Collection (String × Nat) where
  documents := documents
  satisfies := fun condition d =>
    if condition = "host = 'a'" then d.1 == "a" else if condition = "status = 500" then d.2 == 500
    else false
  value := fun column d => if column = "host" then d.1 else toString d.2

theorem isQueryOf_hostSearch (total matched : Nat) :
    (hostSearch matched).IsQueryOf (errorsSearch total) := ⟨rfl, rfl, rfl, rfl⟩

/-- The number of the documents is an exact answer to a statement that asks for nothing else. -/
theorem answers_countStatement (c : Collection δ) (conditions : List String) :
    c.Answers (TablePlan.countStatement conditions)
      (countResult (c.selected (TablePlan.countStatement conditions)).length) := by
  refine ⟨[[]], List.nodup_singleton _, by decide, fun d _ => List.mem_singleton.mpr rfl,
    .cons ?_ .nil⟩
  have hcount : ((c.selected (TablePlan.countStatement conditions)).map
      (c.groupOf (TablePlan.countStatement conditions))).count [] =
      (c.selected (TablePlan.countStatement conditions)).length := by
    rw [List.count_eq_length.mpr, List.length_map]
    intro group hgroup
    obtain ⟨d, -, rfl⟩ := List.mem_map.mp hgroup
    rfl
  rw [hcount]
  rfl

theorem isAnsweredBy_errorsSearch {count : Nat} (hcount : (c.selected (TablePlan.countStatement
    ["host = 'a'", "status = 500"])).length = count) : (errorsSearch count).IsAnsweredBy c := by
  intro answer hanswer s hs
  obtain rfl := List.mem_singleton.mp hanswer
  obtain rfl : TablePlan.countStatement ["host = 'a'", "status = 500"] = s := Option.some.inj hs
  exact hcount ▸ answers_countStatement c _

theorem isAnsweredBy_hostSearch {count : Nat} (hcount : (c.selected (TablePlan.countStatement
    ["host = 'a'"])).length = count) : (hostSearch count).IsAnsweredBy c := by
  intro answer hanswer s hs
  obtain rfl := List.mem_singleton.mp hanswer
  obtain rfl : TablePlan.countStatement ["host = 'a'"] = s := Option.some.inj hs
  exact hcount ▸ answers_countStatement c _

/-- When a host has nothing but errors, both totals are the number of its documents. -/
theorem errorsSearch_total :
    (errorsSearch 2).IsAnsweredBy (hostDocuments [("a", 500), ("b", 200), ("a", 500)]) ∧
      (hostSearch 2).IsAnsweredBy (hostDocuments [("a", 500), ("b", 200), ("a", 500)]) ∧
      (errorsSearch 2).response.total = (hostSearch 2).response.total := by
  have herrors : (errorsSearch 2).IsAnsweredBy
      (hostDocuments [("a", 500), ("b", 200), ("a", 500)]) := isAnsweredBy_errorsSearch rfl
  have hhost : (hostSearch 2).IsAnsweredBy
      (hostDocuments [("a", 500), ("b", 200), ("a", 500)]) := isAnsweredBy_hostSearch rfl
  refine ⟨herrors, hhost, (total_eq_iff rfl (isQueryOf_hostSearch 2 2) (by decide) herrors
    hhost).2.2.mpr ?_⟩
  decide

/-- Of five documents of a host two are errors: asking for the errors beside the query takes the
other three from the total. -/
theorem errorsSearch_total_ne :
    (hostSearch 5).IsQueryOf (errorsSearch 2) ∧
      (errorsSearch 2).IsAnsweredBy
        (hostDocuments [("a", 500), ("a", 200), ("a", 200), ("a", 500), ("a", 404)]) ∧
      (hostSearch 5).IsAnsweredBy
        (hostDocuments [("a", 500), ("a", 200), ("a", 200), ("a", 500), ("a", 404)]) ∧
      (errorsSearch 2).response.total = 2 ∧ (hostSearch 5).response.total = 5 :=
  ⟨isQueryOf_hostSearch 2 5, isAnsweredBy_errorsSearch rfl, isAnsweredBy_hostSearch rfl,
    by decide +kernel, by decide +kernel⟩

end AnsweredSearch

end Rollup
