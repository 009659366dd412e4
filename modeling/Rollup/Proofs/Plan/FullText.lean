/-
# Searches in the full text

The daemon accepts a search in the full text as a term of the WHERE clause, and nowhere else. No
column of a statement searches, since a filter that does is a condition of the statement or left
out. But a condition is written as it was read: what it says below a disjunction or a negation
stays there. So all searches of a statement are terms of its WHERE clause exactly if no filter that
became a condition searches below a disjunction or a negation.
-/

import Mathlib.Data.Set.List
import Rollup.Proofs.Plan.Classified
import Rollup.Proofs.Plan.Selection
import Rollup.Proofs.Statement.Terms

namespace Rollup

/-! ## Filters that become conditions -/

namespace Node

/-- Whether the filter of a node is a condition of the statement. -/
def restricts (n : Node) : Bool :=
  match n.aggregation with
  | .leg _ => n.decisions.direct
  | .query q => q.isEffective
  | _ => false

/-- The condition that a node restricts the rows by. -/
def restriction? (n : Node) : Option Condition :=
  if n.restricts then n.aggregation.filter?.map Filter.condition else none

theorem condition?_eq (n : Node) : n.condition? = n.restriction?.map Condition.text := by
  unfold condition? restriction? restricts Aggregation.filter?
  cases n.aggregation with
  | leg l =>
      cases n.decisions.direct with
      | true => exact (Option.map_map ..).symm
      | false => rfl
  | query q =>
      dsimp only
      split
      · exact (Option.map_map ..).symm
      · rfl
  | _ => rfl

/-- A restriction is the condition of a filter. -/
theorem exists_filter_of_restriction? {n : Node} {c : Condition} (h : n.restriction? = some c) :
    ∃ f, n.aggregation.filter? = some f ∧ f.condition = c := by
  unfold restriction? at h
  split at h
  · exact Option.map_eq_some_iff.mp h
  · cases h

end Node

/-- The filters that restrict the rows of a statement. -/
def Forest.restrictions (forest : Forest) : List Condition :=
  (forest.filter Node.isActive).filterMap Node.restriction?

theorem Forest.mem_restrictions {forest : Forest} {c : Condition} :
    c ∈ forest.restrictions ↔ ∃ n ∈ forest, n.isActive = true ∧ n.restriction? = some c := by
  simp [restrictions, List.mem_filterMap, and_assoc]

/-- A filter in which no search was met has a condition without one. -/
theorem Filter.searches_eq_zero {f : Filter} (hjoined : f.condition.IsJoined (Clause.IsMetIn f.met))
    (h : f.isFullText = false) : f.condition.searches = 0 := by
  refine List.countP_eq_zero.mpr fun a ha => ?_
  have hnone := List.any_eq_false.mp h a (hjoined.of_mem_atoms ha).2
  simpa using hnone

/-- What a statement takes over from its settings is plain: the name of the count, and options
with plain names and values that a text can say. -/
structure Settings.IsPlain (settings : Settings) : Prop where
  count : Statement.isPlainName settings.countColumn.toList = true
  options : ∀ option ∈ settings.statementOptions,
    Statement.isPlainName option.1.toList = true ∧ option.2.isFinite = true

namespace Statement

/-! ## Generated names -/

/-- A plain name that is lengthened. -/
theorem hasSearches_lengthen {name : String} (h : isPlainName name.toList = true)
    (isTaken : String → Bool) (fuel : Nat) :
    HasSearches (PlanContext.lengthen isTaken fuel name) 0 := by
  obtain ⟨c, more, hname, hstart, hmore⟩ := eq_cons_of_isPlainName h
  obtain ⟨k, hk⟩ := PlanContext.exists_toList_lengthen isTaken fuel name
  rw [hname, List.cons_append] at hk
  refine hasSearches_word hk hstart fun d hd => ?_
  rcases List.mem_append.mp hd with hold | hnew
  · exact hmore d hold
  · obtain rfl := List.eq_of_mem_replicate hnew
    exact Or.inl rfl

theorem hasSearches_candidate (context : PlanContext) (number : Nat) :
    HasSearches (Plan.Naming.candidate context number) 0 := by
  refine IsCalm.hasSearches fun c hc => ?_
  obtain ⟨k, hk⟩ := Plan.Naming.exists_toList_candidate context number
  rw [hk, String.toList_append, List.mem_append, List.mem_append] at hc
  rcases hc with (hletter | hdigit) | hline
  · have hletters : IsCalm "al" := by decide
    exact hletters c hletter
  · exact isCalm_of_isDigit (Plan.Naming.isDigit_of_mem_toString hdigit)
  · obtain rfl := List.eq_of_mem_replicate hline
    rfl

end Statement

namespace TablePlan

open Statement Plan

/-- The options of a statement are those of the settings. -/
theorem mem_options_statementOf {draft : Draft} {settings : Settings} {option : String × Json}
    (h : option ∈ (statementOf draft settings).options) : option ∈ settings.statementOptions := by
  refine (mem_options_foldl h).resolve_left fun hfilled => ?_
  have hnone := options_foldl_contribute (draft.forest.filter Node.isActive)
    (Statement.empty draft.context.table.name draft.context.countColumn)
  exact List.not_mem_nil (Eq.mp (congrArg (option ∈ ·) hnone) hfilled)

section Plans

variable {now : Calendar.Instant} {request : Json} {forest : Forest} {tables : List Table}
  {settings : Settings} {plan : TablePlan}

/-- No column searches: an indirect leg in whose filter a search was met is left out. -/
theorem isFullText_of_indirect (hforest : Forest.ofJson now request = .ok forest)
    (hkeys : request.hasDistinctKeys = true) (hplan : plan ∈ forTables forest tables settings)
    (hskipped : plan.isSkipped = false) {n : Node} (hn : n ∈ plan.forest)
    (hactive : n.isActive = true) {l : Leg} (hl : n.aggregation = .leg l)
    (hdirect : n.decisions.direct = false) {f : Filter} (hf : l.filter? = some f) :
    f.isFullText = false := by
  simp only [forTables, List.mem_map] at hplan
  obtain ⟨table, -, rfl⟩ := hplan
  obtain ⟨checked, hrevision, -, heq, -⟩ := forest_eq_of_isSkipped hskipped
  have hheaded (context : PlanContext) : (nameColumns context checked).IsHeaded :=
    (hrevision.trans (isRevision_nameNodes _ _ checked)).isHeaded
      (Forest.isHeaded_of_ofJson hforest hkeys)
  obtain ⟨i, hi⟩ := List.getElem?_of_mem hn
  rw [heq] at hi
  have hclassified := (getElem?_orderNodes_iff (Node.terms?_of_isLeg (Node.isLeg_of_eq hl))).mp hi
  exact (isClassified_classifyFilters (hheaded _)).indirect n (List.mem_of_getElem? hclassified) l
    hl hactive hdirect f hf

/-- The columns of active nodes are generated ones. -/
theorem hasSearches_column (hnew : forest.IsUnnamed)
    (hplan : plan ∈ forTables forest tables settings) (hskipped : plan.isSkipped = false)
    {n : Node} (hn : n ∈ plan.forest) (hactive : n.isActive = true)
    (hneeds : n.aggregation.needsColumn = true) {column : String}
    (hcolumn : n.decisions.column = some column) : HasSearches column 0 := by
  simp only [forTables, List.mem_map] at hplan
  obtain ⟨table, -, rfl⟩ := hplan
  obtain ⟨checked, -, hunnamed, heq, -⟩ := forest_eq_of_isSkipped hskipped
  rw [heq] at hn
  obtain ⟨m, hm, -, c, hmc, hnc⟩ := exists_named hn hactive hneeds
  obtain rfl := Option.some.inj (hcolumn.symm.trans hnc)
  obtain ⟨record, -, hnumbered, hrecorded⟩ :=
    exists_candidates_nameColumns (PlanContext.new table (1 < tables.length)
      (tables.flatMap Table.fieldNames) settings.countColumn) (hunnamed hnew)
  obtain ⟨e, -, hmem⟩ := hrecorded m hm column hmc
  obtain ⟨k, rfl⟩ : ∃ k, column = _ := hnumbered (e, column) hmem
  exact hasSearches_candidate _ k

theorem hasSearches_countColumn (hsettings : settings.IsPlain)
    (hplan : plan ∈ forTables forest tables settings) (hskipped : plan.isSkipped = false) :
    HasSearches plan.countColumn 0 := by
  simp only [forTables, List.mem_map] at hplan
  obtain ⟨table, -, rfl⟩ := hplan
  obtain ⟨-, -, -, -, hcount⟩ := forest_eq_of_isSkipped hskipped
  rw [hcount]
  exact hasSearches_lengthen hsettings.count _ _

/-- The filters of a plan are those that were read. -/
theorem isJoined_of_mem_forTables (hforest : Forest.ofJson now request = .ok forest)
    (hfinite : request.isFinite = true) (hplan : plan ∈ forTables forest tables settings)
    {n : Node} (hn : n ∈ plan.forest) : n.aggregation.IsJoined := by
  obtain ⟨i, hi⟩ := List.getElem?_of_mem hn
  obtain ⟨m, hm, hrevision⟩ := (isRevision_of_mem_forTables hplan).node hi
  rw [hrevision.aggregation]
  exact Forest.isJoined_of_ofJson hforest hfinite m (List.mem_of_getElem? hm)

theorem isJoined_of_mem_restrictions (hforest : Forest.ofJson now request = .ok forest)
    (hfinite : request.isFinite = true) (hplan : plan ∈ forTables forest tables settings)
    {c : Condition} (hc : c ∈ plan.forest.restrictions) :
    c.IsJoined fun a => a.isWritable = true := by
  obtain ⟨n, hn, -, hrestriction⟩ := Forest.mem_restrictions.mp hc
  obtain ⟨f, hf, rfl⟩ := Node.exists_filter_of_restriction? hrestriction
  exact (isJoined_of_mem_forTables hforest hfinite hplan hn f hf).mono fun a ha => ha.1

/-- The conditions of a statement are the texts of the restrictions. -/
theorem mem_conditions_iff (draft : Draft) (settings : Settings) (condition : String) :
    condition ∈ (statementOf draft settings).conditions ↔
      ∃ c ∈ draft.forest.restrictions, c.text = condition := by
  rw [mem_conditions_statementOf]
  simp only [Forest.mem_restrictions, Node.condition?_eq, Option.map_eq_some_iff]
  constructor
  · rintro ⟨n, hn, hactive, c, hc, htext⟩
    exact ⟨c, ⟨n, hn, hactive, hc⟩, htext⟩
  · rintro ⟨c, ⟨n, hn, hactive, hc⟩, htext⟩
    exact ⟨n, hn, hactive, c, hc, htext⟩

/-- The conditions of a statement are the restrictions, of which every one is written once. -/
theorem exists_conditions_eq {draft : Draft} (settings : Settings)
    (hinjective : ∀ c ∈ draft.forest.restrictions, ∀ d ∈ draft.forest.restrictions,
      c.text = d.text → c = d) :
    ∃ kept : List Condition, (statementOf draft settings).conditions = kept.map Condition.text ∧
      ∀ c, c ∈ kept ↔ c ∈ draft.forest.restrictions := by
  obtain ⟨kept, hkept⟩ : (statementOf draft settings).conditions ∈
      Set.range (List.map fun c : {c // c ∈ draft.forest.restrictions} => c.1.text) := by
    rw [Set.range_list_map]
    intro condition hcondition
    obtain ⟨c, hc, htext⟩ := (mem_conditions_iff draft settings condition).mp hcondition
    exact ⟨⟨c, hc⟩, htext⟩
  refine ⟨kept.map Subtype.val, ?_, fun c => ⟨fun hc => ?_, fun hc => ?_⟩⟩
  · rw [← hkept, List.map_map]
    rfl
  · obtain ⟨c, -, rfl⟩ := List.mem_map.mp hc
    exact c.2
  · have htext := (mem_conditions_iff draft settings c.text).mpr ⟨c, hc, rfl⟩
    rw [← hkept] at htext
    obtain ⟨other, hother, heq⟩ := List.mem_map.mp htext
    rw [← hinjective _ other.2 c hc heq]
    exact List.mem_map_of_mem hother

/-- What an active node selects does not search. -/
theorem hasSearches_item (hforest : Forest.ofJson now request = .ok forest)
    (hkeys : request.hasDistinctKeys = true) (hfinite : request.isFinite = true)
    (hplan : plan ∈ forTables forest tables settings) (hskipped : plan.isSkipped = false)
    {n : Node} (hn : n ∈ plan.forest) (hactive : n.isActive = true) {item : SelectItem}
    (hitem : n.item? = some item) :
    HasSearches item.expression 0 ∧ ∀ name ∈ item.name, HasSearches name 0 := by
  have hjoined := isJoined_of_mem_forTables hforest hfinite hplan hn
  have hcomputed (hneeds : n.aggregation.needsColumn = true) (hitem : n.computed? = some item)
      (hsilent : ∀ f ∈ n.aggregation.filter?, f.condition.searches = 0) :
      HasSearches item.expression 0 ∧ ∀ name ∈ item.name, HasSearches name 0 := by
    obtain ⟨column, hcolumn, hitem⟩ := Option.bind_eq_some_iff.mp hitem
    obtain ⟨e, he, rfl⟩ := Option.map_eq_some_iff.mp hitem
    refine ⟨Aggregation.hasSearches_expression he (fun f hf a ha =>
      ((hjoined f hf).of_mem_atoms ha).1) hsilent, fun name hname => ?_⟩
    obtain rfl := Option.some.inj hname
    exact hasSearches_column (isUnnamed_of_ofJson hforest) hplan hskipped hn hactive hneeds hcolumn
  unfold Node.item? at hitem
  cases hkind : n.aggregation with
  | terms t =>
      rw [hkind] at hitem
      obtain rfl := Option.some.inj hitem
      exact ⟨hasSearches_quoteName t.field, by simp⟩
  | leg l =>
      rw [hkind] at hitem
      dsimp only at hitem
      split at hitem
      · cases hitem
      · rename_i hindirect
        refine hcomputed (by rw [hkind]; rfl) hitem fun f hf => ?_
        refine Filter.searches_eq_zero (hjoined f hf) ?_
        rw [hkind] at hf
        exact isFullText_of_indirect hforest hkeys hplan hskipped hn hactive hkind
          (by simpa using hindirect) hf
  | query q => simp [hkind, Node.computed?, Aggregation.expression?] at hitem
  | _ =>
      rw [hkind] at hitem
      refine hcomputed (by rw [hkind]; rfl) hitem fun f hf => ?_
      rw [hkind] at hf
      cases hf

/-- Nothing of the statement of a plan searches but its conditions. -/
theorem isQuiet_statementOf (hforest : Forest.ofJson now request = .ok forest)
    (hkeys : request.hasDistinctKeys = true) (hfinite : request.isFinite = true)
    (hsettings : settings.IsPlain) (hplan : plan ∈ forTables forest tables settings)
    (hskipped : plan.isSkipped = false) : (statementOf plan.draft settings).IsQuiet := by
  have hcount := hasSearches_countColumn hsettings hplan hskipped
  have hselected {n : Node} (hn : n ∈ plan.forest) (hactive : n.isActive = true)
      {item : SelectItem} (hitem : n.item? = some item) :
      HasSearches item.expression 0 ∧ ∀ name ∈ item.name, HasSearches name 0 :=
    hasSearches_item hforest hkeys hfinite hplan hskipped hn hactive hitem
  have hreference {n : Node} (hn : n ∈ plan.forest) (hactive : n.isActive = true)
      {item : SelectItem} (hitem : n.item? = some item) : HasSearches item.reference 0 := by
    obtain ⟨hexpression, hname⟩ := hselected hn hactive hitem
    unfold SelectItem.reference
    cases hnamed : item.name with
    | none => exact hexpression
    | some name => exact hname name hnamed
  exact
    { items := by
        have hcounted : HasSearches (SelectItem.text ⟨countExpression, some plan.countColumn⟩) 0 :=
          hasSearches_itemText hasSearches_count fun name hname => by
            obtain rfl := Option.some.inj hname
            exact hcount
        intro item hitem
        rcases mem_selectList hitem with hmem | rfl
        · rcases (mem_items_statementOf plan.draft settings).mp hmem with
            ⟨n, hn, hactive, hitem⟩ | rfl
          · obtain ⟨hexpression, hname⟩ := hselected hn hactive hitem
            exact hasSearches_itemText hexpression hname
          · exact hcounted
        · rw [countColumn_statementOf]
          exact hcounted
      conditions := by
        intro condition hcondition
        obtain ⟨c, hc, rfl⟩ := (mem_conditions_iff plan.draft settings condition).mp hcondition
        have hjoined := isJoined_of_mem_restrictions hforest hfinite hplan hc
        exact ⟨c.searches, Condition.hasSearches_text fun a ha => hjoined.of_mem_atoms ha⟩
      groups := by
        intro group hgroup
        rw [groups_statementOf, List.mem_eraseDups] at hgroup
        obtain ⟨n, hn, hown⟩ := List.mem_filterMap.mp hgroup
        obtain ⟨hn, hactive⟩ := List.mem_filter.mp hn
        unfold Node.group? at hown
        split at hown
        · cases hown
        · obtain ⟨item, hitem, rfl⟩ := Option.map_eq_some_iff.mp hown
          exact hreference hn hactive hitem
      orders := by
        intro order horder
        obtain ⟨n, hn, hactive, hown⟩ := exists_order_of_mem_statementOf horder
        rcases exists_item_of_order (isUnnamed_of_ofJson hforest) hplan hskipped hn hactive hown
          with heq | ⟨m, hm, hmactive, item, hitem, heq⟩
        · exact heq ▸ hcount
        · exact heq ▸ hreference hm hmactive hitem
      options := fun option hoption =>
        have hplain := hsettings.options option (mem_options_statementOf hoption)
        ⟨hasSearches_of_isPlainName hplain.1, hasSearches_optionText hplain.2⟩ }

/-- Nothing of a statement searches but its conditions, and there every search is a term of the
WHERE clause exactly if no filter that became a condition searches below a disjunction or a
negation. -/
theorem searchesOnTop_iff_of_mem {plans : List TablePlan} {s : Statement}
    (h : ofRequest now request tables settings = .ok plans)
    (hkeys : request.hasDistinctKeys = true) (hfinite : request.isFinite = true)
    (hsettings : settings.IsPlain) (hplan : plan ∈ plans) (hs : plan.statement? = some s)
    (hnamed : ∀ c ∈ plan.forest.restrictions, ∀ a ∈ c.atoms, a.IsNamed) :
    searchCount (tokens s.text) =
        (s.conditions.map fun condition => searchCount (tokens condition)).sum ∧
      (s.SearchesOnTop ↔ ∀ c ∈ plan.forest.restrictions, c.searchesOnTop = true) := by
  obtain ⟨forest, hforest, hplans⟩ : ∃ forest, Forest.ofJson now request = .ok forest ∧
      forTables forest tables settings = plans := by
    unfold ofRequest at h
    cases hread : Forest.ofJson now request with
    | error e => simp [hread, Except.map] at h
    | ok forest => exact ⟨forest, rfl, by simpa [hread, Except.map] using h⟩
  rw [← hplans] at hplan
  have hskipped := isSkipped_of_statement? hs
  obtain rfl := eq_statementOf hplan hs
  have hquiet := isQuiet_statementOf hforest hkeys hfinite hsettings hplan hskipped
  have hsay (c : Condition) (hc : c ∈ plan.forest.restrictions) : c.IsSayable :=
    (isJoined_of_mem_restrictions hforest hfinite hplan hc).and (hnamed c hc)
  refine ⟨hquiet.searchCount_text, ?_⟩
  obtain ⟨kept, hconditions, hmem⟩ := exists_conditions_eq settings
    fun c hc d hd htext => Condition.text_injective (hsay c hc) (hsay d hd) htext
  rw [hquiet.searchesOnTop_iff (fun c hc => hsay c ((hmem c).mp hc)) hconditions]
  exact forall_congr' fun c => imp_congr_left (hmem c)

end Plans

/-- The greatest size where the web is said to have a full disk. -/
def diskRequest : Json :=
  .object [("query", .object [("bool", .object [("must", .array [
      .object [("query_string", .object [("query", .string "disk full")])],
      .object [("term", .object [("host", .string "web")])]])])]),
    ("aggs", .object [("greatest", .object [("max", .object [("field", .string "size")])])])]

def diskFilter : Filter :=
  let full : Atom := .matchesText "disk full"
  let web : Atom := .equals "host" (.text "web")
  ⟨.all [.atom full, .atom web], [full, web]⟩

def diskPlan : TablePlan :=
  ofForest [Node.new "query" none 0 false (.query ⟨some diskFilter, true⟩),
    Node.new "greatest" none 0 false (.metric ⟨.max, "size"⟩)] hostTable false ["host", "size"]
    .standard

def diskStatement : Statement :=
  ⟨"t", "cnt", [⟨"max(size)", some "al1"⟩, ⟨"count(*)", some "cnt"⟩],
    ["(MATCH('disk full') AND host = 'web')"], [], [], []⟩

/-- The search is a term of a conjunction. -/
theorem searchesOnTop_diskStatement :
    ofRequest default diskRequest [hostTable] .standard = .ok [diskPlan] ∧
      diskPlan.statement? = some diskStatement ∧ diskStatement.SearchesOnTop := by
  have hread : ofRequest default diskRequest [hostTable] .standard = .ok [diskPlan] := rfl
  have hstatement : diskPlan.statement? = some diskStatement := rfl
  have hrestrictions : diskPlan.forest.restrictions = [diskFilter.condition] := rfl
  have hsettings : Settings.standard.IsPlain := ⟨by decide, by simp [Settings.standard]⟩
  have hiff := (searchesOnTop_iff_of_mem hread (by decide +kernel) (by decide +kernel) hsettings
    (List.mem_singleton_self _) hstatement (by
      rw [hrestrictions]
      simp only [List.forall_mem_singleton]
      decide +kernel)).2
  refine ⟨hread, hstatement, hiff.mpr ?_⟩
  rw [hrestrictions]
  simp only [List.forall_mem_singleton]
  rfl

/-- The documents that are not said to have a full disk. -/
def negatedRequest : Json :=
  .object [("aggs", .object [("other", .object [("filter", .object [("bool", .object [
    ("must_not", .array [
      .object [("query_string", .object [("query", .string "disk full")])]])])])])])]

def negatedPlan : TablePlan :=
  ofForest [Node.new "other" none 0 false (.leg ⟨.single, 0, ["other"],
    .ok (some ⟨.not (.atom (.matchesText "disk full")), [.matchesText "disk full"]⟩)⟩)] hostTable
    false ["host", "size"] .standard

def negatedStatement : Statement :=
  ⟨"t", "cnt", [⟨"count(*)", some "cnt"⟩], ["NOT (MATCH('disk full'))"], [], [], []⟩

/-- A search below a negation becomes a condition as it is. -/
theorem not_searchesOnTop_negatedStatement :
    ofRequest default negatedRequest [hostTable] .standard = .ok [negatedPlan] ∧
      negatedPlan.statement? = some negatedStatement ∧
      negatedStatement.text =
        "SELECT count(*) AS cnt FROM t WHERE NOT (MATCH('disk full')) LIMIT 0,1000" ∧
      ¬ negatedStatement.SearchesOnTop :=
  ⟨rfl, rfl, rfl, by decide +kernel⟩

end TablePlan

end Rollup
