/-
# What a statement lists

A statement takes clauses one by one, in any order and any number. Every part that it takes is
listed once, where it was first given: a select item by its expression and its name, a condition and
a group by their texts, an order by its column and an option by its name. Of the orders of one
column the first counts, and of the values of one option the last. The number of documents is
always selected. It is selected once, and in the count column, unless a caller selects it under
another name.
-/

import Mathlib.Data.List.Induction
import Rollup.Proofs.Json.Fields
import Rollup.Statement.Basic

namespace Rollup.Statement

/-! ## Lists that keep what came first -/

section

variable {α : Type} [DecidableEq α] {kept given : List α} {item : α}

/-- Whether a list has what was given, each once, in the order in which it was first given. -/
structure KeepsFirsts (kept given : List α) : Prop where
  mem_iff : ∀ item, item ∈ kept ↔ item ∈ given
  inOrder : kept.Pairwise fun earlier later => given.idxOf earlier < given.idxOf later

theorem KeepsFirsts.nil : KeepsFirsts ([] : List α) [] where
  mem_iff := fun _ => Iff.rfl
  inOrder := List.Pairwise.nil

theorem KeepsFirsts.nodup (h : KeepsFirsts kept given) : kept.Nodup := by
  refine h.inOrder.imp fun {earlier later} hlt heq => ?_
  rw [heq] at hlt
  exact Nat.lt_irrefl _ hlt

/-- The places of what is kept do not change when more is given. -/
theorem KeepsFirsts.inOrder_append (h : KeepsFirsts kept given) (more : List α) :
    kept.Pairwise fun earlier later =>
      (given ++ more).idxOf earlier < (given ++ more).idxOf later := by
  refine h.inOrder.imp_of_mem fun {earlier later} hearlier hlater hlt => ?_
  rwa [List.idxOf_append_of_mem ((h.mem_iff _).mp hearlier),
    List.idxOf_append_of_mem ((h.mem_iff _).mp hlater)]

theorem KeepsFirsts.addOnce (h : KeepsFirsts kept given) (item : α) :
    KeepsFirsts (addOnce kept item) (given ++ [item]) := by
  unfold Statement.addOnce
  by_cases hmem : item ∈ kept
  · rw [if_pos hmem]
    refine ⟨fun other => ?_, h.inOrder_append [item]⟩
    rw [h.mem_iff, List.mem_append, List.mem_singleton]
    constructor
    · exact Or.inl
    · rintro (hother | rfl)
      · exact hother
      · exact (h.mem_iff other).mp hmem
  · rw [if_neg hmem]
    have hnew : item ∉ given := fun hgiven => hmem ((h.mem_iff item).mpr hgiven)
    refine ⟨fun other => by simp [h.mem_iff], ?_⟩
    apply List.pairwise_append.mpr
    refine ⟨h.inOrder_append [item], List.pairwise_singleton _ item, ?_⟩
    intro earlier hearlier later hlater
    obtain rfl := List.mem_singleton.mp hlater
    have hgiven := (h.mem_iff earlier).mp hearlier
    rw [List.idxOf_append_of_mem hgiven, List.idxOf_append_of_notMem hnew]
    exact Nat.lt_add_right _ (List.idxOf_lt_length_of_mem hgiven)

theorem KeepsFirsts.addAll (h : KeepsFirsts kept given) (items : List α) :
    KeepsFirsts (items.foldl Statement.addOnce kept) (given ++ items) := by
  induction items generalizing kept given with
  | nil => rwa [List.append_nil]
  | cons item rest ih =>
      rw [List.foldl_cons, List.append_cons]
      exact ih (h.addOnce item)

end

/-! ## Calls -/

/-- A clause that a caller adds to a statement. -/
inductive Call where
  | select (expression : String) (name : Option String)
  | selectCount
  | addCondition (condition : String)
  | groupBy (column : String)
  | orderBy (column : String) (direction : Direction)
  | setOption (name : String) (value : Json)

namespace Call

/-- The statement with one more clause. -/
def apply (s : Statement) : Call → Statement
  | select expression name => s.select expression name
  | selectCount => s.selectCount
  | addCondition condition => s.addCondition condition
  | groupBy column => s.groupBy column
  | orderBy column direction => s.orderBy column direction
  | setOption name value => s.setOption name value

/-- The select item that is given, with the name of the count column for the number of
documents. -/
def item? (countColumn : String) : Call → Option SelectItem
  | select expression name => some ⟨expression, name⟩
  | selectCount => some ⟨countExpression, some countColumn⟩
  | _ => none

def condition? : Call → Option String
  | addCondition condition => some condition
  | _ => none

def group? : Call → Option String
  | groupBy column => some column
  | _ => none

def order? : Call → Option (String × Direction)
  | orderBy column direction => some (column, direction)
  | _ => none

def option? : Call → Option (String × Json)
  | setOption name value => some (name, value)
  | _ => none

end Call

/-- The statement that calls make, one after the other. -/
def build (table countColumn : String) (calls : List Call) : Statement :=
  calls.foldl Call.apply (empty table countColumn)

/-- The select items that calls give, and the number of documents if none of them gives it. -/
def selected (countColumn : String) (calls : List Call) : List SelectItem :=
  let items := calls.filterMap (Call.item? countColumn)
  if items.any fun item => item.expression = countExpression then items
  else items ++ [⟨countExpression, some countColumn⟩]

/-! ## One call after the other -/

/-- Whether clauses list what calls give: every part once, where it was first given, an order with
the direction that its column had first and an option with the value that its name had last. -/
structure Lists (given : List SelectItem) (calls : List Call) (items : List SelectItem)
    (conditions groups : List String) (orders : List (String × Direction)) (options : Fields) :
    Prop where
  items_once : KeepsFirsts items given
  conditions_once : KeepsFirsts conditions (calls.filterMap Call.condition?)
  groups_once : KeepsFirsts groups (calls.filterMap Call.group?)
  orders_once : KeepsFirsts (orders.map Prod.fst) ((calls.filterMap Call.order?).map Prod.fst)
  first_direction : ∀ column,
    orders.lookup column = (calls.filterMap Call.order?).lookup column
  options_once : KeepsFirsts (options.map Prod.fst) ((calls.filterMap Call.option?).map Prod.fst)
  last_value : ∀ name, options.lookup name = (calls.filterMap Call.option?).reverse.lookup name

/-- Whether a statement has what calls give. -/
structure Collects (s : Statement) (table countColumn : String) (calls : List Call) : Prop where
  table_eq : s.table = table
  countColumn_eq : s.countColumn = countColumn
  lists : Lists (calls.filterMap (Call.item? countColumn)) calls s.items s.conditions s.groups
    s.orders s.options

/-- An order changes no other clause. -/
theorem orderBy_eq (s : Statement) (column : String) (direction : Direction) :
    s.orderBy column direction = { s with orders := (s.orderBy column direction).orders } := by
  unfold orderBy
  split <;> rfl

/-- A column is listed once, however often it is ordered by. -/
theorem map_fst_orderBy (s : Statement) (column : String) (direction : Direction) :
    (s.orderBy column direction).orders.map Prod.fst = addOnce (s.orders.map Prod.fst) column := by
  have hany : (s.orders.any fun order => order.1 = column) = true ↔
      column ∈ s.orders.map Prod.fst := by simp
  unfold orderBy addOnce
  by_cases hmem : column ∈ s.orders.map Prod.fst
  · rw [if_pos (hany.mpr hmem), if_pos hmem]
  · rw [if_neg (hany.not.mpr hmem), if_neg hmem]
    exact List.map_append

/-- The first order of a column counts. -/
theorem lookup_orderBy (s : Statement) (column other : String) (direction : Direction) :
    (s.orderBy column direction).orders.lookup other =
      (s.orders.lookup other).or ([(column, direction)].lookup other) := by
  unfold orderBy
  split
  · rename_i hany
    obtain ⟨order, horder, hcolumn⟩ := List.any_eq_true.mp hany
    by_cases hother : other = column
    · have hsome : (s.orders.lookup other).isSome = true := by
        rw [hother, ← of_decide_eq_true hcolumn]
        exact List.lookup_isSome_iff.mpr ⟨order, horder, beq_self_eq_true _⟩
      rw [Option.or_of_isSome hsome]
    · rw [List.lookup_cons, beq_false_of_ne hother, List.lookup_nil, Option.or_none]
  · exact List.lookup_append

/-- The last value of an option counts. -/
theorem lookup_setOption (s : Statement) (name other : String) (value : Json) :
    (s.setOption name value).options.lookup other =
      ([(name, value)].lookup other).or (s.options.lookup other) := by
  by_cases h : other = name
  · rw [List.lookup_cons, h, beq_self_eq_true]
    exact Fields.get?_insert_self s.options name value
  · rw [List.lookup_cons, beq_false_of_ne h]
    exact Fields.get?_insert_of_ne s.options h value

section

variable (s : Statement) (call : Call)

theorem frame_apply :
    (call.apply s).table = s.table ∧ (call.apply s).countColumn = s.countColumn := by
  cases call with
  | orderBy column direction =>
      rw [Call.apply, orderBy_eq]
      exact ⟨rfl, rfl⟩
  | _ => exact ⟨rfl, rfl⟩

theorem items_apply :
    (call.apply s).items = (call.item? s.countColumn).toList.foldl addOnce s.items := by
  cases call with
  | orderBy column direction =>
      rw [Call.apply, orderBy_eq]
      rfl
  | _ => rfl

theorem conditions_apply :
    (call.apply s).conditions = call.condition?.toList.foldl addOnce s.conditions := by
  cases call with
  | orderBy column direction =>
      rw [Call.apply, orderBy_eq]
      rfl
  | _ => rfl

theorem groups_apply :
    (call.apply s).groups = call.group?.toList.foldl addOnce s.groups := by
  cases call with
  | orderBy column direction =>
      rw [Call.apply, orderBy_eq]
      rfl
  | _ => rfl

theorem map_fst_orders_apply : (call.apply s).orders.map Prod.fst =
    (call.order?.toList.map Prod.fst).foldl addOnce (s.orders.map Prod.fst) := by
  cases call with
  | orderBy column direction => exact map_fst_orderBy s column direction
  | _ => rfl

theorem lookup_orders_apply (column : String) : (call.apply s).orders.lookup column =
    (s.orders.lookup column).or (call.order?.toList.lookup column) := by
  cases call with
  | orderBy other direction => exact lookup_orderBy s other column direction
  | _ => exact Option.or_none.symm

theorem map_fst_options_apply : (call.apply s).options.map Prod.fst =
    (call.option?.toList.map Prod.fst).foldl addOnce (s.options.map Prod.fst) := by
  cases call with
  | setOption name value => exact Fields.map_fst_insert s.options name value
  | orderBy column direction =>
      rw [Call.apply, orderBy_eq]
      rfl
  | _ => rfl

theorem lookup_options_apply (name : String) : (call.apply s).options.lookup name =
    (call.option?.toList.lookup name).or (s.options.lookup name) := by
  cases call with
  | setOption other value => exact lookup_setOption s other name value
  | orderBy column direction =>
      rw [Call.apply, orderBy_eq]
      rfl
  | _ => rfl

end

section

variable {s : Statement} {table countColumn : String} {calls : List Call}

theorem collects_empty (table countColumn : String) :
    Collects (empty table countColumn) table countColumn [] where
  table_eq := rfl
  countColumn_eq := rfl
  lists :=
    { items_once := .nil
      conditions_once := .nil
      groups_once := .nil
      orders_once := .nil
      first_direction := fun _ => rfl
      options_once := .nil
      last_value := fun _ => rfl }

/-- One more call keeps a statement in step with the calls. -/
theorem Collects.apply (h : Collects s table countColumn calls) (call : Call) :
    Collects (call.apply s) table countColumn (calls ++ [call]) := by
  obtain ⟨htable, rfl, hlists⟩ := h
  have hgives {α : Type} (give? : Call → Option α) :
      (calls ++ [call]).filterMap give? = calls.filterMap give? ++ (give? call).toList := by
    rw [List.filterMap_append, List.filterMap_cons, List.filterMap_nil]
    cases give? call <;> rfl
  refine ⟨(frame_apply s call).1.trans htable, (frame_apply s call).2, ?_⟩
  constructor
  · rw [hgives, items_apply]
    exact hlists.items_once.addAll _
  · rw [hgives, conditions_apply]
    exact hlists.conditions_once.addAll _
  · rw [hgives, groups_apply]
    exact hlists.groups_once.addAll _
  · rw [hgives, map_fst_orders_apply, List.map_append]
    exact hlists.orders_once.addAll _
  · intro column
    rw [hgives, lookup_orders_apply, List.lookup_append, hlists.first_direction]
  · rw [hgives, map_fst_options_apply, List.map_append]
    exact hlists.options_once.addAll _
  · intro name
    have hone : call.option?.toList.reverse = call.option?.toList := by
      cases call.option? <;> rfl
    rw [hgives, lookup_options_apply, List.reverse_append, List.lookup_append, hone,
      hlists.last_value]

/-- However the calls are mixed, the statement has what they give. -/
theorem collects_build (table countColumn : String) (calls : List Call) :
    Collects (build table countColumn calls) table countColumn calls := by
  induction calls using List.reverseRecOn with
  | nil => exact collects_empty table countColumn
  | append_singleton before call ih =>
      unfold build at ih ⊢
      rw [List.foldl_append]
      exact ih.apply call

/-! ## The number of documents -/

theorem countsDocuments_iff {items : List SelectItem} :
    (items.any fun item => item.expression = countExpression) = true ↔
      ∃ item ∈ items, item.expression = countExpression := by
  simp only [List.any_eq_true, decide_eq_true_eq]

/-- The select list is what calls give, with the number of documents at the end if no call gives
it. -/
theorem keepsFirsts_selectList (h : Collects s table countColumn calls) :
    KeepsFirsts s.selectList (selected countColumn calls) := by
  obtain ⟨-, rfl, hlists⟩ := h
  have hitems := hlists.items_once
  have hany : (s.items.any fun item => item.expression = countExpression) =
      (calls.filterMap (Call.item? s.countColumn)).any fun item =>
        item.expression = countExpression := by
    rw [Bool.eq_iff_iff, countsDocuments_iff, countsDocuments_iff]
    exact exists_congr fun item => and_congr_left' (hitems.mem_iff item)
  unfold selectList selected
  dsimp only
  rw [← hany]
  split
  · exact hitems
  · rename_i hnone
    have hnew : ⟨countExpression, some s.countColumn⟩ ∉ s.items := fun hmem =>
      hnone (countsDocuments_iff.mpr ⟨_, hmem, rfl⟩)
    have hlast := hitems.addOnce ⟨countExpression, some s.countColumn⟩
    rwa [Statement.addOnce, if_neg hnew] at hlast

theorem mem_selected_of_select {name : Option String} {expression : String}
    (h : Call.select expression name ∈ calls) :
    ⟨expression, name⟩ ∈ selected countColumn calls := by
  have hgiven : ⟨expression, name⟩ ∈ calls.filterMap (Call.item? countColumn) :=
    List.mem_filterMap.mpr ⟨_, h, rfl⟩
  unfold selected
  dsimp only
  split
  · exact hgiven
  · exact List.mem_append_left _ hgiven

/-- The number of documents is selected under the names that callers select it under, and in the
count column. -/
theorem name_of_mem_selected {item : SelectItem} (h : item ∈ selected countColumn calls)
    (hcount : item.expression = countExpression) :
    item.name = some countColumn ∨ Call.select countExpression item.name ∈ calls := by
  have hgiven (hmem : item ∈ calls.filterMap (Call.item? countColumn)) :
      item.name = some countColumn ∨ Call.select countExpression item.name ∈ calls := by
    obtain ⟨call, hcall, hitem⟩ := List.mem_filterMap.mp hmem
    cases call with
    | select expression name =>
        cases hitem
        rw [← hcount]
        exact Or.inr hcall
    | selectCount =>
        cases hitem
        exact Or.inl rfl
    | addCondition condition => cases hitem
    | groupBy column => cases hitem
    | orderBy column direction => cases hitem
    | setOption name value => cases hitem
  unfold selected at h
  dsimp only at h
  split at h
  · exact hgiven h
  · rcases List.mem_append.mp h with hmem | hlast
    · exact hgiven hmem
    · rw [List.mem_singleton.mp hlast]
      exact Or.inl rfl

/-- The number of documents is always selected. -/
theorem exists_mem_selected (countColumn : String) (calls : List Call) :
    ∃ item ∈ selected countColumn calls, item.expression = countExpression := by
  unfold selected
  dsimp only
  split
  · rename_i hany
    exact countsDocuments_iff.mp hany
  · exact ⟨_, List.mem_append_right _ List.mem_cons_self, rfl⟩

/-- The number of documents is selected once, and in the count column, just when no caller selects
it under another name. -/
theorem filter_count_eq_iff {items : List SelectItem}
    (h : KeepsFirsts items (selected countColumn calls)) :
    items.filter (fun item => item.expression = countExpression) =
        [⟨countExpression, some countColumn⟩] ↔
      ∀ name, Call.select countExpression name ∈ calls → name = some countColumn := by
  have hmem (item : SelectItem) :
      item ∈ items.filter (fun item => item.expression = countExpression) ↔
        item ∈ selected countColumn calls ∧ item.expression = countExpression := by
    rw [List.mem_filter, h.mem_iff, decide_eq_true_iff]
  constructor
  · intro heq name hname
    have hselected := (hmem ⟨countExpression, name⟩).mpr ⟨mem_selected_of_select hname, rfl⟩
    rw [heq] at hselected
    exact congrArg SelectItem.name (List.mem_singleton.mp hselected)
  · intro hnames
    have hone (item : SelectItem)
        (hitem : item ∈ selected countColumn calls ∧ item.expression = countExpression) :
        item = ⟨countExpression, some countColumn⟩ := by
      have hname := (name_of_mem_selected hitem.1 hitem.2).elim id (hnames item.name)
      rw [← hname, ← hitem.2]
    obtain ⟨item, hitem⟩ := exists_mem_selected countColumn calls
    refine List.perm_singleton.mp ?_
    refine (List.perm_ext_iff_of_nodup (h.nodup.filter _) (List.nodup_singleton _)).mpr ?_
    intro other
    rw [hmem, List.mem_singleton]
    refine ⟨hone other, ?_⟩
    rintro rfl
    exact hone item hitem ▸ hitem

end

/-- However calls are mixed, the text of the statement that they make lists every select item, every
condition and every group once where it was first given, every column that it orders by once with
the direction that it was first given, and every option once in its first place with its last value.
The number of documents is selected once, and in the count column, just when no caller selects it
under another name. -/
theorem text_build (table countColumn : String) (calls : List Call) :
    ∃ items conditions groups orders options,
      (build table countColumn calls).text =
        "SELECT " ++ String.intercalate ", " (items.map SelectItem.text) ++
          " FROM " ++ quoteName table ++
          clause " WHERE " " AND " conditions ++
          clause " GROUP BY " ", " groups ++
          clause " ORDER BY " ", " (orders.map fun order => order.1 ++ " " ++ order.2.keyword) ++
          " LIMIT 0," ++ toString rowLimit ++
          clause " OPTION " ", " (options.map fun option => option.1 ++ "=" ++ optionText option.2) ∧
      Lists (selected countColumn calls) calls items conditions groups orders options ∧
      (items.filter (fun item => item.expression = countExpression) =
          [⟨countExpression, some countColumn⟩] ↔
        ∀ name, Call.select countExpression name ∈ calls → name = some countColumn) := by
  have h := collects_build table countColumn calls
  have hitems := keepsFirsts_selectList h
  refine ⟨_, _, _, _, _, ?_, { h.lists with items_once := hitems }, filter_count_eq_iff hitems⟩
  unfold text
  rw [h.table_eq]

/-- A caller that selects the number of documents under another name leaves the count column out,
and one that also asks for the count has it twice. -/
theorem build_counts_elsewhere :
    (build "t" "cnt" [.select "count(*)" (some "n")]).text =
      "SELECT count(*) AS n FROM t LIMIT 0,1000" ∧
    (build "t" "cnt" [.select "count(*)" (some "n"), .selectCount]).text =
      "SELECT count(*) AS n, count(*) AS cnt FROM t LIMIT 0,1000" ∧
    ¬ ∀ table countColumn calls,
      (build table countColumn calls).selectList.filter
        (fun item => item.expression = countExpression) =
          [⟨countExpression, some countColumn⟩] := by
  refine ⟨by decide, by decide, fun hall => ?_⟩
  exact absurd (hall "t" "cnt" [.select "count(*)" (some "n")]) (by decide)

end Rollup.Statement
