/-
# Columns and expressions

Every generated name carries the number that was counted up for it, so the names of different
expressions differ, and it is lengthened until it is neither an attribute nor the count. Two nodes
that were given one column compute one expression. In particular no filter leg shares the column of
a histogram, whose expression no filter has.
-/

import Mathlib.Data.List.Nodup
import Rollup.Proofs.Plan.Legs

namespace Rollup

namespace PlanContext

/-- A name is lengthened by underscores only. -/
theorem exists_toList_lengthen (isTaken : String → Bool) (fuel : Nat) (name : String) :
    ∃ k, (lengthen isTaken fuel name).toList = name.toList ++ List.replicate k '_' := by
  induction fuel generalizing name with
  | zero => exact ⟨0, by simp [lengthen]⟩
  | succ fuel ih =>
      rw [lengthen]
      split
      · obtain ⟨k, hk⟩ := ih (name ++ "_")
        exact ⟨k + 1, by simp [hk, List.replicate_succ]⟩
      · exact ⟨0, by simp⟩

/-- Each of the taken names that are no shorter is met once, so a name is found that is not
taken. -/
theorem isTaken_lengthen {isTaken : String → Bool} {taken : List String}
    (htaken : ∀ name, isTaken name = true → name ∈ taken) (fuel : Nat) (name : String)
    (hfuel : (taken.filter fun other => name.length ≤ other.length).length ≤ fuel) :
    isTaken (lengthen isTaken fuel name) = false := by
  have hmet {name : String} (h : isTaken name = true) :
      name ∈ taken.filter fun other => name.length ≤ other.length :=
    List.mem_filter.mpr ⟨htaken name h, by simp⟩
  induction fuel generalizing name with
  | zero =>
      rw [lengthen, ← Bool.not_eq_true]
      intro h
      have hempty := List.length_eq_zero_iff.mp (Nat.le_zero.mp hfuel)
      exact List.not_mem_nil (hempty ▸ hmet h)
  | succ fuel ih =>
      rw [lengthen]
      split
      · rename_i h
        refine ih _ ?_
        have hlength : (name ++ "_").length = name.length + 1 := by
          rw [String.length_append]
          rfl
        have hlonger : taken.filter (fun other => (name ++ "_").length ≤ other.length) =
            (taken.filter fun other => name.length ≤ other.length).filter
              fun other => (name ++ "_").length ≤ other.length := by
          rw [List.filter_filter]
          refine List.filter_congr fun other _ => ?_
          rw [← Bool.decide_and]
          exact decide_eq_decide.mpr ⟨fun hle => ⟨hle, by omega⟩, fun hle => hle.1⟩
        have hshorter : (taken.filter fun other =>
            (name ++ "_").length ≤ other.length).length <
              (taken.filter fun other => name.length ≤ other.length).length := by
          rw [hlonger, List.length_filter_lt_length_iff_exists]
          exact ⟨name, hmet h, by simp [hlength]⟩
        omega
      · rename_i h
        simpa using h

/-- The column of the count is no reserved name. -/
theorem countColumn_notMem_reserved (table : Table) (multiTable : Bool) (reserved : List String)
    (countColumn : String) :
    (new table multiTable reserved countColumn).countColumn ∉ reserved := by
  have hfree : reserved.contains (lengthen reserved.contains reserved.length countColumn) = false :=
    isTaken_lengthen (fun name h => List.contains_iff_mem.mp h) reserved.length countColumn
      (List.length_filter_le _ _)
  rw [← Bool.not_eq_true, List.contains_iff_mem] at hfree
  exact hfree

end PlanContext

namespace Plan

/-- A name that no attribute has, nor the count, and that stands in a statement as it is. -/
structure IsFree (reserved : List String) (countColumn name : String) : Prop where
  unreserved : name ∉ reserved
  uncounted : name ≠ countColumn
  unquoted : Statement.backquote ∉ name.toList

namespace Naming

/-- A generated name is neither reserved nor the count. -/
theorem candidate_notMem (context : PlanContext) (number : Nat) :
    candidate context number ∉ context.reserved ∧
      candidate context number ≠ context.countColumn := by
  have htaken (name : String)
      (h : (context.reserved.contains name || name == context.countColumn) = true) :
      name ∈ context.countColumn :: context.reserved := by
    simpa [or_comm] using h
  have hfree := PlanContext.isTaken_lengthen htaken (context.reserved.length + 1)
    ("al" ++ toString number) (List.length_filter_le _ _)
  simpa [candidate] using hfree

theorem isDigit_of_mem_toString {number : Nat} {c : Char} (hc : c ∈ (toString number).toList) :
    c.isDigit = true := by
  rw [Nat.toString_eq_ofList_toDigits, String.toList_ofList] at hc
  exact Nat.isDigit_of_mem_toDigits (by decide) (by decide) hc

theorem exists_toList_candidate (context : PlanContext) (number : Nat) :
    ∃ k, (candidate context number).toList =
      ("al" ++ toString number).toList ++ List.replicate k '_' :=
  PlanContext.exists_toList_lengthen _ _ _

/-- No generated name needs quotes. -/
theorem backquote_notMem_candidate (context : PlanContext) (number : Nat) :
    Statement.backquote ∉ (candidate context number).toList := by
  obtain ⟨k, hk⟩ := exists_toList_candidate context number
  rw [hk]
  intro hmem
  simp only [String.toList_append, List.mem_append, List.mem_replicate] at hmem
  rcases hmem with (hletter | hdigit) | ⟨-, hunderscore⟩
  · exact absurd hletter (by decide)
  · exact absurd (isDigit_of_mem_toString hdigit) (by decide)
  · exact absurd hunderscore (by decide)

/-- Names with different numbers differ. -/
theorem candidate_injective (context : PlanContext) :
    Function.Injective (candidate context) := by
  intro i j h
  -- the number ends where the underscores begin
  have hnumber (n : Nat) : (candidate context n).toList.takeWhile (· ≠ '_') =
      'a' :: 'l' :: (toString n).toList := by
    obtain ⟨k, hk⟩ := exists_toList_candidate context n
    have hdigits : ∀ c ∈ (toString n).toList, c ≠ '_' := by
      rintro c hc rfl
      exact absurd (isDigit_of_mem_toString hc) (by decide)
    rw [hk, List.takeWhile_append_of_pos]
    · cases k <;> simp [List.replicate_succ]
    · intro c hc
      simp only [String.toList_append, List.mem_append] at hc
      rcases hc with hprefix | hdigit
      · have : c = 'a' ∨ c = 'l' := by simpa using hprefix
        rcases this with rfl | rfl <;> decide
      · simpa using hdigits c hdigit
  have hsame := (hnumber i).symm.trans ((congrArg _ (congrArg String.toList h)).trans (hnumber j))
  have hdigits : Nat.toDigits 10 i = Nat.toDigits 10 j := by
    simpa [Nat.toString_eq_ofList_toDigits] using hsame
  rw [← Nat.ofDigitChars_ten_toDigits (n := i), hdigits, Nat.ofDigitChars_ten_toDigits]

/-- The next name is the one of a number from some start on. -/
theorem nextName_spec (context : PlanContext) (used : List String) (fuel start : Nat) :
    (nextName context used fuel start).2 =
        candidate context (nextName context used fuel start).1 ∧
      start ≤ (nextName context used fuel start).1 := by
  induction fuel generalizing start with
  | zero => exact ⟨rfl, Nat.le_refl start⟩
  | succ fuel ih =>
      rw [nextName]
      split
      · exact ⟨(ih (start + 1)).1, Nat.le_of_succ_le (ih (start + 1)).2⟩
      · exact ⟨rfl, Nat.le_refl start⟩

/-- Whether every column has a number that was counted already, and no two expressions share one. -/
structure IsOrderly (context : PlanContext) (naming : Naming) : Prop where
  numbered : ∀ entry ∈ naming.byExpression, ∃ k ≤ naming.counter, entry.2 = candidate context k
  apart : (naming.byExpression.map Prod.snd).Nodup

/-- The column of an expression is on record afterwards, and the record stays orderly. -/
theorem IsOrderly.nameOf {context : PlanContext} {naming : Naming}
    (h : naming.IsOrderly context) (expression : String) :
    (naming.nameOf context expression).2.IsOrderly context ∧
      (expression, (naming.nameOf context expression).1) ∈
        (naming.nameOf context expression).2.byExpression ∧
      ∃ more, (naming.nameOf context expression).2.byExpression = naming.byExpression ++ more := by
  unfold Naming.nameOf
  cases hlookup : naming.byExpression.lookup expression with
  | some column =>
      refine ⟨h, ?_, [], by simp⟩
      obtain ⟨first, last, heq, -⟩ := List.lookup_eq_some_iff.mp hlookup
      simp [heq]
  | none =>
      dsimp only
      obtain ⟨hname, hstart⟩ := nextName_spec context naming.used (2 * naming.used.length + 1)
        (naming.counter + 1)
      generalize nextName context naming.used (2 * naming.used.length + 1) (naming.counter + 1) =
        result at hname hstart
      refine ⟨⟨?_, ?_⟩, by simp, _, rfl⟩
      · intro entry hentry
        rcases List.mem_append.mp hentry with hold | hnew
        · obtain ⟨k, hk, heq⟩ := h.numbered entry hold
          exact ⟨k, by dsimp only; omega, heq⟩
        · obtain rfl := List.mem_singleton.mp hnew
          exact ⟨result.1, Nat.le_refl _, hname⟩
      · rw [List.map_append, List.nodup_append]
        refine ⟨h.apart, by simp, ?_⟩
        intro column hcolumn new hnew heq
        obtain ⟨old, hold, rfl⟩ := List.mem_map.mp hcolumn
        obtain rfl := List.mem_singleton.mp hnew
        obtain ⟨k, hk, hcandidate⟩ := h.numbered old hold
        have := candidate_injective context (hcandidate.symm.trans (heq.trans hname))
        omega

end Naming

/-- The columns that nodes are given are those of one record of expressions. -/
theorem exists_record_nameNodes (context : PlanContext) {naming : Naming}
    (h : naming.IsOrderly context) {forest : Forest}
    (hnew : ∀ n ∈ forest, n.decisions.column = none) :
    ∃ record : List (String × String), (record.map Prod.snd).Nodup ∧
      (∀ entry ∈ record, ∃ k, entry.2 = Naming.candidate context k) ∧
      (∃ more, record = naming.byExpression ++ more) ∧
      ∀ n ∈ nameNodes context naming forest, ∀ c, n.decisions.column = some c →
        ∃ e, n.aggregation.expression? = some e ∧ (e, c) ∈ record := by
  induction forest generalizing naming with
  | nil =>
      refine ⟨naming.byExpression, h.apart, fun entry hentry => ?_, ⟨[], by simp⟩,
        fun _ hn => nomatch hn⟩
      obtain ⟨k, -, hk⟩ := h.numbered entry hentry
      exact ⟨k, hk⟩
  | cons node rest ih =>
      have hnone := hnew node (by simp)
      -- what the first node adds to the record
      obtain ⟨hnext, ⟨more, hmore⟩, hnode⟩ : (nameNode context naming node).2.IsOrderly context ∧
          (∃ more, (nameNode context naming node).2.byExpression = naming.byExpression ++ more) ∧
          ∀ c, (nameNode context naming node).1.decisions.column = some c →
            ∃ e, (nameNode context naming node).1.aggregation.expression? = some e ∧
              (e, c) ∈ (nameNode context naming node).2.byExpression := by
        unfold nameNode
        split
        · cases hexpression : node.aggregation.expression? with
          | none => exact ⟨h, ⟨[], by simp⟩, fun c hc => by simp [hnone] at hc⟩
          | some e =>
              obtain ⟨horderly, hrecorded, hmore⟩ := h.nameOf e
              refine ⟨horderly, hmore, fun c hc => ⟨e, hexpression, ?_⟩⟩
              obtain rfl := Option.some.inj hc
              exact hrecorded
        · exact ⟨h, ⟨[], by simp⟩, fun c hc => by simp [hnone] at hc⟩
      obtain ⟨record, hapart, hnumbered, ⟨others, hothers⟩, hrest⟩ :=
        ih hnext fun n hn => hnew n (by simp [hn])
      refine ⟨record, hapart, hnumbered,
        ⟨more ++ others, by rw [hothers, hmore, List.append_assoc]⟩, ?_⟩
      intro n hn c hc
      rcases List.mem_cons.mp hn with hfirst | hlater
      · rw [hfirst] at hc ⊢
        obtain ⟨e, he, hmem⟩ := hnode c hc
        exact ⟨e, he, hothers ▸ List.mem_append_left _ hmem⟩
      · exact hrest n hlater c hc

/-- The columns that are given are generated ones, and those of one record, which starts out
empty. -/
theorem exists_candidates_nameColumns (context : PlanContext) {forest : Forest}
    (hnew : forest.IsUnnamed) :
    ∃ record : List (String × String), (record.map Prod.snd).Nodup ∧
      (∀ entry ∈ record, ∃ k, entry.2 = Naming.candidate context k) ∧
      ∀ n ∈ nameColumns context forest, ∀ c, n.decisions.column = some c →
        ∃ e, n.aggregation.expression? = some e ∧ (e, c) ∈ record := by
  have hempty : (Naming.ofForest forest).byExpression = [] := by
    unfold Naming.ofForest
    dsimp only
    rw [List.filterMap_eq_nil_iff]
    intro n hn
    rw [hnew n hn]
  obtain ⟨record, hapart, hnumbered, -, hrecorded⟩ := exists_record_nameNodes context
    (⟨by simp [hempty], by simp [hempty]⟩ : (Naming.ofForest forest).IsOrderly context) hnew
  exact ⟨record, hapart, hnumbered, hrecorded⟩

/-- The columns of a record are free. -/
theorem exists_record_nameColumns (context : PlanContext) {forest : Forest}
    (hnew : forest.IsUnnamed) :
    ∃ record : List (String × String), (record.map Prod.snd).Nodup ∧
      (∀ entry ∈ record, IsFree context.reserved context.countColumn entry.2) ∧
      ∀ n ∈ nameColumns context forest, ∀ c, n.decisions.column = some c →
        ∃ e, n.aggregation.expression? = some e ∧ (e, c) ∈ record := by
  obtain ⟨record, hapart, hnumbered, hrecorded⟩ := exists_candidates_nameColumns context hnew
  refine ⟨record, hapart, fun entry hentry => ?_, hrecorded⟩
  obtain ⟨k, hk⟩ := hnumbered entry hentry
  obtain ⟨hreserved, hcount⟩ := Naming.candidate_notMem context k
  exact hk ▸ ⟨hreserved, hcount, Naming.backquote_notMem_candidate context k⟩

/-- A leg that cannot be read is left out. -/
theorem isActive_of_failure {forest : Forest} {i : Nat} {x y : Node} {l : Leg} {e : FilterError}
    (hx : forest[i]? = some x) (hl : x.aggregation = .leg l) (he : l.failure? = some e)
    (hy : ((List.range forest.length).foldl dropUnreadable forest)[i]? = some y) :
    y.isActive = false := by
  have hstep {before : Forest} {n : Node} (hn : before[i]? = some n) (hnl : n.aggregation = .leg l)
      {after : Node} (hafter : (dropUnreadable before i)[i]? = some after) :
      after.isActive = false := by
    have hfailure : n.aggregation.leg?.bind Leg.failure? = some e := by
      simp [hnl, Aggregation.leg?, he]
    unfold dropUnreadable at hafter
    rw [hn] at hafter
    dsimp only at hafter
    rw [hfailure] at hafter
    dsimp only at hafter
    split at hafter
    · unfold Forest.disable at hafter
      rw [if_pos (List.getElem?_eq_some_iff.mp hn).1] at hafter
      dsimp only at hafter
      obtain ⟨disabled, hdisabled, hrevision⟩ :=
        (Forest.IsRevision.foldl _ Forest.isRevision_disableIfOrphaned _ _).node hafter
      rw [Forest.decideAt, List.getElem?_modify, hn] at hdisabled
      have hinactive : disabled.isActive = false := by
        simp only [if_true, Option.map_eq_map, Option.map_some, Option.some.injEq] at hdisabled
        rw [← hdisabled]
        rfl
      by_contra hnot
      rw [hrevision.active (by simpa using hnot)] at hinactive
      cases hinactive
    · rename_i hinactive
      obtain rfl := Option.some.inj (hn.symm.trans hafter)
      simpa using hinactive
  have hmem : i ∈ List.range forest.length :=
    List.mem_range.mpr (List.getElem?_eq_some_iff.mp hx).1
  obtain ⟨first, last, hsplit⟩ := List.append_of_mem hmem
  rw [hsplit, List.foldl_append, List.foldl_cons] at hy
  obtain ⟨reached, hreached, hbefore⟩ :=
    (Forest.IsRevision.foldl _ isRevision_dropUnreadable forest first).node_after hx
  obtain ⟨dropped, hdropped, hafter⟩ :=
    (Forest.IsRevision.foldl _ isRevision_dropUnreadable _ last).node hy
  have hinactive := hstep hreached (hbefore.aggregation.trans hl) hdropped
  by_contra hnot
  rw [hafter.active (by simpa using hnot)] at hinactive
  cases hinactive

end Plan

/-! ## Columns of a plan -/

namespace TablePlan

open Plan

/-- The forest of a plan for one table. -/
theorem forest_of_mem_forTables {forest : Forest} {table : Table} {settings : Settings}
    {plan : TablePlan} (hplan : plan ∈ forTables forest [table] settings) :
    plan.isSkipped = false ∧ ∃ context, plan.forest =
      (orderNodes context (classifyFilters (nameColumns context forest))).1 := by
  obtain rfl := List.mem_singleton.mp hplan
  exact ⟨rfl, _, rfl⟩

/-- An active node keeps the column that it was given. -/
theorem exists_named {context : PlanContext} {named : Forest} {n : Node}
    (hn : n ∈ (orderNodes context (classifyFilters (nameColumns context named))).1)
    (hactive : n.isActive = true) (hneeds : n.aggregation.needsColumn = true) :
    ∃ m ∈ nameColumns context named, m.aggregation = n.aggregation ∧
      ∃ c, m.decisions.column = some c ∧ n.decisions.column = some c := by
  obtain ⟨i, hi⟩ := List.getElem?_of_mem hn
  generalize hnamed : nameColumns context named = columns at hi ⊢
  have hlate : ((List.range columns.length).foldl dropUnreadable columns).IsRevision
      (orderNodes context (classifyFilters columns)).1 :=
    (isRevision_settleFilters _ _).trans (isRevision_orderNodes context _)
  obtain ⟨readable, hreadable, hlater⟩ := hlate.node hi
  obtain ⟨m, hm, hearlier⟩ :=
    (Forest.IsRevision.foldl _ isRevision_dropUnreadable columns _).node hreadable
  have hsame : m.aggregation = n.aggregation := (hearlier.trans hlater).aggregation.symm
  have hexpression : m.aggregation.expression? ≠ none := by
    cases haggregation : m.aggregation with
    | leg l =>
        cases hfilter : l.filter with
        | error e =>
            have hinactive := isActive_of_failure hm haggregation
              (by rw [Leg.failure?, hfilter]) hreadable
            rw [hlater.active hactive] at hinactive
            cases hinactive
        | ok filter =>
            cases filter <;> simp [Aggregation.expression?, Leg.expression?, hfilter]
    | terms t => simp [← hsame, haggregation, Aggregation.needsColumn] at hneeds
    | query q => simp [← hsame, haggregation, Aggregation.needsColumn] at hneeds
    | _ => simp [Aggregation.expression?]
  have hmem := List.mem_of_getElem? hm
  obtain ⟨c, hc⟩ := Option.ne_none_iff_exists'.mp
    (column_of_mem_nameNodes context _ (hnamed ▸ hmem) (hsame ▸ hneeds) hexpression)
  exact ⟨m, hmem, hsame, c, hc, (hearlier.trans hlater).column c hc⟩

/-- The columns of the active nodes are those of a record of expressions, each with a free column of
its own. -/
theorem exists_record_of_mem_forTables {forest : Forest} {tables : List Table}
    {settings : Settings} {plan : TablePlan} (hnew : forest.IsUnnamed)
    (hplan : plan ∈ forTables forest tables settings) (hskipped : plan.isSkipped = false) :
    ∃ record : List (String × String), (record.map Prod.snd).Nodup ∧
      (∀ entry ∈ record, IsFree (tables.flatMap Table.fieldNames) plan.countColumn entry.2) ∧
      ∀ n ∈ plan.forest, n.isActive = true → n.aggregation.needsColumn = true →
        ∃ e c, n.aggregation.expression? = some e ∧ n.decisions.column = some c ∧
          (e, c) ∈ record := by
  simp only [forTables, List.mem_map] at hplan
  obtain ⟨table, -, rfl⟩ := hplan
  obtain ⟨checked, -, hunnamed, hforest, hcount⟩ := forest_eq_of_isSkipped hskipped
  obtain ⟨record, hapart, hfree, hrecorded⟩ := exists_record_nameColumns
    (PlanContext.new table (1 < tables.length) (tables.flatMap Table.fieldNames)
      settings.countColumn) (hunnamed hnew)
  refine ⟨record, hapart, fun entry hentry => ?_, fun n hn hactive hneeds => ?_⟩
  · rw [hcount]
    exact hfree entry hentry
  · rw [hforest] at hn
    obtain ⟨m, hm, hsame, c, hmc, hnc⟩ := exists_named hn hactive hneeds
    obtain ⟨e, he, hmem⟩ := hrecorded m hm c hmc
    exact ⟨e, c, hsame ▸ he, hnc, hmem⟩

/-- Nothing has a column in a forest that is read. -/
theorem isUnnamed_of_ofJson {now : Calendar.Instant} {json : Json} {forest : Forest}
    (hforest : Forest.ofJson now json = .ok forest) : forest.IsUnnamed := fun n hn => by
  rw [Forest.decisions_of_ofJson hforest n hn]

/-- Active nodes with one column compute one expression. -/
theorem expression_eq_of_column {now : Calendar.Instant} {json : Json} {forest : Forest}
    {tables : List Table} {settings : Settings} {plan : TablePlan}
    (hforest : Forest.ofJson now json = .ok forest)
    (hplan : plan ∈ forTables forest tables settings) (hskipped : plan.isSkipped = false)
    {first second : Node}
    (hfirst : first ∈ plan.forest) (hsecond : second ∈ plan.forest)
    (hfirstActive : first.isActive = true) (hsecondActive : second.isActive = true)
    (hfirstNeeds : first.aggregation.needsColumn = true)
    (hsecondNeeds : second.aggregation.needsColumn = true) {c : String}
    (hc : first.decisions.column = some c) (hc' : second.decisions.column = some c) :
    first.aggregation.expression? = second.aggregation.expression? := by
  obtain ⟨record, hapart, -, hrecorded⟩ := exists_record_of_mem_forTables
    (isUnnamed_of_ofJson hforest) hplan hskipped
  obtain ⟨e, d, he, hd, hmem⟩ := hrecorded first hfirst hfirstActive hfirstNeeds
  obtain ⟨e', d', he', hd', hmem'⟩ := hrecorded second hsecond hsecondActive hsecondNeeds
  obtain rfl : d = d' := Option.some.inj (hd.symm.trans (hc.trans (hc'.symm.trans hd')))
  have hsame : (e, d) = (e', d) := List.inj_on_of_nodup_map hapart hmem hmem' rfl
  rw [he, he', (Prod.mk.inj hsame).1]

end TablePlan

/-- No filter computes the expression of a histogram. -/
theorem Aggregation.expression_ne_of_leg {l : Leg} {a : Aggregation} (ha : a.isHistogram = true)
    {e : String} (he : (Aggregation.leg l).expression? = some e) : a.expression? ≠ some e := by
  -- the one starts with a call of IF or is a one, the other starts with FLOOR, YEARMONTH or YEAR
  have hleg : e.toList.head? = some 'I' ∨ e.toList.head? = some '1' := by
    simp only [expression?, Leg.expression?] at he
    split at he
    · obtain rfl := Option.some.inj he
      exact Or.inl (by simp)
    · obtain rfl := Option.some.inj he
      exact Or.inr (by decide)
    · cases he
  have hhistogram {e : String} (h : a.expression? = some e) :
      e.toList.head? = some 'F' ∨ e.toList.head? = some 'Y' := by
    cases a with
    | histogram h' =>
        obtain rfl := Option.some.inj h
        rw [Histogram.expression]
        dsimp only
        split <;> exact Or.inl (by simp)
    | dateHistogram h' =>
        obtain rfl := Option.some.inj h
        unfold DateHistogram.expression DateInterval.expression
        dsimp only
        split
        · split <;> exact Or.inl (by simp)
        · split
          · exact Or.inr (by simp)
          · split <;> exact Or.inr (by simp)
    | _ => cases ha
  intro h
  have hboth := hhistogram h
  rcases hleg with heq | heq <;> rw [heq] at hboth <;> rcases hboth with h | h <;> cases h

end Rollup
