/-
# Columns that are given

Numbers are tried one after the other, and a name is lengthened until it is free. Every name in use
rules out two numbers at most, so both searches end. All in all there is one column for each
expression: the one that a node with the expression had before, or else a free one that no other
expression has. Which nodes are left out makes no difference, and a second run changes nothing.
-/

import Mathlib.Data.Finset.Prod
import Mathlib.Order.Interval.Finset.Nat
import Rollup.Proofs.Plan.Naming

namespace Rollup

namespace PlanContext

/-- Underscores are added, without a bound, until a name is not taken. -/
inductive Lengthens (isTaken : String → Bool) : String → String → Prop where
  | done {name : String} (hfree : isTaken name = false) : Lengthens isTaken name name
  | more {name found : String} (htaken : isTaken name = true)
      (hlater : Lengthens isTaken (name ++ "_") found) : Lengthens isTaken name found

/-- A bound at which the name is free was never met. -/
theorem lengthens_lengthen {isTaken : String → Bool} {fuel : Nat} {name : String}
    (hfree : isTaken (lengthen isTaken fuel name) = false) :
    Lengthens isTaken name (lengthen isTaken fuel name) := by
  induction fuel generalizing name with
  | zero => exact .done hfree
  | succ fuel ih =>
      rw [lengthen] at hfree ⊢
      split
      · rename_i htaken
        rw [if_pos htaken] at hfree
        exact .more htaken (ih hfree)
      · rename_i hnot
        exact .done (by simpa using hnot)

end PlanContext

namespace Plan

namespace Naming

/-! ## The search for a name ends -/

/-- Names that generated names keep away from. -/
def isAvoided (context : PlanContext) (name : String) : Bool :=
  context.reserved.contains name || name == context.countColumn

theorem lengthens_candidate (context : PlanContext) (number : Nat) :
    PlanContext.Lengthens (isAvoided context) ("al" ++ toString number)
      (candidate context number) := by
  refine PlanContext.lengthens_lengthen (Bool.eq_false_iff.mpr fun htaken => ?_)
  obtain ⟨hreserved, hcount⟩ := candidate_notMem context number
  simp only [isAvoided, Bool.or_eq_true, List.contains_iff_mem, beq_iff_eq] at htaken
  rcases htaken with h | h
  · exact hreserved h
  · exact hcount h

/-- Whether neither the short nor the lengthened name of a number is in use. -/
def IsOpen (context : PlanContext) (used : List String) (number : Nat) : Prop :=
  "al" ++ toString number ∉ used ∧ candidate context number ∉ used

/-- Numbers are tried one after the other, without a bound, until one is open. -/
inductive Finds (context : PlanContext) (used : List String) : Nat → Nat → Prop where
  | here {number : Nat} (hopen : IsOpen context used number) : Finds context used number number
  | later {number found : Nat} (hclosed : ¬ IsOpen context used number)
      (hlater : Finds context used (number + 1) found) : Finds context used number found

variable {context : PlanContext} {used : List String}

theorem Finds.isOpen {start found : Nat} (h : Finds context used start found) :
    IsOpen context used found := by
  induction h with
  | here hopen => exact hopen
  | later _ _ ih => exact ih

/-- An open number within the bound is found. -/
theorem finds_nextName {fuel start number : Nat} (hle : start ≤ number)
    (hbound : number ≤ start + fuel) (hopen : IsOpen context used number) :
    Finds context used start (nextName context used fuel start).1 := by
  induction fuel generalizing start with
  | zero =>
      obtain rfl : number = start := by omega
      exact .here hopen
  | succ fuel ih =>
      rw [nextName]
      split
      · rename_i hused
        have hclosed : ¬ IsOpen context used start := by
          rintro ⟨hshort, hlong⟩
          simp only [Bool.or_eq_true, List.contains_iff_mem] at hused
          exact hused.elim hshort hlong
        have hne : start ≠ number := fun heq => hclosed (heq ▸ hopen)
        exact .later hclosed (ih (by omega) (by omega))
      · rename_i hunused
        simp only [Bool.or_eq_true, List.contains_iff_mem, not_or] at hunused
        exact .here hunused

theorem short_injective : Function.Injective fun number : Nat => "al" ++ toString number := by
  intro i j h
  have hchars := congrArg String.toList h
  rw [String.toList_append, String.toList_append] at hchars
  have hdigits : Nat.toDigits 10 i = Nat.toDigits 10 j := by
    simpa [Nat.toString_eq_ofList_toDigits] using List.append_cancel_left hchars
  rw [← Nat.ofDigitChars_ten_toDigits (n := i), hdigits, Nat.ofDigitChars_ten_toDigits]

/-- A name in use closes one number as a short name and one as a lengthened name, so one of the
first numbers is open. -/
theorem exists_isOpen (context : PlanContext) (used : List String) (start : Nat) :
    ∃ number, start ≤ number ∧ number ≤ start + 2 * used.length ∧
      IsOpen context used number := by
  by_contra hnone
  -- every number has a name in use, and we remember which of the two it is
  let closing (number : Nat) : Bool × String :=
    if "al" ++ toString number ∈ used then (false, "al" ++ toString number)
    else (true, candidate context number)
  let numbers := Finset.Icc start (start + 2 * used.length)
  have hmaps : ∀ number ∈ numbers, closing number ∈ Finset.univ ×ˢ used.toFinset := by
    intro number hnumber
    obtain ⟨hlow, hhigh⟩ := Finset.mem_Icc.mp hnumber
    have hclosed : ¬ IsOpen context used number :=
      fun hopen => hnone ⟨number, hlow, hhigh, hopen⟩
    simp only [closing]
    split
    · rename_i hshort
      simpa using hshort
    · rename_i hshort
      simpa using fun hlong => hclosed ⟨hshort, hlong⟩
  have hinjective : Set.InjOn closing numbers := by
    intro i _ j _ heq
    simp only [closing] at heq
    split at heq <;> split at heq <;> simp only [Prod.mk.injEq, Bool.false_eq_true,
      Bool.true_eq_false, false_and, true_and] at heq
    · exact short_injective heq
    · exact candidate_injective context heq
  have hcard := Finset.card_le_card_of_injOn closing hmaps hinjective
  have hnames : used.toFinset.card ≤ used.length := List.toFinset_card_le used
  rw [Nat.card_Icc, Finset.card_product, Finset.card_univ, Fintype.card_bool] at hcard
  omega

/-- The search for a name ends with an open number. -/
theorem finds_next (context : PlanContext) (used : List String) (start : Nat) :
    Finds context used start (nextName context used (2 * used.length + 1) start).1 := by
  obtain ⟨number, hlow, hhigh, hopen⟩ := exists_isOpen context used start
  exact finds_nextName hlow (by omega) hopen

/-- The name that is found is free and not in use. -/
theorem next_free (context : PlanContext) (used : List String) (start : Nat) :
    IsFree context.reserved context.countColumn
        (nextName context used (2 * used.length + 1) start).2 ∧
      (nextName context used (2 * used.length + 1) start).2 ∉ used := by
  have hopen := (finds_next context used start).isOpen
  rw [(nextName_spec context used _ start).1]
  obtain ⟨hreserved, hcount⟩ := candidate_notMem context
    (nextName context used (2 * used.length + 1) start).1
  exact ⟨⟨hreserved, hcount, backquote_notMem_candidate context _⟩, hopen.2⟩

/-! ## What is on record -/

/-- The column of an expression on record. -/
def columnOf? (naming : Naming) (expression : String) : Option String :=
  naming.byExpression.lookup expression

/-- What is on record stays when more is added. -/
theorem columnOf?_of_append {naming last : Naming}
    (hmore : ∃ more, last.byExpression = naming.byExpression ++ more) {expression : String}
    (h : naming.columnOf? expression ≠ none) :
    last.columnOf? expression = naming.columnOf? expression := by
  obtain ⟨more, heq⟩ := hmore
  obtain ⟨column, hcolumn⟩ := Option.ne_none_iff_exists'.mp h
  unfold columnOf? at hcolumn ⊢
  rw [heq, List.lookup_append, hcolumn]
  rfl

/-- A record of columns, the given ones first, and then new ones that are free and have an
expression of their own each. -/
structure IsRecord (context : PlanContext) (given : List (String × String)) (naming : Naming) :
    Prop where
  used : ∀ entry ∈ naming.byExpression, entry.2 ∈ naming.used
  fresh : ∃ fresh, naming.byExpression = given ++ fresh ∧ (fresh.map Prod.snd).Nodup ∧
    ∀ entry ∈ fresh, IsFree context.reserved context.countColumn entry.2 ∧
      entry.2 ∉ given.map Prod.snd

variable {given : List (String × String)} {naming : Naming}

/-- The column of an expression is on record afterwards, and what was on record stays. -/
theorem IsRecord.nameOf (h : naming.IsRecord context given) (expression : String) :
    (naming.nameOf context expression).2.IsRecord context given ∧
      (∃ more, (naming.nameOf context expression).2.byExpression = naming.byExpression ++ more) ∧
      (naming.nameOf context expression).2.columnOf? expression =
        some (naming.nameOf context expression).1 := by
  unfold Naming.nameOf columnOf?
  cases hlookup : naming.byExpression.lookup expression with
  | some column => exact ⟨h, ⟨[], by simp⟩, hlookup⟩
  | none =>
      dsimp only
      obtain ⟨hfree, hunused⟩ := next_free context naming.used (naming.counter + 1)
      generalize nextName context naming.used (2 * naming.used.length + 1) (naming.counter + 1) =
        result at hfree hunused
      obtain ⟨fresh, heq, hnodup, hfresh⟩ := h.fresh
      have hnew : ∀ entry ∈ naming.byExpression, entry.2 ≠ result.2 :=
        fun entry hentry hsame => hunused (hsame ▸ h.used entry hentry)
      refine ⟨⟨?_, fresh ++ [(expression, result.2)], ?_, ?_, ?_⟩, ⟨_, rfl⟩, ?_⟩
      · intro entry hentry
        rcases List.mem_append.mp hentry with hold | hadded
        · exact List.mem_cons_of_mem _ (h.used entry hold)
        · obtain rfl := List.mem_singleton.mp hadded
          exact List.mem_cons_self
      · rw [heq, List.append_assoc]
      · rw [List.map_append, List.nodup_append]
        refine ⟨hnodup, List.nodup_singleton _, ?_⟩
        intro column hcolumn new hadded hsame
        obtain ⟨old, hold, rfl⟩ := List.mem_map.mp hcolumn
        obtain rfl := List.mem_singleton.mp hadded
        exact hnew old (heq ▸ List.mem_append_right _ hold) hsame
      · intro entry hentry
        rcases List.mem_append.mp hentry with hold | hadded
        · exact hfresh entry hold
        · obtain rfl := List.mem_singleton.mp hadded
          refine ⟨hfree, fun hmem => ?_⟩
          obtain ⟨old, hold, hsame⟩ := List.mem_map.mp hmem
          exact hnew old (heq ▸ List.mem_append_left _ hold) hsame
      · rw [List.lookup_append, hlookup]
        simp

end Naming

/-! ## One column for each expression -/

/-- The column that a node has in the end, by a column for every expression. -/
def columnIn (columnOf : String → Option String) (n : Node) : Option String :=
  n.decisions.column.or
    (if n.aggregation.needsColumn then n.aggregation.expression?.bind columnOf else none)

/-- The node with that column. -/
def givenIn (columnOf : String → Option String) (n : Node) : Node :=
  n.decide fun d => { d with column := columnIn columnOf n }

theorem givenIn_of_column (columnOf : String → Option String) {n : Node}
    (h : n.decisions.column ≠ none) : givenIn columnOf n = n := by
  obtain ⟨column, hcolumn⟩ := Option.ne_none_iff_exists'.mp h
  have hsame : columnIn columnOf n = n.decisions.column := by
    rw [columnIn, hcolumn]
    rfl
  unfold givenIn
  rw [hsame]
  rfl

/-- Only the columns of expressions that a node without a column needs make a difference. -/
theorem givenIn_congr {columnOf other : String → Option String} {n : Node}
    (h : n.decisions.column = none → n.aggregation.needsColumn = true → ∀ e,
      n.aggregation.expression? = some e → columnOf e = other e) :
    givenIn columnOf n = givenIn other n := by
  by_cases hcolumn : n.decisions.column = none
  · have hsame : columnIn columnOf n = columnIn other n := by
      unfold columnIn
      cases hneeds : n.aggregation.needsColumn with
      | false => rfl
      | true =>
          cases hexpression : n.aggregation.expression? with
          | none => rfl
          | some e => simp [h hcolumn hneeds e hexpression]
    rw [givenIn, givenIn, hsame]
  · rw [givenIn_of_column columnOf hcolumn, givenIn_of_column other hcolumn]

variable {context : PlanContext} {given : List (String × String)} {naming : Naming}

/-- A node takes the column that is on record afterwards. -/
theorem nameNode_spec (h : naming.IsRecord context given) (n : Node) :
    (nameNode context naming n).2.IsRecord context given ∧
      (∃ more, (nameNode context naming n).2.byExpression = naming.byExpression ++ more) ∧
      (nameNode context naming n).1 = givenIn (nameNode context naming n).2.columnOf? n ∧
      (n.decisions.column = none → n.aggregation.needsColumn = true → ∀ e,
        n.aggregation.expression? = some e →
          (nameNode context naming n).2.columnOf? e ≠ none) := by
  unfold nameNode
  cases hcolumn : n.decisions.column with
  | some column =>
      have hsome : n.decisions.column ≠ none := by simp [hcolumn]
      rw [if_neg (by simp)]
      exact ⟨h, ⟨[], by simp⟩, (givenIn_of_column _ hsome).symm, fun hnone => nomatch hnone⟩
  | none =>
      have hsame (hkept : columnIn naming.columnOf? n = none) :
          n = givenIn naming.columnOf? n := by
        unfold givenIn
        rw [hkept, ← hcolumn]
        rfl
      cases hneeds : n.aggregation.needsColumn with
      | false =>
          exact ⟨h, ⟨[], by simp⟩, hsame (by simp [columnIn, hcolumn, hneeds]),
            fun _ hneeds => nomatch hneeds⟩
      | true =>
          cases hexpression : n.aggregation.expression? with
          | none =>
              exact ⟨h, ⟨[], by simp⟩, hsame (by simp [columnIn, hcolumn, hexpression]),
                fun _ _ e he => nomatch he⟩
          | some expression =>
              obtain ⟨hrecord, hmore, hlookup⟩ := h.nameOf expression
              have hfound : columnIn (naming.nameOf context expression).2.columnOf? n =
                  some (naming.nameOf context expression).1 := by
                rw [columnIn, hcolumn, hneeds, hexpression]
                exact hlookup
              have hnode : (n.decide fun d =>
                  { d with column := some (naming.nameOf context expression).1 }) =
                    givenIn (naming.nameOf context expression).2.columnOf? n := by
                rw [givenIn, hfound]
              refine ⟨hrecord, hmore, hnode, fun _ _ e he => ?_⟩
              · obtain rfl := Option.some.inj he
                simp [hlookup]

/-- All nodes take the columns of the record in the end. -/
theorem nameNodes_spec (h : naming.IsRecord context given) (forest : Forest) :
    ∃ last : Naming, last.IsRecord context given ∧
      (∃ more, last.byExpression = naming.byExpression ++ more) ∧
      nameNodes context naming forest = forest.map (givenIn last.columnOf?) ∧
      ∀ n ∈ forest, n.decisions.column = none → n.aggregation.needsColumn = true → ∀ e,
        n.aggregation.expression? = some e → last.columnOf? e ≠ none := by
  induction forest generalizing naming with
  | nil => exact ⟨naming, h, ⟨[], by simp⟩, rfl, fun _ hn => nomatch hn⟩
  | cons node rest ih =>
      obtain ⟨hnext, hmore, hnode, hcomplete⟩ := nameNode_spec h node
      obtain ⟨last, hlast, hlater, hrest, hothers⟩ := ih hnext
      have hkept (hnone : node.decisions.column = none)
          (hneeds : node.aggregation.needsColumn = true) (e : String)
          (he : node.aggregation.expression? = some e) :
          last.columnOf? e = (nameNode context naming node).2.columnOf? e :=
        Naming.columnOf?_of_append hlater (hcomplete hnone hneeds e he)
      refine ⟨last, hlast, ?_, ?_, ?_⟩
      · obtain ⟨first, hfirst⟩ := hmore
        obtain ⟨second, hsecond⟩ := hlater
        exact ⟨first ++ second, by rw [hsecond, hfirst, List.append_assoc]⟩
      · have hfirst : (nameNode context naming node).1 = givenIn last.columnOf? node :=
          hnode.trans (givenIn_congr fun hnone hneeds e he => (hkept hnone hneeds e he).symm)
        exact congrArg₂ List.cons hfirst hrest
      · intro n hn hnone hneeds e he
        rcases List.mem_cons.mp hn with rfl | hmem
        · rw [hkept hnone hneeds e he]
          exact hcomplete hnone hneeds e he
        · exact hothers n hmem hnone hneeds e he

end Plan

namespace Forest

/-- The column that an expression has: that of the first node that computes it and has one. -/
def columnOf? (forest : Forest) (expression : String) : Option String :=
  forest.findSome? fun n =>
    if n.aggregation.expression? = some expression then n.decisions.column else none

/-- The forest with no node left out. -/
def enabled (forest : Forest) : Forest :=
  forest.map fun n => n.decide fun d => { d with disabled := false }

end Forest

namespace Plan

variable {context : PlanContext} {before after : Forest}

/-! ## What is given already -/

theorem Naming.ofForest_cons (n : Node) (rest : Forest) :
    (Naming.ofForest (n :: rest)).byExpression =
      (match n.decisions.column, n.aggregation.expression? with
        | some column, some expression => [(expression, column)]
        | _, _ => []) ++ (Naming.ofForest rest).byExpression := by
  unfold Naming.ofForest
  dsimp only
  rw [List.filterMap_cons]
  cases n.decisions.column with
  | none => rfl
  | some column => cases n.aggregation.expression? <;> rfl

/-- What is on record at the start are the columns that expressions have. -/
theorem columnOf?_ofForest (forest : Forest) (expression : String) :
    (Naming.ofForest forest).columnOf? expression = forest.columnOf? expression := by
  unfold Naming.columnOf?
  induction forest with
  | nil => rfl
  | cons n rest ih =>
      rw [Naming.ofForest_cons, List.lookup_append, ih]
      unfold Forest.columnOf?
      rw [List.findSome?_cons]
      cases hcolumn : n.decisions.column with
      | none => simp
      | some column =>
          cases hexpression : n.aggregation.expression? with
          | none => simp
          | some other =>
              by_cases heq : other = expression
              · simp [heq]
              · have hbeq : (expression == other) = false := by simpa using Ne.symm heq
                simp [heq, List.lookup_cons, hbeq]

theorem mem_ofForest {forest : Forest} {n : Node} {column expression : String} (hn : n ∈ forest)
    (hcolumn : n.decisions.column = some column)
    (hexpression : n.aggregation.expression? = some expression) :
    (expression, column) ∈ (Naming.ofForest forest).byExpression :=
  List.mem_filterMap.mpr ⟨n, hn, by rw [hcolumn, hexpression]⟩

theorem isRecord_ofForest (context : PlanContext) (forest : Forest) :
    (Naming.ofForest forest).IsRecord context (Naming.ofForest forest).byExpression where
  used := fun entry hentry => List.mem_map_of_mem hentry
  fresh := ⟨[], by simp, List.nodup_nil, fun _ hentry => nomatch hentry⟩

/-- Whether the nodes of a later forest have the columns that one assignment of columns to
expressions gives them. -/
structure IsNamedBy (context : PlanContext) (before : Forest)
    (columnOf : String → Option String) (after : Forest) : Prop where
  /-- A node keeps its column, or takes that of its expression if it needs one. -/
  nodes : after = before.map (givenIn columnOf)
  /-- Every expression that a node needs a column for has one. -/
  complete : ∀ n ∈ before, n.aggregation.needsColumn = true → ∀ e,
    n.aggregation.expression? = some e → columnOf e ≠ none
  /-- An expression that had a column has that one. -/
  kept : ∀ e c, before.columnOf? e = some c → columnOf e = some c
  /-- A new column is free, and no node with another expression has it. -/
  fresh : ∀ e c, before.columnOf? e = none → columnOf e = some c →
    IsFree context.reserved context.countColumn c ∧
      ∀ m ∈ after, m.decisions.column = some c → ∀ other,
        m.aggregation.expression? = some other → other = e

/-- The columns on record in the end are such an assignment. -/
theorem isNamedBy_columnOf? {last : Naming}
    (hlast : last.IsRecord context (Naming.ofForest before).byExpression)
    (hmore : ∃ more, last.byExpression = (Naming.ofForest before).byExpression ++ more)
    (hnodes : after = before.map (givenIn last.columnOf?))
    (hcomplete : ∀ n ∈ before, n.decisions.column = none → n.aggregation.needsColumn = true →
      ∀ e, n.aggregation.expression? = some e → last.columnOf? e ≠ none) :
    IsNamedBy context before last.columnOf? after := by
  have hkept (e c : String) (h : before.columnOf? e = some c) : last.columnOf? e = some c := by
    rw [← columnOf?_ofForest] at h
    rw [Naming.columnOf?_of_append hmore (by simp [h]), h]
  obtain ⟨fresh, heq, hnodup, hfresh⟩ := hlast.fresh
  have hmem {e c : String} (h : last.columnOf? e = some c) : (e, c) ∈ last.byExpression := by
    obtain ⟨first, rest, hsplit, -⟩ := List.lookup_eq_some_iff.mp h
    simp [hsplit]
  refine ⟨hnodes, fun n hn hneeds e he => ?_, hkept, fun e c hnone hsome => ?_⟩
  · cases hcolumn : n.decisions.column with
    | none => exact hcomplete n hn hcolumn hneeds e he
    | some c =>
        have hgiven := mem_ofForest hn hcolumn he
        cases hlookup : before.columnOf? e with
        | none =>
            rw [← columnOf?_ofForest, Naming.columnOf?, List.lookup_eq_none_iff] at hlookup
            simpa using hlookup _ hgiven
        | some other => simp [hkept e other hlookup]
  · have hnew : (e, c) ∈ fresh := by
      rw [← columnOf?_ofForest, Naming.columnOf?] at hnone
      rw [Naming.columnOf?, heq, List.lookup_append, hnone, Option.none_or] at hsome
      obtain ⟨first, rest, hsplit, -⟩ := List.lookup_eq_some_iff.mp hsome
      simp [hsplit]
    obtain ⟨hfree, hapart⟩ := hfresh _ hnew
    refine ⟨hfree, fun m hm hcolumn other hother => ?_⟩
    have hgivenApart : (other, c) ∉ (Naming.ofForest before).byExpression :=
      fun hgiven => hapart (List.mem_map.mpr ⟨_, hgiven, rfl⟩)
    obtain ⟨n, hn, rfl⟩ := List.mem_map.mp (hnodes ▸ hm)
    have hexpression : n.aggregation.expression? = some other := hother
    have hin : columnIn last.columnOf? n = some c := hcolumn
    cases hold : n.decisions.column with
    | some old =>
        rw [columnIn, hold, Option.some_or] at hin
        obtain rfl := Option.some.inj hin
        exact absurd (mem_ofForest hn hold hexpression) hgivenApart
    | none =>
        rw [columnIn, hold, hexpression, Option.none_or] at hin
        have hlookup : last.columnOf? other = some c := by
          split at hin
          · exact hin
          · cases hin
        rcases List.mem_append.mp (heq ▸ hmem hlookup) with hgiven | hmemFresh
        · exact absurd hgiven hgivenApart
        · exact (Prod.mk.inj (List.inj_on_of_nodup_map hnodup hmemFresh hnew rfl)).1

theorem exists_isNamedBy (context : PlanContext) (forest : Forest) :
    ∃ columnOf, IsNamedBy context forest columnOf (nameColumns context forest) := by
  obtain ⟨last, hlast, hmore, hnodes, hcomplete⟩ :=
    nameNodes_spec (isRecord_ofForest context forest) forest
  exact ⟨last.columnOf?, isNamedBy_columnOf? hlast hmore hnodes hcomplete⟩

/-! ## What makes no difference -/

/-- Which nodes are left out is not looked at. -/
theorem nameNodes_enabled (naming : Naming) (forest : Forest) :
    nameNodes context naming forest.enabled = (nameNodes context naming forest).enabled := by
  induction forest generalizing naming with
  | nil => rfl
  | cons node rest ih =>
      have hnode : nameNode context naming (node.decide fun d => { d with disabled := false }) =
          ((nameNode context naming node).1.decide fun d => { d with disabled := false },
            (nameNode context naming node).2) := by
        have haggregation :
            (node.decide fun d => { d with disabled := false }).aggregation = node.aggregation :=
          rfl
        have hcolumn : (node.decide fun d =>
            { d with disabled := false }).decisions.column = node.decisions.column := rfl
        unfold nameNode
        rw [haggregation, hcolumn]
        split
        · cases node.aggregation.expression? <;> rfl
        · rfl
      have hcons : nameNodes context naming (Forest.enabled (node :: rest)) =
          (nameNode context naming (node.decide fun d => { d with disabled := false })).1 ::
            nameNodes context
              (nameNode context naming (node.decide fun d => { d with disabled := false })).2
              (Forest.enabled rest) := rfl
      rw [hcons, hnode, ih]
      rfl

theorem nameColumns_enabled (forest : Forest) :
    nameColumns context forest.enabled = (nameColumns context forest).enabled := by
  have hstart : Naming.ofForest forest.enabled = Naming.ofForest forest := by
    unfold Naming.ofForest Forest.enabled
    rw [List.filterMap_map]
    rfl
  rw [nameColumns, hstart, nameNodes_enabled, nameColumns]

/-- Nodes that have the columns that they need are left alone. -/
theorem nameNodes_eq_self (naming : Naming) {forest : Forest}
    (h : ∀ n ∈ forest, n.aggregation.needsColumn = true → n.aggregation.expression? ≠ none →
      n.decisions.column ≠ none) : nameNodes context naming forest = forest := by
  induction forest generalizing naming with
  | nil => rfl
  | cons node rest ih =>
      have hnode : nameNode context naming node = (node, naming) := by
        unfold nameNode
        split
        · rename_i hneeds
          rw [Bool.and_eq_true, Option.isNone_iff_eq_none] at hneeds
          split
          · rename_i e he
            exact absurd hneeds.2 (h node List.mem_cons_self hneeds.1 (by simp [he]))
          · rfl
        · rfl
      have hrest := ih (nameNode context naming node).2 fun n hn =>
        h n (List.mem_cons_of_mem _ hn)
      rw [nameNodes, hnode] at *
      exact congrArg (node :: ·) hrest

/-- There is one column for each expression, which no other expression shares unless it was given so
before. The searches for names end, whatever names are in use. Which nodes are left out makes no
difference to the columns, and naming again, in whatever context, changes nothing. -/
theorem nameColumns_settles (context : PlanContext) (forest : Forest) :
    (∃ columnOf, IsNamedBy context forest columnOf (nameColumns context forest)) ∧
      (∀ number, PlanContext.Lengthens (Naming.isAvoided context) ("al" ++ toString number)
        (Naming.candidate context number)) ∧
      (∀ used start, Naming.Finds context used start
        (Naming.nextName context used (2 * used.length + 1) start).1) ∧
      (∀ other : Forest, other.enabled = forest.enabled →
        (nameColumns context other).map (fun n => n.decisions.column) =
          (nameColumns context forest).map fun n => n.decisions.column) ∧
      ∀ again, nameColumns again (nameColumns context forest) = nameColumns context forest := by
  refine ⟨exists_isNamedBy context forest, Naming.lengthens_candidate context,
    Naming.finds_next context, fun other hother => ?_, fun again => ?_⟩
  · have hcolumns (forest : Forest) :
        (nameColumns context forest).map (fun n => n.decisions.column) =
          (nameColumns context forest.enabled).map fun n => n.decisions.column := by
      rw [nameColumns_enabled, Forest.enabled, List.map_map]
      rfl
    rw [hcolumns, hother, ← hcolumns]
  · exact nameNodes_eq_self _ fun n hn hneeds hexpression =>
      column_of_mem_nameNodes context _ hn hneeds hexpression

end Plan
end Rollup
