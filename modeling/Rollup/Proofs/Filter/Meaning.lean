/-
# The meaning of clauses

The meaning of a clause is a truth value, once every comparison in it has one. A boolean block
holds when all its required clauses hold, enough of its optional ones, and none of its forbidden
ones. Reading a clause keeps the meaning where no clause that restricts nothing was needed to tell
how many optional clauses must hold, or whether a forbidden one does: the text of a filter cannot
say more than that some optional clause holds. A block of which that is true is faithful. When the
conditions of a block can hold independently of each other, no other block keeps its meaning.
-/

import Mathlib.Tactic.SplitIfs
import Rollup.Proofs.Filter.Reading

namespace Rollup

namespace Condition

/-- The truth of a condition that may be missing. -/
def holdsIfAny (truth : Atom → Bool) (condition : Option Condition) : Bool :=
  condition.all (holds truth)

theorem holdsIfAny_conjunction (truth : Atom → Bool) (parts : List Condition) :
    holdsIfAny truth (conjunction parts) = parts.all (holds truth) := by
  unfold conjunction
  split
  · rfl
  · simp [holdsIfAny]
  · rw [holdsIfAny, Option.all_some, holds, holdsAll_eq_all]

theorem all_disjunction (truth : Atom → Bool) (parts : List Condition) :
    (disjunction parts).toList.all (holds truth) =
      (parts.isEmpty || parts.any (holds truth)) := by
  unfold disjunction
  split
  · rfl
  · simp
  · rename_i hnonempty _
    have hsome : parts.isEmpty = false := List.isEmpty_eq_false_iff.mpr hnonempty
    simp [holds, holdsAny_eq_any, hsome]

end Condition

namespace Clause

/-- The truth of a clause that was read. -/
def Outcome.holds (truth : Atom → Bool) (outcome : Outcome) : Bool :=
  Condition.holdsIfAny truth outcome.condition

/-- Whether a clause that was read restricts nothing. -/
def Outcome.isFree (outcome : Outcome) : Bool := outcome.condition.isNone

/-! ## The meaning -/

/-- How many optional clauses of a block must hold: what it says when that is an integer,
otherwise one if there are optional clauses only. -/
def wantedOptional (fields : Fields) (required optional : Nat) : Int :=
  let stated := (Fields.get? fields "minimum_should_match").bind fun value =>
    match value with
    | .number (.integer n) => some n
    | .string s => Text.readSigned64? s.toList
    | _ => none
  stated.getD (if required = 0 ∧ 0 < optional then 1 else 0)

/-- The meanings of the clauses under one name. -/
def meaningsUnder (occurrences : List (String × List Bool)) (name : String) : List Bool :=
  (occurrences.lookup name).getD []

/-- The meaning of a boolean block, by the meanings of its clauses. -/
def blockMeans (fields : Fields) (occurrences : List (String × List Bool)) : Bool :=
  let must := meaningsUnder occurrences "must"
  let filter := meaningsUnder occurrences "filter"
  let optional := meaningsUnder occurrences "should"
  let forbidden := meaningsUnder occurrences "must_not"
  (must ++ filter).all id && forbidden.all not &&
    wantedOptional fields (must ++ filter).length optional.length ≤ optional.count true

/-- The meaning of a leaf: every comparison in it holds. -/
def comparisonsHold (truth : Atom → Bool) (result : Result) : Bool :=
  match result with
  | .ok outcome => outcome.met.all truth
  | .error _ => false

mutual

/-- The meaning of a clause. An object and a list are the conjunctions of their parts. -/
def means (now : Calendar.Instant) (truth : Atom → Bool) : Json → Bool
  | .null => true
  | .object fields => (leavesMean now truth fields).all id
  | .array items => (allMean now truth items).all id
  | .bool _ => false
  | .number _ => false
  | .string _ => false

def allMean (now : Calendar.Instant) (truth : Atom → Bool) : List Json → List Bool
  | [] => []
  | item :: rest => means now truth item :: allMean now truth rest

def leavesMean (now : Calendar.Instant) (truth : Atom → Bool) : List (String × Json) → List Bool
  | [] => []
  | (kind, body) :: rest => leafMeans now truth kind body :: leavesMean now truth rest

def leafMeans (now : Calendar.Instant) (truth : Atom → Bool) (kind : String) : Json → Bool
  | .object fields =>
      if kind = "bool" then blockMeans fields (occurrencesMean now truth fields)
      else comparisonsHold truth (leafOf now kind (.object fields))
  | .null => comparisonsHold truth (leafOf now kind .null)
  | .bool b => comparisonsHold truth (leafOf now kind (.bool b))
  | .number n => comparisonsHold truth (leafOf now kind (.number n))
  | .string s => comparisonsHold truth (leafOf now kind (.string s))
  | .array items => comparisonsHold truth (leafOf now kind (.array items))

/-- The meanings of the clauses under each name of a boolean block. -/
def occurrencesMean (now : Calendar.Instant) (truth : Atom → Bool) :
    List (String × Json) → List (String × List Bool)
  | [] => []
  | (name, .array items) :: rest =>
      (name, allMean now truth items) :: occurrencesMean now truth rest
  | (name, .object fields) :: rest =>
      (name, [(leavesMean now truth fields).all id]) :: occurrencesMean now truth rest
  | (name, .null) :: rest => (name, []) :: occurrencesMean now truth rest
  | (name, .bool _) :: rest => (name, []) :: occurrencesMean now truth rest
  | (name, .number _) :: rest => (name, []) :: occurrencesMean now truth rest
  | (name, .string _) :: rest => (name, []) :: occurrencesMean now truth rest

end

/-! ## Faithful blocks -/

/-- Whether a block with these clauses is read without a change of meaning. A forbidden clause
restricts something. The number of optional clauses that must hold is no more than the optional
clauses that restrict nothing, or, if the block is read as asking for any of the others, one more
than these. -/
def isFaithfulBlock (fields : Fields) (must filter optional forbidden : List Outcome) : Bool :=
  let free := optional.countP Outcome.isFree
  let wanted := wantedOptional fields (must.length + filter.length) optional.length
  forbidden.all (fun outcome => !outcome.isFree) &&
    if (conditions optional).isEmpty then wanted ≤ free
    else if 0 < minimumOptional fields (conditions must ++ conditions filter) then
      wanted = free + 1
    else wanted ≤ free

/-- The clauses under one name of a block that were read. -/
def readUnder (occurrences : List (String × List Result)) (name : String) : List Outcome :=
  (under occurrences name).filterMap Except.toOption

/-- The names under which a block has clauses. -/
def occurrenceNames : List String := ["must", "filter", "should", "must_not"]

mutual

/-- Whether every boolean block in a clause is faithful. -/
def isFaithful (now : Calendar.Instant) : Json → Bool
  | .object fields => leavesAreFaithful now fields
  | .array items => allAreFaithful now items
  | _ => true

def allAreFaithful (now : Calendar.Instant) : List Json → Bool
  | [] => true
  | item :: rest => isFaithful now item && allAreFaithful now rest

def leavesAreFaithful (now : Calendar.Instant) : List (String × Json) → Bool
  | [] => true
  | (kind, body) :: rest => leafIsFaithful now kind body && leavesAreFaithful now rest

def leafIsFaithful (now : Calendar.Instant) (kind : String) : Json → Bool
  | .object fields =>
      if kind = "bool" then
        let read := readUnder (readOccurrences now fields)
        occurrencesAreFaithful now fields &&
          isFaithfulBlock fields (read "must") (read "filter") (read "should") (read "must_not")
      else true
  | _ => true

/-- Whether the blocks inside a block are faithful. -/
def occurrencesAreFaithful (now : Calendar.Instant) : List (String × Json) → Bool
  | [] => true
  | (name, .array items) :: rest =>
      (!occurrenceNames.contains name || allAreFaithful now items) &&
        occurrencesAreFaithful now rest
  | (name, .object fields) :: rest =>
      (!occurrenceNames.contains name || leavesAreFaithful now fields) &&
        occurrencesAreFaithful now rest
  | (_, _) :: rest => occurrencesAreFaithful now rest

end

/-! ## Blocks -/

theorem conditions_cons_none (met : List Atom) (rest : List Outcome) :
    conditions (⟨none, met⟩ :: rest) = conditions rest := rfl

theorem conditions_cons_some (condition : Condition) (met : List Atom) (rest : List Outcome) :
    conditions (⟨some condition, met⟩ :: rest) = condition :: conditions rest := rfl

theorem all_holds (truth : Atom → Bool) (outcomes : List Outcome) :
    (conditions outcomes).all (Condition.holds truth) =
      (outcomes.map (Outcome.holds truth)).all id := by
  induction outcomes with
  | nil => rfl
  | cons outcome rest ih =>
      obtain ⟨condition, met⟩ := outcome
      cases condition with
      | none => rw [conditions_cons_none, ih]; rfl
      | some condition => rw [conditions_cons_some, List.all_cons, ih]; rfl

/-- The clauses that hold are those that restrict nothing and those whose condition holds. -/
theorem count_holds (truth : Atom → Bool) (outcomes : List Outcome) :
    (outcomes.map (Outcome.holds truth)).count true =
      outcomes.countP Outcome.isFree + (conditions outcomes).countP (Condition.holds truth) := by
  induction outcomes with
  | nil => rfl
  | cons outcome rest ih =>
      obtain ⟨condition, met⟩ := outcome
      rw [List.map_cons, List.count_cons, ih, List.countP_cons]
      cases condition with
      | none =>
          rw [conditions_cons_none]
          simp only [Outcome.holds, Outcome.isFree, Condition.holdsIfAny, Option.all_none,
            Option.isNone_none, beq_self_eq_true, if_true]
          omega
      | some condition =>
          rw [conditions_cons_some, List.countP_cons]
          simp only [Outcome.holds, Outcome.isFree, Condition.holdsIfAny, Option.all_some,
            Option.isNone_some, beq_true, Bool.false_eq_true, if_false]
          omega

/-- The truth of a block that was read, by the truths of its parts: all required clauses, one of
the optional conditions if any is asked for, and no forbidden condition. -/
theorem holdsIfAny_block (truth : Atom → Bool) (fields : Fields)
    (must filter optional forbidden : List Outcome) :
    Condition.holdsIfAny truth (Condition.conjunction
        (conditions must ++ conditions filter ++ chosen fields must filter optional ++
          (conditions forbidden).map Condition.not)) =
      (((must ++ filter).map (Outcome.holds truth)).all id &&
        (conditions forbidden).all (fun c => !c.holds truth) &&
        (!decide (0 < minimumOptional fields (conditions must ++ conditions filter)) ||
          (conditions optional).isEmpty || (conditions optional).any (Condition.holds truth))) := by
  have hnot : ((conditions forbidden).map Condition.not).all (Condition.holds truth) =
      (conditions forbidden).all (fun c => !c.holds truth) := by
    rw [List.all_map]
    rfl
  have hchosen : (chosen fields must filter optional).all (Condition.holds truth) =
      (!decide (0 < minimumOptional fields (conditions must ++ conditions filter)) ||
        (conditions optional).isEmpty || (conditions optional).any (Condition.holds truth)) := by
    unfold chosen
    split
    · rename_i hasked
      rw [Condition.all_disjunction]
      simp [hasked]
    · rename_i hasked
      simp [hasked]
  rw [Condition.holdsIfAny_conjunction, List.all_append, List.all_append, List.all_append,
    hnot, hchosen, all_holds, all_holds, List.map_append, List.all_append]
  ac_rfl

/-- The meaning of a block, by the truths of the clauses that were read. -/
def clausesMean (truth : Atom → Bool) (fields : Fields)
    (must filter optional forbidden : List Outcome) : Bool :=
  ((must ++ filter).map (Outcome.holds truth)).all id &&
    (forbidden.map (Outcome.holds truth)).all not &&
    wantedOptional fields (must.length + filter.length) optional.length ≤
      (optional.map (Outcome.holds truth)).count true

/-- Forbidden clauses fail when the conditions of all of them do, unless one restricts nothing. -/
theorem all_not_holds (truth : Atom → Bool) (forbidden : List Outcome) :
    (forbidden.map (Outcome.holds truth)).all not =
      (forbidden.all (fun outcome => !outcome.isFree) &&
        (conditions forbidden).all fun c => !c.holds truth) := by
  induction forbidden with
  | nil => rfl
  | cons outcome rest ih =>
      obtain ⟨condition, met⟩ := outcome
      rw [List.map_cons, List.all_cons, ih, List.all_cons]
      cases condition with
      | none => simp [Outcome.holds, Outcome.isFree, Condition.holdsIfAny]
      | some condition =>
          rw [conditions_cons_some, List.all_cons]
          simp only [Outcome.holds, Outcome.isFree, Condition.holdsIfAny, Option.all_some,
            Option.isNone_some, Bool.not_false, Bool.true_and]
          ac_rfl

/-- What a faithful block is read into has its meaning. -/
theorem holdsIfAny_of_isFaithfulBlock (truth : Atom → Bool) (fields : Fields)
    (must filter optional forbidden : List Outcome)
    (hfaithful : isFaithfulBlock fields must filter optional forbidden = true) :
    Condition.holdsIfAny truth (Condition.conjunction
        (conditions must ++ conditions filter ++ chosen fields must filter optional ++
          (conditions forbidden).map Condition.not)) =
      clausesMean truth fields must filter optional forbidden := by
  simp only [isFaithfulBlock, Bool.and_eq_true] at hfaithful
  obtain ⟨hforbidden, hoptional⟩ := hfaithful
  have hany : (conditions optional).any (Condition.holds truth) =
      decide (0 < (conditions optional).countP (Condition.holds truth)) := by
    rw [Bool.eq_iff_iff, decide_eq_true_iff, List.countP_pos_iff, List.any_eq_true]
  have hcount : (!decide (0 < minimumOptional fields (conditions must ++ conditions filter)) ||
        (conditions optional).isEmpty || (conditions optional).any (Condition.holds truth)) =
      decide (wantedOptional fields (must.length + filter.length) optional.length ≤
        ((optional.map (Outcome.holds truth)).count true : Int)) := by
    rw [count_holds, hany]
    cases hconditions : conditions optional with
    | nil =>
        simp only [hconditions, List.isEmpty_nil, if_true, decide_eq_true_iff] at hoptional
        rw [List.countP_nil, Nat.add_zero, decide_eq_true hoptional]
        simp
    | cons first others =>
        simp only [hconditions, List.isEmpty_cons, Bool.false_eq_true, if_false] at hoptional
        split_ifs at hoptional with hasked
        · rw [decide_eq_true_iff] at hoptional
          rw [hoptional]
          simp only [hasked, decide_true, Bool.not_true, List.isEmpty_cons, Bool.or_self,
            Bool.false_or, decide_eq_decide]
          omega
        · rw [decide_eq_true_iff] at hoptional
          simp only [hasked, decide_false, Bool.not_false, Bool.true_or, Bool.true_eq,
            decide_eq_true_iff]
          omega
  rw [holdsIfAny_block, clausesMean, all_not_holds, hforbidden, Bool.true_and, hcount]

/-- The conditions of a block can hold independently: with all required and no forbidden ones,
any number of the optional ones. -/
def AreSeparable (must filter optional forbidden : List Outcome) : Prop :=
  ∀ count ≤ (conditions optional).length, ∃ truth,
    ((must ++ filter).map (Outcome.holds truth)).all id = true ∧
      (conditions forbidden).all (fun c => !c.holds truth) = true ∧
      (conditions optional).countP (Condition.holds truth) = count

/-- A block with separable conditions that keeps its meaning is faithful. -/
theorem isFaithfulBlock_of_holdsIfAny (fields : Fields)
    (must filter optional forbidden : List Outcome)
    (hseparable : AreSeparable must filter optional forbidden)
    (hmeaning : ∀ truth, Condition.holdsIfAny truth (Condition.conjunction
        (conditions must ++ conditions filter ++ chosen fields must filter optional ++
          (conditions forbidden).map Condition.not)) =
      clausesMean truth fields must filter optional forbidden) :
    isFaithfulBlock fields must filter optional forbidden = true := by
  have hstep (count : Nat) (hcount : count ≤ (conditions optional).length) :
      (!decide (0 < minimumOptional fields (conditions must ++ conditions filter)) ||
          (conditions optional).isEmpty || decide (0 < count)) =
        (forbidden.all (fun outcome => !outcome.isFree) &&
          decide (wantedOptional fields (must.length + filter.length) optional.length ≤
            ((optional.countP Outcome.isFree + count : Nat) : Int))) := by
    obtain ⟨truth, hrequired, hforbidden, htrue⟩ := hseparable count hcount
    have hany : (conditions optional).any (Condition.holds truth) = decide (0 < count) := by
      rw [Bool.eq_iff_iff, decide_eq_true_iff, ← htrue, List.countP_pos_iff, List.any_eq_true]
    have hequal := hmeaning truth
    rw [holdsIfAny_block, clausesMean, all_not_holds, hrequired, hforbidden, hany, count_holds,
      htrue] at hequal
    simpa using hequal
  have hlast := hstep (conditions optional).length (Nat.le_refl _)
  have hfirst := hstep 0 (Nat.zero_le _)
  have hforbidden : forbidden.all (fun outcome => !outcome.isFree) = true := by
    have hleft : (!decide (0 < minimumOptional fields (conditions must ++ conditions filter)) ||
        (conditions optional).isEmpty || decide (0 < (conditions optional).length)) = true := by
      cases conditions optional with
      | nil => simp
      | cons first others => simp
    rw [hleft] at hlast
    exact (Bool.and_eq_true_iff.mp hlast.symm).1
  rw [isFaithfulBlock, hforbidden, Bool.true_and]
  rw [hforbidden, Bool.true_and] at hfirst
  cases hconditions : conditions optional with
  | nil => simpa [hconditions] using hfirst
  | cons first others =>
      simp only [hconditions, List.isEmpty_cons, Bool.or_false, Nat.lt_irrefl, decide_false,
        Nat.add_zero] at hfirst
      simp only [List.isEmpty_cons, Bool.false_eq_true, if_false]
      split_ifs with hasked
      · have hone := hstep 1 (by rw [hconditions]; simp)
        rw [hforbidden, Bool.true_and] at hone
        simp [hasked] at hfirst hone
        rw [decide_eq_true_iff]
        omega
      · simpa [hasked] using hfirst

/-! ## Leaves and trees -/

/-- A leaf holds exactly when every comparison in it does. -/
theorem holds_of_leafOf (truth : Atom → Bool) {now : Calendar.Instant} {kind : String}
    {body : Json} {outcome : Outcome} (h : leafOf now kind body = .ok outcome) :
    outcome.holds truth = outcome.met.all truth := by
  have hsingle (a : Atom) : (single a).holds truth = (single a).met.all truth := by
    simp [single, Outcome.holds, Condition.holdsIfAny, Condition.holds]
  unfold leafOf at h
  split_ifs at h
  · obtain rfl := Except.ok.inj h
    rfl
  · obtain ⟨field, value, literal, -, rfl, -⟩ := equality_spec h
    exact hsingle _
  · obtain ⟨field, items, literals, -, -, rfl⟩ := membership_spec h
    exact hsingle _
  · obtain ⟨field, bounds, -, ⟨condition, hconjunction, hcondition⟩, -⟩ := range_spec h
    rw [Outcome.holds, hcondition, ← hconjunction, Condition.holdsIfAny_conjunction,
      List.all_map]
    rfl
  · obtain ⟨field, -, rfl⟩ := presence_spec h
    exact hsingle _
  · obtain ⟨query, -, rfl | ⟨-, rfl⟩⟩ := fullText_spec h
    · rfl
    · exact hsingle _

theorem readUnder_eq {occurrences : List (String × List Result)} {name : String}
    {outcomes : List Outcome} (h : under occurrences name = outcomes.map .ok) :
    readUnder occurrences name = outcomes := by
  rw [readUnder, h, List.filterMap_map]
  exact List.filterMap_some

theorem under_cons (key : String) (results : List Result)
    (rest : List (String × List Result)) (name : String) :
    under ((key, results) :: rest) name = if name = key then results else under rest name :=
  getD_lookup_cons key results rest name

theorem meaningsUnder_cons (key : String) (meanings : List Bool)
    (rest : List (String × List Bool)) (name : String) :
    meaningsUnder ((key, meanings) :: rest) name =
      if name = key then meanings else meaningsUnder rest name :=
  getD_lookup_cons key meanings rest name

/-- The truth of a conjunction is that of all its clauses. -/
theorem holds_of_conjoin (truth : Atom → Bool) {results : List Result} {outcome : Outcome}
    (h : conjoin results = .ok outcome) :
    ∃ outcomes : List Outcome, results = outcomes.map .ok ∧
      outcome.holds truth = (outcomes.map (Outcome.holds truth)).all id := by
  obtain ⟨outcomes, hresults, rfl⟩ := conjoin_spec h
  refine ⟨outcomes, hresults, ?_⟩
  rw [Outcome.holds, Condition.holdsIfAny_conjunction, all_holds]

/-- A block that is read has the truth of its conditions, and the meaning of its clauses when
these keep theirs. -/
theorem holds_of_block (truth : Atom → Bool) {fields : Fields}
    {occurrences : List (String × List Result)} {meanings : List (String × List Bool)}
    {outcome : Outcome} (h : block fields occurrences = .ok outcome)
    (hparts : ∀ name ∈ occurrenceNames, ∀ outcomes : List Outcome,
      under occurrences name = outcomes.map .ok →
      meaningsUnder meanings name = outcomes.map (Outcome.holds truth)) :
    let must := readUnder occurrences "must"
    let filter := readUnder occurrences "filter"
    let optional := readUnder occurrences "should"
    let forbidden := readUnder occurrences "must_not"
    outcome.holds truth = Condition.holdsIfAny truth (Condition.conjunction
        (conditions must ++ conditions filter ++ chosen fields must filter optional ++
          (conditions forbidden).map Condition.not)) ∧
      blockMeans fields meanings = clausesMean truth fields must filter optional forbidden := by
  obtain ⟨must, filter, optional, forbidden, hmust, hfilter, hoptional, hforbidden, rfl⟩ :=
    block_spec h
  dsimp only
  rw [readUnder_eq hmust, readUnder_eq hfilter, readUnder_eq hoptional, readUnder_eq hforbidden]
  refine ⟨rfl, ?_⟩
  rw [blockMeans, clausesMean, hparts "must" (by decide) must hmust,
    hparts "filter" (by decide) filter hfilter, hparts "should" (by decide) optional hoptional,
    hparts "must_not" (by decide) forbidden hforbidden, ← List.map_append, List.length_map,
    List.length_map, List.length_append]

mutual

/-- Reading a clause whose blocks are all faithful keeps its meaning. -/
theorem holds_of_read (now : Calendar.Instant) (truth : Atom → Bool) (clause : Json)
    (outcome : Outcome) (h : read now clause = .ok outcome)
    (hfaithful : isFaithful now clause = true) :
    outcome.holds truth = means now truth clause := by
  cases clause with
  | null =>
      obtain rfl : unrestricted = outcome := by simpa [read] using h
      rfl
  | object fields =>
      rw [read] at h
      obtain ⟨outcomes, houtcomes, hholds⟩ := holds_of_conjoin truth h
      rw [hholds, means, holds_of_readLeaves now truth fields outcomes houtcomes hfaithful]
  | array items =>
      rw [read] at h
      obtain ⟨outcomes, houtcomes, hholds⟩ := holds_of_conjoin truth h
      rw [hholds, means, holds_of_readAll now truth items outcomes houtcomes hfaithful]
  | bool _ | number _ | string _ => simp [read, noClause] at h

theorem holds_of_readAll (now : Calendar.Instant) (truth : Atom → Bool) (items : List Json)
    (outcomes : List Outcome) (h : readAll now items = outcomes.map .ok)
    (hfaithful : allAreFaithful now items = true) :
    outcomes.map (Outcome.holds truth) = allMean now truth items := by
  cases items with
  | nil =>
      obtain rfl : outcomes = [] := by simpa [readAll] using h.symm
      rfl
  | cons item rest =>
      rw [readAll] at h
      rw [allAreFaithful, Bool.and_eq_true] at hfaithful
      obtain ⟨first, others, rfl, hfirst, hothers⟩ := List.map_eq_cons_iff.mp h.symm
      rw [List.map_cons, allMean,
        holds_of_read now truth item first hfirst.symm hfaithful.1,
        holds_of_readAll now truth rest others hothers.symm hfaithful.2]

theorem holds_of_readLeaves (now : Calendar.Instant) (truth : Atom → Bool)
    (fields : List (String × Json)) (outcomes : List Outcome)
    (h : readLeaves now fields = outcomes.map .ok)
    (hfaithful : leavesAreFaithful now fields = true) :
    outcomes.map (Outcome.holds truth) = leavesMean now truth fields := by
  cases fields with
  | nil =>
      obtain rfl : outcomes = [] := by simpa [readLeaves] using h.symm
      rfl
  | cons field rest =>
      obtain ⟨kind, body⟩ := field
      rw [readLeaves] at h
      rw [leavesAreFaithful, Bool.and_eq_true] at hfaithful
      obtain ⟨first, others, rfl, hfirst, hothers⟩ := List.map_eq_cons_iff.mp h.symm
      rw [List.map_cons, leavesMean,
        holds_of_readLeaf now truth kind body first hfirst.symm hfaithful.1,
        holds_of_readLeaves now truth rest others hothers.symm hfaithful.2]

theorem holds_of_readLeaf (now : Calendar.Instant) (truth : Atom → Bool) (kind : String)
    (body : Json) (outcome : Outcome) (h : readLeaf now kind body = .ok outcome)
    (hfaithful : leafIsFaithful now kind body = true) :
    outcome.holds truth = leafMeans now truth kind body := by
  have hleaf (hread : leafOf now kind body = .ok outcome) :
      outcome.holds truth = comparisonsHold truth (leafOf now kind body) := by
    rw [hread]
    exact holds_of_leafOf truth hread
  have hscalar (hread : readScalarLeaf now kind body = .ok outcome) :
      outcome.holds truth = comparisonsHold truth (leafOf now kind body) :=
    hleaf (leafOf_of_readScalarLeaf hread)
  cases body with
  | object fields =>
      rw [readLeaf] at h
      rw [leafMeans]
      split_ifs at h ⊢ with hkind
      · rw [leafIsFaithful, if_pos hkind] at hfaithful
        dsimp only at hfaithful
        rw [Bool.and_eq_true] at hfaithful
        obtain ⟨hinner, hblock⟩ := hfaithful
        obtain ⟨hholds, hmeans⟩ := holds_of_block truth h fun name hname outcomes hunder =>
          holds_of_readOccurrences now truth fields name hname outcomes hunder hinner
        rw [hholds, hmeans]
        exact holdsIfAny_of_isFaithfulBlock truth fields _ _ _ _ hblock
      · exact hleaf h
  | null | bool _ | number _ | string _ | array _ => exact hscalar (by rwa [readLeaf] at h)

theorem holds_of_readOccurrences (now : Calendar.Instant) (truth : Atom → Bool)
    (fields : List (String × Json)) (name : String) (hname : name ∈ occurrenceNames)
    (outcomes : List Outcome)
    (h : under (readOccurrences now fields) name = outcomes.map .ok)
    (hfaithful : occurrencesAreFaithful now fields = true) :
    meaningsUnder (occurrencesMean now truth fields) name =
      outcomes.map (Outcome.holds truth) := by
  cases fields with
  | nil =>
      obtain rfl : outcomes = [] := by simpa [readOccurrences, under] using h.symm
      rfl
  | cons field rest =>
      obtain ⟨key, body⟩ := field
      have hcons (results : List Result) (meanings : List Bool)
          (hread : readOccurrences now ((key, body) :: rest) =
            (key, results) :: readOccurrences now rest)
          (hmean : occurrencesMean now truth ((key, body) :: rest) =
            (key, meanings) :: occurrencesMean now truth rest)
          (hrest : occurrencesAreFaithful now rest = true)
          (hhere : name = key → results = outcomes.map .ok →
            meanings = outcomes.map (Outcome.holds truth)) :
          meaningsUnder (occurrencesMean now truth ((key, body) :: rest)) name =
            outcomes.map (Outcome.holds truth) := by
        rw [hread, under_cons] at h
        rw [hmean, meaningsUnder_cons]
        split_ifs at h ⊢ with hkey
        · exact hhere hkey h
        · exact holds_of_readOccurrences now truth rest name hname outcomes h hrest
      have hnothing (hnil : [] = outcomes.map (Except.ok (ε := FilterError))) :
          [] = outcomes.map (Outcome.holds truth) := by
        obtain rfl : outcomes = [] := by simpa using hnil.symm
        rfl
      have hscalar (value : Json) (herror : [noClause value] = outcomes.map .ok) :
          [] = outcomes.map (Outcome.holds truth) := by
        obtain ⟨first, others, rfl, hfirst, -⟩ := List.map_eq_cons_iff.mp herror.symm
        simp [noClause] at hfirst
      cases body with
      | array items =>
          rw [occurrencesAreFaithful, Bool.and_eq_true] at hfaithful
          refine hcons _ _ rfl rfl hfaithful.2 fun hkey hread => ?_
          have hitems : allAreFaithful now items = true := by
            simpa [← hkey, hname] using hfaithful.1
          exact (holds_of_readAll now truth items outcomes hread hitems).symm
      | object inner =>
          rw [occurrencesAreFaithful, Bool.and_eq_true] at hfaithful
          refine hcons _ _ rfl rfl hfaithful.2 fun hkey hread => ?_
          have hinner : leavesAreFaithful now inner = true := by
            simpa [← hkey, hname] using hfaithful.1
          obtain ⟨first, others, rfl, hfirst, hothers⟩ := List.map_eq_cons_iff.mp hread.symm
          obtain rfl : others = [] := by simpa using hothers
          obtain ⟨parts, hparts, hholds⟩ := holds_of_conjoin truth hfirst.symm
          rw [List.map_singleton, hholds,
            holds_of_readLeaves now truth inner parts hparts hinner]
      | null => exact hcons _ _ rfl rfl hfaithful fun _ => hnothing
      | bool _ | number _ | string _ => exact hcons _ _ rfl rfl hfaithful fun _ => hscalar _

end

/-! ## Compiling -/

/-- The truth of a compiled clause; without a filter every document matches. -/
def filterHolds (truth : Atom → Bool) (filter : Option Filter) : Bool :=
  filter.all fun f => f.condition.holds truth

theorem filterHolds_of_compile (truth : Atom → Bool) {now : Calendar.Instant} {clause : Json}
    {filter : Option Filter} (h : compile now clause = .ok filter) :
    ∃ outcome, read now clause = .ok outcome ∧
      filterHolds truth filter = outcome.holds truth := by
  obtain ⟨outcome, hread, hfilter⟩ := exists_read_of_compile h
  refine ⟨outcome, hread, ?_⟩
  rw [hfilter, filterHolds, Outcome.holds, Condition.holdsIfAny]
  cases outcome.condition <;> rfl

/-- Whether the conditions under the names of a block can hold independently. -/
def IsSeparableBlock (now : Calendar.Instant) (fields : List (String × Json)) : Prop :=
  let read := readUnder (readOccurrences now fields)
  AreSeparable (read "must") (read "filter") (read "should") (read "must_not")

/-- A clause whose boolean blocks are all faithful is compiled without a change of meaning. For a
block of faithful clauses with separable conditions the converse is true as well. -/
theorem compile_keeps_meaning {now : Calendar.Instant} {clause : Json} {filter : Option Filter}
    (h : compile now clause = .ok filter) :
    (isFaithful now clause = true →
      ∀ truth, filterHolds truth filter = means now truth clause) ∧
      (∀ fields, clause = .object [("bool", .object fields)] →
        occurrencesAreFaithful now fields = true → IsSeparableBlock now fields →
        (∀ truth, filterHolds truth filter = means now truth clause) →
        isFaithful now clause = true) := by
  constructor
  · intro hfaithful truth
    obtain ⟨outcome, hread, hholds⟩ := filterHolds_of_compile truth h
    rw [hholds, holds_of_read now truth clause outcome hread hfaithful]
  · rintro fields rfl hinner hseparable hmeaning
    have hblock : isFaithfulBlock fields (readUnder (readOccurrences now fields) "must")
        (readUnder (readOccurrences now fields) "filter")
        (readUnder (readOccurrences now fields) "should")
        (readUnder (readOccurrences now fields) "must_not") = true := by
      apply isFaithfulBlock_of_holdsIfAny _ _ _ _ _ hseparable
      intro truth
      obtain ⟨outcome, hread, hholds⟩ := filterHolds_of_compile truth h
      obtain ⟨outcomes, houtcomes, hall⟩ := holds_of_conjoin truth hread
      obtain ⟨part, others, rfl, hpart, hothers⟩ := List.map_eq_cons_iff.mp houtcomes.symm
      obtain rfl : others = [] := by simpa [readLeaves] using hothers
      obtain ⟨hpartHolds, hpartMeans⟩ := holds_of_block truth hpart.symm
        fun name hname outcomes hunder =>
          holds_of_readOccurrences now truth fields name hname outcomes hunder hinner
      have hequal := hmeaning truth
      rw [hholds, hall, List.map_singleton, List.all_cons, List.all_nil, Bool.and_true, id,
        hpartHolds, means, leavesMean, leavesMean, List.all_cons, List.all_nil, Bool.and_true,
        id, leafMeans, if_pos rfl, hpartMeans] at hequal
      exact hequal
    rw [isFaithful, leavesAreFaithful, leavesAreFaithful, leafIsFaithful, if_pos rfl]
    simp only [hinner, hblock, Bool.and_self]

/-- A comparison of a field with one. -/
def isOne (field : String) : Json := .object [("term", .object [(field, .number (.integer 1))])]

/-- A block of two optional clauses of which some number must hold. -/
def twoOptional (minimum : Int) : Json :=
  .object [("bool", .object [("should", .array [isOne "a", isOne "b"]),
    ("minimum_should_match", .number (.integer minimum))])]

/-- What the block of two optional clauses is compiled into. -/
def eitherIsOne : Filter :=
  let a : Atom := .equals "a" (.number (.integer 1))
  let b : Atom := .equals "b" (.number (.integer 1))
  ⟨.any [.atom a, .atom b], [a, b]⟩

/-- One of two optional clauses can be asked for. -/
theorem twoOptional_one_keeps_meaning :
    compile default (twoOptional 1) = .ok (some eitherIsOne) ∧
      ∀ truth, filterHolds truth (some eitherIsOne) = means default truth (twoOptional 1) := by
  have hcompile : compile default (twoOptional 1) = .ok (some eitherIsOne) := rfl
  exact ⟨hcompile, (compile_keeps_meaning hcompile).1 rfl⟩

/-- Two of two optional clauses cannot: a document that matches only one of them is let through. -/
theorem twoOptional_two_loses_meaning :
    compile default (twoOptional 2) = .ok (some eitherIsOne) ∧
      filterHolds (fun atom => atom.field? == some "a") (some eitherIsOne) = true ∧
      means default (fun atom => atom.field? == some "a") (twoOptional 2) = false :=
  ⟨rfl, rfl, rfl⟩

end Clause
end Rollup
