/-
# Values of a metric in any order

A metric merges the values of groups one after the other. The least and the greatest of them are the
same number in every order, if all are numbers. Sums and means are the same in every order as long
as the values are integers, and no sum of them needs more than 53 binary digits.
-/

import Mathlib.Algebra.Order.BigOperators.Group.List
import Rollup.Proofs.Number.Exact
import Rollup.Proofs.Number.Sums
import Rollup.Proofs.Response.Ordering

namespace Rollup

namespace Binary64

theorem less_iff {x y : Binary64} (hx : x.isNaN = false) (hy : y.isNaN = false) :
    less x y = true ↔ x.rank < y.rank := by
  rw [less, compare?_eq_rank hx hy, beq_iff_eq, Option.some.injEq, compare_lt_iff_lt]

theorem rank_min {x y : Binary64} (hx : x.isNaN = false) (hy : y.isNaN = false) :
    (x.min y).rank = Min.min x.rank y.rank := by
  unfold min
  rw [hx, if_neg Bool.false_ne_true]
  split
  · rename_i hless
    exact (min_eq_right ((less_iff hy hx).mp hless).le).symm
  · rename_i hnot
    exact (min_eq_left (not_lt.mp fun h => hnot ((less_iff hy hx).mpr h))).symm

theorem rank_max {x y : Binary64} (hx : x.isNaN = false) (hy : y.isNaN = false) :
    (x.max y).rank = Max.max x.rank y.rank := by
  unfold max
  rw [hx, if_neg Bool.false_ne_true]
  split
  · rename_i hless
    exact (max_eq_right ((less_iff hx hy).mp hless).le).symm
  · rename_i hnot
    exact (max_eq_left (not_lt.mp fun h => hnot ((less_iff hx hy).mpr h))).symm

theorem isNaN_min {x y : Binary64} (hx : x.isNaN = false) (hy : y.isNaN = false) :
    (x.min y).isNaN = false := by
  unfold min
  rw [hx, if_neg Bool.false_ne_true]
  split
  · exact hy
  · exact hx

theorem isNaN_max {x y : Binary64} (hx : x.isNaN = false) (hy : y.isNaN = false) :
    (x.max y).isNaN = false := by
  unfold max
  rw [hx, if_neg Bool.false_ne_true]
  split
  · exact hy
  · exact hx

end Binary64

/-- The tally of some values, each of a group of some size. -/
def Tally.merged (function : MetricFunction) (measures : List (Binary64 × Nat)) : Tally :=
  measures.foldl (fun tally measure => tally.add measure.1 measure.2) (.empty function)

namespace MetricFunction

/-- Whether the merged values are at one place of the number line, in whatever order they are
merged. -/
def IsSteady (function : MetricFunction) (measures : List (Binary64 × Nat)) : Prop :=
  ∀ others, measures.Perm others →
    (∀ x ∈ (Tally.merged function others).result?, x.isNaN = false) ∧
      (Tally.merged function others).result?.map Binary64.rank =
        (Tally.merged function measures).result?.map Binary64.rank

theorem IsSteady.of_perm {function : MetricFunction} {measures others : List (Binary64 × Nat)}
    (h : function.IsSteady measures) (hperm : measures.Perm others) : function.IsSteady others := by
  intro later hlater
  obtain ⟨hnumber, hplace⟩ := h later (hperm.trans hlater)
  exact ⟨hnumber, hplace.trans (h others hperm).2.symm⟩

/-- Picking one of two numbers after the other, from the first on. -/
def pickAll (pick : Binary64 → Binary64 → Binary64) (measures : List (Binary64 × Nat))
    (start : Option Binary64) : Option Binary64 :=
  measures.foldl
    (fun picked measure => some (picked.elim measure.1 fun x => pick x measure.1)) start

/-- A function that picks one value of two. -/
structure Picks (function : MetricFunction) (pick : Binary64 → Binary64 → Binary64) : Prop where
  add : ∀ tally : Tally, tally.function = function → ∀ value size,
    (tally.add value size).extreme = some (tally.extreme.elim value fun x => pick x value)
  result : ∀ tally : Tally, tally.function = function → tally.result? = tally.extreme

theorem picks_min : Picks .min Binary64.min where
  add := by
    intro tally hmin value size
    unfold Tally.add
    rw [hmin]
    cases tally.extreme <;> rfl
  result := by
    intro tally hmin
    rw [Tally.result?, hmin]

theorem picks_max : Picks .max Binary64.max where
  add := by
    intro tally hmax value size
    unfold Tally.add
    rw [hmax]
    cases tally.extreme <;> rfl
  result := by
    intro tally hmax
    rw [Tally.result?, hmax]

section

variable {pick : Binary64 → Binary64 → Binary64} {measures : List (Binary64 × Nat)}

theorem Picks.result?_merged {function : MetricFunction} (h : function.Picks pick)
    (measures : List (Binary64 × Nat)) :
    (Tally.merged function measures).result? = pickAll pick measures none := by
  have hfold (tally : Tally) (hsame : tally.function = function) :
      (measures.foldl (fun tally measure => tally.add measure.1 measure.2) tally).result? =
        pickAll pick measures tally.extreme := by
    induction measures generalizing tally with
    | nil => exact h.result tally hsame
    | cons measure rest ih =>
        rw [List.foldl_cons, ih _ ((Tally.function_add _ _ _).trans hsame), h.add tally hsame]
        rfl
  exact hfold (.empty function) rfl

/-- What is picked of numbers is a number. -/
theorem isNaN_of_mem_pickAll
    (hpick : ∀ x y : Binary64, x.isNaN = false → y.isNaN = false → (pick x y).isNaN = false)
    {start : Option Binary64} (hstart : ∀ x ∈ start, x.isNaN = false)
    (hmeasures : ∀ measure ∈ measures, measure.1.isNaN = false) :
    ∀ x ∈ pickAll pick measures start, x.isNaN = false := by
  induction measures generalizing start with
  | nil => exact hstart
  | cons measure rest ih =>
      refine ih ?_ fun other hother => hmeasures other (List.mem_cons_of_mem _ hother)
      intro x hx
      have hmeasure := hmeasures measure (by simp)
      cases start with
      | none => exact Option.some.inj hx ▸ hmeasure
      | some y => exact Option.some.inj hx ▸ hpick y measure.1 (hstart y rfl) hmeasure

/-- Picking numbers is picking their places. -/
theorem rank_pickAll {choose : WithBot (WithTop ℚ) → WithBot (WithTop ℚ) → WithBot (WithTop ℚ)}
    (hpick : ∀ x y : Binary64, x.isNaN = false → y.isNaN = false → (pick x y).isNaN = false)
    (hrank : ∀ x y : Binary64, x.isNaN = false → y.isNaN = false →
      (pick x y).rank = choose x.rank y.rank)
    {start : Option Binary64} (hstart : ∀ x ∈ start, x.isNaN = false)
    (hmeasures : ∀ measure ∈ measures, measure.1.isNaN = false) :
    (pickAll pick measures start).map Binary64.rank =
      (measures.map fun measure => measure.1.rank).foldl
        (fun picked place => some (picked.elim place fun x => choose x place))
        (start.map Binary64.rank) := by
  induction measures generalizing start with
  | nil => rfl
  | cons measure rest ih =>
      have hmeasure := hmeasures measure (by simp)
      have hrest := fun other hother => hmeasures other (List.mem_cons_of_mem measure hother)
      rw [List.map_cons, List.foldl_cons, pickAll, List.foldl_cons]
      cases start with
      | none =>
          have hnext : ∀ x ∈ some measure.1, x.isNaN = false :=
            fun x hx => Option.some.inj hx ▸ hmeasure
          exact ih hnext hrest
      | some y =>
          have hy := hstart y rfl
          have hnext : ∀ x ∈ some (pick y measure.1), x.isNaN = false :=
            fun x hx => Option.some.inj hx ▸ hpick y measure.1 hy hmeasure
          have hpicked := ih hnext hrest
          rw [Option.map_some, hrank y measure.1 hy hmeasure] at hpicked
          exact hpicked

/-- A function that picks by places gives one place in every order. -/
theorem Picks.isSteady {function : MetricFunction} (h : function.Picks pick)
    {choose : WithBot (WithTop ℚ) → WithBot (WithTop ℚ) → WithBot (WithTop ℚ)}
    (hcomm : ∀ a b, choose a b = choose b a)
    (hassoc : ∀ a b c, choose (choose a b) c = choose a (choose b c))
    (hpick : ∀ x y : Binary64, x.isNaN = false → y.isNaN = false → (pick x y).isNaN = false)
    (hrank : ∀ x y : Binary64, x.isNaN = false → y.isNaN = false →
      (pick x y).rank = choose x.rank y.rank)
    (hmeasures : ∀ measure ∈ measures, measure.1.isNaN = false) : function.IsSteady measures := by
  intro others hperm
  have hstart : ∀ x ∈ (none : Option Binary64), x.isNaN = false := fun x hx => nomatch hx
  have hothers : ∀ measure ∈ others, measure.1.isNaN = false :=
    fun measure hmeasure => hmeasures measure (hperm.mem_iff.mpr hmeasure)
  rw [h.result?_merged, h.result?_merged]
  refine ⟨isNaN_of_mem_pickAll hpick hstart hothers, ?_⟩
  rw [rank_pickAll hpick hrank hstart hothers, rank_pickAll hpick hrank hstart hmeasures]
  refine (hperm.map _).symm.foldl_eq' (fun a _ b _ picked => ?_) _
  cases picked with
  | none => exact congrArg some (hcomm a b)
  | some x => exact congrArg some (by simp [hassoc, hcomm a b])

end

/-- The least and the greatest of numbers are the same in every order. -/
theorem isSteady_of_extreme {function : MetricFunction}
    (hextreme : function = .min ∨ function = .max) {measures : List (Binary64 × Nat)}
    (hmeasures : ∀ measure ∈ measures, measure.1.isNaN = false) :
    function.IsSteady measures := by
  rcases hextreme with rfl | rfl
  · exact picks_min.isSteady min_comm min_assoc (fun _ _ => Binary64.isNaN_min)
      (fun _ _ => Binary64.rank_min) hmeasures
  · exact picks_max.isSteady max_comm max_assoc (fun _ _ => Binary64.isNaN_max)
      (fun _ _ => Binary64.rank_max) hmeasures

end MetricFunction

/-! ## Sums of integers -/

namespace Binary64

/-- The integer that a number denotes. -/
def whole (x : Binary64) : Int := (x.toRat?.getD 0).num

theorem toRat?_of_isIntegral {x : Binary64} (h : x.isIntegral = true) :
    x.toRat? = some (x.whole : Rat) := by
  unfold isIntegral at h
  unfold whole
  cases hrat : x.toRat? with
  | none => rw [hrat] at h; cases h
  | some q =>
      rw [hrat, beq_iff_eq] at h
      rw [Option.getD_some, (Rat.den_eq_one_iff q).mp h]

theorem isIntegral_of_toRat? {x : Binary64} {n : Int} (h : x.toRat? = some (n : Rat)) :
    x.isIntegral = true := by
  rw [isIntegral, h]
  exact beq_self_eq_true 1

theorem whole_eq {x : Binary64} {n : Int} (h : x.toRat? = some (n : Rat)) : x.whole = n := by
  rw [whole, h]
  simp

theorem finite_add {t n : Int} {x : Binary64} (hx : x.toRat? = some (n : Rat))
    (hsmall : (t + n).natAbs < 2 ^ 53) : finite t + x = finite ((t + n : Int) : Rat) := by
  cases x with
  | finite q =>
      obtain rfl := Option.some.inj hx
      show round (t + n) = _
      rw [← round_intCast hsmall, Int.cast_add]
  | negativeZero =>
      have hzero : n = 0 := by exact_mod_cast (Option.some.inj hx).symm
      rw [hzero, Int.add_zero]
      rfl
  | infinite negative => cases hx
  | nan negative => cases hx

/-- A sum of integers is exact. -/
theorem foldl_add_eq {xs : List Binary64} (hxs : ∀ x ∈ xs, x.isIntegral = true) {t : Int}
    (hsmall : t.natAbs + (xs.map fun x => x.whole.natAbs).sum < 2 ^ 53) :
    xs.foldl (· + ·) (finite t) = finite ((t + (xs.map whole).sum : Int) : Rat) := by
  induction xs generalizing t with
  | nil => simp
  | cons x rest ih =>
      rw [List.map_cons, List.sum_cons] at hsmall
      have hadd := finite_add (toRat?_of_isIntegral (hxs x (by simp)))
        (t := t) (by omega)
      rw [List.foldl_cons, hadd, ih (fun y hy => hxs y (List.mem_cons_of_mem x hy)) (by omega),
        List.map_cons, List.sum_cons, Int.add_assoc]

/-- Sums of integers are the same in every order. -/
theorem foldl_add_perm {xs ys : List Binary64} (hperm : xs.Perm ys)
    (hxs : ∀ x ∈ xs, x.isIntegral = true)
    (hsmall : (xs.map fun x => x.whole.natAbs).sum < 2 ^ 53) :
    ys.foldl (· + ·) (finite 0) = xs.foldl (· + ·) (finite 0) := by
  have hzero : finite 0 = finite ((0 : Int) : Rat) := rfl
  rw [hzero, foldl_add_eq hxs (by simpa using hsmall),
    foldl_add_eq (fun y hy => hxs y (hperm.mem_iff.mpr hy))
      (by simpa [(hperm.map fun x => x.whole.natAbs).sum_eq] using hsmall),
    (hperm.map whole).sum_eq]

theorem exists_foldl_add {xs : List Binary64} (hxs : ∀ x ∈ xs, x.isIntegral = true)
    (hsmall : (xs.map fun x => x.whole.natAbs).sum < 2 ^ 53) :
    ∃ n : Int, xs.foldl (· + ·) (finite 0) = finite (n : Rat) :=
  ⟨0 + (xs.map whole).sum, foldl_add_eq (t := 0) hxs (by simpa using hsmall)⟩

theorem isNaN_round (q : Rat) : (round q).isNaN = false := by
  unfold round
  dsimp only
  split
  · rfl
  · split
    · unfold zero
      split <;> rfl
    · split <;> rfl

theorem isNaN_div {p q : Rat} (hq : q ≠ 0) : (finite p / finite q).isNaN = false := by
  show (if q = 0 then _ else if p = 0 then zero _ else round (p / q)).isNaN = false
  rw [if_neg hq]
  split
  · unfold zero
    split <;> rfl
  · exact isNaN_round _

/-- An integer times the size of a group is an integer. -/
theorem mul_ofInt {x : Binary64} (hx : x.isIntegral = true) {size : Nat} (hsize : size < 2 ^ 53)
    (hsmall : x.whole.natAbs * size < 2 ^ 53) :
    (x * ofInt size).toRat? = some ((x.whole * size : Int) : Rat) := by
  have hof : (ofInt size).toRat? = some ((size : Int) : Rat) :=
    congrArg toRat? (round_intCast (by simpa using hsize))
  have hproduct : (finite ((x.whole : Rat) * ((size : Int) : Rat))).IsNumber := by
    rw [← Int.cast_mul]
    exact round_intCast (by rw [Int.natAbs_mul]; simpa using hsmall)
  rw [toRat?_mul (toRat?_of_isIntegral hx) hof hproduct, Int.cast_mul]

end Binary64

namespace MetricFunction

theorem result?_merged_sum (measures : List (Binary64 × Nat)) :
    (Tally.merged .sum measures).result? =
      some ((measures.map Prod.fst).foldl (· + ·) (.finite 0)) := by
  have hfold (tally : Tally) (hsum : tally.function = .sum) :
      (measures.foldl (fun tally measure => tally.add measure.1 measure.2) tally).result? =
        some ((measures.map Prod.fst).foldl (· + ·) tally.total) := by
    induction measures generalizing tally with
    | nil => rw [List.foldl_nil, Tally.result?, hsum]; rfl
    | cons measure rest ih =>
        rw [List.foldl_cons, ih _ ((Tally.function_add _ _ _).trans hsum), Tally.add, hsum]
        rfl
  exact hfold (.empty .sum) rfl

/-- The values of a mean, each times the size of its group. -/
def weighted (measures : List (Binary64 × Nat)) : List Binary64 :=
  measures.map fun measure => measure.1 * .ofInt measure.2

/-- The sizes of the groups of a mean. -/
def weights (measures : List (Binary64 × Nat)) : List Binary64 :=
  measures.map fun measure => .ofInt measure.2

theorem result?_merged_avg (measures : List (Binary64 × Nat)) :
    (Tally.merged .avg measures).result? =
      if Binary64.less 0 ((weights measures).foldl (· + ·) (.finite 0)) then
        some ((weighted measures).foldl (· + ·) (.finite 0) /
          (weights measures).foldl (· + ·) (.finite 0))
      else none := by
  have hfold (tally : Tally) (havg : tally.function = .avg) :
      (measures.foldl (fun tally measure => tally.add measure.1 measure.2) tally).result? =
        if Binary64.less 0 ((weights measures).foldl (· + ·) tally.weight) then
          some ((weighted measures).foldl (· + ·) tally.total /
            (weights measures).foldl (· + ·) tally.weight)
        else none := by
    induction measures generalizing tally with
    | nil => rw [List.foldl_nil, Tally.result?, havg]; rfl
    | cons measure rest ih =>
        rw [List.foldl_cons, ih _ ((Tally.function_add _ _ _).trans havg), Tally.add, havg]
        rfl
  exact hfold (.empty .avg) rfl

/-- Sums of integers that are not too large are the same in every order. -/
theorem isSteady_sum {measures : List (Binary64 × Nat)}
    (hmeasures : ∀ measure ∈ measures, measure.1.isIntegral = true)
    (hsmall : (measures.map fun measure => measure.1.whole.natAbs).sum < 2 ^ 53) :
    sum.IsSteady measures := by
  intro others hperm
  have hxs : ∀ x ∈ measures.map Prod.fst, x.isIntegral = true := by
    simpa only [List.mem_map, forall_exists_index, and_imp, forall_apply_eq_imp_iff₂] using
      hmeasures
  have hsum : ((measures.map Prod.fst).map fun x => x.whole.natAbs).sum < 2 ^ 53 := by
    rwa [List.map_map]
  rw [result?_merged_sum, result?_merged_sum,
    Binary64.foldl_add_perm (hperm.map Prod.fst) hxs hsum]
  refine ⟨fun x hx => ?_, rfl⟩
  obtain ⟨n, hn⟩ := Binary64.exists_foldl_add hxs hsum
  rw [← Option.some.inj hx, hn]
  rfl

section

variable {measures : List (Binary64 × Nat)}

theorem weights_spec (hsizes : (measures.map Prod.snd).sum < 2 ^ 53) :
    (∀ x ∈ weights measures, x.isIntegral = true) ∧
      ((weights measures).map fun x => x.whole.natAbs).sum < 2 ^ 53 := by
  have hweight {measure : Binary64 × Nat} (hmeasure : measure ∈ measures) :
      (Binary64.ofInt measure.2).toRat? = some ((measure.2 : Int) : Rat) := by
    have hsize := (List.le_sum_of_mem (List.mem_map_of_mem hmeasure)).trans_lt hsizes
    rw [Binary64.ofInt, Binary64.round_intCast (by simpa using hsize)]
    rfl
  constructor
  · intro x hx
    obtain ⟨measure, hmeasure, rfl⟩ := List.mem_map.mp hx
    exact Binary64.isIntegral_of_toRat? (hweight hmeasure)
  · have hwhole : ((weights measures).map fun x => x.whole.natAbs) = measures.map Prod.snd := by
      unfold weights
      rw [List.map_map]
      refine List.map_congr_left fun measure hmeasure => ?_
      rw [Function.comp_apply, Binary64.whole_eq (hweight hmeasure), Int.natAbs_natCast]
    rwa [hwhole]

theorem weighted_spec (hmeasures : ∀ measure ∈ measures, measure.1.isIntegral = true)
    (hsmall : (measures.map fun measure => measure.1.whole.natAbs * measure.2).sum < 2 ^ 53)
    (hsizes : (measures.map Prod.snd).sum < 2 ^ 53) :
    (∀ x ∈ weighted measures, x.isIntegral = true) ∧
      ((weighted measures).map fun x => x.whole.natAbs).sum < 2 ^ 53 := by
  have hvalue {measure : Binary64 × Nat} (hmeasure : measure ∈ measures) :
      (measure.1 * .ofInt measure.2).toRat? = some ((measure.1.whole * measure.2 : Int) : Rat) := by
    have hmem : measure.1.whole.natAbs * measure.2 ∈
        measures.map fun measure => measure.1.whole.natAbs * measure.2 :=
      List.mem_map.mpr ⟨measure, hmeasure, rfl⟩
    exact Binary64.mul_ofInt (hmeasures measure hmeasure)
      ((List.le_sum_of_mem (List.mem_map_of_mem hmeasure)).trans_lt hsizes)
      ((List.le_sum_of_mem hmem).trans_lt hsmall)
  constructor
  · intro x hx
    obtain ⟨measure, hmeasure, rfl⟩ := List.mem_map.mp hx
    exact Binary64.isIntegral_of_toRat? (hvalue hmeasure)
  · have hwhole : ((weighted measures).map fun x => x.whole.natAbs) =
        measures.map fun measure => measure.1.whole.natAbs * measure.2 := by
      unfold weighted
      rw [List.map_map]
      refine List.map_congr_left fun measure hmeasure => ?_
      rw [Function.comp_apply, Binary64.whole_eq (hvalue hmeasure), Int.natAbs_mul,
        Int.natAbs_natCast]
    rwa [hwhole]

/-- Means of integers are the same in every order, when the sums are not too large. -/
theorem isSteady_avg (hmeasures : ∀ measure ∈ measures, measure.1.isIntegral = true)
    (hsmall : (measures.map fun measure => measure.1.whole.natAbs * measure.2).sum < 2 ^ 53)
    (hsizes : (measures.map Prod.snd).sum < 2 ^ 53) : avg.IsSteady measures := by
  intro others hperm
  obtain ⟨hvalues, htotal⟩ := weighted_spec hmeasures hsmall hsizes
  obtain ⟨hweights, hweight⟩ := weights_spec hsizes
  have hsameTotal : (weighted others).foldl (· + ·) (.finite 0) =
      (weighted measures).foldl (· + ·) (.finite 0) :=
    Binary64.foldl_add_perm (hperm.map _) hvalues htotal
  have hsameWeight : (weights others).foldl (· + ·) (.finite 0) =
      (weights measures).foldl (· + ·) (.finite 0) :=
    Binary64.foldl_add_perm (hperm.map _) hweights hweight
  rw [result?_merged_avg, result?_merged_avg, hsameTotal, hsameWeight]
  refine ⟨fun x hx => ?_, rfl⟩
  obtain ⟨hless, hx⟩ := Option.ite_none_right_eq_some.mp hx
  obtain ⟨t, ht⟩ := Binary64.exists_foldl_add hvalues htotal
  obtain ⟨w, hw⟩ := Binary64.exists_foldl_add hweights hweight
  rw [hw] at hless
  rw [← Option.some.inj hx, ht, hw]
  apply Binary64.isNaN_div
  intro hzero
  rw [hzero] at hless
  exact absurd hless (by decide +kernel)

end

end MetricFunction
end Rollup
