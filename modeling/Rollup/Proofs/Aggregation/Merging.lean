/-
# The metric of a union

A tally that gets the metric of every group of a partition, with the size of the group, has the
metric of the whole. The tally computes with rounded numbers, so the law is about measures whose
sums and products are numbers of the format; the quotient of a mean is still rounded, once.
-/

import Mathlib.Algebra.BigOperators.Group.List.Basic
import Mathlib.Algebra.BigOperators.Ring.Finset
import Rollup.Proofs.Response.Steady

namespace Rollup

/-! ## The lesser and the greater of two finite numbers -/

namespace Binary64

section

variable {x y : Binary64} {p q : Rat}

theorem isNaN_of_toRat? (hx : x.toRat? = some p) : x.isNaN = false := by
  cases x with
  | nan negative => cases hx
  | _ => rfl

theorem rank_of_toRat? (hx : x.toRat? = some p) : x.rank = (finite p).rank := by
  cases x with
  | finite q => rw [Option.some.inj hx]
  | negativeZero => rw [← Option.some.inj hx]; rfl
  | infinite negative => cases hx
  | nan negative => cases hx

theorem toRat?_of_rank (hnumber : x.isNaN = false) (hrank : x.rank = (finite p).rank) :
    x.toRat? = some p := by
  cases x with
  | finite q => exact congrArg some (WithTop.coe_inj.mp (WithBot.coe_inj.mp hrank))
  | negativeZero => exact congrArg some (WithTop.coe_inj.mp (WithBot.coe_inj.mp hrank))
  | infinite negative =>
      cases negative with
      | true => exact absurd hrank (rank_infinite_lt p).ne
      | false => exact absurd hrank (rank_lt_infinite p).ne'
  | nan negative => cases hnumber

theorem toRat?_min (hx : x.toRat? = some p) (hy : y.toRat? = some q) :
    (x.min y).toRat? = some (Min.min p q) := by
  have hxNumber := isNaN_of_toRat? hx
  have hyNumber := isNaN_of_toRat? hy
  refine toRat?_of_rank (isNaN_min hxNumber hyNumber) ?_
  rw [rank_min hxNumber hyNumber, rank_of_toRat? hx, rank_of_toRat? hy]
  exact (congrArg WithBot.some (WithTop.coe_min p q)).symm

theorem toRat?_max (hx : x.toRat? = some p) (hy : y.toRat? = some q) :
    (x.max y).toRat? = some (Max.max p q) := by
  have hxNumber := isNaN_of_toRat? hx
  have hyNumber := isNaN_of_toRat? hy
  refine toRat?_of_rank (isNaN_max hxNumber hyNumber) ?_
  rw [rank_max hxNumber hyNumber, rank_of_toRat? hx, rank_of_toRat? hy]
  exact (congrArg WithBot.some (WithTop.coe_max p q)).symm

end

end Binary64

namespace MetricFunction

open Binary64

/-! ## Metrics of exact numbers -/

/-- The value of a metric on a collection of numbers. -/
def value? : MetricFunction → List Rat → Option Rat
  | avg, numbers => if numbers = [] then none else some (numbers.sum / numbers.length)
  | sum, numbers => some numbers.sum
  | min, numbers => numbers.min?
  | max, numbers => numbers.max?

/-- The value of a metric on a union of groups, of which the values and the sizes are known. -/
def merge? : MetricFunction → List (Rat × Nat) → Option Rat
  | avg, groups =>
      let size : Nat := (groups.map Prod.snd).sum
      if size = 0 then none
      else some ((groups.map fun group => group.1 * (group.2 : Rat)).sum / size)
  | sum, groups => some (groups.map Prod.fst).sum
  | min, groups => (groups.map Prod.fst).min?
  | max, groups => (groups.map Prod.fst).max?

/-- The number that a function picks of some, if there is one. -/
def picked? (choose : Rat → Rat → Rat) (numbers : List Rat) : Option Rat :=
  (numbers.map some).foldr (Option.merge choose) none

section

variable {choose : Rat → Rat → Rat} [Std.Associative choose]

theorem picked?_perm [Std.Commutative choose] {numbers others : List Rat}
    (hperm : numbers.Perm others) : picked? choose numbers = picked? choose others :=
  (hperm.map some).foldr_op_eq

theorem picked?_append (first second : List Rat) :
    picked? choose (first ++ second) =
      Option.merge choose (picked? choose first) (picked? choose second) := by
  induction first with
  | nil => exact Option.merge_none_left.symm
  | cons q rest ih =>
      show Option.merge choose (some q) (picked? choose (rest ++ second)) = _
      rw [ih]
      exact ((Option.associative_merge choose).assoc _ _ _).symm

/-- What is picked of all is what is picked of that picked of every part. -/
theorem picked?_flatten (parts : List (List Rat)) :
    picked? choose parts.flatten =
      (parts.map (picked? choose)).foldr (Option.merge choose) none := by
  induction parts with
  | nil => rfl
  | cons part rest ih => rw [List.flatten_cons, picked?_append, ih, List.map_cons, List.foldr_cons]

end

theorem min?_eq_picked? (numbers : List Rat) : numbers.min? = picked? Min.min numbers := by
  induction numbers with
  | nil => rfl
  | cons q rest ih =>
      rw [List.min?_cons, ih]
      show _ = Option.merge Min.min (some q) (picked? Min.min rest)
      cases picked? Min.min rest <;> rfl

theorem max?_eq_picked? (numbers : List Rat) : numbers.max? = picked? Max.max numbers := by
  induction numbers with
  | nil => rfl
  | cons q rest ih =>
      rw [List.max?_cons, ih]
      show _ = Option.merge Max.max (some q) (picked? Max.max rest)
      cases picked? Max.max rest <;> rfl

/-- A metric does not depend on the order of the numbers. -/
theorem value?_perm (function : MetricFunction) {numbers others : List Rat}
    (hperm : numbers.Perm others) : function.value? numbers = function.value? others := by
  cases function with
  | avg => simp only [value?, hperm.sum_eq, hperm.length_eq, ← List.length_eq_zero_iff]
  | sum => exact congrArg some hperm.sum_eq
  | min => simp only [value?, min?_eq_picked?, picked?_perm hperm]
  | max => simp only [value?, max?_eq_picked?, picked?_perm hperm]

/-- Groups are merged to one value in every order. -/
theorem merge?_perm (function : MetricFunction) {groups others : List (Rat × Nat)}
    (hperm : groups.Perm others) : function.merge? groups = function.merge? others := by
  cases function with
  | avg => simp only [merge?, (hperm.map _).sum_eq]
  | sum => exact congrArg some (hperm.map _).sum_eq
  | min => exact min.value?_perm (hperm.map Prod.fst)
  | max => exact max.value?_perm (hperm.map Prod.fst)

/-- The metric of a whole is merged from those of its parts. -/
theorem merge?_eq_value? (function : MetricFunction) {groups : List (Rat × Nat)}
    {parts : List (List Rat)} (hparts : ∀ part ∈ parts, part ≠ [])
    (hgroups : groups.map (fun group => (some group.1, group.2)) =
      parts.map fun part => (function.value? part, part.length)) :
    function.merge? groups = function.value? parts.flatten := by
  -- whatever is computed from values and sizes is computed from the parts alike
  have hmap {γ : Type} (f : Option Rat × Nat → γ) :
      groups.map (fun group => f (some group.1, group.2)) =
        parts.map fun part => f (function.value? part, part.length) := by
    simpa only [List.map_map, Function.comp_def] using congrArg (List.map f) hgroups
  have hvalues : (groups.map Prod.fst).map some = parts.map function.value? := by
    rw [List.map_map]
    exact hmap Prod.fst
  cases function with
  | avg =>
      have hsizes : groups.map Prod.snd = parts.map List.length := hmap Prod.snd
      have hproducts :
          groups.map (fun group => group.1 * (group.2 : Rat)) = parts.map List.sum := by
        refine (hmap fun measure => measure.1.getD 0 * measure.2).trans ?_
        refine List.map_congr_left fun part hpart => ?_
        have hlength : (part.length : Rat) ≠ 0 := by
          exact_mod_cast (List.length_pos_iff.mpr (hparts part hpart)).ne'
        rw [value?, if_neg (hparts part hpart), Option.getD_some, div_mul_cancel₀ _ hlength]
      rw [merge?, value?, hsizes, hproducts, ← List.length_flatten, ← List.sum_flatten]
      exact if_congr List.length_eq_zero_iff rfl rfl
  | sum =>
      have hsums : groups.map Prod.fst = parts.map List.sum := hmap fun measure => measure.1.getD 0
      rw [merge?, hsums, value?, List.sum_flatten]
  | min =>
      show (groups.map Prod.fst).min? = parts.flatten.min?
      have hleast : parts.map (picked? Min.min) = (groups.map Prod.fst).map some := by
        rw [hvalues]
        exact List.map_congr_left fun part _ => (min?_eq_picked? part).symm
      rw [min?_eq_picked?, min?_eq_picked?, picked?_flatten, hleast]
      rfl
  | max =>
      show (groups.map Prod.fst).max? = parts.flatten.max?
      have hgreatest : parts.map (picked? Max.max) = (groups.map Prod.fst).map some := by
        rw [hvalues]
        exact List.map_congr_left fun part _ => (max?_eq_picked? part).symm
      rw [max?_eq_picked?, max?_eq_picked?, picked?_flatten, hgreatest]
      rfl

/-! ## Exact measures -/

/-- Measures as exact numbers. -/
def rationals (measures : List (Binary64 × Nat)) : List (Rat × Nat) :=
  measures.map fun measure => (measure.1.rational, measure.2)

/-- Whether a function merges measures without rounding, up to the quotient of a mean. -/
structure IsExact (function : MetricFunction) (measures : List (Binary64 × Nat)) : Prop where
  values : ∀ measure ∈ measures, measure.1.IsNumber
  sums : function = sum → SumsExactly ((rationals measures).map Prod.fst)
  products : function = avg →
    SumsExactly ((rationals measures).map fun group => group.1 * (group.2 : Rat))
  sizes : function = avg → SumsExactly ((rationals measures).map fun group => (group.2 : Rat))

section

variable {function : MetricFunction} {measures : List (Binary64 × Nat)}

/-- The value of exact measures is a number of the format itself, unless it is a mean. -/
theorem IsExact.isNumber_merge? (h : function.IsExact measures) (hmean : function ≠ avg) {q : Rat}
    (hq : function.merge? (rationals measures) = some q) : (finite q).IsNumber := by
  have hmem (hvalue : q ∈ (rationals measures).map Prod.fst) : (finite q).IsNumber := by
    obtain ⟨group, hgroup, rfl⟩ := List.mem_map.mp hvalue
    obtain ⟨measure, hmeasure, rfl⟩ := List.mem_map.mp hgroup
    exact (h.values measure hmeasure).rational
  cases function with
  | avg => exact absurd rfl hmean
  | sum =>
      obtain rfl := Option.some.inj hq
      exact (h.sums rfl).2 _ ((List.mem_inits _ _).mpr List.prefix_rfl)
  | min => exact hmem (List.min?_mem hq)
  | max => exact hmem (List.max?_mem hq)

theorem toRat?_pickAll {pick : Binary64 → Binary64 → Binary64} {choose : Rat → Rat → Rat}
    (hpick : ∀ {x y : Binary64} {p q : Rat}, x.toRat? = some p → y.toRat? = some q →
      (pick x y).toRat? = some (choose p q))
    (hmeasures : ∀ measure ∈ measures, measure.1.IsNumber) {x : Binary64} {q : Rat}
    (hx : x.toRat? = some q) :
    (pickAll pick measures (some x)).map toRat? =
      some (some (((rationals measures).map Prod.fst).foldl choose q)) := by
  induction measures generalizing x q with
  | nil => exact congrArg some hx
  | cons measure rest ih =>
      have hmeasure := (hmeasures measure (by simp)).toRat?_eq
      exact ih (fun other hother => hmeasures other (List.mem_cons_of_mem measure hother))
        (hpick hx hmeasure)

theorem exists_mem_sizes :
    (∃ n ∈ measures.map Prod.snd, 0 < n) ↔ ∃ measure ∈ measures, 0 < measure.2 := by
  simp only [List.mem_map, exists_exists_and_eq_and]

/-- The sizes of the groups of a mean are positive together exactly if one of them is. -/
theorem less_zero_weights : less 0 ((weights measures).foldl (· + ·) (finite 0)) = true ↔
    ∃ measure ∈ measures, 0 < measure.2 := by
  have hsizes : weights measures = (measures.map Prod.snd).map fun n : Nat => ofInt n := by
    rw [weights, List.map_map]
    rfl
  rw [hsizes, less_zero_foldl_ofInt]
  exact exists_mem_sizes

theorem forall₂_rationals {f : Binary64 × Nat → Binary64} {g : Rat × Nat → Rat}
    (h : ∀ measure ∈ measures, (f measure).toRat? = some (g (measure.1.rational, measure.2))) :
    List.Forall₂ (fun x term => x.toRat? = some term) (measures.map f)
      ((rationals measures).map g) := by
  rw [rationals, List.map_map]
  exact List.forall₂_map_left_iff.mpr
    (List.forall₂_map_right_iff.mpr (List.forall₂_same.mpr h))

section

variable (h : avg.IsExact measures)
include h

theorem IsExact.toRat?_size {measure : Binary64 × Nat} (hmeasure : measure ∈ measures) :
    (ofInt measure.2).toRat? = some (measure.2 : Rat) :=
  congrArg toRat? ((h.sizes rfl).1 _ (List.mem_map_of_mem (List.mem_map_of_mem hmeasure)))

theorem IsExact.toRat?_weights :
    ((weights measures).foldl (· + ·) (finite 0)).toRat? =
      some (((rationals measures).map Prod.snd).sum : Rat) := by
  rw [Nat.cast_list_sum, List.map_map]
  exact (h.sizes rfl).toRat?_foldl (forall₂_rationals fun _ hmeasure => h.toRat?_size hmeasure)

theorem IsExact.toRat?_weighted :
    ((weighted measures).foldl (· + ·) (finite 0)).toRat? =
      some ((rationals measures).map fun group => group.1 * (group.2 : Rat)).sum := by
  refine (h.products rfl).toRat?_foldl (forall₂_rationals fun measure hmeasure => ?_)
  exact toRat?_mul (h.values measure hmeasure).toRat?_eq (h.toRat?_size hmeasure)
    ((h.products rfl).1 _ (List.mem_map_of_mem (List.mem_map_of_mem hmeasure)))

/-- A mean is the quotient of two exact sums. -/
theorem IsExact.map_toRat?_mean :
    (Tally.merged avg measures).result?.map toRat? =
      (avg.merge? (rationals measures)).map fun q => (Binary64.round q).toRat? := by
  have hsizes : 0 < ((rationals measures).map Prod.snd).sum ↔
      ∃ measure ∈ measures, 0 < measure.2 := by
    rw [List.sum_pos_iff_exists_pos_nat, rationals, List.map_map]
    exact exists_mem_sizes
  rw [result?_merged_avg, merge?]
  generalize hsize : ((rationals measures).map Prod.snd).sum = size at hsizes
  rcases size.eq_zero_or_pos with rfl | hpos
  · rw [if_neg (less_zero_weights.not.mpr (hsizes.not.mp (Nat.lt_irrefl 0))), if_pos rfl]
    rfl
  · have hne : (size : Rat) ≠ 0 := by exact_mod_cast hpos.ne'
    have hweight := h.toRat?_weights
    rw [hsize] at hweight
    rw [if_pos (less_zero_weights.mpr (hsizes.mp hpos)), if_neg hpos.ne']
    exact congrArg some (toRat?_div h.toRat?_weighted hweight hne)

end

/-- What a tally of exact measures has is what they are merged to, rounded once. -/
theorem IsExact.map_toRat?_result? (h : function.IsExact measures) :
    (Tally.merged function measures).result?.map toRat? =
      (function.merge? (rationals measures)).map fun q => (Binary64.round q).toRat? := by
  -- what is no mean is a number of the format already, and rounding it changes nothing
  have hrounded (hmean : function ≠ avg) :
      ((function.merge? (rationals measures)).map fun q => (Binary64.round q).toRat?) =
        (function.merge? (rationals measures)).map some :=
    Option.map_congr fun q hq => congrArg toRat? (h.isNumber_merge? hmean hq)
  cases function with
  | avg => exact h.map_toRat?_mean
  | sum =>
      rw [hrounded nofun, result?_merged_sum]
      exact congrArg some ((h.sums rfl).toRat?_foldl (forall₂_rationals fun measure hmeasure =>
        (h.values measure hmeasure).toRat?_eq))
  | min =>
      rw [hrounded nofun, picks_min.result?_merged]
      cases measures with
      | nil => rfl
      | cons measure rest =>
          exact toRat?_pickAll toRat?_min
            (fun other hother => h.values other (List.mem_cons_of_mem measure hother))
            (h.values measure (by simp)).toRat?_eq
  | max =>
      rw [hrounded nofun, picks_max.result?_merged]
      cases measures with
      | nil => rfl
      | cons measure rest =>
          exact toRat?_pickAll toRat?_max
            (fun other hother => h.values other (List.mem_cons_of_mem measure hother))
            (h.values measure (by simp)).toRat?_eq

/-! ## When there is a value -/

/-- Whether a metric has a value of measures: a sum always, a mean of what is not empty, and the
least and the greatest of anything. -/
def HasValue : MetricFunction → List (Binary64 × Nat) → Prop
  | avg, measures => ∃ measure ∈ measures, 0 < measure.2
  | sum, _ => True
  | min, measures => measures ≠ []
  | max, measures => measures ≠ []

theorem isSome_pickAll_some (pick : Binary64 → Binary64 → Binary64)
    (measures : List (Binary64 × Nat)) (x : Binary64) :
    (pickAll pick measures (some x)).isSome = true := by
  induction measures generalizing x with
  | nil => rfl
  | cons measure rest ih => exact ih (pick x measure.1)

theorem Picks.isSome_result?_iff {pick : Binary64 → Binary64 → Binary64}
    (h : function.Picks pick) :
    (Tally.merged function measures).result?.isSome = true ↔ measures ≠ [] := by
  rw [h.result?_merged]
  cases measures with
  | nil => exact iff_of_false nofun (· rfl)
  | cons measure rest =>
      exact iff_of_true (isSome_pickAll_some pick rest measure.1) (List.cons_ne_nil _ _)

theorem isSome_result?_iff (function : MetricFunction) (measures : List (Binary64 × Nat)) :
    (Tally.merged function measures).result?.isSome = true ↔ function.HasValue measures := by
  cases function with
  | avg =>
      rw [result?_merged_avg, HasValue, ← less_zero_weights]
      split <;> simp_all
  | sum => exact iff_of_true (by rw [result?_merged_sum]; rfl) trivial
  | min => exact picks_min.isSome_result?_iff
  | max => exact picks_max.isSome_result?_iff

theorem isSome_value? (function : MetricFunction) {numbers : List Rat} (h : numbers ≠ []) :
    ∃ q, function.value? numbers = some q := by
  cases function with
  | avg => exact ⟨_, if_neg h⟩
  | sum => exact ⟨_, rfl⟩
  | min => exact Option.isSome_iff_exists.mp (List.isSome_min?_of_ne_nil h)
  | max => exact Option.isSome_iff_exists.mp (List.isSome_max?_of_ne_nil h)

end

/-- The metrics of the groups of a partition, each with the size of its group, are merged to the
metric of the whole, if all sums and products are numbers of the format. The order in which they
are merged makes no difference to exact measures, and there is no value just where nothing was
merged, or only groups of no size when it is a mean. -/
theorem merged_spec (function : MetricFunction) :
    (∀ (whole : List Rat) (parts : List (List Rat)) (measures : List (Binary64 × Nat)),
      whole ≠ [] → (∀ part ∈ parts, part ≠ []) → whole.Perm parts.flatten →
      measures.map (fun measure => (measure.1.toRat?, measure.2)) =
        parts.map (fun part => (function.value? part, part.length)) →
      function.IsExact measures →
        ∃ x q, (Tally.merged function measures).result? = some x ∧
          function.value? whole = some q ∧ x.toRat? = (Binary64.round q).toRat? ∧
          (function ≠ avg ∨ (finite q).IsNumber → x.toRat? = some q)) ∧
      (∀ measures others : List (Binary64 × Nat), measures.Perm others →
        function.IsExact measures → function.IsExact others →
          (Tally.merged function measures).result?.map toRat? =
            (Tally.merged function others).result?.map toRat?) ∧
      ∀ measures : List (Binary64 × Nat),
        (Tally.merged function measures).result? = none ↔ ¬ function.HasValue measures := by
  refine ⟨fun whole parts measures hwhole hparts hperm hmeasures hexact => ?_,
    fun measures others hperm hexact hothers => ?_, fun measures => ?_⟩
  · have hgroups : (rationals measures).map (fun group => (some group.1, group.2)) =
        parts.map fun part => (function.value? part, part.length) := by
      rw [← hmeasures, rationals, List.map_map]
      refine List.map_congr_left fun measure hmeasure => ?_
      rw [Function.comp_apply, (hexact.values measure hmeasure).toRat?_eq]
    have hmerged : function.merge? (rationals measures) = function.value? whole := by
      rw [function.value?_perm hperm]
      exact function.merge?_eq_value? hparts hgroups
    obtain ⟨q, hq⟩ := function.isSome_value? hwhole
    have hresult := hexact.map_toRat?_result?
    rw [hmerged, hq] at hresult
    obtain ⟨x, hx, hrounded⟩ := Option.map_eq_some_iff.mp hresult
    refine ⟨x, q, hx, hq, hrounded, fun hnumber => ?_⟩
    rw [hrounded]
    exact congrArg toRat? (hnumber.elim
      (fun hmean => hexact.isNumber_merge? hmean (hmerged.trans hq)) id)
  · have hsame : function.merge? (rationals measures) = function.merge? (rationals others) :=
      function.merge?_perm (hperm.map _)
    rw [hexact.map_toRat?_result?, hothers.map_toRat?_result?, hsame]
  · rw [← isSome_result?_iff, Option.not_isSome_iff_eq_none]

/-- The means of two groups: of one and two, and of nine. -/
def unevenMeans : List (Binary64 × Nat) := [(.finite (3 / 2), 2), (.finite 9, 1)]

theorem isExact_unevenMeans : avg.IsExact unevenMeans ∧ avg.IsExact unevenMeans.reverse where
  left := ⟨by decide +kernel, nofun, fun _ => by decide +kernel, fun _ => by decide +kernel⟩
  right := ⟨by decide +kernel, nofun, fun _ => by decide +kernel, fun _ => by decide +kernel⟩

/-- The mean of one, nine and two is not the mean of the two means, and it is found in both
orders. -/
theorem merged_unevenMeans :
    (∃ x q, (Tally.merged avg unevenMeans).result? = some x ∧ avg.value? [1, 9, 2] = some q ∧
      x.toRat? = some q) ∧
      (Tally.merged avg unevenMeans).result?.map toRat? =
        (Tally.merged avg unevenMeans.reverse).result?.map toRat? := by
  have hparts : ∀ part ∈ [[1, 2], [(9 : Rat)]], part ≠ [] := by decide
  have hperm : [(1 : Rat), 9, 2].Perm [[1, 2], [9]].flatten := by decide +kernel
  have hmeasures : unevenMeans.map (fun measure => (measure.1.toRat?, measure.2)) =
      [[1, 2], [9]].map fun part => (avg.value? part, part.length) := by decide +kernel
  obtain ⟨x, q, hx, hq, -, hvalue⟩ := (merged_spec avg).1 [1, 9, 2] [[1, 2], [9]] unevenMeans
    (List.cons_ne_nil _ _) hparts hperm hmeasures isExact_unevenMeans.1
  have hmean : avg.value? [1, 9, 2] = some 4 := by decide +kernel
  have hnumber : (finite q).IsNumber := by
    rw [Option.some.inj (hq.symm.trans hmean)]
    decide +kernel
  exact ⟨⟨x, q, hx, hq, hvalue (Or.inr hnumber)⟩, (merged_spec avg).2.1 unevenMeans
    unevenMeans.reverse (List.reverse_perm _).symm isExact_unevenMeans.1 isExact_unevenMeans.2⟩

end MetricFunction
end Rollup
