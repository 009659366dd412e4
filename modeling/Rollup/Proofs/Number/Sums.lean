/-
# Sums without rounding

Where the exact sums and products are numbers of the format, adding and multiplying numbers gives
numbers that denote them, whatever the signs of zeros. Quotients are rounded once. The sizes of
groups are different: however large they are and however they are rounded, their sum is zero only
when all of them are.
-/

import Mathlib.Data.List.Infix
import Rollup.Proofs.Number.Rounding

namespace Rollup.Binary64

/-- The rational that a number denotes, zero for what is no finite number. -/
def rational (x : Binary64) : Rat := x.toRat?.getD 0

theorem IsNumber.toRat?_eq {x : Binary64} (h : x.IsNumber) : x.toRat? = some x.rational := by
  cases x with
  | finite q => rfl
  | negativeZero => rfl
  | infinite negative => cases h
  | nan negative => cases h

theorem IsNumber.rational {x : Binary64} (h : x.IsNumber) : (finite x.rational).IsNumber := by
  cases x with
  | finite q => exact h
  | negativeZero => exact (rfl : round 0 = finite 0)
  | infinite negative => cases h
  | nan negative => cases h

theorem toRat?_zero (negative : Bool) : (zero negative).toRat? = some 0 := by
  cases negative <;> rfl

/-! ## Single steps -/

section

variable {x y : Binary64} {p q : Rat}

theorem toRat?_add (hx : x.toRat? = some p) (hy : y.toRat? = some q)
    (hsum : (finite (p + q)).IsNumber) : (x + y).toRat? = some (p + q) := by
  have hround : (round (p + q)).toRat? = some (p + q) := congrArg toRat? hsum
  cases x with
  | finite p' =>
      obtain rfl := Option.some.inj hx
      cases y with
      | finite q' =>
          obtain rfl := Option.some.inj hy
          exact hround
      | negativeZero =>
          obtain rfl := Option.some.inj hy
          exact congrArg some (add_zero p').symm
      | infinite negative => cases hy
      | nan negative => cases hy
  | negativeZero =>
      obtain rfl := Option.some.inj hx
      cases y with
      | finite q' =>
          obtain rfl := Option.some.inj hy
          exact congrArg some (zero_add q').symm
      | negativeZero =>
          obtain rfl := Option.some.inj hy
          exact congrArg some (add_zero 0).symm
      | infinite negative => cases hy
      | nan negative => cases hy
  | infinite negative => cases hx
  | nan negative => cases hx

theorem toRat?_mul (hx : x.toRat? = some p) (hy : y.toRat? = some q)
    (hproduct : (finite (p * q)).IsNumber) : (x * y).toRat? = some (p * q) := by
  have hround : (round (p * q)).toRat? = some (p * q) := congrArg toRat? hproduct
  cases x with
  | finite p' =>
      obtain rfl := Option.some.inj hx
      cases y with
      | finite q' =>
          obtain rfl := Option.some.inj hy
          show (if p' * q' = 0 then zero _ else round (p' * q')).toRat? = _
          split
          · rename_i hzero
            rw [toRat?_zero, hzero]
          · exact hround
      | negativeZero =>
          obtain rfl := Option.some.inj hy
          rw [mul_zero]
          exact toRat?_zero _
      | infinite negative => cases hy
      | nan negative => cases hy
  | negativeZero =>
      obtain rfl := Option.some.inj hx
      rw [zero_mul]
      cases y with
      | finite q' => exact toRat?_zero _
      | negativeZero => rfl
      | infinite negative => cases hy
      | nan negative => cases hy
  | infinite negative => cases hx
  | nan negative => cases hx

/-- A quotient is rounded once. -/
theorem toRat?_div (hx : x.toRat? = some p) (hy : y.toRat? = some q) (hq : q ≠ 0) :
    (x / y).toRat? = (round (p / q)).toRat? := by
  have hround : (round 0).toRat? = some 0 := rfl
  cases y with
  | finite q' =>
      obtain rfl := Option.some.inj hy
      cases x with
      | finite p' =>
          obtain rfl := Option.some.inj hx
          show (if q' = 0 then _ else if p' = 0 then zero _ else round (p' / q')).toRat? = _
          rw [if_neg hq]
          split
          · rename_i hzero
            rw [toRat?_zero, hzero, zero_div, hround]
          · rfl
      | negativeZero =>
          obtain rfl := Option.some.inj hx
          show (if q' = 0 then undefined else zero _).toRat? = _
          rw [if_neg hq, toRat?_zero, zero_div, hround]
      | infinite negative => cases hx
      | nan negative => cases hx
  | negativeZero => exact absurd (Option.some.inj hy).symm hq
  | infinite negative => cases hy
  | nan negative => cases hy

end

/-! ## Sums -/

/-- Whether terms and all that they add up to on the way are numbers of the format. -/
def SumsExactly (terms : List Rat) : Prop :=
  (∀ term ∈ terms, (finite term).IsNumber) ∧ ∀ part ∈ terms.inits, (finite part.sum).IsNumber

instance (terms : List Rat) : Decidable (SumsExactly terms) :=
  inferInstanceAs (Decidable (_ ∧ _))

/-- Numbers are added up exactly, if no sum on the way is rounded. -/
theorem toRat?_foldl_add {xs : List Binary64} {terms : List Rat}
    (h : List.Forall₂ (fun x term => x.toRat? = some term) xs terms) {t : Binary64} {s : Rat}
    (ht : t.toRat? = some s) (hexact : ∀ part, part <+: terms → (finite (s + part.sum)).IsNumber) :
    (xs.foldl (· + ·) t).toRat? = some (s + terms.sum) := by
  induction h generalizing t s with
  | nil => simpa using ht
  | @cons x term xs terms hx hrest ih =>
      have hnext : (t + x).toRat? = some (s + term) := by
        refine toRat?_add ht hx ?_
        simpa using hexact [term] (List.prefix_append [term] terms)
      have hlater (part : List Rat) (hpart : part <+: terms) :
          (finite (s + term + part.sum)).IsNumber := by
        have hcons := hexact (term :: part) ((List.prefix_cons_inj term).mpr hpart)
        rwa [List.sum_cons, ← add_assoc] at hcons
      rw [List.foldl_cons, ih hnext hlater, List.sum_cons, add_assoc]

theorem SumsExactly.toRat?_foldl {xs : List Binary64} {terms : List Rat}
    (hexact : SumsExactly terms)
    (h : List.Forall₂ (fun x term => x.toRat? = some term) xs terms) :
    (xs.foldl (· + ·) (finite 0)).toRat? = some terms.sum := by
  have hsum := toRat?_foldl_add h (t := finite 0) rfl fun part hpart => by
    rw [zero_add]
    exact hexact.2 part ((List.mem_inits part terms).mpr hpart)
  rwa [zero_add] at hsum

/-! ## Sizes -/

/-- A number from one on, or what is too large for a number. -/
def IsAtLeastOne : Binary64 → Prop
  | finite q => 1 ≤ q
  | negativeZero => False
  | infinite negative => negative = false
  | nan _ => False

/-- One is a number of the format, so rounding does not go below it. -/
theorem isAtLeastOne_round {q : Rat} (h : 1 ≤ q) : (round q).IsAtLeastOne := by
  have hq : 0 < q := zero_lt_one.trans_le h
  have hexponent : 0 ≤ binaryExponent q := le_binaryExponent hq (by simpa using h)
  -- from one on the last place is 52 places below the first digit, so there are 2 ^ 52 units
  have hplace : lastPlace q = binaryExponent q - 52 := by
    unfold lastPlace
    omega
  have hunit := two_zpow_pos (lastPlace q)
  have hscaled : 2 ^ (52 : Int) ≤ q / 2 ^ lastPlace q := by
    rw [le_div_iff₀ hunit, ← two_zpow_add, hplace, add_sub_cancel]
    exact (binaryExponent_spec hq).1
  have hnearest := isNearest_roundHalfEven (q / 2 ^ lastPlace q)
  unfold round
  rw [if_neg hq.ne', Rat.abs_of_nonneg hq.le]
  dsimp only
  generalize roundHalfEven (q / 2 ^ lastPlace q) = units at hnearest
  have hunits : 2 ^ 52 ≤ units := by
    have hcast : ((2 ^ 52 - 1 : Int) : Rat) < units := by
      push_cast
      norm_num at hscaled ⊢
      linarith [hnearest.high]
    exact Int.sub_one_lt_iff.mp (by exact_mod_cast hcast)
  have hvalue : (1 : Rat) ≤ units * 2 ^ lastPlace q :=
    calc (1 : Rat) ≤ 2 ^ binaryExponent q := one_le_zpow₀ (by norm_num) hexponent
      _ = 2 ^ (52 : Int) * 2 ^ lastPlace q := by rw [← two_zpow_add, hplace, add_sub_cancel]
      _ ≤ units * 2 ^ lastPlace q :=
          mul_le_mul_of_nonneg_right (by exact_mod_cast hunits) hunit.le
  rw [if_neg (by omega)]
  split
  · exact hvalue
  · exact decide_eq_false hq.not_gt

/-- The size of a group as a number: nothing, or at least one. -/
theorem ofInt_natCast_cases (n : Nat) :
    (n = 0 ∧ ofInt n = finite 0) ∨ (0 < n ∧ (ofInt n).IsAtLeastOne) := by
  rcases n.eq_zero_or_pos with rfl | hpos
  · exact Or.inl ⟨rfl, rfl⟩
  · exact Or.inr ⟨hpos, isAtLeastOne_round (by exact_mod_cast hpos)⟩

theorem IsAtLeastOne.add {x y : Binary64} (hx : x.IsAtLeastOne)
    (hy : y = finite 0 ∨ y.IsAtLeastOne) : (x + y).IsAtLeastOne := by
  have hnonneg {q : Rat} (hq : finite q = finite 0 ∨ (finite q).IsAtLeastOne) : 0 ≤ q :=
    hq.elim (fun hzero => (finite.inj hzero).ge) zero_le_one.trans
  cases x with
  | finite p =>
      cases y with
      | finite q => exact isAtLeastOne_round (le_add_of_le_of_nonneg hx (hnonneg hy))
      | infinite negative => exact hy.resolve_left nofun
      | negativeZero => exact absurd hy (by simp [IsAtLeastOne])
      | nan negative => exact absurd hy (by simp [IsAtLeastOne])
  | infinite negative =>
      cases y with
      | finite q => exact hx
      | infinite other =>
          have hother : other = false := hy.resolve_left nofun
          obtain rfl : negative = false := hx
          subst hother
          rfl
      | negativeZero => exact absurd hy (by simp [IsAtLeastOne])
      | nan negative => exact absurd hy (by simp [IsAtLeastOne])
  | negativeZero => exact absurd hx (by simp [IsAtLeastOne])
  | nan negative => exact absurd hx (by simp [IsAtLeastOne])

theorem IsAtLeastOne.foldl_add {x : Binary64} (hx : x.IsAtLeastOne) (sizes : List Nat) :
    ((sizes.map fun n : Nat => ofInt n).foldl (· + ·) x).IsAtLeastOne := by
  induction sizes generalizing x with
  | nil => exact hx
  | cons n rest ih =>
      refine ih (hx.add ?_)
      exact (ofInt_natCast_cases n).imp And.right And.right

theorem isAtLeastOne_zero_add {x : Binary64} (hx : x.IsAtLeastOne) :
    (finite 0 + x).IsAtLeastOne := by
  cases x with
  | finite q =>
      refine isAtLeastOne_round ?_
      rwa [zero_add]
  | infinite negative => exact hx
  | negativeZero => exact hx.elim
  | nan negative => exact hx.elim

theorem IsAtLeastOne.less {x : Binary64} (hx : x.IsAtLeastOne) : less 0 x = true := by
  cases x with
  | finite q =>
      have hpos : 0 < q := zero_lt_one.trans_le hx
      show (some (compareRat 0 q) == some .lt) = true
      rw [compareRat, if_pos hpos]
      rfl
  | infinite negative =>
      obtain rfl : negative = false := hx
      rfl
  | negativeZero => exact hx.elim
  | nan negative => exact hx.elim

/-- Sizes add up to more than zero exactly if one of them is not zero. -/
theorem less_zero_foldl_ofInt (sizes : List Nat) :
    less 0 ((sizes.map fun n : Nat => ofInt n).foldl (· + ·) (finite 0)) = true ↔
      ∃ n ∈ sizes, 0 < n := by
  induction sizes with
  | nil => simp [less, compare?]; decide
  | cons n rest ih =>
      rw [List.map_cons, List.foldl_cons]
      rcases ofInt_natCast_cases n with ⟨rfl, hzero⟩ | ⟨hpos, hone⟩
      · have hsum : finite 0 + finite 0 = finite 0 := congrArg round (add_zero 0)
        rw [hzero, hsum, ih]
        simp
      · exact iff_of_true ((isAtLeastOne_zero_add hone).foldl_add rest).less ⟨n, by simp, hpos⟩

end Rollup.Binary64
