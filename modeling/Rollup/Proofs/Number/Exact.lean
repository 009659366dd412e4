/-
# Integers that are kept exactly

Integers of 53 binary digits are binary numbers. As long as all of them are that small, sums,
differences, products and quotients without a remainder are exact.
-/

import Rollup.Cell
import Rollup.Proofs.Number.ReadBack

namespace Rollup

namespace Binary64

/-- An integer of 53 binary digits rounds to itself. -/
theorem round_intCast {n : Int} (h : n.natAbs < 2 ^ 53) : round n = finite n := by
  obtain ⟨k, rfl | rfl⟩ := n.eq_nat_or_neg
  · rcases Nat.eq_zero_or_pos k with rfl | hpos
    · rfl
    · exact (hasUnits_natCast hpos (by simpa using h)).round_eq
  · rcases Nat.eq_zero_or_pos k with rfl | hpos
    · rfl
    · have hround := (hasUnits_natCast hpos (by simpa using h)).round_eq
      have hne : (k : Rat) ≠ 0 := by exact_mod_cast hpos.ne'
      rw [Int.cast_neg, Int.cast_natCast]
      exact round_neg hne hround

theorem ofInt_eq_finite {n : Int} (h : n.natAbs < 2 ^ 53) : ofInt n = finite n := round_intCast h

/-! ## Arithmetic -/

theorem ofInt_add_ofInt {a b : Int} (ha : a.natAbs < 2 ^ 53) (hb : b.natAbs < 2 ^ 53) :
    ofInt a + ofInt b = ofInt (a + b) := by
  rw [ofInt_eq_finite ha, ofInt_eq_finite hb]
  show round (a + b) = round ((a + b : Int) : Rat)
  rw [Int.cast_add]

theorem ofInt_sub_ofInt {a b : Int} (ha : a.natAbs < 2 ^ 53) (hb : b.natAbs < 2 ^ 53) :
    ofInt a - ofInt b = ofInt (a - b) := by
  have hneg : neg (finite b) = if (b : Rat) = 0 then negativeZero else finite (-b) := rfl
  show add (ofInt a) (neg (ofInt b)) = _
  rw [ofInt_eq_finite ha, ofInt_eq_finite hb, hneg]
  split
  · rename_i hzero
    rw [Int.cast_eq_zero.mp hzero, Int.sub_zero, ofInt_eq_finite ha]
    rfl
  · show round (a + -b) = round ((a - b : Int) : Rat)
    rw [Int.cast_sub, sub_eq_add_neg]

section

variable {a b : Int} (hpositive : 0 < b) (ha : a.natAbs < 2 ^ 53) (hb : b.natAbs < 2 ^ 53)

include hpositive ha hb

theorem ofInt_mul_ofInt : ofInt a * ofInt b = ofInt (a * b) := by
  have hmul : finite a * finite b =
      if (a : Rat) * b = 0 then zero (decide ((a : Rat) < 0) != decide ((b : Rat) < 0))
      else round (a * b) := rfl
  rw [ofInt_eq_finite ha, ofInt_eq_finite hb, hmul]
  split
  · rename_i hzero
    rcases mul_eq_zero.mp hzero with ha0 | hb0
    · obtain rfl := Int.cast_eq_zero.mp ha0
      have hsign : ¬(b : Rat) < 0 := not_lt.mpr (by exact_mod_cast hpositive.le)
      rw [decide_eq_false hsign, Int.zero_mul]
      rfl
    · exact absurd (Int.cast_eq_zero.mp hb0) hpositive.ne'
  · show round (a * b) = round ((a * b : Int) : Rat)
    rw [Int.cast_mul]

/-- A quotient without a remainder is exact. -/
theorem ofInt_mul_div_ofInt (hproduct : (a * b).natAbs < 2 ^ 53) :
    ofInt (a * b) / ofInt b = ofInt a := by
  have hne : (b : Rat) ≠ 0 := by exact_mod_cast hpositive.ne'
  have hdiv (p : Rat) : finite p / finite b =
      if (b : Rat) = 0 then (if p = 0 then undefined
        else infinite (decide (p < 0) != decide ((b : Rat) < 0)))
      else if p = 0 then zero (decide (p < 0) != decide ((b : Rat) < 0))
      else round (p / b) := rfl
  rw [ofInt_eq_finite hproduct, ofInt_eq_finite hb, hdiv, if_neg hne, Int.cast_mul]
  split
  · rename_i hzero
    obtain rfl := Int.cast_eq_zero.mp ((mul_eq_zero.mp hzero).resolve_right hne)
    have hsign : ¬(b : Rat) < 0 := not_lt.mpr (by exact_mod_cast hpositive.le)
    rw [hzero, decide_eq_false hsign]
    rfl
  · rw [mul_div_cancel_right₀ _ hne]
    rfl

end

/-! ## Conversions -/

theorem floor_intCast_add_half (n : Int) : ((n : Rat) + 1 / 2).floor = n := by
  have hfloor : ⌊(n : Rat) + 1 / 2⌋ = n := Int.floor_eq_iff.mpr ⟨by linarith, by linarith⟩
  exact hfloor

theorem roundHalfAway_intCast (n : Int) : roundHalfAway n = n := by
  unfold roundHalfAway
  split
  · exact floor_intCast_add_half n
  · rw [← Int.cast_neg, floor_intCast_add_half, neg_neg]

theorem truncate_intCast (n : Int) : truncate n = n := by
  unfold truncate
  split
  · exact Rat.floor_intCast n
  · rw [← Int.cast_neg, Rat.floor_intCast, neg_neg]

/-- Whatever the rule for other numbers, an integer is taken as it is. -/
theorem toInt64_ofInt {n : Int} (h : n.natAbs < 2 ^ 53) {rule : Rat → Int} (hrule : rule n = n) :
    (ofInt n).toInt64 rule = n := by
  rw [ofInt_eq_finite h, toInt64, hrule]
  unfold clampInt64 int64Min int64Max
  split
  · omega
  · split
    · omega
    · rfl

theorem number?_ofBinary64_ofInt {n : Int} (h : n.natAbs < 2 ^ 53) :
    Cell.number? (Json.ofBinary64 (ofInt n)) = some (ofInt n) := by
  rw [ofInt_eq_finite h, Json.ofBinary64]
  split
  · rename_i m hsmall
    have hsame : m = n := by
      simp only [smallInteger?, toRat?] at hsmall
      split at hsmall
      · exact (Option.some.inj hsmall).symm
      · cases hsmall
    rw [hsame, ← ofInt_eq_finite h]
    rfl
  · rfl

theorem atMost_ofInt {a b : Int} (ha : a.natAbs < 2 ^ 53) (hb : b.natAbs < 2 ^ 53) (h : a ≤ b) :
    (ofInt a).atMost (ofInt b) = true := by
  have hcompare : compare? (finite a) (finite b) = some (compareRat a b) := rfl
  rw [ofInt_eq_finite ha, ofInt_eq_finite hb, atMost, hcompare, compareRat]
  rcases h.lt_or_eq with hlt | rfl
  · have hcast : (a : Rat) < b := by exact_mod_cast hlt
    rw [if_pos hcast]
  · rw [if_neg (lt_irrefl _), if_pos rfl]

end Binary64

end Rollup
