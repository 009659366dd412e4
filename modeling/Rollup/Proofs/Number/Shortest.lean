/-
# Shortest decimals

The shortest decimal of a number lies in the interval of the number, so it stands for the number and
for no other. There is one: seventeen digits always do.
-/

import Rollup.Number.Text
import Rollup.Proofs.Number.Rounding

namespace Rollup

/-! ## Digits -/

theorem Text.digitCount_spec {n : Nat} (hn : 0 < n) :
    10 ^ (digitCount n - 1) ≤ n ∧ n < 10 ^ digitCount n := by
  have hlength := Nat.length_toDigits_pos (b := 10) (n := n)
  have hcount : digitCount n = (Nat.toDigits 10 n).length := by
    rw [digitCount, if_neg hn.ne']
  rw [hcount]
  constructor
  · rcases Nat.eq_zero_or_pos ((Nat.toDigits 10 n).length - 1) with hzero | hpos
    · rw [hzero]
      exact hn
    · have hlong := (Nat.length_toDigits_le_iff (by decide) hpos).not.mp
        (by omega : ¬ (Nat.toDigits 10 n).length ≤ (Nat.toDigits 10 n).length - 1)
      exact Nat.le_of_not_lt hlong
  · exact (Nat.length_toDigits_le_iff (by decide) hlength).mp (Nat.le_refl _)

theorem Text.digitCount_pos {n : Nat} (hn : 0 < n) : 0 < digitCount n := by
  rw [digitCount, if_neg hn.ne']
  exact Nat.length_toDigits_pos

namespace Binary64

theorem ten_zpow_pos (k : Int) : (0 : Rat) < 10 ^ k := zpow_pos (by norm_num) k

theorem ten_zpow_add (k n : Int) : (10 : Rat) ^ (k + n) = 10 ^ k * 10 ^ n :=
  zpow_add₀ (by norm_num) k n

/-- A natural number between two powers of ten. -/
theorem ten_zpow_digitCount {n : Nat} (hn : 0 < n) :
    (10 : Rat) ^ ((Text.digitCount n : Int) - 1) ≤ n ∧
      (n : Rat) + 1 ≤ 10 ^ (Text.digitCount n : Int) := by
  obtain ⟨hlow, hhigh⟩ := Text.digitCount_spec hn
  have hpos := Text.digitCount_pos hn
  constructor
  · have hcast : ((Text.digitCount n : Int) - 1) = ((Text.digitCount n - 1 : Nat) : Int) := by omega
    rw [hcast, zpow_natCast]
    exact_mod_cast hlow
  · rw [zpow_natCast]
    exact_mod_cast hhigh

theorem decimalExponent_spec {q : Rat} (hq : 0 < q) :
    (10 : Rat) ^ decimalExponent q ≤ q ∧ q < 10 ^ (decimalExponent q + 1) := by
  unfold decimalExponent
  split
  · rename_i hone
    have hfloor : 1 ≤ q.floor := Int.le_floor.mpr (by exact_mod_cast hone)
    have hlow : ((q.floor : Int) : Rat) ≤ q := Int.floor_le q
    have hhigh : q < q.floor + 1 := Int.lt_floor_add_one q
    have hnat : ((q.floor.toNat : Nat) : Rat) = q.floor := by
      exact_mod_cast Int.toNat_of_nonneg (by omega : 0 ≤ q.floor)
    obtain ⟨hten, hten'⟩ := ten_zpow_digitCount (by omega : 0 < q.floor.toNat)
    rw [hnat] at hten hten'
    rw [sub_add_cancel]
    exact ⟨hten.trans hlow, hhigh.trans_le hten'⟩
  · rename_i hless
    have hinverse : 1 < 1 / q := (one_lt_div hq).mpr (lt_of_not_ge hless)
    have hceil : 1 < (1 / q).ceil := Rat.lt_ceil_iff.mpr (by exact_mod_cast hinverse)
    have hlow : 1 / q ≤ ((1 / q).ceil : Int) := Rat.le_ceil
    have hhigh : (((1 / q).ceil : Int) : Rat) - 1 < 1 / q := sub_lt_iff_lt_add.mpr Rat.ceil_lt
    have hnat : ((((1 / q).ceil - 1).toNat : Nat) : Rat) = ((1 / q).ceil : Int) - 1 := by
      exact_mod_cast Int.toNat_of_nonneg (by omega : 0 ≤ (1 / q).ceil - 1)
    obtain ⟨hten, hten'⟩ := ten_zpow_digitCount (by omega : 0 < ((1 / q).ceil - 1).toNat)
    rw [hnat] at hten hten'
    generalize (Text.digitCount ((1 / q).ceil - 1).toNat : Int) = count at hten hten'
    constructor
    · rw [zpow_neg, inv_le_comm₀ (ten_zpow_pos _) hq, ← one_div]
      linarith
    · have hneg : -count + 1 = -(count - 1) := by ring
      rw [hneg, zpow_neg, lt_inv_comm₀ hq (ten_zpow_pos _), ← one_div]
      exact hten.trans_lt hhigh

/-! ## Decimals in the interval -/

end Binary64

namespace Decimal

theorem toRat_dropZeros (fuel : Nat) (d : Decimal) : (dropZeros fuel d).toRat = d.toRat := by
  induction fuel generalizing d with
  | zero => rfl
  | succ fuel ih =>
      unfold dropZeros
      split
      · rename_i hzero
        rw [ih]
        have hcoefficient : (d.coefficient : Rat) = ((d.coefficient / 10 : Nat) : Rat) * 10 := by
          exact_mod_cast (Nat.div_mul_cancel (Nat.dvd_of_mod_eq_zero hzero.2)).symm
        unfold toRat
        dsimp only
        rw [hcoefficient, Binary64.ten_zpow_add, zpow_one]
        ring
      · rfl

theorem exponent_le_dropZeros (fuel : Nat) (d : Decimal) :
    d.exponent ≤ (dropZeros fuel d).exponent := by
  induction fuel generalizing d with
  | zero => exact Int.le_refl _
  | succ fuel ih =>
      unfold dropZeros
      split
      · exact le_trans (by dsimp only; omega) (ih _)
      · exact Int.le_refl _

end Decimal

namespace Binary64

variable {q : Rat} {p units : Int} {tie : Decimal.Tie}

/-- A decimal that is found lies in the interval. -/
theorem nearestWithDigits_spec {digits : Nat} {d : Decimal}
    (h : nearestWithDigits tie q digits = some d) :
    (interval q).holds d.toRat = true ∧ d.exponent = decimalExponent q - digits + 1 := by
  unfold nearestWithDigits at h
  dsimp only at h
  obtain ⟨coefficient, hchoice, rfl⟩ := Option.map_eq_some_iff.mp h
  refine ⟨?_, rfl⟩
  unfold Decimal.toRat
  dsimp only
  have hpick (takeAbove : Bool) {above below : Nat} {step : Rat}
      (habove : (interval q).holds (above * step) = true)
      (hbelow : (interval q).holds (below * step) = true) :
      (interval q).holds ((if takeAbove then above else below : Nat) * step) = true := by
    cases takeAbove
    · exact hbelow
    · exact habove
  split at hchoice
  · rename_i hbelow habove
    rw [← Option.some.inj hchoice]
    exact hpick _ habove hbelow
  · rename_i hbelow _
    exact Option.some.inj hchoice ▸ hbelow
  · rename_i _ habove
    exact Option.some.inj hchoice ▸ habove
  · cases hchoice

/-- A decimal is found when one of the two neighbours lies in the interval. -/
theorem isSome_nearestWithDigits {digits : Nat} (step : Rat)
    (hstep : step = 10 ^ (decimalExponent q - digits + 1))
    (h : (interval q).holds (((q / step).floor.toNat : Nat) * step) = true ∨
      (interval q).holds ((((q / step).floor.toNat + 1 : Nat)) * step) = true) :
    (nearestWithDigits tie q digits).isSome = true := by
  subst hstep
  unfold nearestWithDigits
  dsimp only
  rw [Option.isSome_map]
  split <;> simp_all

/-- Whatever is less than half a unit away lies in the interval, or less than a quarter below a
power of two. -/
theorem HasUnits.holds_of_near (h : HasUnits q p units) {r : Rat}
    (hlow : q - (if units = 2 ^ 52 ∧ -1074 < p then 2 ^ p / 4 else 2 ^ p / 2) < r)
    (hhigh : r < q + 2 ^ p / 2) : (interval q).holds r = true := by
  rw [h.interval_eq]
  unfold Interval.holds
  dsimp only
  split
  · simp only [Bool.and_eq_true, decide_eq_true_eq]
    exact ⟨hlow.le, hhigh.le⟩
  · simp only [Bool.and_eq_true, decide_eq_true_eq]
    exact ⟨hlow, hhigh⟩

theorem HasUnits.holds_self (h : HasUnits q p units) : (interval q).holds q = true := by
  have hunit := two_zpow_pos p
  refine h.holds_of_near ?_ (by linarith)
  split <;> linarith

/-- Seventeen digits always do: their grid is finer than the interval is wide. -/
theorem HasUnits.isSome_nearestWithDigits (h : HasUnits q p units) :
    (nearestWithDigits tie q 17).isSome = true := by
  have hq := h.value_pos
  have hunit := two_zpow_pos p
  obtain ⟨hten, -⟩ := decimalExponent_spec hq
  have hexponent : decimalExponent q - (17 : Nat) + 1 + 16 = decimalExponent q := by
    push_cast
    ring
  have hfine : (10 : Rat) ^ (decimalExponent q - (17 : Nat) + 1) * 10 ^ (16 : Int) ≤ q := by
    rwa [← ten_zpow_add, hexponent]
  refine Binary64.isSome_nearestWithDigits _ rfl ?_
  have hstep := ten_zpow_pos (decimalExponent q - (17 : Nat) + 1)
  generalize (10 : Rat) ^ (decimalExponent q - (17 : Nat) + 1) = step at hfine hstep
  -- the number lies between two neighbours of the grid
  have hfloor : ((q / step).floor.toNat : Rat) = (q / step).floor := by
    exact_mod_cast Int.toNat_of_nonneg (Int.floor_nonneg.mpr (div_pos hq hstep).le)
  have hbelow : ((q / step).floor.toNat : Rat) * step ≤ q := by
    rw [hfloor, ← le_div_iff₀ hstep]
    exact Int.floor_le _
  have habove : q < ((q / step).floor.toNat + 1 : Nat) * step := by
    push_cast
    rw [hfloor, ← div_lt_iff₀ hstep]
    exact Int.lt_floor_add_one _
  have hgap : (((q / step).floor.toNat + 1 : Nat) : Rat) * step =
      (q / step).floor.toNat * step + step := by
    push_cast
    ring
  rw [hgap] at habove ⊢
  generalize ((q / step).floor.toNat : Rat) * step = below at hbelow habove
  have hvalue := h.value
  by_cases hpower : units = 2 ^ 52 ∧ -1074 < p
  · have hcast : (units : Rat) = 2 ^ 52 := by exact_mod_cast congrArg (Int.cast (R := Rat)) hpower.1
    rw [hcast] at hvalue
    have hwidth : step < 2 ^ p / 2 := by
      norm_num at hfine hvalue
      linarith
    by_cases hnear : q - 2 ^ p / 4 < below
    · exact Or.inl (h.holds_of_near (by rwa [if_pos hpower]) (by linarith))
    · exact Or.inr (h.holds_of_near (by rw [if_pos hpower]; linarith) (by linarith))
  · have hwidth : step < 2 ^ p := by
      have hmost : (units : Rat) * 2 ^ p ≤ 2 ^ 53 * 2 ^ p :=
        mul_le_mul_of_nonneg_right (by exact_mod_cast h.lt.le) hunit.le
      norm_num at hfine hmost
      linarith
    by_cases hnear : q - 2 ^ p / 2 < below
    · exact Or.inl (h.holds_of_near (by rwa [if_neg hpower]) (by linarith))
    · exact Or.inr (h.holds_of_near (by rw [if_neg hpower]; linarith) (by linarith))

/-- The first number below a bound for which something is found is no greater than any other. -/
theorem exists_findSome?_range {α : Type} {f : Nat → Option α} {bound n : Nat} (hn : n < bound)
    (hsome : (f n).isSome = true) :
    ∃ m ≤ n, ∃ a, f m = some a ∧ (List.range bound).findSome? f = some a := by
  have hfound : ((List.range bound).findSome? f).isSome = true := by
    rw [List.findSome?_isSome_iff]
    exact ⟨n, List.mem_range.mpr hn, hsome⟩
  obtain ⟨a, ha⟩ := Option.isSome_iff_exists.mp hfound
  obtain ⟨before, m, behind, hrange, hm, hnone⟩ := List.findSome?_eq_some_iff.mp ha
  refine ⟨m, ?_, a, hm, ha⟩
  by_contra hless
  have hsorted : (List.range bound).Pairwise (· < ·) := List.pairwise_lt_range
  have hmem : n ∈ before ++ m :: behind := hrange ▸ List.mem_range.mpr hn
  rw [hrange, List.pairwise_append, List.pairwise_cons] at hsorted
  rcases List.mem_append.mp hmem with hbefore | hbehind
  · rw [hnone n hbefore] at hsome
    cases hsome
  · rcases List.mem_cons.mp hbehind with rfl | hlater
    · exact hless (Nat.le_refl _)
    · exact hless (hsorted.2.1.1 n hlater).le

/-- The shortest decimal lies in the interval, and has no more digits than any other there. -/
theorem shortest_spec {digits : Nat} (hdigits : digits < 17)
    (hsome : (nearestWithDigits tie q (digits + 1)).isSome = true) :
    (interval q).holds (shortest tie q).toRat = true ∧
      decimalExponent q - digits ≤ (shortest tie q).exponent := by
  obtain ⟨fewer, hfewer, d, hd, hfound⟩ :=
    exists_findSome?_range (f := fun n => nearestWithDigits tie q (n + 1)) hdigits hsome
  obtain ⟨hholds, hexponent⟩ := nearestWithDigits_spec hd
  have hle := Decimal.exponent_le_dropZeros 400 d
  unfold shortest
  dsimp only
  rw [hfound, Option.getD_some, Decimal.toRat_dropZeros]
  push_cast at hexponent
  exact ⟨hholds, by omega⟩

/-- The shortest decimal stands for its number. -/
theorem HasUnits.holds_shortest (h : HasUnits q p units) (tie : Decimal.Tie) :
    (interval q).holds (shortest tie q).toRat = true :=
  (shortest_spec (by decide) h.isSome_nearestWithDigits).1

theorem HasUnits.round_shortest (h : HasUnits q p units) (tie : Decimal.Tie) :
    0 < (shortest tie q).toRat ∧ round (shortest tie q).toRat = finite q :=
  h.round_of_holds (h.holds_shortest tie)

end Binary64
end Rollup
