/-
# The interval of a number

Rounding takes a rational to the number nearest to it. The rationals that round to one number make
an interval around it: half a unit in the last place to either side, except that below a power of
two the units are half as long.
-/

import Mathlib.Algebra.Order.Field.Rat
import Mathlib.Data.Rat.Floor
import Mathlib.Tactic.FieldSimp
import Mathlib.Tactic.Linarith
import Mathlib.Tactic.Ring
import Rollup.Number.Shortest

namespace Rollup.Binary64

/-! ## Nearest integers -/

/-- What makes an integer the nearest one: it is at most a half away, and less than that if it is
odd. -/
structure IsNearest (q : Rat) (n : Int) : Prop where
  low : (n : Rat) - 1 / 2 ≤ q
  high : q ≤ n + 1 / 2
  even : q = n - 1 / 2 ∨ q = n + 1 / 2 → n % 2 = 0

theorem isNearest_intCast (n : Int) : IsNearest n n where
  low := by linarith
  high := by linarith
  even := by rintro (h | h) <;> linarith

theorem IsNearest.neg {q : Rat} {n : Int} (h : IsNearest q n) : IsNearest (-q) (-n) where
  low := by push_cast; linarith [h.high]
  high := by push_cast; linarith [h.low]
  even := by
    intro htie
    push_cast at htie
    have heven := h.even (by rcases htie with h' | h' <;> [right; left] <;> linarith)
    omega

theorem isNearest_roundHalfEven (q : Rat) : IsNearest q (roundHalfEven q) := by
  have hlow : ((q.floor : Int) : Rat) ≤ q := Int.floor_le q
  have hhigh : q < q.floor + 1 := Int.lt_floor_add_one q
  unfold roundHalfEven
  dsimp only
  split
  · rename_i hless
    refine ⟨by linarith, by linarith, ?_⟩
    rintro (h | h) <;> linarith
  · rename_i hnotLess
    split
    · rename_i hmore
      refine ⟨by push_cast; linarith, by push_cast; linarith, ?_⟩
      push_cast
      rintro (h | h) <;> linarith
    · rename_i hnotMore
      split
      · rename_i heven
        exact ⟨by linarith, by linarith, fun _ => heven⟩
      · rename_i hodd
        exact ⟨by push_cast; linarith, by push_cast; linarith, fun _ => by omega⟩

/-- There is one nearest integer. -/
theorem IsNearest.unique {q : Rat} {n m : Int} (h : IsNearest q n) (h' : IsNearest q m) :
    n = m := by
  have hle : n ≤ m + 1 := by
    have := h.low.trans h'.high
    have hcast : (n : Rat) ≤ ((m + 1 : Int) : Rat) := by push_cast; linarith
    exact_mod_cast hcast
  have hge : m ≤ n + 1 := by
    have := h'.low.trans h.high
    have hcast : (m : Rat) ≤ ((n + 1 : Int) : Rat) := by push_cast; linarith
    exact_mod_cast hcast
  rcases (by omega : n = m ∨ n = m + 1 ∨ m = n + 1) with heq | heq | heq
  · exact heq
  -- two neighbours are both nearest at a tie only, where both would be even
  · have hcast : (n : Rat) = m + 1 := by rw [heq]; push_cast; rfl
    have htie := h'.even (Or.inr (le_antisymm h'.high (by linarith [h.low])))
    have htie' := h.even (Or.inl (le_antisymm (by linarith [h'.high]) h.low))
    omega
  · have hcast : (m : Rat) = n + 1 := by rw [heq]; push_cast; rfl
    have htie := h.even (Or.inr (le_antisymm h.high (by linarith [h'.low])))
    have htie' := h'.even (Or.inl (le_antisymm (by linarith [h.high]) h'.low))
    omega

theorem IsNearest.roundHalfEven_eq {q : Rat} {n : Int} (h : IsNearest q n) :
    roundHalfEven q = n := (isNearest_roundHalfEven q).unique h

theorem roundHalfEven_intCast (n : Int) : roundHalfEven n = n :=
  (isNearest_intCast n).roundHalfEven_eq

theorem roundHalfEven_neg (q : Rat) : roundHalfEven (-q) = -roundHalfEven q :=
  (isNearest_roundHalfEven q).neg.roundHalfEven_eq

/-! ## The last place -/

theorem two_zpow_pos (k : Int) : (0 : Rat) < 2 ^ k := zpow_pos (by norm_num) k

theorem two_zpow_add (k n : Int) : (2 : Rat) ^ (k + n) = 2 ^ k * 2 ^ n :=
  zpow_add₀ (by norm_num) k n

theorem binaryExponent_spec {q : Rat} (hq : 0 < q) :
    (2 : Rat) ^ binaryExponent q ≤ q ∧ q < 2 ^ (binaryExponent q + 1) := by
  have hnum : 0 < q.num := Rat.num_pos.mpr hq
  have hden : (0 : Rat) < q.den := by exact_mod_cast q.den_pos
  have hvalue : q * q.den = q.num.natAbs := by
    rw [Nat.cast_natAbs, abs_of_pos hnum]
    exact Rat.mul_den_eq_num q
  -- the quotient of two numbers of known lengths has one of two lengths
  have hnumLow : (2 : Rat) ^ (q.num.natAbs.log2 : Int) ≤ q.num.natAbs := by
    exact_mod_cast Nat.log2_self_le (by omega : q.num.natAbs ≠ 0)
  have hnumHigh : (q.num.natAbs : Rat) < 2 ^ ((q.num.natAbs.log2 : Int) + 1) := by
    exact_mod_cast Nat.lt_log2_self (n := q.num.natAbs)
  have hdenLow : (2 : Rat) ^ (q.den.log2 : Int) ≤ q.den := by
    exact_mod_cast Nat.log2_self_le q.den_nz
  have hdenHigh : (q.den : Rat) < 2 ^ ((q.den.log2 : Int) + 1) := by
    exact_mod_cast Nat.lt_log2_self (n := q.den)
  have hhigh : q < 2 ^ ((q.num.natAbs.log2 : Int) - q.den.log2 + 1) := by
    refine lt_of_mul_lt_mul_right ?_ hden.le
    calc q * q.den = q.num.natAbs := hvalue
      _ < 2 ^ ((q.num.natAbs.log2 : Int) + 1) := hnumHigh
      _ = 2 ^ ((q.num.natAbs.log2 : Int) - q.den.log2 + 1) * 2 ^ (q.den.log2 : Int) := by
          rw [← two_zpow_add]
          congr 1
          ring
      _ ≤ 2 ^ ((q.num.natAbs.log2 : Int) - q.den.log2 + 1) * q.den :=
          mul_le_mul_of_nonneg_left hdenLow (two_zpow_pos _).le
  have hlow : (2 : Rat) ^ ((q.num.natAbs.log2 : Int) - q.den.log2 - 1) ≤ q := by
    refine le_of_mul_le_mul_right ?_ hden
    calc (2 : Rat) ^ ((q.num.natAbs.log2 : Int) - q.den.log2 - 1) * q.den
        ≤ 2 ^ ((q.num.natAbs.log2 : Int) - q.den.log2 - 1) * 2 ^ ((q.den.log2 : Int) + 1) :=
          mul_le_mul_of_nonneg_left hdenHigh.le (two_zpow_pos _).le
      _ = 2 ^ (q.num.natAbs.log2 : Int) := by
          rw [← two_zpow_add]
          congr 1
          ring
      _ ≤ q.num.natAbs := hnumLow
      _ = q * q.den := hvalue.symm
  unfold binaryExponent
  dsimp only
  split
  · rename_i hfits
    exact ⟨hfits, hhigh⟩
  · rename_i hless
    exact ⟨hlow, by rw [sub_add_cancel]; exact lt_of_not_ge hless⟩

theorem binaryExponent_lt {q : Rat} (hq : 0 < q) {k : Int} (h : q < 2 ^ k) :
    binaryExponent q < k :=
  (zpow_lt_zpow_iff_right₀ (by norm_num : (1 : Rat) < 2)).mp
    ((binaryExponent_spec hq).1.trans_lt h)

theorem le_binaryExponent {q : Rat} (hq : 0 < q) {k : Int} (h : 2 ^ k ≤ q) :
    k ≤ binaryExponent q := by
  have hlt := (zpow_lt_zpow_iff_right₀ (by norm_num : (1 : Rat) < 2)).mp
    (h.trans_lt (binaryExponent_spec hq).2)
  omega

/-- The last place of a number is where it takes 53 digits, or the last one that there is. -/
theorem lastPlace_eq {q : Rat} {p : Int} (hq : 0 < q) (hp : -1074 ≤ p)
    (hlow : p = -1074 ∨ 2 ^ (52 : Int) * 2 ^ p ≤ q) (hhigh : q < 2 ^ (53 : Int) * 2 ^ p) :
    lastPlace q = p := by
  rw [← two_zpow_add] at hhigh
  have hlt := binaryExponent_lt hq hhigh
  unfold lastPlace
  rcases hlow with hleast | hlow
  · omega
  · rw [← two_zpow_add] at hlow
    have hle := le_binaryExponent hq hlow
    omega

/-! ## Numbers and their units -/

/-- A positive number is a whole number of units in its last place, as many as 53 digits can say,
and 53 digits are needed unless the place is the last one that there is. -/
structure HasUnits (q : Rat) (p units : Int) : Prop where
  value : q = units * 2 ^ p
  pos : 0 < units
  lt : units < 2 ^ 53
  place : -1074 ≤ p
  normal : p = -1074 ∨ 2 ^ 52 ≤ units
  small : q < 2 ^ (1024 : Int)

section

variable {q : Rat} {p units : Int}

theorem HasUnits.value_pos (h : HasUnits q p units) : 0 < q := by
  rw [h.value]
  exact mul_pos (by exact_mod_cast h.pos) (two_zpow_pos p)

theorem HasUnits.lastPlace_eq (h : HasUnits q p units) : lastPlace q = p := by
  have hunit := two_zpow_pos p
  refine Binary64.lastPlace_eq h.value_pos h.place (h.normal.imp_right fun hnormal => ?_) ?_
  · rw [h.value]
    exact mul_le_mul_of_nonneg_right (by exact_mod_cast hnormal) hunit.le
  · rw [h.value]
    exact mul_lt_mul_of_pos_right (by exact_mod_cast h.lt) hunit

theorem HasUnits.div_unit (h : HasUnits q p units) : q / 2 ^ p = units := by
  rw [h.value, mul_div_assoc, div_self (two_zpow_pos p).ne', mul_one]

/-- What rounds to a whole number of units. -/
theorem round_eq (hq : 0 < q) (hplace : lastPlace q = p) (hnearest : IsNearest (q / 2 ^ p) units)
    (hunits : 0 < units) (hfinite : (units : Rat) * 2 ^ p < 2 ^ (1024 : Int)) :
    round q = finite (units * 2 ^ p) := by
  have hvalue : (0 : Rat) ≤ units * 2 ^ p :=
    mul_nonneg (by exact_mod_cast hunits.le) (two_zpow_pos p).le
  unfold round
  rw [if_neg hq.ne', Rat.abs_of_nonneg hq.le, hplace]
  dsimp only
  rw [hnearest.roundHalfEven_eq, if_neg hunits.ne', Rat.abs_of_nonneg hvalue, if_pos hfinite]

/-- A number with units rounds to itself. -/
theorem HasUnits.round_eq (h : HasUnits q p units) : round q = finite q := by
  have hround := Binary64.round_eq h.value_pos h.lastPlace_eq
    (h.div_unit ▸ isNearest_intCast units) h.pos (h.value ▸ h.small)
  rwa [← h.value] at hround

/-- A positive number that rounding keeps has units. -/
theorem exists_hasUnits (hq : 0 < q) (h : round q = finite q) : ∃ p units, HasUnits q p units := by
  have hunit := two_zpow_pos (lastPlace q)
  have hspec := binaryExponent_spec hq
  unfold round at h
  rw [if_neg hq.ne', Rat.abs_of_nonneg hq.le] at h
  dsimp only at h
  split at h
  · unfold zero at h
    split at h
    · cases h
    · exact absurd (finite.inj h).symm hq.ne'
  · split at h
    · rename_i hfinite
      have hvalue := (finite.inj h).symm
      rw [finite.inj h, Rat.abs_of_nonneg hq.le] at hfinite
      generalize roundHalfEven (q / 2 ^ lastPlace q) = units at hvalue
      have hplace : -1074 ≤ lastPlace q ∧ binaryExponent q ≤ lastPlace q + 52 ∧
          (lastPlace q = -1074 ∨ lastPlace q + 52 = binaryExponent q) := by
        unfold lastPlace
        omega
      refine ⟨lastPlace q, units, hvalue, ?_, ?_, hplace.1, ?_, hfinite⟩
      · have hpos : (0 : Rat) < units := by
          rw [hvalue] at hq
          exact (mul_pos_iff_of_pos_right hunit).mp hq
        exact_mod_cast hpos
      · have hlt : (units : Rat) * 2 ^ lastPlace q < 2 ^ (53 : Int) * 2 ^ lastPlace q := by
          rw [← hvalue, ← two_zpow_add]
          refine hspec.2.trans_le ?_
          exact zpow_le_zpow_right₀ (by norm_num) (by omega)
        exact_mod_cast lt_of_mul_lt_mul_right hlt hunit.le
      · by_cases hleast : lastPlace q = -1074
        · exact Or.inl hleast
        · right
          have hle : (2 : Rat) ^ (52 : Int) * 2 ^ lastPlace q ≤ units * 2 ^ lastPlace q := by
            rw [← hvalue, ← two_zpow_add]
            refine le_trans ?_ hspec.1
            exact zpow_le_zpow_right₀ (by norm_num) (by omega)
          exact_mod_cast le_of_mul_le_mul_right hle hunit
    · cases h

/-! ## The interval -/

/-- The distance from a number to the lower end of its interval, in units of a quarter. -/
theorem HasUnits.interval_eq (h : HasUnits q p units) : interval q =
    ⟨q - (if units = 2 ^ 52 ∧ -1074 < p then 2 ^ p / 4 else 2 ^ p / 2), q + 2 ^ p / 2,
      units % 2 = 0⟩ := by
  unfold interval
  dsimp only
  rw [h.lastPlace_eq, h.div_unit, roundHalfEven_intCast]
  rfl

theorem HasUnits.bounds_of_holds (h : HasUnits q p units) {r : Rat}
    (hr : (interval q).holds r = true) :
    q - (if units = 2 ^ 52 ∧ -1074 < p then 2 ^ p / 4 else 2 ^ p / 2) ≤ r ∧ r ≤ q + 2 ^ p / 2 ∧
      (units % 2 ≠ 0 → q - 2 ^ p / 2 < r ∧ r < q + 2 ^ p / 2) := by
  rw [h.interval_eq] at hr
  unfold Interval.holds at hr
  dsimp only at hr
  split at hr
  · rename_i heven
    simp only [Bool.and_eq_true, decide_eq_true_eq] at hr heven
    exact ⟨hr.1, hr.2, fun hodd => absurd heven hodd⟩
  · rename_i hodd
    simp only [Bool.and_eq_true, decide_eq_true_eq] at hr hodd
    have hnotPower : ¬(units = 2 ^ 52 ∧ -1074 < p) := by
      rintro ⟨rfl, -⟩
      exact hodd (by decide)
    rw [if_neg hnotPower] at hr ⊢
    exact ⟨hr.1.le, hr.2.le, fun _ => hr⟩

/-- The interval of a number reaches down by half a last place at most. -/
theorem HasUnits.le_of_holds (h : HasUnits q p units) {r : Rat}
    (hr : (interval q).holds r = true) : q - 2 ^ p / 2 ≤ r := by
  have hunit := two_zpow_pos p
  refine le_trans ?_ (h.bounds_of_holds hr).1
  split <;> linarith

theorem HasUnits.pos_of_holds (h : HasUnits q p units) {r : Rat}
    (hr : (interval q).holds r = true) : 0 < r := by
  have hunit := two_zpow_pos p
  have hone : (1 : Rat) ≤ units := by exact_mod_cast h.pos
  have hhalf := h.le_of_holds hr
  have hvalue := h.value
  nlinarith

/-- What lies in the interval of a number rounds to it where both have the same last place. -/
theorem HasUnits.round_of_same_place (h : HasUnits q p units) {r : Rat}
    (hr : (interval q).holds r = true) (hsame : p = -1074 ∨ 2 ^ (52 : Int) * 2 ^ p ≤ r) :
    round r = finite q := by
  have hunit := two_zpow_pos p
  have hmost : (units : Rat) + 1 ≤ 2 ^ (53 : Int) := by exact_mod_cast h.lt
  obtain ⟨-, hhigh, hodd⟩ := h.bounds_of_holds hr
  have hhalf := h.le_of_holds hr
  have hpos := h.pos_of_holds hr
  have hvalue := h.value
  have hplace : lastPlace r = p := Binary64.lastPlace_eq hpos h.place hsame (by nlinarith)
  rw [h.value]
  refine Binary64.round_eq hpos hplace ⟨?_, ?_, ?_⟩ h.pos (h.value ▸ h.small)
  · rw [le_div_iff₀ hunit]
    linarith
  · rw [div_le_iff₀ hunit]
    linarith
  · intro htie
    by_contra hne
    obtain ⟨hless, hmore⟩ := hodd hne
    rw [div_eq_iff hunit.ne', div_eq_iff hunit.ne'] at htie
    rcases htie with htie | htie <;> linarith

/-- Below a power of two the last place is one further, and what is that close still rounds to the
power. -/
theorem HasUnits.round_of_next_place (h : HasUnits q p units) {r : Rat}
    (hr : (interval q).holds r = true) (hleast : p ≠ -1074)
    (hless : r < 2 ^ (52 : Int) * 2 ^ p) : round r = finite q := by
  have hunit := two_zpow_pos p
  obtain ⟨hlow, -, -⟩ := h.bounds_of_holds hr
  have hhalf := h.le_of_holds hr
  have hpos := h.pos_of_holds hr
  have hvalue := h.value
  have hplace : -1074 < p := lt_of_le_of_ne h.place fun heq => hleast heq.symm
  have hnormal : 2 ^ 52 ≤ units := h.normal.resolve_left hleast
  have hpower : units = 2 ^ 52 := by
    by_contra hne
    have hcast : (2 : Rat) ^ (52 : Int) + 1 ≤ units := by
      exact_mod_cast (by omega : (2 : Int) ^ 52 + 1 ≤ units)
    nlinarith
  rw [if_pos ⟨hpower, hplace⟩] at hlow
  have hcast : (units : Rat) = 2 ^ (52 : Int) := by rw [hpower]; norm_num
  have hshorter : (2 : Rat) ^ p = 2 ^ (p - 1) * 2 := by
    have := two_zpow_add (p - 1) 1
    rwa [sub_add_cancel, zpow_one] at this
  have hunit' := two_zpow_pos (p - 1)
  have hq : q = ((2 ^ 53 : Int) : Rat) * 2 ^ (p - 1) := by
    rw [hvalue, hcast, hshorter]
    push_cast
    ring
  have hlastPlace : lastPlace r = p - 1 := by
    refine Binary64.lastPlace_eq hpos (by omega) (Or.inr ?_) ?_
    · nlinarith
    · nlinarith
  rw [hq]
  refine Binary64.round_eq hpos hlastPlace ⟨?_, ?_, fun _ => by decide⟩ (by decide) (hq ▸ h.small)
  · rw [le_div_iff₀ hunit']
    push_cast at hq ⊢
    linarith
  · rw [div_le_iff₀ hunit']
    nlinarith

/-- Whatever lies in the interval of a number rounds to it. -/
theorem HasUnits.round_of_holds (h : HasUnits q p units) {r : Rat}
    (hr : (interval q).holds r = true) : 0 < r ∧ round r = finite q := by
  refine ⟨h.pos_of_holds hr, ?_⟩
  by_cases hsame : p = -1074 ∨ 2 ^ (52 : Int) * 2 ^ p ≤ r
  · exact h.round_of_same_place hr hsame
  · push Not at hsame
    exact h.round_of_next_place hr hsame.1 hsame.2

end

/-! ## Signs -/

/-- Rounding commutes with a change of sign. -/
theorem round_neg {q v : Rat} (hv : v ≠ 0) (h : round q = finite v) : round (-q) = finite (-v) := by
  unfold round at h ⊢
  by_cases hq : q = 0
  · rw [if_pos hq] at h
    exact absurd (finite.inj h).symm hv
  · rw [if_neg hq] at h
    rw [if_neg (neg_ne_zero.mpr hq), Rat.abs_neg]
    dsimp only at h ⊢
    rw [neg_div, roundHalfEven_neg]
    generalize roundHalfEven (q / 2 ^ lastPlace q.abs) = units at h ⊢
    split at h
    · unfold zero at h
      split at h
      · cases h
      · exact absurd (finite.inj h).symm hv
    · rename_i hunits
      rw [if_neg (by omega), Int.cast_neg, neg_mul, Rat.abs_neg]
      split at h
      · rename_i hfinite
        rw [if_pos hfinite, finite.inj h]
      · cases h

/-! ## Numbers of the format -/

/-- A number of the format that is finite. -/
def IsNumber : Binary64 → Prop
  | finite q => round q = finite q
  | negativeZero => True
  | infinite _ => False
  | nan _ => False

instance (x : Binary64) : Decidable x.IsNumber :=
  match x with
  | finite q => inferInstanceAs (Decidable (round q = finite q))
  | negativeZero => isTrue trivial
  | infinite _ => isFalse id
  | nan _ => isFalse id

/-- A number is a zero, or a positive number with units, or that number turned around. -/
theorem IsNumber.eq_zero_or_hasUnits {x : Binary64} (h : x.IsNumber) :
    x = finite 0 ∨ x = negativeZero ∨
      ∃ q p units, HasUnits q p units ∧ (x = finite q ∨ x = finite (-q)) := by
  cases x with
  | negativeZero => exact Or.inr (Or.inl rfl)
  | infinite negative => cases h
  | nan negative => cases h
  | finite q =>
      rcases lt_trichotomy q 0 with hneg | rfl | hpos
      · obtain ⟨p, units, hunits⟩ := exists_hasUnits (neg_pos.mpr hneg) (round_neg hneg.ne h)
        exact Or.inr (Or.inr ⟨-q, p, units, hunits, Or.inr (by rw [neg_neg])⟩)
      · exact Or.inl rfl
      · obtain ⟨p, units, hunits⟩ := exists_hasUnits hpos h
        exact Or.inr (Or.inr ⟨q, p, units, hunits, Or.inl rfl⟩)

theorem roundHalfEven_nonneg {q : Rat} (hq : 0 ≤ q) : 0 ≤ roundHalfEven q := by
  have hnearest := isNearest_roundHalfEven q
  generalize roundHalfEven q = units at hnearest
  have hcast : ((-1 : Int) : Rat) < units := by
    push_cast
    linarith [hnearest.high]
  exact Int.lt_iff_add_one_le.mp (by exact_mod_cast hcast)

/-- The number of units nearest to a positive number makes a number that has units itself, if it is
not too large. -/
theorem exists_hasUnits_of_isNearest {q : Rat} (hq : 0 < q) {units : Int}
    (hnearest : IsNearest (q / 2 ^ lastPlace q) units) (hunits : 0 < units)
    (hfinite : (units : Rat) * 2 ^ lastPlace q < 2 ^ (1024 : Int)) :
    ∃ p units', HasUnits (units * 2 ^ lastPlace q) p units' := by
  have hunit := two_zpow_pos (lastPlace q)
  have hspec := binaryExponent_spec hq
  have hplace : -1074 ≤ lastPlace q ∧ binaryExponent q ≤ lastPlace q + 52 ∧
      (lastPlace q = -1074 ∨ lastPlace q + 52 = binaryExponent q) := by
    unfold lastPlace
    omega
  have hhigh : q / 2 ^ lastPlace q < 2 ^ (53 : Int) := by
    rw [div_lt_iff₀ hunit, ← two_zpow_add]
    refine hspec.2.trans_le ?_
    exact zpow_le_zpow_right₀ (by norm_num) (by omega)
  have hlow : lastPlace q = -1074 ∨ 2 ^ (52 : Int) ≤ q / 2 ^ lastPlace q := by
    refine hplace.2.2.imp_right fun heq => ?_
    rw [le_div_iff₀ hunit, ← two_zpow_add]
    refine le_trans ?_ hspec.1
    exact zpow_le_zpow_right₀ (by norm_num) (by omega)
  have hmost : units ≤ 2 ^ 53 := by
    have hcast : (units : Rat) < ((2 ^ 53 + 1 : Int) : Rat) := by
      push_cast
      norm_num at hhigh ⊢
      linarith [hnearest.low]
    exact Int.lt_add_one_iff.mp (by exact_mod_cast hcast)
  have hleast : lastPlace q = -1074 ∨ 2 ^ 52 ≤ units := by
    refine hlow.imp_right fun hle => ?_
    have hcast : ((2 ^ 52 - 1 : Int) : Rat) < units := by
      push_cast
      norm_num at hle ⊢
      linarith [hnearest.high]
    exact Int.sub_one_lt_iff.mp (by exact_mod_cast hcast)
  rcases hmost.lt_or_eq with hlt | heq
  · exact ⟨lastPlace q, units, rfl, hunits, hlt, hplace.1, hleast, hfinite⟩
  · -- one digit more: the place is one before
    refine ⟨lastPlace q + 1, 2 ^ 52, ?_, by decide, by decide, by omega,
      Or.inr (Int.le_refl _), hfinite⟩
    rw [two_zpow_add, heq, zpow_one]
    push_cast
    ring

/-- What is not too large rounds to zero or to a whole number of units. -/
theorem round_spec {q : Rat} (hq : 0 < q) (hsmall : q < 2 ^ (1023 : Int)) :
    roundHalfEven (q / 2 ^ lastPlace q) = 0 ∨
      ∃ v p units, round q = finite v ∧ HasUnits v p units := by
  have hunit := two_zpow_pos (lastPlace q)
  have hvalue : q = q / 2 ^ lastPlace q * 2 ^ lastPlace q := by
    rw [div_mul_cancel₀ q hunit.ne']
  have hnearest := isNearest_roundHalfEven (q / 2 ^ lastPlace q)
  rcases (roundHalfEven_nonneg (div_pos hq hunit).le).eq_or_lt with hzero | hunits
  · exact Or.inl hzero.symm
  right
  generalize roundHalfEven (q / 2 ^ lastPlace q) = units at hnearest hunits
  have hfinite : (units : Rat) * 2 ^ lastPlace q < 2 ^ (1024 : Int) := by
    have hone : (1 : Rat) ≤ units := by exact_mod_cast hunits
    have hdouble : (2 : Rat) ^ (1024 : Int) = 2 ^ (1023 : Int) * 2 := by
      rw [← zpow_add_one₀ (by norm_num)]
      rfl
    have hle : (units : Rat) ≤ q / 2 ^ lastPlace q * 2 := by linarith [hnearest.low]
    calc (units : Rat) * 2 ^ lastPlace q
        ≤ q / 2 ^ lastPlace q * 2 * 2 ^ lastPlace q := mul_le_mul_of_nonneg_right hle hunit.le
      _ = q * 2 := by rw [mul_right_comm, ← hvalue]
      _ < 2 ^ (1023 : Int) * 2 := mul_lt_mul_of_pos_right hsmall (by norm_num)
      _ = 2 ^ (1024 : Int) := hdouble.symm
  obtain ⟨p, units', hhas⟩ := exists_hasUnits_of_isNearest hq hnearest hunits hfinite
  exact ⟨_, p, units', round_eq hq rfl hnearest hunits hfinite, hhas⟩

/-- What rounds to no unit rounds to zero, with its sign. -/
theorem round_eq_zero {q : Rat} (hq : q ≠ 0) (h : roundHalfEven (q / 2 ^ lastPlace q.abs) = 0) :
    round q = zero (q < 0) := by
  unfold round
  rw [if_neg hq]
  dsimp only
  rw [if_pos h]

/-- Rounding what is not too large makes a number of the format. -/
theorem isNumber_round {q : Rat} (h : |q| < 2 ^ (1023 : Int)) : (round q).IsNumber := by
  have hzero (negative : Bool) : (zero negative).IsNumber := by
    cases negative
    · exact (rfl : round 0 = finite 0)
    · trivial
  rcases lt_trichotomy q 0 with hneg | rfl | hpos
  · rw [abs_of_neg hneg] at h
    rcases round_spec (neg_pos.mpr hneg) h with hunits | ⟨v, p, units, hround, hunits⟩
    · rw [neg_div, roundHalfEven_neg, neg_eq_zero] at hunits
      rw [round_eq_zero hneg.ne (by rwa [Rat.abs_of_nonpos hneg.le])]
      exact hzero _
    · have hopposite := round_neg hunits.value_pos.ne' hround
      rw [neg_neg] at hopposite
      rw [hopposite]
      exact round_neg hunits.value_pos.ne' hunits.round_eq
  · exact hzero false
  · rw [abs_of_pos hpos] at h
    rcases round_spec hpos h with hunits | ⟨v, p, units, hround, hunits⟩
    · rw [round_eq_zero hpos.ne' (by rwa [Rat.abs_of_nonneg hpos.le])]
      exact hzero _
    · rw [hround]
      exact hunits.round_eq

theorem isNumber_of_round_eq_of_pos {q v : Rat} (hq : 0 < q) (h : round q = finite v)
    (hv : v ≠ 0) : (finite v).IsNumber := by
  have hunit := two_zpow_pos (lastPlace q)
  have hnonneg := roundHalfEven_nonneg (div_pos hq hunit).le
  have hnearest := isNearest_roundHalfEven (q / 2 ^ lastPlace q)
  unfold round at h
  rw [if_neg hq.ne', Rat.abs_of_nonneg hq.le] at h
  dsimp only at h
  generalize roundHalfEven (q / 2 ^ lastPlace q) = units at h hnonneg hnearest
  split at h
  · unfold zero at h
    split at h
    · cases h
    · exact absurd (finite.inj h).symm hv
  · rename_i hzero
    have hvalue : (0 : Rat) ≤ units * 2 ^ lastPlace q :=
      mul_nonneg (by exact_mod_cast hnonneg) hunit.le
    split at h
    · rename_i hfinite
      rw [Rat.abs_of_nonneg hvalue] at hfinite
      obtain rfl := finite.inj h
      obtain ⟨p, units', hhas⟩ := exists_hasUnits_of_isNearest hq hnearest (by omega) hfinite
      exact hhas.round_eq
    · cases h

/-- What rounds to a finite number rounds to one of the format, however large it is. -/
theorem isNumber_of_round_eq {q v : Rat} (h : round q = finite v) : (finite v).IsNumber := by
  by_cases hv : v = 0
  · rw [hv]
    exact (rfl : round 0 = finite 0)
  rcases lt_trichotomy q 0 with hneg | rfl | hpos
  · have hopposite := isNumber_of_round_eq_of_pos (neg_pos.mpr hneg) (round_neg hv h)
      (neg_ne_zero.mpr hv)
    have hback := round_neg (neg_ne_zero.mpr hv) hopposite
    rwa [neg_neg] at hback
  · exact absurd (finite.inj h).symm hv
  · exact isNumber_of_round_eq_of_pos hpos h hv

/-- Integers of 64 bits, with or without a sign, are numbers of the format when rounded. -/
theorem isNumber_ofInt {n : Int} (h : n.natAbs ≤ 2 ^ 64) : (ofInt n).IsNumber := by
  refine isNumber_round ?_
  have hle : |(n : Rat)| ≤ 2 ^ (64 : Int) := by
    rw [← Int.cast_abs, Int.abs_eq_natAbs]
    exact_mod_cast h
  exact hle.trans_lt (zpow_lt_zpow_right₀ (by norm_num) (by norm_num))

end Rollup.Binary64
