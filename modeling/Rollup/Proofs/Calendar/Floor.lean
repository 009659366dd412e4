/-
# Rounding down

Rounding an instant down gives the last start of a unit that is not after the instant: the first of
January, the first of the month, Monday at midnight, midnight, or a whole hour, minute or second.
Everything else that is expected of rounding follows from this. A start is a whole second; a leap
second prolongs the second before it and starts nothing.
-/

import Mathlib.Data.Prod.Lex
import Mathlib.Order.Bounds.Basic
import Rollup.Proofs.Calendar.Months

namespace Rollup.Calendar

open Date

/-! ## Instants in the order of time -/

namespace Instant

/-- The earlier second comes first, and within a second the smaller part of it. -/
instance : LinearOrder Instant :=
  LinearOrder.lift' (fun t => toLex (t.second, t.nano)) fun t u h => by
    obtain ⟨hsecond, hnano⟩ := Prod.mk.inj (toLex.injective h)
    cases t
    cases u
    simp_all

theorem le_iff {t u : Instant} :
    t ≤ u ↔ t.second < u.second ∨ t.second = u.second ∧ t.nano ≤ u.nano :=
  Prod.Lex.toLex_le_toLex

theorem whole_le_iff {second : Int} {t : Instant} :
    (⟨second, 0⟩ : Instant) ≤ t ↔ second ≤ t.second := by
  simp only [le_iff, Nat.zero_le, and_true]
  exact le_iff_lt_or_eq.symm

/-- Whether the second of an instant has a date. -/
def IsDated (t : Instant) : Prop := firstSecond ≤ t.second ∧ t.second ≤ lastSecond

instance (t : Instant) : Decidable t.IsDated := inferInstanceAs (Decidable (_ ∧ _))

theorem isDated_iff {t : Instant} :
    t.IsDated ↔ firstDayNumber ≤ t.dayNumber ∧ t.dayNumber ≤ lastDayNumber := by
  unfold IsDated firstSecond lastSecond dayNumber secondsPerDay
  omega

theorem of?_eq_some_iff {second : Int} {nano : Nat} {t : Instant} :
    of? second nano = some t ↔ t = ⟨second, nano⟩ ∧ t.IsDated := by
  unfold of?
  split
  · rename_i h
    rw [Option.some.injEq, eq_comm, iff_self_and]
    rintro rfl
    exact h
  · rename_i h
    simp only [reduceCtorEq, false_iff, not_and]
    rintro rfl
    exact h

end Instant

/-! ## Starts of units -/

namespace TimeUnit

/-- Whether a unit starts with the second `s`. The fifth of January 1970 was a Monday. -/
def StartsAt (s : Int) : TimeUnit → Prop
  | year => ∃ y, s = dayNumber ⟨y, 1, 1⟩ * secondsPerDay
  | month => ∃ y m, 1 ≤ m ∧ m ≤ 12 ∧ s = dayNumber ⟨y, m, 1⟩ * secondsPerDay
  | week => ∃ k, s = (dayNumber ⟨1970, 1, 5⟩ + 7 * k) * secondsPerDay
  | day => secondsPerDay ∣ s
  | hour => 3600 ∣ s
  | minute => 60 ∣ s
  | second => True

/-- Whether an instant is the start of a unit. -/
def IsStart (unit : TimeUnit) (t : Instant) : Prop := t.nano = 0 ∧ unit.StartsAt t.second

theorem startsAt_month_iff {s : Int} :
    month.StartsAt s ↔ ∃ index, s = firstDay index * secondsPerDay := by
  constructor
  · rintro ⟨y, m, hlow, hhigh, rfl⟩
    refine ⟨12 * y + m - 1, ?_⟩
    have hyear : (12 * y + (m : Int) - 1) / 12 = y := by omega
    have hmonth : ((12 * y + (m : Int) - 1) % 12).toNat + 1 = m := by omega
    rw [firstDay, hyear, hmonth]
  · rintro ⟨index, rfl⟩
    exact ⟨index / 12, (index % 12).toNat + 1, by omega, by omega, rfl⟩

theorem startsAt_year_iff {s : Int} :
    year.StartsAt s ↔ ∃ y, s = firstDay (12 * y) * secondsPerDay := by
  have hfirst (y : Int) : firstDay (12 * y) = dayNumber ⟨y, 1, 1⟩ := by simp [firstDay]
  simp only [StartsAt, hfirst]

/-- Whether the starts of `unit` are among those of `finer`. -/
def Refines (finer unit : TimeUnit) : Prop := ∀ b, unit.IsStart b → finer.IsStart b

/-- Seconds refine minutes, minutes hours and hours days; days refine weeks and months, and months
years. -/
theorem refines_next : second.Refines minute ∧ minute.Refines hour ∧ hour.Refines day ∧
    day.Refines week ∧ day.Refines month ∧ month.Refines year := by
  refine ⟨?_, ?_, ?_, ?_, ?_, ?_⟩
  · exact fun b hb => ⟨hb.1, trivial⟩
  · exact fun b hb => ⟨hb.1, Int.dvd_trans (by decide) hb.2⟩
  · exact fun b hb => ⟨hb.1, Int.dvd_trans (by decide) hb.2⟩
  · rintro b ⟨hnano, k, hweek⟩
    exact ⟨hnano, _, hweek.trans (Int.mul_comm _ _)⟩
  · rintro b ⟨hnano, y, m, -, -, hmonth⟩
    exact ⟨hnano, _, hmonth.trans (Int.mul_comm _ _)⟩
  · rintro b ⟨hnano, y, hyear⟩
    exact ⟨hnano, y, 1, by decide, by decide, hyear⟩

/-- The last second up to `s` with which a unit starts. -/
def lastStart (s : Int) : TimeUnit → Int
  | year => firstDay (12 * (monthOf (s / secondsPerDay) / 12)) * secondsPerDay
  | month => firstDay (monthOf (s / secondsPerDay)) * secondsPerDay
  | week => (s / secondsPerDay - daysSinceMonday (s / secondsPerDay)) * secondsPerDay
  | day => s / secondsPerDay * secondsPerDay
  | hour => s - s % 3600
  | minute => s - s % 60
  | second => s

/-- A first day of a month comes up to a second when the month does. -/
theorem firstDay_mul_le_iff {index s : Int} :
    firstDay index * secondsPerDay ≤ s ↔ index ≤ monthOf (s / secondsPerDay) := by
  rw [le_monthOf_iff]
  unfold secondsPerDay
  omega

theorem isGreatest_lastStart (unit : TimeUnit) (s : Int) :
    IsGreatest {start | unit.StartsAt start ∧ start ≤ s} (unit.lastStart s) := by
  cases unit with
  | year =>
      refine ⟨⟨startsAt_year_iff.mpr ⟨_, rfl⟩, firstDay_mul_le_iff.mpr (by omega)⟩, ?_⟩
      rintro start ⟨hstarts, hle⟩
      obtain ⟨y, rfl⟩ := startsAt_year_iff.mp hstarts
      rw [firstDay_mul_le_iff] at hle
      have hfirst : firstDay (12 * y) ≤ firstDay (12 * (monthOf (s / secondsPerDay) / 12)) :=
        firstDay_le_iff.mpr (by omega)
      exact Int.mul_le_mul_of_nonneg_right hfirst (by decide)
  | month =>
      refine ⟨⟨startsAt_month_iff.mpr ⟨_, rfl⟩, firstDay_mul_le_iff.mpr le_rfl⟩, ?_⟩
      rintro start ⟨hstarts, hle⟩
      obtain ⟨index, rfl⟩ := startsAt_month_iff.mp hstarts
      rw [firstDay_mul_le_iff] at hle
      exact Int.mul_le_mul_of_nonneg_right (firstDay_le_iff.mpr hle) (by decide)
  | week =>
      have hmonday : dayNumber ⟨1970, 1, 5⟩ = 4 := by decide
      constructor
      · refine ⟨⟨(s / secondsPerDay + 3) / 7 - 1, ?_⟩, ?_⟩
        · rw [lastStart, hmonday, daysSinceMonday]
          congr 1
          omega
        · simp only [lastStart, daysSinceMonday, secondsPerDay]
          omega
      · rintro start ⟨⟨k, rfl⟩, hle⟩
        rw [hmonday] at hle ⊢
        simp only [lastStart, daysSinceMonday, secondsPerDay] at hle ⊢
        omega
  | day =>
      refine ⟨⟨Int.dvd_mul_left _ _, Int.ediv_mul_le _ (by decide)⟩, ?_⟩
      rintro start ⟨⟨n, rfl⟩, hle⟩
      simp only [lastStart, secondsPerDay] at hle ⊢
      omega
  | hour | minute =>
      refine ⟨⟨?_, ?_⟩, ?_⟩
      · simp only [StartsAt, lastStart]
        omega
      · simp only [lastStart]
        omega
      · rintro start ⟨⟨n, rfl⟩, hle⟩
        simp only [lastStart]
        omega
  | second => exact ⟨⟨trivial, le_rfl⟩, fun start hstart => hstart.2⟩

end TimeUnit

/-! ## Rounding -/

/-- The day number of the first Monday that has a date. -/
def firstMonday : Int := dayNumber ⟨firstYear, 1, 5⟩

namespace Instant

open TimeUnit

/-- The first day of a month that has dates is one of them. -/
theorem isValid_firstOfMonth {index : Int} (h : IsDatedMonth index) :
    Date.isValid ⟨index / 12, (index % 12).toNat + 1, 1⟩ = true := by
  have hlonger := daysBeforeMonth_lt_succ (isLeap (index / 12)) ((index % 12).toNat + 1)
    (by omega) (by omega)
  have hlength : 1 ≤ daysInMonth (index / 12) ((index % 12).toNat + 1) := by
    unfold daysInMonth
    omega
  simp only [isValid, Bool.and_eq_true, decide_eq_true_eq]
  unfold IsDatedMonth at h
  omega

/-- The midnight of a date is dated. -/
theorem isDated_midnight {d : Date} (h : d.isValid = true) : (midnight d).IsDated := by
  rw [isDated_iff, Instant.dayNumber, midnight, Int.mul_ediv_cancel _ (by decide)]
  exact dayNumber_of_isValid h

theorem map_midnight_of? {index : Int} (h : IsDatedMonth index) :
    (Date.of? (index / 12) ((index % 12).toNat + 1) 1).map midnight =
      of? (firstDay index * secondsPerDay) 0 := by
  have hvalid := isValid_firstOfMonth h
  rw [Date.of?, if_pos hvalid, Option.map_some, eq_comm, of?_eq_some_iff]
  exact ⟨rfl, isDated_midnight hvalid⟩

/-- Rounding gives the last start that is not behind an instant, if it has a date. -/
theorem floor?_eq {t : Instant} (ht : t.IsDated) (unit : TimeUnit) :
    t.floor? unit = of? (unit.lastStart t.second) 0 := by
  have hmonth : IsDatedMonth (monthOf t.dayNumber) := by
    rw [isDatedMonth_monthOf_iff, ← isDated_iff]
    exact ht
  have hinYear := month_ofDayNumber t.dayNumber
  cases unit with
  | year =>
      have hyear : IsDatedMonth (12 * (monthOf t.dayNumber / 12)) := by
        unfold IsDatedMonth at *
        omega
      have hstart := map_midnight_of? hyear
      rw [show 12 * (monthOf t.dayNumber / 12) / 12 = t.date.year by
          unfold monthOf date
          omega,
        show (12 * (monthOf t.dayNumber / 12) % 12).toNat + 1 = 1 by omega] at hstart
      exact hstart
  | month =>
      have hstart := map_midnight_of? hmonth
      rw [show monthOf t.dayNumber / 12 = t.date.year by
          unfold monthOf date
          omega,
        show (monthOf t.dayNumber % 12).toNat + 1 = t.date.month by
          unfold monthOf date
          omega] at hstart
      exact hstart
  | week => rfl
  | day =>
      rw [eq_comm, floor?, of?_eq_some_iff]
      refine ⟨?_, ?_⟩
      · rw [midnight, date, dayNumber_ofDayNumber]
        rfl
      · rw [isDated_iff, Instant.dayNumber, midnight, date, dayNumber_ofDayNumber,
          Int.mul_ediv_cancel _ (by decide), ← isDated_iff]
        exact ht
  | hour => rfl
  | minute => rfl
  | second => rfl

/-- The last start that is not behind an instant. -/
theorem isGreatest_start (t : Instant) (unit : TimeUnit) :
    IsGreatest {b | unit.IsStart b ∧ b ≤ t} ⟨unit.lastStart t.second, 0⟩ := by
  obtain ⟨⟨hstarts, hle⟩, hlast⟩ := isGreatest_lastStart unit t.second
  refine ⟨⟨⟨rfl, hstarts⟩, whole_le_iff.mpr hle⟩, ?_⟩
  rintro ⟨s, nano⟩ ⟨⟨rfl, hs⟩, hle⟩
  exact whole_le_iff.mpr (hlast ⟨hs, whole_le_iff.mp hle⟩)

theorem floor?_eq_some_iff {t r : Instant} (ht : t.IsDated) {unit : TimeUnit} :
    t.floor? unit = some r ↔ IsGreatest {b | unit.IsStart b ∧ b ≤ t} r ∧ r.IsDated := by
  rw [floor?_eq ht, of?_eq_some_iff]
  refine and_congr_left fun _ => ⟨?_, fun h => h.unique (isGreatest_start t unit)⟩
  rintro rfl
  exact isGreatest_start t unit

/-- Every unit but the week starts with the first second that has a date. -/
theorem startsAt_firstSecond {unit : TimeUnit} (h : unit ≠ week) : unit.StartsAt firstSecond := by
  cases unit with
  | year => exact ⟨firstYear, rfl⟩
  | month => exact ⟨firstYear, 1, by decide, by decide, rfl⟩
  | week => exact absurd rfl h
  | day => exact Int.dvd_mul_left _ _
  | hour => exact (by decide +kernel : (3600 : Int) ∣ firstSecond)
  | minute => exact (by decide +kernel : (60 : Int) ∣ firstSecond)
  | second => trivial

/-- The first dated week starts with the first Monday, four days behind the first date. -/
theorem firstMonday_eq : firstMonday = firstDayNumber + 4 ∧ (firstMonday - 4) % 7 = 0 := by
  decide +kernel

/-- Only the days before the first Monday have no start of their week. -/
theorem floor?_eq_none_iff {t : Instant} (ht : t.IsDated) {unit : TimeUnit} :
    t.floor? unit = none ↔ unit = week ∧ t.dayNumber < firstMonday := by
  obtain ⟨⟨hstarts, hle⟩, hlast⟩ := isGreatest_lastStart unit t.second
  have hnone : t.floor? unit = none ↔ unit.lastStart t.second < firstSecond := by
    rw [floor?_eq ht, of?, ite_eq_right_iff]
    simp only [reduceCtorEq, imp_false]
    have := ht.2
    omega
  rw [hnone]
  by_cases hunit : unit = week
  · subst hunit
    obtain ⟨hfirst, hseventh⟩ := firstMonday_eq
    have hdated := (isDated_iff.mp ht).1
    have hday : week.lastStart t.second =
        (t.dayNumber - daysSinceMonday t.dayNumber) * secondsPerDay := rfl
    rw [eq_self, true_and, hday]
    unfold daysSinceMonday firstSecond secondsPerDay
    omega
  · simp only [hunit, false_and, iff_false, not_lt]
    exact hlast ⟨startsAt_firstSecond hunit, ht.1⟩

/-- Rounding gives the greatest start that is not behind an instant, if this start has a date; just
the days before the first Monday have no start of their week. So rounding twice is rounding once,
a later instant is not rounded to an earlier start, and rounding to a finer unit first changes
nothing. -/
theorem floor?_isFloor {t : Instant} (ht : t.IsDated) (unit : TimeUnit) :
    (∀ r, t.floor? unit = some r ↔ IsGreatest {b | unit.IsStart b ∧ b ≤ t} r ∧ r.IsDated) ∧
    (t.floor? unit = none ↔ unit = week ∧ t.dayNumber < firstMonday) ∧
    (∀ r, t.floor? unit = some r → r.floor? unit = some r) ∧
    (∀ u r, u.IsDated → t ≤ u → t.floor? unit = some r →
      ∃ q, u.floor? unit = some q ∧ r ≤ q) ∧
    ∀ finer r, finer.Refines unit → t.floor? finer = some r → r.floor? unit = t.floor? unit := by
  refine ⟨fun r => floor?_eq_some_iff ht, floor?_eq_none_iff ht, ?_, ?_, ?_⟩
  · intro r hr
    obtain ⟨⟨⟨hstart, -⟩, -⟩, hdated⟩ := (floor?_eq_some_iff ht).mp hr
    exact (floor?_eq_some_iff hdated).mpr ⟨⟨⟨hstart, le_rfl⟩, fun b hb => hb.2⟩, hdated⟩
  · intro u r hu hle hr
    obtain ⟨⟨⟨hstart, hbefore⟩, -⟩, -⟩ := (floor?_eq_some_iff ht).mp hr
    have hsome : u.floor? unit ≠ none := by
      intro hnone
      obtain ⟨hweek, hearly⟩ := (floor?_eq_none_iff hu).mp hnone
      have hday : t.dayNumber ≤ u.dayNumber := by
        have := le_iff.mp hle
        unfold dayNumber secondsPerDay
        omega
      have := (floor?_eq_none_iff ht).mpr ⟨hweek, hday.trans_lt hearly⟩
      simp_all
    obtain ⟨q, hq⟩ := Option.ne_none_iff_exists'.mp hsome
    exact ⟨q, hq, ((floor?_eq_some_iff hu).mp hq).1.2 ⟨hstart, hbefore.trans hle⟩⟩
  · intro finer r hfiner hr
    obtain ⟨⟨⟨-, hbefore⟩, hlast⟩, hdated⟩ := (floor?_eq_some_iff ht).mp hr
    have hsame : {b | unit.IsStart b ∧ b ≤ r} = {b | unit.IsStart b ∧ b ≤ t} := by
      ext b
      exact and_congr_right fun hb =>
        ⟨fun hle => hle.trans hbefore, fun hle => hlast ⟨hfiner b hb, hle⟩⟩
    refine Option.ext fun q => ?_
    rw [floor?_eq_some_iff hdated, floor?_eq_some_iff ht, hsame]

/-- Half a second into a leap second that ends the 29th of February 1968, the month has started on
the first, and rounding to the day first gives the same. -/
theorem floor?_isFloor_leapDay :
    let t : Instant := ⟨-57974401, 1500000000⟩
    t.IsDated ∧ IsGreatest {b | month.IsStart b ∧ b ≤ t} (midnight ⟨1968, 2, 1⟩) ∧
      t.floor? day = some (midnight ⟨1968, 2, 29⟩) ∧
      (midnight ⟨1968, 2, 29⟩).floor? month = t.floor? month := by
  have hdated : IsDated ⟨-57974401, 1500000000⟩ := by decide +kernel
  have hmonth : floor? ⟨-57974401, 1500000000⟩ month = some (midnight ⟨1968, 2, 1⟩) := by
    decide +kernel
  have hday : floor? ⟨-57974401, 1500000000⟩ day = some (midnight ⟨1968, 2, 29⟩) := by
    decide +kernel
  obtain ⟨hgreatest, -, -, -, hfiner⟩ := floor?_isFloor hdated month
  exact ⟨hdated, ((hgreatest _).mp hmonth).1, hday,
    hfiner day _ refines_next.2.2.2.2.1 hday⟩

end Instant
end Rollup.Calendar
