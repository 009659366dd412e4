/-
# Months on the line of days

The months follow one another without a gap: the first day of a month comes before that of the next
one, and every day lies in exactly one month. The date of a day names this month.
-/

import Mathlib.Data.Int.SuccPred
import Mathlib.Order.SuccPred.Archimedean
import Rollup.Calendar.Instant

namespace Rollup.Calendar

open Date

/-! ## Years and the months in them -/

/-- A year has as many days as its months together. -/
theorem daysBeforeYear_succ (year : Int) :
    daysBeforeYear (year + 1) = daysBeforeYear year + daysBeforeMonth (isLeap year) 13 := by
  have hleap : isLeap year = true ↔ year % 4 = 0 ∧ (year % 100 ≠ 0 ∨ year % 400 = 0) := by
    simp [isLeap]
  have hdays : daysBeforeMonth (isLeap year) 13 = 365 + if isLeap year then 1 else 0 := by
    cases isLeap year <;> rfl
  rw [hdays]
  unfold daysBeforeYear
  split
  · rename_i h
    rw [hleap] at h
    omega
  · rename_i h
    rw [hleap] at h
    omega

theorem daysBeforeMonth_one (leap : Bool) : daysBeforeMonth leap 1 = 0 := by
  cases leap <;> rfl

theorem daysBeforeMonth_lt_succ : ∀ leap, ∀ month < 13, 0 < month →
    daysBeforeMonth leap month < daysBeforeMonth leap (month + 1) := by
  decide

/-- The month that is found for a day of a year has begun by then and has not ended. -/
theorem monthOfDay_spec : ∀ leap, ∀ day < daysBeforeMonth leap 13,
    0 < monthOfDay leap day ∧ monthOfDay leap day < 13 ∧
      daysBeforeMonth leap (monthOfDay leap day) ≤ day ∧
      day < daysBeforeMonth leap (monthOfDay leap day + 1) := by
  decide +kernel

/-! ## First days -/

/-- The first day of the month at an index. -/
def firstDay (index : Int) : Int := dayNumber ⟨index / 12, (index % 12).toNat + 1, 1⟩

theorem firstDay_eq (index : Int) : firstDay index = daysBeforeYear (index / 12) +
    daysBeforeMonth (isLeap (index / 12)) ((index % 12).toNat + 1) - daysBeforeEpoch := by
  simp [firstDay, dayNumber]

/-- The next month starts when all days of a month are over. -/
theorem firstDay_succ (index : Int) : firstDay (index + 1) = daysBeforeYear (index / 12) +
    daysBeforeMonth (isLeap (index / 12)) ((index % 12).toNat + 1 + 1) - daysBeforeEpoch := by
  rw [firstDay_eq]
  by_cases hlast : index % 12 = 11
  · have hyear : (index + 1) / 12 = index / 12 + 1 := by omega
    have hmonth : (index + 1) % 12 = 0 := by omega
    rw [hyear, hmonth, hlast, daysBeforeYear_succ]
    simp [daysBeforeMonth_one]
  · have hyear : (index + 1) / 12 = index / 12 := by omega
    have hmonth : ((index + 1) % 12).toNat = (index % 12).toNat + 1 := by omega
    rw [hyear, hmonth]

theorem firstDay_lt_iff {first second : Int} :
    firstDay first < firstDay second ↔ first < second := by
  have hmono : StrictMono firstDay := by
    refine strictMono_int_of_lt_succ fun index => ?_
    have hless := daysBeforeMonth_lt_succ (isLeap (index / 12)) ((index % 12).toNat + 1)
      (by omega) (by omega)
    rw [firstDay_eq, firstDay_succ]
    omega
  exact hmono.lt_iff_lt

theorem firstDay_le_iff {first second : Int} :
    firstDay first ≤ firstDay second ↔ first ≤ second := by
  rw [← not_lt, firstDay_lt_iff, not_lt]

/-! ## The month of a day -/

/-- The index of the month of a day. -/
def monthOf (n : Int) : Int := 12 * (ofDayNumber n).year + (ofDayNumber n).month - 1

/-- The date of a day has a month of the year. -/
theorem month_ofDayNumber (n : Int) :
    0 < (ofDayNumber n).month ∧ (ofDayNumber n).month < 13 ∧
      firstDay (monthOf n) ≤ n ∧ n < firstDay (monthOf n + 1) := by
  obtain ⟨hbegun, hnotOver⟩ := yearOfDay_spec (n + daysBeforeEpoch)
  rw [daysBeforeYear_succ] at hnotOver
  have hyear : (ofDayNumber n).year = yearOfDay (n + daysBeforeEpoch) := rfl
  have hmonth : (ofDayNumber n).month = monthOfDay (isLeap (yearOfDay (n + daysBeforeEpoch)))
      (n + daysBeforeEpoch - daysBeforeYear (yearOfDay (n + daysBeforeEpoch))).toNat := rfl
  rw [firstDay_eq, firstDay_succ, monthOf, hyear]
  generalize hyearOf : yearOfDay (n + daysBeforeEpoch) = year at *
  obtain ⟨hpos, hlt, hlow, hhigh⟩ := monthOfDay_spec (isLeap year)
    (n + daysBeforeEpoch - daysBeforeYear year).toNat (by omega)
  rw [← hmonth] at hpos hlt hlow hhigh
  generalize (ofDayNumber n).month = month at *
  have hquotient : (12 * year + (month : Int) - 1) / 12 = year := by omega
  have hremainder : ((12 * year + (month : Int) - 1) % 12).toNat + 1 = month := by omega
  rw [hquotient, hremainder]
  exact ⟨hpos, hlt, by omega, by omega⟩

theorem firstDay_monthOf_le (n : Int) : firstDay (monthOf n) ≤ n := (month_ofDayNumber n).2.2.1

theorem lt_firstDay_monthOf_succ (n : Int) : n < firstDay (monthOf n + 1) :=
  (month_ofDayNumber n).2.2.2

/-- A day has come to a month when the month has started. -/
theorem le_monthOf_iff {index n : Int} : index ≤ monthOf n ↔ firstDay index ≤ n := by
  constructor
  · intro h
    exact (firstDay_le_iff.mpr h).trans (firstDay_monthOf_le n)
  · intro h
    have hlt := firstDay_lt_iff.mp (h.trans_lt (lt_firstDay_monthOf_succ n))
    omega

theorem monthOf_firstDay (index : Int) : monthOf (firstDay index) = index := by
  have hstarted := le_monthOf_iff.mpr (le_refl (firstDay index))
  have hnot : ¬index + 1 ≤ monthOf (firstDay index) := fun h =>
    absurd (le_monthOf_iff.mp h) (not_le.mpr (firstDay_lt_iff.mpr (lt_add_one index)))
  omega

/-! ## Months as integers -/

/-- Whether a month lies in the years that have dates. -/
def IsDatedMonth (index : Int) : Prop := 12 * firstYear ≤ index ∧ index < 12 * (lastYear + 1)

instance (index : Int) : Decidable (IsDatedMonth index) := inferInstanceAs (Decidable (_ ∧ _))

/-- A month starts with its first day, if it lies in the years that have dates. -/
theorem millisOfYearMonth?_yearMonthAt (index : Int) : millisOfYearMonth? (yearMonthAt index) =
    if IsDatedMonth index then some (firstDay index * 86400000) else none := by
  have hyear : yearMonthAt index / 100 = index / 12 := by
    unfold yearMonthAt
    omega
  have hmonth : (yearMonthAt index % 100).toNat = (index % 12).toNat + 1 := by
    unfold yearMonthAt
    omega
  have hday : 1 ≤ daysInMonth (index / 12) ((index % 12).toNat + 1) := by
    have := daysBeforeMonth_lt_succ (isLeap (index / 12)) ((index % 12).toNat + 1) (by omega)
      (by omega)
    unfold daysInMonth
    omega
  have hvalid : Date.isValid ⟨index / 12, (index % 12).toNat + 1, 1⟩ = true ↔
      IsDatedMonth index := by
    simp only [isValid, Bool.and_eq_true, decide_eq_true_eq, IsDatedMonth]
    omega
  rw [millisOfYearMonth?, hyear, hmonth, of?]
  by_cases hdated : IsDatedMonth index
  · rw [if_pos hdated, if_pos (hvalid.mpr hdated), Option.map_some, Instant.midnight,
      Instant.millis]
    simp only [secondsPerDay, firstDay]
    congr 1
    omega
  · rw [if_neg hdated, if_neg fun h => hdated (hvalid.mp h), Option.map_none]

/-- A day has a date when its month lies in the years that have dates. -/
theorem isDatedMonth_monthOf_iff {n : Int} :
    IsDatedMonth (monthOf n) ↔ firstDayNumber ≤ n ∧ n ≤ lastDayNumber := by
  have hfirst : firstDay (12 * firstYear) = firstDayNumber := by decide +kernel
  have hlast : firstDay (12 * (lastYear + 1)) = lastDayNumber + 1 := by decide +kernel
  rw [IsDatedMonth, le_monthOf_iff, hfirst, ← not_le, le_monthOf_iff, hlast]
  omega

/-- The date of a day has its number. -/
theorem dayNumber_ofDayNumber (n : Int) : (ofDayNumber n).dayNumber = n := by
  obtain ⟨hbegun, hnotOver⟩ := yearOfDay_spec (n + daysBeforeEpoch)
  rw [daysBeforeYear_succ] at hnotOver
  obtain ⟨-, -, hlow, -⟩ := monthOfDay_spec (isLeap (yearOfDay (n + daysBeforeEpoch)))
    (n + daysBeforeEpoch - daysBeforeYear (yearOfDay (n + daysBeforeEpoch))).toNat (by omega)
  simp only [ofDayNumber, dayNumber]
  omega

/-- A date is so many days behind the first day of its month. -/
theorem dayNumber_eq_firstDay_add {d : Date} (hlow : 1 ≤ d.month) (hhigh : d.month ≤ 12) :
    d.dayNumber = firstDay (12 * d.year + d.month - 1) + (d.day - 1) := by
  have hyear : (12 * d.year + (d.month : Int) - 1) / 12 = d.year := by omega
  have hmonth : ((12 * d.year + (d.month : Int) - 1) % 12).toNat + 1 = d.month := by omega
  rw [firstDay_eq, hyear, hmonth, dayNumber]
  omega

/-- The day of a date that exists lies in its month. -/
theorem monthOf_dayNumber {d : Date} (h : d.isValid = true) :
    monthOf d.dayNumber = 12 * d.year + d.month - 1 := by
  simp only [isValid, Bool.and_eq_true, decide_eq_true_eq] at h
  unfold daysInMonth at h
  have hyear : (12 * d.year + (d.month : Int) - 1) / 12 = d.year := by omega
  have hmonth : ((12 * d.year + (d.month : Int) - 1) % 12).toNat + 1 = d.month := by omega
  have hstarted : 12 * d.year + d.month - 1 ≤ monthOf d.dayNumber := by
    rw [le_monthOf_iff, dayNumber_eq_firstDay_add (by omega) (by omega)]
    omega
  have hnotOver : ¬12 * d.year + d.month - 1 + 1 ≤ monthOf d.dayNumber := by
    rw [le_monthOf_iff, firstDay_succ, hyear, hmonth, dayNumber]
    omega
  omega

/-- The dates that exist have the day numbers from the first to the last. -/
theorem dayNumber_of_isValid {d : Date} (h : d.isValid = true) :
    firstDayNumber ≤ d.dayNumber ∧ d.dayNumber ≤ lastDayNumber := by
  rw [← isDatedMonth_monthOf_iff, monthOf_dayNumber h]
  simp only [isValid, Bool.and_eq_true, decide_eq_true_eq] at h
  unfold IsDatedMonth
  omega

theorem isSome_ofMillis?_iff {ms : Int} :
    (Instant.ofMillis? ms).isSome = true ↔ IsDatedMonth (monthOf (ms / 86400000)) := by
  rw [isDatedMonth_monthOf_iff, Instant.ofMillis?, Instant.of?]
  unfold Instant.firstSecond Instant.lastSecond secondsPerDay
  split
  · rename_i h
    simp only [Option.isSome_some, true_iff]
    omega
  · rename_i h
    simp only [Option.isSome_none, false_iff, Bool.false_eq_true]
    omega

/-- The month of an instant is that of its day. -/
theorem yearMonthOfMillis?_eq {ms : Int} (h : (Instant.ofMillis? ms).isSome = true) :
    yearMonthOfMillis? ms = some (yearMonthAt (monthOf (ms / 86400000))) := by
  obtain ⟨t, ht⟩ := Option.isSome_iff_exists.mp h
  have hday : t.dayNumber = ms / 86400000 := by
    unfold Instant.ofMillis? Instant.of? at ht
    split at ht
    · obtain rfl := Option.some.inj ht
      simp only [Instant.dayNumber, secondsPerDay]
      omega
    · cases ht
  obtain ⟨hpos, hlt, -, -⟩ := month_ofDayNumber (ms / 86400000)
  rw [yearMonthOfMillis?, ht, Option.map_some, Instant.date, hday, monthOf, yearMonthAt]
  congr 1
  omega

theorem yearMonthOfMillis?_eq_none {ms : Int} (h : ¬(Instant.ofMillis? ms).isSome = true) :
    yearMonthOfMillis? ms = none := by
  rw [yearMonthOfMillis?, Option.not_isSome_iff_eq_none.mp h, Option.map_none]

/-! ## Calendar functions -/

/-- Functions that name the year and the month of a second: the month has started by then, and it
is not over. -/
structure UtcCalendar where
  year : Int → Int
  month : Int → Int
  isMonth : ∀ second, 1 ≤ month second ∧ month second ≤ 12
  started : ∀ second, firstDay (12 * year second + month second - 1) * 86400 ≤ second
  notOver : ∀ second, second < firstDay (12 * year second + month second) * 86400

namespace UtcCalendar

/-- The functions that read off the date of the day. -/
def gregorian : UtcCalendar where
  year second := (ofDayNumber (second / 86400)).year
  month second := (ofDayNumber (second / 86400)).month
  isMonth second := by
    have := month_ofDayNumber (second / 86400)
    omega
  started second := by
    have hstarted := firstDay_monthOf_le (second / 86400)
    rw [monthOf] at hstarted
    omega
  notOver second := by
    have hnotOver := lt_firstDay_monthOf_succ (second / 86400)
    rw [monthOf, Int.sub_add_cancel] at hnotOver
    omega

/-- There is one month in which a second lies. -/
theorem monthOf_eq (calendar : UtcCalendar) (second : Int) :
    monthOf (second / 86400) = 12 * calendar.year second + calendar.month second - 1 := by
  have hstarted : 12 * calendar.year second + calendar.month second - 1 ≤
      monthOf (second / 86400) := by
    have := calendar.started second
    rw [le_monthOf_iff]
    omega
  have hnotOver : ¬12 * calendar.year second + calendar.month second ≤
      monthOf (second / 86400) := by
    have := calendar.notOver second
    rw [le_monthOf_iff]
    omega
  omega

end UtcCalendar

end Rollup.Calendar
