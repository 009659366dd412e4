/-
# Buckets of time

The buckets of an interval are numbered along the line of time. An instant lies in the last bucket
that has started by then, and the value of this bucket, its start and its index on the grid say the
same, as long as the integers in between are kept exactly.
-/

import Rollup.Aggregation.Grid
import Rollup.Proofs.Calendar.Months
import Rollup.Proofs.Number.Exact
import Rollup.Proofs.Request.Branches

namespace Rollup

open Calendar

namespace DateInterval

variable {interval : DateInterval} {k ms : Int}

/-! ## Intervals that can be stated -/

/-- Whether an interval is one that a request can state: some seconds, weeks that start on Monday,
or one, three or twelve months. -/
def IsStated : DateInterval → Prop
  | seconds width offset => 1 ≤ width ∧ (offset = 0 ∨ width = 604800 ∧ offset = weekOffset)
  | months n => n = 1 ∨ n = 3 ∨ n = 12

theorem isStated_of_calendar? {text : String} (h : calendar? text = some interval) :
    interval.IsStated := by
  have hmem := Request.mem_of_lookup h
  simp only [List.mem_cons, Prod.mk.injEq, List.not_mem_nil, or_false] at hmem
  rcases hmem with ⟨-, rfl⟩ | ⟨-, rfl⟩ | ⟨-, rfl⟩ | ⟨-, rfl⟩ | ⟨-, rfl⟩ | ⟨-, rfl⟩ | ⟨-, rfl⟩ |
    ⟨-, rfl⟩ | ⟨-, rfl⟩ | ⟨-, rfl⟩ | ⟨-, rfl⟩ | ⟨-, rfl⟩ | ⟨-, rfl⟩ | ⟨-, rfl⟩ <;>
    simp [IsStated]

theorem isStated_of_fixed? {text : String} (h : fixed? text = some interval) :
    interval.IsStated := by
  obtain ⟨ms, hms, hwhole⟩ := Option.bind_eq_some_iff.mp h
  have hpos : 0 < ms := by
    unfold fixedMillis? at hms
    obtain ⟨amount, -, hms⟩ := Option.bind_eq_some_iff.mp hms
    obtain ⟨factor, hfactor, hms⟩ := Option.bind_eq_some_iff.mp hms
    have hfactorPos : 0 < factor := by
      have hall : ∀ entry ∈ [("ms", (1 : Int)), ("s", 1000), ("m", 60000), ("h", 3600000),
          ("d", 86400000)], 0 < entry.2 := by decide
      exact hall _ (Request.mem_of_lookup hfactor)
    split at hms
    · rename_i hamount
      exact Option.some.inj hms ▸ Int.mul_pos hamount.1 hfactorPos
    · cases hms
  split at hwhole
  · rename_i hmultiple
    obtain rfl := Option.some.inj hwhole
    exact ⟨by omega, Or.inl rfl⟩
  · cases hwhole

/-! ## Buckets along the line of time -/

/-- The index of the bucket in which an instant lies, given in milliseconds. -/
def bucketOf : DateInterval → Int → Int
  | seconds width offset, ms => (ms / 1000 - offset) / width
  | months n, ms => monthOf (ms / 86400000) / n

/-- The value of a bucket. -/
def bucketValue : DateInterval → Int → Int
  | seconds width offset, k => k * width + offset
  | months n, k => yearMonthAt (k * n)

/-- The start of a bucket in milliseconds. -/
def bucketStart : DateInterval → Int → Int
  | seconds width offset, k => (k * width + offset) * 1000
  | months n, k => firstDay (k * n) * 86400000

/-- The buckets that have started by an instant are those up to its own. -/
theorem le_bucketOf_iff (h : interval.IsStated) :
    k ≤ interval.bucketOf ms ↔ interval.bucketStart k ≤ ms := by
  cases interval with
  | seconds width offset =>
      rw [bucketOf, Int.le_ediv_iff_mul_le (by have := h.1; omega), bucketStart]
      omega
  | months n =>
      have hn : 0 < n := by
        rcases h with rfl | rfl | rfl <;> decide
      rw [bucketOf, Int.le_ediv_iff_mul_le hn, le_monthOf_iff, bucketStart]
      omega

theorem bucketStart_lt_succ (h : interval.IsStated) (k : Int) :
    interval.bucketStart k < interval.bucketStart (k + 1) := by
  cases interval with
  | seconds width offset =>
      have hwidth := h.1
      have hnext : (k + 1) * width = k * width + width := by rw [Int.add_mul, Int.one_mul]
      rw [bucketStart, bucketStart, hnext]
      omega
  | months n =>
      have hless : firstDay (k * n) < firstDay ((k + 1) * n) := by
        refine firstDay_lt_iff.mpr ?_
        rw [Int.add_mul]
        rcases h with rfl | rfl | rfl <;> omega
      rw [bucketStart, bucketStart]
      omega

theorem bucketOf_bucketStart (h : interval.IsStated) (k : Int) :
    interval.bucketOf (interval.bucketStart k) = k := by
  have hstarted := (le_bucketOf_iff h).mpr (le_refl (interval.bucketStart k))
  have hnext : ¬k + 1 ≤ interval.bucketOf (interval.bucketStart k) := fun hle =>
    absurd ((le_bucketOf_iff h).mp hle) (not_le.mpr (bucketStart_lt_succ h k))
  omega

theorem bucketOf_mono (h : interval.IsStated) {later : Int} (hle : ms ≤ later) :
    interval.bucketOf ms ≤ interval.bucketOf later :=
  (le_bucketOf_iff h).mpr (((le_bucketOf_iff h).mp (le_refl _)).trans hle)

theorem bucketValue_mono (h : interval.IsStated) {next : Int} (hle : k ≤ next) :
    interval.bucketValue k ≤ interval.bucketValue next := by
  cases interval with
  | seconds width offset =>
      have hmul := Int.mul_le_mul_of_nonneg_right hle (by have := h.1; omega : 0 ≤ width)
      rw [bucketValue, bucketValue]
      omega
  | months n =>
      rw [bucketValue, bucketValue, yearMonthAt, yearMonthAt]
      rcases h with rfl | rfl | rfl <;> omega

/-! ## Values of buckets -/

/-- Whether an instant has a bucket: all have one of some seconds, those of the years that have
dates have one of some months. -/
def HasBucket : DateInterval → Int → Prop
  | seconds _ _, _ => True
  | months _, ms => (Instant.ofMillis? ms).isSome = true

instance (interval : DateInterval) (ms : Int) : Decidable (interval.HasBucket ms) :=
  match interval with
  | seconds _ _ => isTrue trivial
  | months _ => inferInstanceAs (Decidable (_ = true))

theorem ofMillis?_eq (h : interval.HasBucket ms) :
    interval.ofMillis? ms = some (.ofInt (interval.bucketValue (interval.bucketOf ms))) := by
  cases interval with
  | seconds width offset => rfl
  | months n =>
      have hfloor (index : Int) : index - index % n = index / n * n := by
        rw [Int.emod_def, sub_sub_cancel, Int.mul_comm]
      rw [ofMillis?, yearMonthOfMillis?_eq h, Option.map_some]
      dsimp only
      rw [monthIndex_yearMonthAt, hfloor]
      rfl

theorem ofMillis?_eq_none (h : ¬interval.HasBucket ms) : interval.ofMillis? ms = none := by
  cases interval with
  | seconds width offset => exact absurd trivial h
  | months n => rw [ofMillis?, yearMonthOfMillis?_eq_none h, Option.map_none]

/-- Parts of a second make no difference. -/
theorem bucketOf_wholeSecond (interval : DateInterval) (ms : Int) :
    interval.bucketOf (ms / 1000 * 1000) = interval.bucketOf ms := by
  have hsecond : ms / 1000 * 1000 / 1000 = ms / 1000 := by omega
  have hday : ms / 1000 * 1000 / 86400000 = ms / 86400000 := by omega
  cases interval with
  | seconds width offset => rw [bucketOf, bucketOf, hsecond]
  | months n => rw [bucketOf, bucketOf, hday]

theorem HasBucket.bucketStart (hstated : interval.IsStated) (h : interval.HasBucket ms) :
    interval.HasBucket (interval.bucketStart (interval.bucketOf ms)) := by
  cases interval with
  | seconds width offset => trivial
  | months n =>
      rw [HasBucket, isSome_ofMillis?_iff] at h ⊢
      rw [DateInterval.bucketStart, Int.mul_ediv_cancel _ (by decide), monthOf_firstDay]
      obtain ⟨hlow, hhigh⟩ := h
      rw [IsDatedMonth, bucketOf]
      unfold firstYear lastYear at *
      rcases hstated with rfl | rfl | rfl <;> omega

/-- Whether the integers that the value of a bucket is made from are kept exactly. -/
def IsHeld : DateInterval → Int → Prop
  | seconds width offset, k => k.natAbs < 2 ^ 53 ∧ width.natAbs < 2 ^ 53 ∧ offset.natAbs < 2 ^ 53 ∧
      (k * width).natAbs < 2 ^ 53 ∧ (k * width + offset).natAbs < 2 ^ 53
  | months n, k => (yearMonthAt (k * n)).natAbs < 2 ^ 53

namespace IsHeld

theorem bucketValue (h : interval.IsHeld k) : (interval.bucketValue k).natAbs < 2 ^ 53 := by
  cases interval with
  | seconds width offset => exact h.2.2.2.2
  | months n => exact h

/-- On the grid the value of a bucket has the index of the bucket, by any rule for numbers in
between. -/
theorem linear {width offset : Int} (hstated : (seconds width offset).IsStated)
    (h : (seconds width offset).IsHeld k) {rule : Rat → Int} (hrule : ∀ n : Int, rule n = n) :
    ((.ofInt ((seconds width offset).bucketValue k) - .ofInt offset) / .ofInt width :
      Binary64).toInt64 rule = k := by
  obtain ⟨hindex, hwidth, hoffset, hproduct, hvalue⟩ := h
  rw [DateInterval.bucketValue, Binary64.ofInt_sub_ofInt hvalue hoffset, Int.add_sub_cancel,
    Binary64.ofInt_mul_div_ofInt (by have := hstated.1; omega) hindex hwidth hproduct,
    Binary64.toInt64_ofInt hindex (hrule k)]

theorem months_indexOf {n : Int} (hstated : (months n).IsStated) (h : (months n).IsHeld k) :
    (months n).grid.indexOf (.ofInt ((months n).bucketValue k)) = k := by
  have hn : n ≠ 0 := by
    rcases hstated with rfl | rfl | rfl <;> decide
  show monthIndex ((Binary64.ofInt (yearMonthAt (k * n))).toInt64 Binary64.truncate) / n = k
  rw [Binary64.toInt64_ofInt h (Binary64.truncate_intCast _), monthIndex_yearMonthAt,
    Int.mul_ediv_cancel _ hn]

theorem indexOf (hstated : interval.IsStated) (h : interval.IsHeld k) :
    interval.grid.indexOf (.ofInt (interval.bucketValue k)) = k := by
  cases interval with
  | seconds width offset => exact h.linear hstated Binary64.roundHalfAway_intCast
  | months n => exact h.months_indexOf hstated

theorem floorIndex (hstated : interval.IsStated) (h : interval.IsHeld k) :
    interval.grid.floorIndex (.ofInt (interval.bucketValue k)) = k := by
  cases interval with
  | seconds width offset => exact h.linear hstated Rat.floor_intCast
  | months n => exact h.months_indexOf hstated

/-- The number that the grid has at the index of a bucket is the value of the bucket. -/
theorem number?_valueAt (hstated : interval.IsStated) (h : interval.IsHeld k) :
    Cell.number? (interval.grid.valueAt k) = some (.ofInt (interval.bucketValue k)) := by
  cases interval with
  | seconds width offset =>
      obtain ⟨hindex, hwidth, hoffset, hproduct, hvalue⟩ := h
      show Cell.number? (Json.ofBinary64 (.ofInt k * .ofInt width + .ofInt offset)) = _
      rw [Binary64.ofInt_mul_ofInt (by have := hstated.1; omega) hindex hwidth,
        Binary64.ofInt_add_ofInt hproduct hoffset, Binary64.number?_ofBinary64_ofInt hvalue]
      rfl
  | months n => rfl

/-- The value of a bucket tells its start, if this has a date. -/
theorem toMillis?_eq (h : interval.IsHeld k) :
    interval.toMillis? (.ofInt (interval.bucketValue k)) =
      if interval.HasBucket (interval.bucketStart k) then some (interval.bucketStart k)
      else none := by
  cases interval with
  | seconds width offset =>
      show some ((Binary64.ofInt (k * width + offset)).toInt64 Binary64.truncate * 1000) = _
      have hbucket : (seconds width offset).HasBucket ((seconds width offset).bucketStart k) :=
        trivial
      rw [Binary64.toInt64_ofInt h.2.2.2.2 (Binary64.truncate_intCast _), if_pos hbucket]
      rfl
  | months n =>
      show millisOfYearMonth? ((Binary64.ofInt (yearMonthAt (k * n))).toInt64
        Binary64.truncate) = _
      have hdated : (months n).HasBucket ((months n).bucketStart k) ↔ IsDatedMonth (k * n) := by
        rw [HasBucket, isSome_ofMillis?_iff, bucketStart, Int.mul_ediv_cancel _ (by decide),
          monthOf_firstDay]
      rw [Binary64.toInt64_ofInt h (Binary64.truncate_intCast _), millisOfYearMonth?_yearMonthAt]
      exact if_congr hdated.symm rfl rfl

end IsHeld

/-! ## The bucket of an instant -/

/-- Whether an instant is near enough for its bucket to be kept exactly: its seconds and the width
have 52 binary digits, or it has a date. -/
def Covers : DateInterval → Int → Prop
  | seconds width _, ms => width < 2 ^ 52 ∧ (ms / 1000).natAbs < 2 ^ 52
  | months _, ms => (Instant.ofMillis? ms).isSome = true

/-- All instants that have a date are near enough. -/
theorem covers_of_isSome (h : (Instant.ofMillis? ms).isSome = true)
    (hwidth : ∀ width offset, interval = seconds width offset → width < 2 ^ 52) :
    interval.Covers ms := by
  cases interval with
  | seconds width offset =>
      refine ⟨hwidth width offset rfl, ?_⟩
      have hfirst : Instant.firstSecond = -8334601228800 := by decide +kernel
      have hlast : Instant.lastSecond = 8210266876799 := by decide +kernel
      unfold Instant.ofMillis? Instant.of? at h
      split at h
      · omega
      · cases h
  | months n => exact h

theorem Covers.hasBucket (h : interval.Covers ms) : interval.HasBucket ms := by
  cases interval with
  | seconds width offset => trivial
  | months n => exact h

/-- The bucket of an instant that is near enough and the bucket behind it are kept exactly. -/
theorem Covers.isHeld (hstated : interval.IsStated) (h : interval.Covers ms) :
    interval.IsHeld (interval.bucketOf ms) ∧ interval.IsHeld (interval.bucketOf ms + 1) := by
  cases interval with
  | seconds width offset =>
      obtain ⟨hwidth, hnear⟩ := h
      obtain ⟨hpositive, hoffset⟩ := hstated
      have hoffset' : offset.natAbs ≤ 345600 ∧ (offset = 0 ∨ width = 604800) := by
        rcases hoffset with rfl | ⟨rfl, rfl⟩
        · exact ⟨by decide, Or.inl rfl⟩
        · decide
      have hlow := Int.ediv_mul_le (ms / 1000 - offset) (by omega : width ≠ 0)
      have hhigh := Int.lt_ediv_add_one_mul_self (ms / 1000 - offset) (by omega : 0 < width)
      rw [bucketOf]
      generalize (ms / 1000 - offset) / width = k at hlow hhigh
      have hindex (k : Int) : k.natAbs ≤ (k * width).natAbs := by
        rw [Int.natAbs_mul]
        exact Nat.le_mul_of_pos_right _ (by omega)
      have hfirst := hindex k
      have hsecond := hindex (k + 1)
      have hnext : (k + 1) * width = k * width + width := by rw [Int.add_mul, Int.one_mul]
      rw [IsHeld, IsHeld]
      rw [hnext] at hhigh hsecond ⊢
      omega
  | months n =>
      obtain ⟨hlow, hhigh⟩ := isSome_ofMillis?_iff.mp h
      rw [bucketOf, IsHeld, IsHeld, yearMonthAt, yearMonthAt]
      unfold firstYear lastYear at *
      rcases hstated with rfl | rfl | rfl <;> omega

/-- What the value of a bucket says about an instant: it is the value for the instant and for the
start of the bucket, it lies on the grid, and the instant is between the start and that of the next
bucket of the grid, if this has a date. -/
structure IsBucket (interval : DateInterval) (ms : Int) (value : Binary64) (start : Int) :
    Prop where
  ofMillis : interval.ofMillis? ms = some value
  toMillis : interval.toMillis? value = some start
  started : start ≤ ms
  next : ∃ next,
    Cell.number? (interval.grid.valueAt (interval.grid.indexOf value + 1)) = some next ∧
      ∀ later, interval.toMillis? next = some later → ms < later
  ofStart : interval.ofMillis? start = some value
  index : interval.grid.indexOf value = interval.grid.floorIndex value
  onGrid : Cell.number? (interval.grid.valueAt (interval.grid.indexOf value)) = some value

theorem Covers.isBucket (hstated : interval.IsStated) (h : interval.Covers ms) :
    interval.IsBucket ms (.ofInt (interval.bucketValue (interval.bucketOf ms)))
      (interval.bucketStart (interval.bucketOf ms)) := by
  obtain ⟨hheld, hnext⟩ := h.isHeld hstated
  have hstart := h.hasBucket.bucketStart hstated
  have hindex := hheld.indexOf hstated
  refine ⟨ofMillis?_eq h.hasBucket, ?_, (le_bucketOf_iff hstated).mp (le_refl _), ?_, ?_, ?_, ?_⟩
  · rw [hheld.toMillis?_eq, if_pos hstart]
  · rw [hindex]
    refine ⟨_, hnext.number?_valueAt hstated, fun later hlater => ?_⟩
    rw [hnext.toMillis?_eq] at hlater
    split at hlater
    · have hnot : ¬interval.bucketOf ms + 1 ≤ interval.bucketOf ms := by omega
      rw [le_bucketOf_iff hstated] at hnot
      exact Option.some.inj hlater ▸ not_le.mp hnot
    · cases hlater
  · rw [ofMillis?_eq hstart, bucketOf_bucketStart hstated]
  · rw [hindex, hheld.floorIndex hstated]
  · rw [hindex, hheld.number?_valueAt hstated]

/-- The conversions of an interval that can be stated agree: it is at least a second wide, every
instant that is near enough has a bucket, and later instants have no earlier buckets. -/
theorem buckets_agree {text : String}
    (hread : calendar? text = some interval ∨ fixed? text = some interval) :
    (∀ width offset, interval = seconds width offset → 1 ≤ width) ∧
      (∀ ms, interval.Covers ms → ∃ value start, interval.IsBucket ms value start) ∧
      ∀ ms later, ms ≤ later → interval.Covers ms → interval.Covers later →
        ∀ value ∈ interval.ofMillis? ms, ∀ value' ∈ interval.ofMillis? later,
          value.atMost value' = true := by
  have hstated : interval.IsStated := by
    rcases hread with h | h
    · exact isStated_of_calendar? h
    · exact isStated_of_fixed? h
  refine ⟨?_, fun ms h => ⟨_, _, h.isBucket hstated⟩, ?_⟩
  · rintro width offset rfl
    exact hstated.1
  · intro ms later hle hms hlater value hvalue value' hvalue'
    rw [Option.mem_def, ofMillis?_eq hms.hasBucket] at hvalue
    rw [Option.mem_def, ofMillis?_eq hlater.hasBucket] at hvalue'
    obtain rfl := Option.some.inj hvalue
    obtain rfl := Option.some.inj hvalue'
    exact Binary64.atMost_ofInt (hms.isHeld hstated).1.bucketValue
      (hlater.isHeld hstated).1.bucketValue (bucketValue_mono hstated (bucketOf_mono hstated hle))

/-- The last millisecond of 1969 lies in the fourth quarter, which started on the first of
October. -/
theorem quarter_isBucket : (months 3).Covers (-1) ∧
    (months 3).IsBucket (-1) (.ofInt 196910) (-7948800000) := by
  have hcovers : (months 3).Covers (-1) :=
    covers_of_isSome (by decide +kernel) fun width offset h => by cases h
  obtain ⟨value, start, hbucket⟩ :=
    (buckets_agree (Or.inl rfl : calendar? "quarter" = some (months 3) ∨ _)).2.1 (-1) hcovers
  have hvalue : (months 3).ofMillis? (-1) = some (.ofInt 196910) := by decide +kernel
  have hstart : (months 3).toMillis? (.ofInt 196910) = some (-7948800000) := by decide +kernel
  obtain rfl := Option.some.inj (hvalue.symm.trans hbucket.ofMillis)
  obtain rfl := Option.some.inj (hstart.symm.trans hbucket.toMillis)
  exact ⟨hcovers, hbucket⟩

/-- A week before 1970 starts on a Monday as well. -/
example : (seconds 604800 weekOffset).ofMillis? (-1) = some (.ofInt (-259200)) := by decide +kernel

end DateInterval
end Rollup
