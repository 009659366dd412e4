/-
# Date bounds in seconds

A date bound is given in milliseconds, and the statement compares whole seconds: the second in which
the bound lies. For a time after the second or before it this makes no difference. For the second
itself it makes none when the bound is its start. Otherwise the comparisons for later and for no
later are still right, and the other two are wrong, and so are both ends of a range of dates.
-/

import Mathlib.Data.Option.Basic
import Rollup.Proofs.Aggregation.Segments
import Rollup.Proofs.Filter.Reading
import Rollup.Proofs.Response.Steady

namespace Rollup

/-! ## Seconds -/

/-- Whether a bound in milliseconds lies inside a second, after its start. -/
def Calendar.IsInsideSecond (ms ts : Int) : Prop := ts = ms / 1000 ∧ ms % 1000 ≠ 0

/-- Whether a time lies between two bounds, of which either may be absent. -/
def Calendar.IsBetween (low high : Option Int) (t : Int) : Prop :=
  (∀ bound ∈ low, bound ≤ t) ∧ ∀ bound ∈ high, t < bound

/-- Whether one bound lies inside a second while the other one leaves the second in. -/
def Calendar.IsCut (low high : Option Int) (ts : Int) : Prop :=
  (∃ ms ∈ low, IsInsideSecond ms ts ∧ ∀ ms ∈ high, ts < ms / 1000) ∨
    ∃ ms ∈ high, IsInsideSecond ms ts ∧ ∀ ms ∈ low, ms ≤ ts * 1000

/-- Whether a comparison holds of two integers. -/
def Comparison.Holds : Comparison → Int → Int → Prop
  | atLeast, a, b => b ≤ a
  | above, a, b => b < a
  | atMost, a, b => a ≤ b
  | below, a, b => a < b

/-- A comparison of seconds means what it means of milliseconds, but for the second in which the
bound lies where the comparison is for no earlier or for earlier. -/
theorem Comparison.holds_seconds_iff (comparison : Comparison) (ms ts : Int) :
    (comparison.Holds ts (ms / 1000) ↔ comparison.Holds (ts * 1000) ms) ↔
      comparison = above ∨ comparison = atMost ∨ ¬ Calendar.IsInsideSecond ms ts := by
  unfold Calendar.IsInsideSecond
  cases comparison <;> simp only [Holds, reduceCtorEq, true_or, or_true, false_or, iff_true] <;>
    omega

/-- Between bounds in seconds means between bounds in milliseconds, but for the second that a bound
cuts. -/
theorem Calendar.isBetween_seconds_iff (low high : Option Int) (ts : Int) :
    (IsBetween (low.map (· / 1000)) (high.map (· / 1000)) ts ↔ IsBetween low high (ts * 1000)) ↔
      ¬ IsCut low high ts := by
  unfold IsBetween IsCut IsInsideSecond
  cases low <;> cases high <;>
    simp only [Option.map_none, Option.map_some, Option.mem_def, reduceCtorEq, Option.some.injEq,
      forall_eq', false_implies, implies_true, true_and, and_true, false_and, exists_false,
      exists_eq_left', or_false, false_or, iff_self, not_false_eq_true] <;>
    omega

/-! ## Steps that succeed -/

section

variable {α β ε : Type}

theorem exists_ok_of_bind {x : Except ε α} {f : α → Except ε β} {b : β} (h : x >>= f = .ok b) :
    ∃ a, x = .ok a ∧ f a = .ok b := by
  cases x with
  | error e => cases h
  | ok a => exact ⟨a, rfl, h⟩

/-- What steps over a list give, item by item. -/
theorem forall₂_of_mapM {f : α → Except ε β} {items : List α} {results : List β}
    (h : items.mapM f = .ok results) : List.Forall₂ (fun a b => f a = .ok b) items results := by
  induction items generalizing results with
  | nil =>
      obtain rfl : [] = results := by simpa [pure, Except.pure] using h
      exact .nil
  | cons item rest ih =>
      rw [List.mapM_cons] at h
      obtain ⟨result, hresult, h⟩ := exists_ok_of_bind h
      obtain ⟨others, hothers, h⟩ := exists_ok_of_bind h
      obtain rfl := Except.ok.inj h
      exact .cons hresult (ih hothers)

end

/-! ## Range clauses -/

namespace Clause

/-- The bounds that a range clause states, with their comparisons. -/
def statedBounds (bounds : Json) : List (Comparison × Json) :=
  boundNames.filterMap fun (name, comparison) =>
    (bounds.present? name).map fun value => (comparison, value)

/-- A range compares its field with every stated bound, in order. -/
theorem range_atoms {now : Calendar.Instant} {body : Json} {outcome : Outcome}
    (h : range now body = .ok outcome) :
    ∃ field bounds condition, singleField "range" body = .ok (field, bounds) ∧
      outcome.condition = some condition ∧
      Condition.conjunction (outcome.met.map Condition.atom) = some condition ∧
      List.Forall₂ (fun bound a => ∃ literal,
          boundLiteral now (bounds.stringField? "format") bound.2 = .ok literal ∧
          a = .compares field bound.1 literal)
        (statedBounds bounds) outcome.met := by
  unfold range at h
  obtain ⟨⟨field, bounds⟩, hfield, h⟩ := exists_ok_of_bind h
  dsimp only at h
  split at h
  · rename_i bounds
    obtain ⟨atoms, hatoms, h⟩ := exists_ok_of_bind h
    split at h
    · rename_i condition hcondition
      obtain rfl := Except.ok.inj h
      refine ⟨field, _, condition, hfield, rfl, hcondition, ?_⟩
      apply (forall₂_of_mapM hatoms).imp
      rintro ⟨comparison, value⟩ a hstep
      obtain ⟨literal, hliteral, hstep⟩ := exists_ok_of_bind hstep
      exact ⟨literal, hliteral, (Except.ok.inj hstep).symm⟩
    · cases h
  · cases h

/-- The literal of a date is its second. -/
theorem boundLiteral_of_isDateBound {now : Calendar.Instant} {format : Option String}
    {value : Json} {literal : Statement.Literal} (hdate : isDateBound format value = true)
    (h : boundLiteral now format value = .ok literal) :
    ∃ ms, Calendar.resolveMillis now format value = .ok ms ∧
      literal = .number (.integer (ms / 1000)) := by
  unfold boundLiteral at h
  rw [if_pos hdate] at h
  split at h
  · rename_i ms hms
    exact ⟨ms, hms, (Except.ok.inj h).symm⟩
  · cases h

end Clause

/-! ## Ranges of dates -/

namespace Ranges

/-- Whether a bound that may be absent is resolved to milliseconds. -/
def ResolvesTo (now : Calendar.Instant) (format : Option String) :
    Option Json → Option Int → Prop :=
  Option.Rel fun value ms => Calendar.resolveMillis now format value = .ok ms

theorem eq_of_resolvesTo {now : Calendar.Instant} {format : Option String} {value : Json}
    {ms? : Option Int} {ms : Int} (h : ResolvesTo now format (some value) ms?)
    (hms : Calendar.resolveMillis now format value = .ok ms) : some ms = ms? := by
  cases h with
  | some hother => exact congrArg some (Except.ok.inj (hms.symm.trans hother))

/-- The bounds of a range of dates are the seconds of what they are resolved to. -/
theorem dateSpecOfJson_spec {name : String} {now : Calendar.Instant} {format : Option String}
    {item : Json} {spec : RangeSpec} (h : dateSpecOfJson name now format item = .ok spec) :
    ∃ low high, ResolvesTo now format (item.present? "from") low ∧
      ResolvesTo now format (item.present? "to") high ∧
      spec.low = low.map (fun ms => Binary64.ofInt (ms / 1000)) ∧
      spec.high = high.map (fun ms => Binary64.ofInt (ms / 1000)) := by
  unfold dateSpecOfJson at h
  extract_lets bound at h
  have hbound {field : String} {ms? : Option Int} (hms : bound field = .ok ms?) :
      ResolvesTo now format (item.present? field) ms? := by
    simp only [bound] at hms
    cases hvalue : item.present? field with
    | none =>
        simp only [hvalue] at hms
        obtain rfl := Except.ok.inj hms
        exact .none
    | some value =>
        cases hresolved : Calendar.resolveMillis now format value with
        | error text => simp [hvalue, hresolved] at hms
        | ok ms =>
            simp only [hvalue, hresolved] at hms
            obtain rfl := Except.ok.inj hms
            exact .some hresolved
  obtain ⟨low, hlow, h⟩ := exists_ok_of_bind h
  obtain ⟨high, hhigh, h⟩ := exists_ok_of_bind h
  split at h
  · cases h
  · obtain rfl := Except.ok.inj h
    exact ⟨low, high, hbound hlow, hbound hhigh, rfl, rfl⟩

/-- The place of an integer that the format holds. -/
theorem place_ofInt {n : Int} (h : n.natAbs < 2 ^ 53) :
    (Binary64.ofInt n).place = ((n : ℝ) : EReal) := by
  rw [Binary64.ofInt, Binary64.round_intCast h]
  show (((n : ℚ) : ℝ) : EReal) = _
  rw [Rat.cast_intCast]

/-- The range of the seconds of two bounds. -/
theorem covers_seconds_iff {spec : RangeSpec} {low high : Option Int}
    (hlow : spec.low = low.map fun ms => Binary64.ofInt (ms / 1000))
    (hhigh : spec.high = high.map fun ms => Binary64.ofInt (ms / 1000))
    (hlowFits : ∀ ms ∈ low, (ms / 1000).natAbs < 2 ^ 53)
    (hhighFits : ∀ ms ∈ high, (ms / 1000).natAbs < 2 ^ 53) (ts : Int) :
    spec.Covers (ts : ℝ) ↔
      Calendar.IsBetween (low.map (· / 1000)) (high.map (· / 1000)) ts := by
  unfold RangeSpec.Covers Calendar.IsBetween
  rw [hlow, hhigh]
  apply and_congr
  · cases low with
    | none => simp
    | some ms =>
        have hplace := place_ofInt (hlowFits ms rfl)
        simp [hplace]
  · cases high with
    | none => simp
    | some ms =>
        have hplace := place_ofInt (hhighFits ms rfl)
        simp [hplace]

end Ranges

/-! ## Both -/

/-- Every stated date bound is compared as its second, and every range of dates has the seconds of
its bounds. Such a comparison means what it means in milliseconds just when it is for later or for
no later, or the bound is not inside the second of the time. A range means what it means in
milliseconds just when no bound cuts the second of the time. -/
theorem dateBounds_mean_iff (now : Calendar.Instant) :
    (∀ {body outcome}, Clause.range now body = .ok outcome →
      ∃ field bounds condition, Clause.singleField "range" body = .ok (field, bounds) ∧
        outcome.condition = some condition ∧
        Condition.conjunction (outcome.met.map Condition.atom) = some condition ∧
        List.Forall₂ (fun bound a =>
            Clause.isDateBound (bounds.stringField? "format") bound.2 = true →
            ∃ ms, Calendar.resolveMillis now (bounds.stringField? "format") bound.2 = .ok ms ∧
              a = .compares field bound.1 (.number (.integer (ms / 1000))) ∧
              a.text = Statement.quoteName field ++ " " ++ bound.1.symbol ++ " " ++
                toString (ms / 1000) ∧
              ∀ ts, (bound.1.Holds ts (ms / 1000) ↔ bound.1.Holds (ts * 1000) ms) ↔
                bound.1 = .above ∨ bound.1 = .atMost ∨ ¬ Calendar.IsInsideSecond ms ts)
          (Clause.statedBounds bounds) outcome.met) ∧
    ∀ {name body ranges}, Ranges.datesOfJson name now body = .ok ranges →
      ∃ frame, Ranges.frameOfJson name "date_range" body = .ok frame ∧
        ranges.field = frame.field ∧
        List.Forall₂ (fun item spec =>
            ∃ low high, Ranges.ResolvesTo now (body.stringField? "format")
                (item.present? "from") low ∧
              Ranges.ResolvesTo now (body.stringField? "format") (item.present? "to") high ∧
              spec.low = low.map (fun ms => Binary64.ofInt (ms / 1000)) ∧
              spec.high = high.map (fun ms => Binary64.ofInt (ms / 1000)) ∧
              ((∀ ms ∈ low, (ms / 1000).natAbs < 2 ^ 53) →
                (∀ ms ∈ high, (ms / 1000).natAbs < 2 ^ 53) →
                ∀ ts : Int, (spec.Covers (ts : ℝ) ↔ Calendar.IsBetween low high (ts * 1000)) ↔
                  ¬ Calendar.IsCut low high ts))
          frame.items ranges.specs := by
  constructor
  · intro body outcome h
    obtain ⟨field, bounds, condition, hfield, hcondition, hconjunction, hatoms⟩ :=
      Clause.range_atoms h
    refine ⟨field, bounds, condition, hfield, hcondition, hconjunction, hatoms.imp ?_⟩
    rintro ⟨comparison, value⟩ a ⟨literal, hliteral, rfl⟩ hdate
    obtain ⟨ms, hms, rfl⟩ := Clause.boundLiteral_of_isDateBound hdate hliteral
    exact ⟨ms, hms, rfl, rfl, fun ts => comparison.holds_seconds_iff ms ts⟩
  · intro name body ranges h
    unfold Ranges.datesOfJson at h
    obtain ⟨frame, hframe, h⟩ := exists_ok_of_bind h
    obtain ⟨specs, hspecs, h⟩ := exists_ok_of_bind h
    obtain rfl := Except.ok.inj h
    refine ⟨frame, hframe, rfl, (forall₂_of_mapM hspecs).imp ?_⟩
    intro item spec hspec
    obtain ⟨low, high, hfrom, hto, hlow, hhigh⟩ := Ranges.dateSpecOfJson_spec hspec
    refine ⟨low, high, hfrom, hto, hlow, hhigh, fun hlowFits hhighFits ts => ?_⟩
    rw [Ranges.covers_seconds_iff hlow hhigh hlowFits hhighFits]
    exact Calendar.isBetween_seconds_iff low high ts

/-- A range clause with one bound of a second and a half. -/
def halfSecond (name : String) : Json :=
  .object [("ts", .object [(name, .ofInt 1500), ("format", .string "epoch_millis")])]

/-- Ranges of dates from a second and a half to three seconds. -/
def halfRange : Json :=
  .object [("field", .string "ts"),
    ("ranges", .array [.object [("from", .ofInt 1500), ("to", .ofInt 3000)]])]

theorem met_halfSecond : ∀ bound ∈ Clause.boundNames,
    (Clause.range default (halfSecond bound.1)).toOption.map Clause.Outcome.met =
      some [.compares "ts" bound.2 (.number (.integer 1))] := by
  decide +kernel

theorem resolveMillis_ofInt : ∀ ms ∈ [(1500 : Int), 3000], ∀ format ∈ [none, some "epoch_millis"],
    Calendar.resolveMillis default format (.ofInt ms) = .ok ms := by
  decide +kernel

/-- The comparison for later keeps its meaning at every time, and a range from within a second at
every time but that second. -/
theorem dateBounds_half :
    (∃ outcome, Clause.range default (halfSecond "gt") = .ok outcome ∧
      outcome.met = [.compares "ts" .above (.number (.integer 1))] ∧
      ∀ ts, Comparison.above.Holds ts 1 ↔ Comparison.above.Holds (ts * 1000) 1500) ∧
    ∃ ranges, Ranges.datesOfJson "r" default halfRange = .ok ranges ∧
      ∀ spec ∈ ranges.specs, ∀ ts : Int, ts ≠ 1 →
        (spec.Covers (ts : ℝ) ↔ Calendar.IsBetween (some 1500) (some 3000) (ts * 1000)) := by
  constructor
  · have hmet := met_halfSecond ("gt", .above) (by decide)
    cases houtcome : Clause.range default (halfSecond "gt") with
    | error e => simp [houtcome, Except.toOption] at hmet
    | ok outcome =>
        obtain ⟨field, bounds, condition, hfield, -, -, hatoms⟩ :=
          (dateBounds_mean_iff default).1 houtcome
        obtain ⟨rfl, rfl⟩ := Prod.mk.inj (Except.ok.inj hfield)
        have hstated : Clause.statedBounds
            (.object [("gt", .ofInt 1500), ("format", .string "epoch_millis")]) =
              [(.above, .ofInt 1500)] := rfl
        rw [hstated] at hatoms
        obtain ⟨a, rest, hbound, -, -⟩ := List.forall₂_cons_left_iff.mp hatoms
        obtain ⟨ms, hms, -, -, hmeans⟩ := hbound (by decide +kernel)
        obtain rfl : 1500 = ms := Except.ok.inj
          ((resolveMillis_ofInt 1500 (by simp) (some "epoch_millis") (by simp)).symm.trans hms)
        rw [houtcome] at hmet
        exact ⟨outcome, rfl, Option.some.inj hmet, fun ts => (hmeans ts).mpr (Or.inl rfl)⟩
  · have hspecs : (Ranges.datesOfJson "r" default halfRange).toOption.isSome = true := by
      decide +kernel
    cases hranges : Ranges.datesOfJson "r" default halfRange with
    | error e => simp [hranges, Except.toOption] at hspecs
    | ok ranges =>
        obtain ⟨frame, hframe, -, hall⟩ := (dateBounds_mean_iff default).2 hranges
        obtain rfl : (⟨"ts", [.object [("from", .ofInt 1500), ("to", .ofInt 3000)]], false⟩ :
          Ranges.Frame) = frame := Except.ok.inj hframe
        refine ⟨ranges, rfl, fun spec hspec ts hts => ?_⟩
        obtain ⟨first, rest, hfirst, hrest, heq⟩ := List.forall₂_cons_left_iff.mp hall
        rw [heq, List.forall₂_nil_left_iff.mp hrest, List.mem_singleton] at hspec
        subst hspec
        obtain ⟨low, high, hlow, hhigh, -, -, hmeans⟩ := hfirst
        obtain rfl := Ranges.eq_of_resolvesTo hlow (resolveMillis_ofInt 1500 (by simp) none (by simp))
        obtain rfl := Ranges.eq_of_resolvesTo hhigh
          (resolveMillis_ofInt 3000 (by simp) none (by simp))
        apply (hmeans (by decide) (by decide) ts).mpr
        unfold Calendar.IsCut Calendar.IsInsideSecond
        simp [hts]

/-- The comparisons for no earlier and for earlier do not keep their meaning at the second that the
bound lies inside. -/
theorem dateBounds_half_cut :
    (Clause.range default (halfSecond "lt")).toOption.map Clause.Outcome.met =
        some [.compares "ts" .below (.number (.integer 1))] ∧
      ¬ (Comparison.below.Holds 1 1 ↔ Comparison.below.Holds (1 * 1000) 1500) ∧
    (Clause.range default (halfSecond "gte")).toOption.map Clause.Outcome.met =
        some [.compares "ts" .atLeast (.number (.integer 1))] ∧
      ¬ (Comparison.atLeast.Holds 1 1 ↔ Comparison.atLeast.Holds (1 * 1000) 1500) := by
  refine ⟨met_halfSecond ("lt", .below) (by decide), ?_,
    met_halfSecond ("gte", .atLeast) (by decide), ?_⟩
  · unfold Comparison.Holds
    omega
  · unfold Comparison.Holds
    omega

end Rollup
