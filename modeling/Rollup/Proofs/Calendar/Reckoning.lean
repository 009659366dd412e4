/-
# Where a reckoning overruns

All instants of a reckoning can be represented, and the checks on its way cut off nothing that has a
date. One step is left that can overrun, the rounding of an instant before the first Monday to its
week, and a reckoning overruns exactly when it comes to such a step.
-/

import Mathlib.Logic.Relation
import Rollup.Calendar.Reckoning
import Rollup.Proofs.Calendar.Representable

namespace Rollup.Calendar

open Date

/-! ## Results -/

namespace Reckoned

variable {α β : Type}

@[simp]
theorem value_bind (a : α) (next : α → Reckoned β) : (value a >>= next) = next a := rfl

@[simp]
theorem nothing_bind (next : α → Reckoned β) : ((nothing : Reckoned α) >>= next) = nothing := rfl

@[simp]
theorem overrun_bind (next : α → Reckoned β) : ((overrun : Reckoned α) >>= next) = overrun := rfl

@[simp]
theorem ofOption_some (a : α) : ofOption (some a) = value a := rfl

@[simp]
theorem ofOption_none : (ofOption none : Reckoned α) = nothing := rfl

@[simp]
theorem toOption_value (a : α) : (value a).toOption = some a := rfl

@[simp]
theorem toOption_nothing : (nothing : Reckoned α).toOption = none := rfl

@[simp]
theorem toOption_overrun : (overrun : Reckoned α).toOption = none := rfl

@[simp]
theorem toOption_ofOption (a : Option α) : (ofOption a).toOption = a := by
  cases a <;> rfl

@[simp]
theorem ofOption_ne_overrun (a : Option α) : ofOption a ≠ overrun := by
  cases a <;> simp

theorem toOption_bind (a : Reckoned α) (next : α → Reckoned β) :
    (a >>= next).toOption = a.toOption.bind fun x => (next x).toOption := by
  cases a <;> rfl

theorem toOption_eq_some_iff {a : Reckoned α} {x : α} : a.toOption = some x ↔ a = value x := by
  cases a <;> simp

end Reckoned

/-! ## Single steps -/

namespace Instant

variable {t : Instant}

/-- No date is left behind so many seconds that they are no length of time. -/
theorem addSeconds?_eq_none (ht : t.IsDated) {seconds : Int}
    (h : ¬Width.seconds.Holds seconds) : t.addSeconds? seconds = none := by
  have hfar (start : Int) (nano : Nat) (hstart : start = t.second ∨ start = t.second + 1) :
      of? (start + seconds) nano = none := by
    rw [Option.eq_none_iff_forall_ne_some]
    intro u hu
    obtain ⟨rfl, hdated⟩ := of?_eq_some_iff.mp hu
    have hthere := hdated.second_bounds
    have hhere := ht.second_bounds
    simp only [Width.Holds, Width.seconds, Binary64.int64Max] at h
    dsimp only at hthere
    omega
  unfold addSeconds?
  split
  · rename_i hzero
    exact absurd (by rw [hzero]; decide) h
  · split
    · exact hfar _ _ (Or.inl rfl)
    · refine hfar _ _ ?_
      split
      · exact Or.inl rfl
      · exact Or.inr rfl

/-- No date is left behind so many months that 32 bits do not hold their number. -/
theorem addMonths?_eq_none (ht : t.IsDated) {months : Int} (h : 0xffffffff < months.natAbs) :
    t.addMonths? months = none := by
  have hmonth : IsDatedMonth (12 * t.date.year + t.date.month - 1) :=
    isDatedMonth_monthOf_iff.mpr (isDated_iff.mp ht)
  unfold addMonths? Date.addMonths?
  dsimp only
  rw [Option.map_eq_none_iff, Option.eq_none_iff_forall_ne_some]
  intro d hd
  obtain ⟨rfl, hvalid⟩ := Date.of?_eq_some_iff.mp hd
  simp only [isValid, Bool.and_eq_true, decide_eq_true_eq] at hvalid
  unfold firstYear lastYear at hvalid
  unfold IsDatedMonth firstYear lastYear at hmonth
  omega

/-- The checks on the way of a move cut off nothing that has a date. -/
theorem move_eq (ht : t.IsDated) (amount : Int) (unit : TimeUnit) :
    t.move amount unit = .ofOption (t.shift? amount unit) := by
  unfold move shift?
  cases unit.length with
  | seconds n =>
      dsimp only
      rw [Width.checked]
      split
      · rfl
      · rename_i hwide
        rw [addSeconds?_eq_none ht hwide]
        rfl
  | months n =>
      dsimp only
      by_cases hmany : 0xffffffff < (amount * n).natAbs
      · have hnat : ¬Width.nat32.Holds (amount * n).natAbs := by
          simp only [Width.Holds, Width.nat32]
          omega
        rw [addMonths?_eq_none ht hmany, Width.checked]
        split
        · rw [Reckoned.value_bind, Width.checked, if_neg hnat]
          rfl
        · rfl
      · have hint : Width.int64.Holds (amount * n) := by
          simp only [Width.Holds, Width.int64, Binary64.int64Min, Binary64.int64Max]
          omega
        have hnat : Width.nat32.Holds (amount * n).natAbs := by
          simp only [Width.Holds, Width.nat32]
          omega
        rw [Width.checked, if_pos hint, Reckoned.value_bind, Width.checked, if_pos hnat,
          Reckoned.value_bind]

/-- Rounding overruns for the weeks of the days before the first Monday, and for nothing else. -/
theorem roundDown_eq (ht : t.IsDated) (unit : TimeUnit) :
    t.roundDown unit = if unit = .week ∧ t.dayNumber < firstMonday then .overrun
      else .ofOption (t.floor? unit) := by
  have hsecond := ht.second_bounds
  have hclose (n : Int) (hn : 0 ≤ n ∧ n < 3600) : Width.int64.Holds (t.second - n) := by
    simp only [Width.Holds, Width.int64, Binary64.int64Min, Binary64.int64Max]
    omega
  cases unit with
  | week =>
      have hmonday : Width.days.Holds (t.dayNumber - daysSinceMonday t.dayNumber) ↔
          ¬t.dayNumber < firstMonday := by
        have hday := isDated_iff.mp ht
        obtain ⟨hfirst, hseventh⟩ := firstMonday_eq
        simp only [Width.Holds, Width.days, daysSinceMonday]
        omega
      rw [roundDown, Width.unchecked]
      by_cases hearly : t.dayNumber < firstMonday
      · rw [if_neg (mt hmonday.mp (not_not.mpr hearly)), if_pos ⟨rfl, hearly⟩]
        rfl
      · have hholds := hmonday.mpr hearly
        have hstart : t.floor? .week =
            some ⟨(t.dayNumber - daysSinceMonday t.dayNumber) * secondsPerDay, 0⟩ := by
          rw [floor?, of?_eq_some_iff]
          refine ⟨rfl, isDated_iff.mpr ?_⟩
          rw [Instant.dayNumber, Int.mul_ediv_cancel _ (by decide)]
          exact hholds
        rw [if_pos hholds, if_neg fun h => hearly h.2, hstart]
        rfl
  | hour =>
      rw [roundDown, Width.unchecked, if_pos (hclose _ (by omega)), if_neg (by simp)]
      rfl
  | minute =>
      rw [roundDown, Width.unchecked, if_pos (hclose _ (by omega)), if_neg (by simp)]
      rfl
  | _ =>
      rw [if_neg (by simp)]
      rfl

end Instant

/-- The opposite of an amount that fits always fits. -/
theorem readAmount_eq (negative : Bool) (digits : List Char) :
    readAmount negative digits = if (amountOf digits : Int) ≤ Binary64.int64Max
      then .value (if negative then -amountOf digits else amountOf digits) else .nothing := by
  have hholds : Width.int64.Holds (amountOf digits) ↔
      (amountOf digits : Int) ≤ Binary64.int64Max := by
    simp only [Width.Holds, Width.int64, Binary64.int64Min]
    omega
  rw [readAmount, Width.checked]
  by_cases hfits : (amountOf digits : Int) ≤ Binary64.int64Max
  · have hopposite : Width.int64.Holds (-(amountOf digits : Int)) := by
      simp only [Width.Holds, Width.int64, Binary64.int64Min, Binary64.int64Max] at hfits ⊢
      omega
    rw [if_pos (hholds.mpr hfits), if_pos hfits, Reckoned.value_bind, Width.unchecked,
      if_pos hopposite]
    cases negative <;> rfl
  · rw [if_neg (mt hholds.mp hfits), if_neg hfits]
    rfl

/-! ## One adjustment -/

theorem ofLetter?_eq_week_iff {letter : Char} :
    TimeUnit.ofLetter? letter = some .week ↔ letter = 'w' := by
  unfold TimeUnit.ofLetter?
  split <;> simp_all

theorem readAdjustment?_eq_floor_week_iff {text rest : List Char} :
    readAdjustment? text = some (.floor .week, rest) ↔ text = '/' :: 'w' :: rest := by
  unfold readAdjustment?
  split
  · simp [Option.map_eq_some_iff, ofLetter?_eq_week_iff]
  · rename_i sign others hslash
    have hne : sign :: others ≠ '/' :: 'w' :: rest := fun h =>
      hslash 'w' rest (List.cons.inj h).1 (List.cons.inj h).2
    simp only [hne, iff_false]
    split
    · split
      · simp
      · simp
    · simp
  · simp

section Shapes

variable {sign : Char} (rest : List Char)

theorem readAdjustment?_slash (letter : Char) : readAdjustment? ('/' :: letter :: rest) =
    (TimeUnit.ofLetter? letter).map fun unit => (.floor unit, rest) := rfl

theorem Instant.adjust_slash (t : Instant) (letter : Char) :
    t.adjust ('/' :: letter :: rest) = do
      let unit ← .ofOption (TimeUnit.ofLetter? letter)
      let start ← t.roundDown unit
      return (start, rest) := rfl

/-- The amount between a sign and a unit, as a number. -/
def signedAmount (sign : Char) (text : List Char) : Int :=
  if sign = '-' then -amountOf (Text.spanDigits text).1 else amountOf (Text.spanDigits text).1

theorem readAdjustment?_sign (hsign : sign = '+' ∨ sign = '-') :
    readAdjustment? (sign :: rest) =
      match (Text.spanDigits rest).2 with
      | letter :: others => (TimeUnit.ofLetter? letter).map fun unit =>
          (.shift (signedAmount sign rest) unit, others)
      | [] => none := by
  obtain rfl | rfl := hsign
  · rfl
  · rfl

theorem Instant.adjust_sign (hsign : sign = '+' ∨ sign = '-') (t : Instant) :
    t.adjust (sign :: rest) =
      readAmount (sign = '-') (Text.spanDigits rest).1 >>= fun amount =>
        match (Text.spanDigits rest).2 with
        | letter :: others => do
            let unit ← .ofOption (TimeUnit.ofLetter? letter)
            let moved ← t.move amount unit
            return (moved, others)
        | [] => .nothing := by
  obtain rfl | rfl := hsign
  · rfl
  · rfl

end Shapes

/-- An adjustment starts with a slash and a letter or with a sign. -/
theorem readAdjustment?_cases (text : List Char) :
    (∃ letter rest, text = '/' :: letter :: rest) ∨
      (∃ sign rest, (sign = '+' ∨ sign = '-') ∧ text = sign :: rest) ∨
      (readAdjustment? text = none ∧ ∀ t : Instant, t.adjust text = .nothing) := by
  unfold readAdjustment? Instant.adjust
  split
  · exact Or.inl ⟨_, _, rfl⟩
  · rename_i sign rest _
    by_cases hsign : sign = '+' ∨ sign = '-'
    · exact Or.inr (Or.inl ⟨sign, rest, hsign, rfl⟩)
    · simp only [if_neg hsign]
      exact Or.inr (Or.inr ⟨trivial, fun _ => trivial⟩)
  · exact Or.inr (Or.inr ⟨rfl, fun _ => rfl⟩)

namespace Instant

variable {t u : Instant} {text rest : List Char}

/-- An amount of more than 64 bits leaves the dates in every unit. -/
theorem shift?_eq_none (ht : t.IsDated) {amount : Int}
    (h : Binary64.int64Max < amount.natAbs) (unit : TimeUnit) : t.shift? amount unit = none := by
  unfold Binary64.int64Max at h
  cases unit with
  | year => exact addMonths?_eq_none ht (by omega)
  | month => exact addMonths?_eq_none ht (by omega)
  | _ =>
      refine addSeconds?_eq_none ht ?_
      simp only [Width.Holds, Width.seconds, Binary64.int64Max]
      omega

/-- What an adjustment at the start of a text should come to. -/
def adjusted (t : Instant) (text : List Char) : Reckoned (Instant × List Char) :=
  match readAdjustment? text with
  | some (a, rest) =>
      if a = .floor .week ∧ t.dayNumber < firstMonday then .overrun
      else .ofOption <| Option.map (fun u => (u, rest)) <| Adjustment.apply? t a
  | none => .nothing

theorem adjust_slash_eq (ht : t.IsDated) (letter : Char) (rest : List Char) :
    t.adjust ('/' :: letter :: rest) = t.adjusted ('/' :: letter :: rest) := by
  rw [adjust_slash, adjusted, readAdjustment?_slash]
  cases TimeUnit.ofLetter? letter with
  | none => rfl
  | some unit =>
      simp only [Reckoned.ofOption_some, Reckoned.value_bind, roundDown_eq ht, Option.map_some,
        Adjustment.apply?, Adjustment.floor.injEq]
      split
      · rfl
      · cases t.floor? unit <;> rfl

theorem adjust_sign_eq (ht : t.IsDated) {sign : Char} (hsign : sign = '+' ∨ sign = '-')
    (rest : List Char) : t.adjust (sign :: rest) = t.adjusted (sign :: rest) := by
  have hamount : (signedAmount sign rest).natAbs = amountOf (Text.spanDigits rest).1 := by
    unfold signedAmount
    split
    · omega
    · omega
  rw [adjust_sign rest hsign, adjusted, readAdjustment?_sign rest hsign, readAmount_eq]
  by_cases hfits : (amountOf (Text.spanDigits rest).1 : Int) ≤ Binary64.int64Max
  · have hsigned : (if decide (sign = '-') = true then -(amountOf (Text.spanDigits rest).1 : Int)
        else amountOf (Text.spanDigits rest).1) = signedAmount sign rest := by
      simp [signedAmount]
    rw [if_pos hfits, Reckoned.value_bind, hsigned]
    cases (Text.spanDigits rest).2 with
    | nil => rfl
    | cons letter others =>
        dsimp only
        cases TimeUnit.ofLetter? letter with
        | none => rfl
        | some unit =>
            simp only [Reckoned.ofOption_some, Reckoned.value_bind, move_eq ht, Option.map_some,
              Adjustment.apply?, reduceCtorEq, false_and, if_false]
            cases t.shift? (signedAmount sign rest) unit <;> rfl
  · have hlarge : Binary64.int64Max < (signedAmount sign rest).natAbs := by omega
    rw [if_neg hfits, Reckoned.nothing_bind]
    cases (Text.spanDigits rest).2 with
    | nil => rfl
    | cons letter others =>
        dsimp only
        cases TimeUnit.ofLetter? letter with
        | none => rfl
        | some unit =>
            simp only [Option.map_some, Adjustment.apply?, shift?_eq_none ht hlarge]
            rfl

/-- An adjustment that is made gives what the expression says there. It overruns when it rounds an
instant before the first Monday to its week. -/
theorem adjust_eq (ht : t.IsDated) (text : List Char) : t.adjust text = t.adjusted text := by
  obtain ⟨letter, rest, rfl⟩ | ⟨sign, rest, hsign, rfl⟩ | ⟨hread, hadjust⟩ :=
    readAdjustment?_cases text
  · exact adjust_slash_eq ht letter rest
  · exact adjust_sign_eq ht hsign rest
  · rw [hadjust, adjusted, hread]

theorem adjust_eq_overrun_iff (ht : t.IsDated) : t.adjust text = .overrun ↔
    t.dayNumber < firstMonday ∧ ∃ rest, text = '/' :: 'w' :: rest := by
  simp only [← readAdjustment?_eq_floor_week_iff]
  rw [adjust_eq ht, adjusted]
  cases readAdjustment? text with
  | none => simp
  | some read =>
      obtain ⟨a, rest⟩ := read
      by_cases hweek : a = .floor .week
      · simp [hweek]
      · simp [hweek]

theorem toOption_adjust (ht : t.IsDated) : (t.adjust text).toOption =
    (readAdjustment? text).bind fun (a, rest) =>
      Option.map (fun u => (u, rest)) <| Adjustment.apply? t a := by
  rw [adjust_eq ht, adjusted]
  cases readAdjustment? text with
  | none => rfl
  | some read =>
      obtain ⟨a, rest⟩ := read
      dsimp only [Option.bind_some]
      split
      · rename_i hearly
        have hnone : Adjustment.apply? t a = none := by
          rw [hearly.1, Adjustment.apply?, floor?_eq_none_iff ht]
          exact ⟨rfl, hearly.2⟩
        rw [hnone]
        rfl
      · exact Reckoned.toOption_ofOption _

/-- An adjustment takes something off the text. -/
theorem length_lt_of_readAdjustment? {a : Adjustment} (h : readAdjustment? text = some (a, rest)) :
    rest.length < text.length := by
  obtain ⟨letter, others, rfl⟩ | ⟨sign, others, hsign, rfl⟩ | ⟨hread, -⟩ :=
    readAdjustment?_cases text
  · obtain ⟨unit, -, hunit⟩ := Option.map_eq_some_iff.mp h
    obtain ⟨-, rfl⟩ := Prod.mk.inj hunit
    simp
  · rw [readAdjustment?_sign others hsign] at h
    have hdigits : (Text.spanDigits others).2.length ≤ others.length :=
      (List.dropWhile_sublist _).length_le
    split at h
    · rename_i letter behind hbehind
      obtain ⟨unit, -, hunit⟩ := Option.map_eq_some_iff.mp h
      obtain ⟨-, rfl⟩ := Prod.mk.inj hunit
      rw [hbehind, List.length_cons] at hdigits
      rw [List.length_cons]
      omega
    · cases h
  · rw [hread] at h
    cases h

/-- An adjustment leaves an instant that can be represented, and less of the text. -/
theorem adjust_eq_value (ht : t.IsRepresentable) (h : t.adjust text = .value (u, rest)) :
    u.IsRepresentable ∧ rest.length < text.length := by
  have hvalue := toOption_adjust ht.dated ▸ Reckoned.toOption_eq_some_iff.mpr h
  obtain ⟨⟨a, others⟩, hread, hmade⟩ := Option.bind_eq_some_iff.mp hvalue
  obtain ⟨v, hv, hsame⟩ := Option.map_eq_some_iff.mp hmade
  obtain ⟨rfl, rfl⟩ := Prod.mk.inj hsame
  exact ⟨a.isRepresentable_made ht hv, length_lt_of_readAdjustment? hread⟩

end Instant

/-! ## Whole reckonings -/

/-- One adjustment of an instant and the text that is left. -/
def Adjusts (now next : Instant × List Char) : Prop := now.1.adjust now.2 = .value next

/-- The instants to which a reckoning comes, each with the adjustments that are left. -/
def ComesTo (now : Instant) (text : List Char) (t : Instant) (rest : List Char) : Prop :=
  ∃ start, anchor? now text = some start ∧ Relation.ReflTransGen Adjusts start (t, rest)

/-- Whether the next step rounds an instant before the first Monday to its week. -/
def IsEarlyWeek (now : Instant × List Char) : Prop :=
  now.1.dayNumber < firstMonday ∧ ∃ rest, now.2 = '/' :: 'w' :: rest

theorem isRepresentable_of_adjusts {first last : Instant × List Char}
    (h : Relation.ReflTransGen Adjusts first last) (hfirst : first.1.IsRepresentable) :
    last.1.IsRepresentable := by
  induction h with
  | refl => exact hfirst
  | tail _ hstep ih => exact (Instant.adjust_eq_value ih hstep).1

/-- An early week is where a step overruns. -/
theorem isEarlyWeek_iff {now : Instant × List Char} (hnow : now.1.IsRepresentable) :
    IsEarlyWeek now ↔ now.1.adjust now.2 = .overrun :=
  (Instant.adjust_eq_overrun_iff hnow.dated).symm

/-- Where the reckoning comes to is where it is, or where it comes to after one step. -/
theorem exists_isEarlyWeek_iff {now : Instant × List Char} :
    (∃ last, Relation.ReflTransGen Adjusts now last ∧ IsEarlyWeek last) ↔
      IsEarlyWeek now ∨ ∃ next, Adjusts now next ∧
        ∃ last, Relation.ReflTransGen Adjusts next last ∧ IsEarlyWeek last := by
  constructor
  · rintro ⟨last, hsteps, hearly⟩
    obtain rfl | ⟨next, hstep, hrest⟩ := Relation.ReflTransGen.cases_head_iff.mp hsteps
    · exact Or.inl hearly
    · exact Or.inr ⟨next, hstep, last, hrest, hearly⟩
  · rintro (hearly | ⟨next, hstep, last, hrest, hearly⟩)
    · exact ⟨now, .refl, hearly⟩
    · exact ⟨last, .head hstep hrest, hearly⟩

theorem adjustAll_cons (fuel : Nat) (t : Instant) (c : Char) (rest : List Char) :
    t.adjustAll (fuel + 1) (c :: rest) =
      t.adjust (c :: rest) >>= fun next => next.1.adjustAll fuel next.2 := rfl

theorem readAdjustmentsFrom_cons (fuel : Nat) (c : Char) (rest : List Char) :
    readAdjustmentsFrom (fuel + 1) (c :: rest) =
      (readAdjustment? (c :: rest)).bind fun read =>
        (readAdjustmentsFrom fuel read.2).map fun others => read.1 :: others := by
  rw [readAdjustmentsFrom]
  · cases readAdjustment? (c :: rest) with
    | none => rfl
    | some read => cases h : readAdjustmentsFrom fuel read.2 <;> simp [h]
  · simp

/-- The adjustments overrun when they come to the week of an early instant. The induction on the
fuel follows the steps, since there is one way to go on at most. -/
theorem adjustAll_eq_overrun_iff {fuel : Nat} {t : Instant} {text : List Char}
    (ht : t.IsRepresentable) (hfuel : text.length ≤ fuel) : t.adjustAll fuel text = .overrun ↔
      ∃ last, Relation.ReflTransGen Adjusts (t, text) last ∧ IsEarlyWeek last := by
  induction fuel generalizing t text with
  | zero =>
      obtain rfl := List.eq_nil_of_length_eq_zero (Nat.le_zero.mp hfuel)
      rw [exists_isEarlyWeek_iff, isEarlyWeek_iff ht]
      simp [Adjusts, Instant.adjustAll, Instant.adjust]
  | succ fuel ih =>
      rw [exists_isEarlyWeek_iff, isEarlyWeek_iff ht]
      cases text with
      | nil => simp [Adjusts, Instant.adjustAll, Instant.adjust]
      | cons c rest =>
          rw [adjustAll_cons]
          cases hstep : t.adjust (c :: rest) with
          | value next =>
              obtain ⟨hnext, hless⟩ := Instant.adjust_eq_value ht hstep
              have hnextFuel : next.2.length ≤ fuel := by
                rw [List.length_cons] at hless hfuel
                omega
              simp [Adjusts, hstep, ih hnext hnextFuel]
          | nothing => simp [Adjusts, hstep]
          | overrun => simp

theorem toOption_adjustAll {fuel : Nat} {t : Instant} {text : List Char}
    (ht : t.IsRepresentable) : (t.adjustAll fuel text).toOption =
      (readAdjustmentsFrom fuel text).bind fun adjustments =>
        adjustments.foldlM Adjustment.apply? t := by
  induction fuel generalizing t text with
  | zero => cases text <;> rfl
  | succ fuel ih =>
      cases text with
      | nil => rfl
      | cons c rest =>
          rw [adjustAll_cons, readAdjustmentsFrom_cons, Reckoned.toOption_bind,
            Instant.toOption_adjust ht.dated]
          cases readAdjustment? (c :: rest) with
          | none => rfl
          | some read =>
              obtain ⟨a, others⟩ := read
              cases hmade : Adjustment.apply? t a with
              | none => cases hothers : readAdjustmentsFrom fuel others <;> simp [hmade, hothers]
              | some u =>
                  have hrest := @ih u others (a.isRepresentable_made ht hmade)
                  cases hothers : readAdjustmentsFrom fuel others <;>
                    simp [hmade, hrest, hothers]

/-- An expression starts with an instant that can be represented. -/
theorem isRepresentable_anchor? {now t : Instant} {text rest : List Char}
    (hnow : now.IsRepresentable) (h : anchor? now text = some (t, rest)) : t.IsRepresentable := by
  unfold anchor? at h
  split at h
  · obtain ⟨rfl, -⟩ := Prod.mk.inj (Option.some.inj h)
    exact hnow
  · split at h
    · obtain ⟨start, hstart, hsame⟩ := Option.map_eq_some_iff.mp h
      obtain ⟨rfl, -⟩ := Prod.mk.inj hsame
      exact isRepresentable_readDate? hstart
    · obtain ⟨start, hstart, hsame⟩ := Option.map_eq_some_iff.mp h
      obtain ⟨rfl, -⟩ := Prod.mk.inj hsame
      exact isRepresentable_readDate? hstart

theorem evaluate?_eq (now : Instant) (text : List Char) : evaluate? now text =
    (anchor? now text).bind fun (start, rest) =>
      (readAdjustments? rest).bind fun adjustments =>
        adjustments.foldlM Adjustment.apply? start := by
  by_cases hword : ∃ rest, text = 'n' :: 'o' :: 'w' :: rest
  · obtain ⟨rest, rfl⟩ := hword
    rfl
  · have hother (rest : List Char) : text = 'n' :: 'o' :: 'w' :: rest → False := fun h =>
      hword ⟨rest, h⟩
    rw [evaluate?.eq_2 now text hother, anchor?.eq_2 now text hother]
    cases splitAtBars text with
    | none =>
        dsimp only
        cases readDate? text <;> rfl
    | some parts =>
        dsimp only
        cases readDate? parts.1 <;> rfl

/-- A reckoning overruns when it comes to an instant before the first Monday and is to round it to
its week, and only then. All instants on its way, and the one it ends with, can be represented, and
it ends with the instant of the expression. -/
theorem reckon_isSafe {now : Instant} (hnow : now.IsRepresentable) (text : List Char) :
    (reckon now text = .overrun ↔
      ∃ t rest, ComesTo now text t ('/' :: 'w' :: rest) ∧ t.dayNumber < firstMonday) ∧
    (∀ t rest, ComesTo now text t rest → t.IsRepresentable) ∧
    (∀ t, reckon now text = .value t → t.IsRepresentable) ∧
    (reckon now text).toOption = evaluate? now text := by
  have hsame : (reckon now text).toOption = evaluate? now text := by
    rw [reckon, evaluate?_eq, Reckoned.toOption_bind, Reckoned.toOption_ofOption]
    cases hstart : anchor? now text with
    | none => rfl
    | some start => exact toOption_adjustAll (isRepresentable_anchor? hnow hstart)
  refine ⟨?_, ?_, ?_, hsame⟩
  · have hstops (start : Instant × List Char) (hstart : anchor? now text = some start) :
        start.1.adjustAll start.2.length start.2 = .overrun ↔
          ∃ last, Relation.ReflTransGen Adjusts start last ∧ IsEarlyWeek last :=
      adjustAll_eq_overrun_iff (isRepresentable_anchor? hnow hstart) le_rfl
    rw [reckon]
    cases hstart : anchor? now text with
    | none => simp [ComesTo, hstart]
    | some start =>
        rw [Reckoned.ofOption_some, Reckoned.value_bind, hstops start hstart]
        constructor
        · rintro ⟨⟨t, left⟩, hsteps, hearly, rest, rfl⟩
          exact ⟨t, rest, ⟨start, hstart, hsteps⟩, hearly⟩
        · rintro ⟨t, rest, ⟨first, hfirst, hsteps⟩, hearly⟩
          obtain rfl := Option.some.inj (hstart.symm.trans hfirst)
          exact ⟨_, hsteps, hearly, rest, rfl⟩
  · rintro t rest ⟨start, hstart, hsteps⟩
    exact isRepresentable_of_adjusts hsteps (isRepresentable_anchor? hnow hstart)
  · intro t ht
    rw [ht] at hsame
    exact isRepresentable_evaluate? hnow hsame.symm

/-- Two months before the fifteenth of March 2024 the week has started on the fifteenth. -/
theorem reckon_isSafe_january :
    let now : Instant := ⟨1710499032, 0⟩
    now.IsRepresentable ∧ ComesTo now "now-2M/w".toList ⟨1705315032, 0⟩ "/w".toList ∧
      (Instant.midnight ⟨2024, 1, 15⟩).IsRepresentable ∧
      evaluate? now "now-2M/w".toList = some (Instant.midnight ⟨2024, 1, 15⟩) := by
  have hnow : Instant.IsRepresentable ⟨1710499032, 0⟩ := by decide +kernel
  have hreckon : reckon ⟨1710499032, 0⟩ "now-2M/w".toList =
      .value (Instant.midnight ⟨2024, 1, 15⟩) := by decide +kernel
  have hmove : Instant.adjust ⟨1710499032, 0⟩ "-2M/w".toList =
      .value (⟨1705315032, 0⟩, "/w".toList) := by decide +kernel
  obtain ⟨-, -, hend, hsame⟩ := reckon_isSafe hnow "now-2M/w".toList
  refine ⟨hnow, ⟨(⟨1710499032, 0⟩, "-2M/w".toList), rfl, .single hmove⟩, hend _ hreckon, ?_⟩
  rw [← hsame, hreckon]
  rfl

/-- The first date is a Thursday: its week has started on a day that has no date, and the reckoning
overruns. -/
theorem reckon_firstWeek_overruns :
    (Instant.mk 0 0).IsRepresentable ∧
      reckon ⟨0, 0⟩ "-262143-01-01||/w".toList = .overrun := by
  decide +kernel

end Rollup.Calendar
