/-
# Decimals

The plain text of a finite number is a decimal: digits, more of them behind a point if there is a
fraction, and a minus sign in front if the number is negative. The other values of the format have
words for their texts. Whatever is read from a cell is a value of the format, and it is a finite
number unless the cell is a text that says infinity, no number, or a number that is too large.
-/

import Rollup.Cell
import Rollup.Proofs.Number.Interchange

namespace Rollup

/-- Whether a text is a decimal, with a minus sign in front or not. -/
def IsDecimal (text : String) : Prop :=
  ∃ (negative : Bool) (n : Numeral), n.power = none ∧ text = n.signed negative

/-- The text of an integer is a decimal. -/
theorem isDecimal_toString (k : Int) : IsDecimal (toString k) :=
  ⟨_, _, rfl, toString_eq_signed k⟩

theorem Decimal.isDecimal_positional {d : Decimal} (hd : 0 < d.coefficient) :
    IsDecimal d.positional ∧ IsDecimal ("-" ++ d.positional) := by
  obtain ⟨whole, fraction, hwritten⟩ := exists_isWritten hd
  let n : Numeral := ⟨whole, fraction, none, hwritten.nonempty, hwritten.wholeDigits,
    hwritten.fractionDigits, by simp⟩
  have hchars : d.positional.toList = n.chars := by
    rw [hwritten.text]
    simp [n, Numeral.chars, Numeral.pointed, Numeral.powerChars]
  refine ⟨⟨false, n, rfl, ?_⟩, ⟨true, n, rfl, ?_⟩⟩
  · exact String.toList_inj.mp (by simp [Numeral.signed, hchars])
  · exact String.toList_inj.mp (by simp [Numeral.signed, hchars])

/-- A decimal starts with a digit, behind its sign. -/
theorem IsDecimal.isDigit_head {text : String} (h : IsDecimal text) :
    ∃ c ∈ text.toList.head?, c.isDigit = true ∨
      (c = '-' ∧ ∃ d ∈ text.toList.tail.head?, d.isDigit = true) := by
  obtain ⟨negative, n, -, rfl⟩ := h
  obtain ⟨c, rest, hchars, hdigit⟩ := n.exists_head
  cases negative with
  | false => exact ⟨c, by simp [Numeral.signed, hchars], Or.inl hdigit⟩
  | true =>
      exact ⟨'-', by simp [Numeral.signed], Or.inr ⟨rfl, c, by simp [Numeral.signed, hchars],
        hdigit⟩⟩

namespace Binary64

/-- A value of the format: a finite number of it, infinity, or the value that is no number. -/
def IsOfFormat (x : Binary64) : Prop := x.IsNumber ∨ x.toRat? = none

theorem IsOfFormat.isNumber_iff {x : Binary64} (h : x.IsOfFormat) :
    x.IsNumber ↔ x.toRat? ≠ none := by
  constructor
  · intro hnumber hnone
    cases x with
    | finite q => cases hnone
    | negativeZero => cases hnone
    | infinite negative => exact hnumber
    | nan negative => exact hnumber
  · exact fun hfinite => h.resolve_right hfinite

/-! ## Texts -/

theorem IsNumber.isDecimal_text {x : Binary64} (h : x.IsNumber) : IsDecimal x.text := by
  rcases h.eq_zero_or_hasUnits with rfl | rfl | ⟨q, p, units, hunits, hsign⟩
  · exact isDecimal_toString 0
  · exact isDecimal_toString 0
  · obtain ⟨d, hd, -, htext, hminus⟩ := hunits.exists_text
    rcases hsign with rfl | rfl
    · exact htext ▸ (Decimal.isDecimal_positional hd).1
    · exact hminus ▸ (Decimal.isDecimal_positional hd).2

/-- The texts of the values that are no finite numbers are words. -/
theorem not_isDecimal_text {x : Binary64} (h : x.toRat? = none) : ¬ IsDecimal x.text := by
  intro hdecimal
  obtain ⟨c, hc, hdigit⟩ := hdecimal.isDigit_head
  cases x with
  | finite q => cases h
  | negativeZero => cases h
  | infinite negative =>
      cases negative with
      | false =>
          obtain rfl : 'i' = c := Option.some.inj hc
          exact absurd hdigit (by decide)
      | true =>
          obtain rfl : '-' = c := Option.some.inj hc
          obtain hminus | ⟨-, d, hd, hdigit⟩ := hdigit
          · exact absurd hminus (by decide)
          · obtain rfl : 'i' = d := Option.some.inj hd
            exact absurd hdigit (by decide)
  | nan negative =>
      cases negative <;>
      · obtain rfl : 'N' = c := Option.some.inj hc
        exact absurd hdigit (by decide)

/-- The plain text of a value is a decimal just when the value is a finite number. -/
theorem IsOfFormat.isDecimal_text_iff {x : Binary64} (h : x.IsOfFormat) :
    IsDecimal x.text ↔ x.IsNumber := by
  refine ⟨fun hdecimal => ?_, IsNumber.isDecimal_text⟩
  exact h.isNumber_iff.mpr fun hnone => not_isDecimal_text hnone hdecimal

/-! ## What is read -/

theorem isOfFormat_zero (negative : Bool) : (zero negative).IsOfFormat := by
  cases negative with
  | false => exact Or.inl (rfl : round 0 = finite 0)
  | true => exact Or.inl trivial

theorem isOfFormat_round (q : Rat) : (round q).IsOfFormat := by
  cases hround : round q with
  | finite v => exact Or.inl (isNumber_of_round_eq hround)
  | negativeZero => exact Or.inl trivial
  | infinite negative => exact Or.inr rfl
  | nan negative => exact Or.inr rfl

theorem isOfFormat_ofDecimal (negative : Bool) (coefficient : Nat) (exponent : Int) :
    (ofDecimal negative coefficient exponent).IsOfFormat := by
  unfold ofDecimal
  split
  · exact isOfFormat_zero negative
  · dsimp only
    split
    · exact Or.inr rfl
    · split
      · exact isOfFormat_zero negative
      · exact isOfFormat_round _

theorem isOfFormat_of_readUnsigned? {negative : Bool} {text : List Char} {x : Binary64}
    (h : readUnsigned? negative text = some x) : x.IsOfFormat := by
  unfold readUnsigned? at h
  dsimp only at h
  -- with and without a point
  split at h
  all_goals
    split at h
    · cases h
    · obtain ⟨exponent, -, hvalue⟩ := Option.bind_eq_some_iff.mp h
      obtain rfl := Option.some.inj hvalue
      exact isOfFormat_ofDecimal _ _ _

theorem isOfFormat_of_readWord? {negative : Bool} {text : List Char} {x : Binary64}
    (h : readWord? negative text = some x) : x.IsOfFormat := by
  unfold readWord? at h
  dsimp only at h
  split at h
  · obtain rfl := Option.some.inj h
    exact Or.inr rfl
  · split at h
    · obtain rfl := Option.some.inj h
      exact Or.inr rfl
    · cases h

theorem isOfFormat_of_readTrimmed? {text : String} {x : Binary64}
    (h : readTrimmed? text = some x) : x.IsOfFormat := by
  unfold readTrimmed? read? at h
  dsimp only at h
  rcases Option.or_eq_some_iff.mp h with hword | ⟨-, hdigits⟩
  · exact isOfFormat_of_readWord? hword
  · exact isOfFormat_of_readUnsigned? hdigits

end Binary64

/-- What is read from a cell is a value of the format. -/
theorem Cell.isOfFormat_of_number? {value : Json} {x : Binary64} (h : number? value = some x)
    (hvalue : ∀ n, value = .number n → n.isFinite = true) : x.IsOfFormat := by
  cases value with
  | number n =>
      obtain rfl := Option.some.inj h
      cases n with
      | integer k => exact Binary64.isOfFormat_round k
      | floating y => exact Or.inl (of_decide_eq_true (hvalue _ rfl))
  | string s => exact Binary64.isOfFormat_of_readTrimmed? h
  | bool b =>
      obtain rfl := Option.some.inj h
      cases b with
      | false => exact Binary64.isOfFormat_round 0
      | true => exact Binary64.isOfFormat_round 1
  | null => cases h
  | array items => cases h
  | object fields => cases h

end Rollup
