/-
# Printed values

Compact text has no control characters: numbers are written with digits and a few signs, and what
a quoted text holds of them is escaped. So the identity of a cell has control characters only if the
cell is null or a text that has them.
-/

import Rollup.Json.Print
import Rollup.Proofs.Number.ReadBack

namespace Rollup

/-! ## Texts without control characters -/

namespace Text

/-- Whether a text has no control characters. -/
def IsGraphic (text : String) : Prop := ∀ c ∈ text.toList, 0x20 ≤ c.toNat

instance (text : String) : Decidable (IsGraphic text) :=
  List.decidableBAll (fun c : Char => 0x20 ≤ c.toNat) text.toList

theorem le_toNat_of_isDigit {c : Char} (h : c.isDigit = true) : 0x20 ≤ c.toNat := by
  simp only [Char.isDigit, Bool.and_eq_true, decide_eq_true_eq, UInt32.le_iff_toNat_le] at h
  exact le_trans (by decide) h.1

namespace IsGraphic

variable {first second : String}

theorem append (hfirst : IsGraphic first) (hsecond : IsGraphic second) :
    IsGraphic (first ++ second) := by
  intro c hc
  rw [String.toList_append] at hc
  exact (List.mem_append.mp hc).elim (hfirst c) (hsecond c)

theorem intercalate {separator : String} (hseparator : IsGraphic separator) {pieces : List String}
    (h : ∀ piece ∈ pieces, IsGraphic piece) : IsGraphic (String.intercalate separator pieces) :=
  forall_mem_intercalate hseparator h

theorem not_mem (h : IsGraphic first) {c : Char} (hc : c.toNat < 0x20) : c ∉ first.toList :=
  fun hmem => absurd (h c hmem) (Nat.not_le.mpr hc)

end IsGraphic

theorem isGraphic_toString_nat (n : Nat) : IsGraphic (toString n) := by
  intro c hc
  rw [Nat.toString_eq_ofList_toDigits, String.toList_ofList] at hc
  exact le_toNat_of_isDigit (isDigit_of_mem_toDigits hc)

theorem isGraphic_toString_int (n : Int) : IsGraphic (toString n) := by
  rw [Int.toString_eq_repr, Int.repr_eq_if]
  split
  · exact isGraphic_toString_nat _
  · exact IsGraphic.append (by decide) (isGraphic_toString_nat _)

end Text

open Text

/-! ## Numbers -/

theorem Decimal.isGraphic_positional (d : Decimal) : IsGraphic d.positional := by
  intro c hc
  rcases d.mem_positional hc with hdigit | rfl
  · exact le_toNat_of_isDigit hdigit
  · decide

theorem Decimal.isGraphic_scientific (d : Decimal) : IsGraphic d.scientific := by
  have hmantissa {mantissa : List Char}
      (h : ∀ c ∈ mantissa, c ∈ Nat.toDigits 10 d.coefficient ∨ c = '.') :
      IsGraphic (String.ofList mantissa) := by
    intro c hc
    rw [String.toList_ofList] at hc
    rcases h c hc with hdigit | rfl
    · exact le_toNat_of_isDigit (isDigit_of_mem_toDigits hdigit)
    · decide
  unfold scientific
  dsimp only
  refine (((hmantissa ?_).append (by decide)).append ?_).append (isGraphic_toString_nat _)
  · intro c hc
    split at hc <;> simp_all
    tauto
  · split <;> decide

namespace NumberStyle

theorem isGraphic_writePositive (style : NumberStyle) (q : Rat) :
    IsGraphic (style.writePositive q) := by
  have hfraction (b : Bool) : IsGraphic (if b then ".0" else "") := by cases b <;> decide
  have hwritten (d : Decimal) (isPositional isPointed : Bool) :
      IsGraphic (if isPositional then d.positional ++ (if isPointed then ".0" else "")
        else d.scientific) := by
    cases isPositional with
    | true => exact d.isGraphic_positional.append (hfraction isPointed)
    | false => exact d.isGraphic_scientific
  exact hwritten (Binary64.shortest style.tie q) _ _

theorem isGraphic_write (style : NumberStyle) (x : Binary64) : IsGraphic (style.write x) := by
  have hzero (b : Bool) : IsGraphic (if b then "0.0" else "0") ∧
      IsGraphic (if b then "-0.0" else "-0") := by cases b <;> decide
  cases x with
  | finite q =>
      rw [write]
      split
      · exact (hzero _).1
      · split
        · exact IsGraphic.append (by decide : IsGraphic "-") (style.isGraphic_writePositive _)
        · exact style.isGraphic_writePositive q
  | negativeZero => exact (hzero _).2
  | infinite negative =>
      have hword (b : Bool) : IsGraphic (if b then "-inf" else "inf") := by cases b <;> decide
      exact hword negative
  | nan negative => exact (by decide : IsGraphic "NaN")

end NumberStyle

/-- The plain text of every number has no control characters. -/
theorem Binary64.isGraphic_text (x : Binary64) : IsGraphic x.text := by
  unfold text
  split
  · exact isGraphic_toString_int _
  · exact NumberStyle.plain.isGraphic_write x

namespace Json

theorem Number.isGraphic_text (n : Number) : IsGraphic n.text := by
  cases n with
  | integer n => exact isGraphic_toString_int n
  | floating x => exact NumberStyle.interchange.isGraphic_write x

/-! ## Values -/

/-- No character is escaped to a control character. -/
theorem le_toNat_of_mem_escapeChar {c d : Char} (h : d ∈ escapeChar c) : 0x20 ≤ d.toNat := by
  have hshort {a b : Char} (hd : d ∈ [a, b]) (ha : 0x20 ≤ a.toNat) (hb : 0x20 ≤ b.toNat) :
      0x20 ≤ d.toNat := by
    rcases List.mem_pair.mp hd with rfl | rfl
    · exact ha
    · exact hb
  unfold escapeChar at h
  have hdigit : ∀ n < 16, 0x20 ≤ (Nat.digitChar n).toNat := by decide
  split_ifs at h with _ _ _ _ _ _ _ hcontrol
  all_goals try exact hshort h (by decide) (by decide)
  · simp only [List.mem_cons, List.not_mem_nil, or_false] at h
    rcases h with rfl | rfl | rfl | rfl | rfl | rfl
    · decide
    · decide
    · decide
    · decide
    · exact hdigit _ (by omega)
    · exact hdigit _ (Nat.mod_lt _ (by decide))
  · obtain rfl := List.mem_singleton.mp h
    exact Nat.not_lt.mp hcontrol

theorem isGraphic_quoted (s : String) : IsGraphic (quoted s) := by
  intro c hc
  rw [quoted, String.toList_ofList, List.mem_cons, List.mem_append, List.mem_flatMap] at hc
  rcases hc with rfl | ⟨d, -, hd⟩ | hend
  · decide
  · exact le_toNat_of_mem_escapeChar hd
  · obtain rfl := List.mem_singleton.mp hend
    decide

mutual

/-- The compact text of every value has no control characters. -/
theorem isGraphic_compact (value : Json) : IsGraphic value.compact := by
  cases value with
  | null => exact (by decide : IsGraphic "null")
  | bool b => cases b <;> decide
  | number n => exact n.isGraphic_text
  | string s => exact isGraphic_quoted s
  | array items =>
      exact (IsGraphic.append (by decide)
        (IsGraphic.intercalate (by decide) (isGraphic_compactItems items))).append (by decide)
  | object fields =>
      exact (IsGraphic.append (by decide)
        (IsGraphic.intercalate (by decide) (isGraphic_compactFields fields))).append (by decide)

theorem isGraphic_compactItems (items : List Json) :
    ∀ piece ∈ compactItems items, IsGraphic piece := by
  cases items with
  | nil => exact fun _ h => nomatch h
  | cons item rest =>
      exact List.forall_mem_cons.mpr ⟨isGraphic_compact item, isGraphic_compactItems rest⟩

theorem isGraphic_compactFields (fields : List (String × Json)) :
    ∀ piece ∈ compactFields fields, IsGraphic piece := by
  cases fields with
  | nil => exact fun _ h => nomatch h
  | cons field rest =>
      obtain ⟨name, value⟩ := field
      exact List.forall_mem_cons.mpr
        ⟨((isGraphic_quoted name).append (by decide)).append (isGraphic_compact value),
          isGraphic_compactFields rest⟩

end

end Json
end Rollup
