/-
# Sets of characters

A set of characters is a list of ranges of code points, each with its first and its last one. The
ranges ascend, so a character before a range is in none of those behind it.
-/

namespace Rollup.Text

/-- Whether one of some ascending ranges holds a character. -/
def inRanges : List (Nat × Nat) → Char → Bool
  | [], _ => false
  | range :: ranges, c => range.1 ≤ c.toNat && (c.toNat ≤ range.2 || inRanges ranges c)

/-- Whether ranges that all begin behind some code point ascend. -/
def ascendFrom (low : Nat) : List (Nat × Nat) → Bool
  | [] => true
  | range :: ranges => low ≤ range.1 && range.1 ≤ range.2 && ascendFrom (range.2 + 1) ranges

theorem le_of_ascendFrom {low : Nat} {ranges : List (Nat × Nat)}
    (h : ascendFrom low ranges = true) : ∀ range ∈ ranges, low ≤ range.1 := by
  induction ranges generalizing low with
  | nil => simp
  | cons first rest ih =>
      simp only [ascendFrom, Bool.and_eq_true, decide_eq_true_eq] at h
      intro range hrange
      rcases List.mem_cons.1 hrange with rfl | hrest
      · exact h.1.1
      · have := ih h.2 range hrest
        omega

/-- In ascending ranges the first one behind a character ends the search. -/
theorem inRanges_iff {low : Nat} {ranges : List (Nat × Nat)}
    (h : ascendFrom low ranges = true) (c : Char) :
    inRanges ranges c = true ↔ ∃ range ∈ ranges, range.1 ≤ c.toNat ∧ c.toNat ≤ range.2 := by
  induction ranges generalizing low with
  | nil => simp [inRanges]
  | cons first rest ih =>
      simp only [ascendFrom, Bool.and_eq_true, decide_eq_true_eq] at h
      have hrest := ih h.2
      have hlow := le_of_ascendFrom h.2
      simp only [inRanges, Bool.and_eq_true, Bool.or_eq_true, decide_eq_true_eq, hrest,
        List.mem_cons]
      constructor
      · rintro ⟨hfirst, hlast | ⟨range, hrange, hin⟩⟩
        · exact ⟨first, Or.inl rfl, hfirst, hlast⟩
        · exact ⟨range, Or.inr hrange, hin⟩
      · rintro ⟨range, rfl | hrange, hin⟩
        · exact ⟨hin.1, Or.inl hin.2⟩
        · have := hlow range hrange
          exact ⟨by omega, Or.inr ⟨range, hrange, hin⟩⟩

end Rollup.Text
