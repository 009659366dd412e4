/-
# Blank characters

The characters with the Unicode property `White_Space`, and the three ways of cutting
them off the ends of a text. Inner blanks are never touched.
-/

namespace Rollup.Text

/-- The code points with the property `White_Space`, as inclusive ranges in ascending order. -/
def blankRanges : List (Nat × Nat) :=
  [(0x09, 0x0d), (0x20, 0x20), (0x85, 0x85), (0xa0, 0xa0), (0x1680, 0x1680), (0x2000, 0x200a),
    (0x2028, 0x2029), (0x202f, 0x202f), (0x205f, 0x205f), (0x3000, 0x3000)]

/-- A character is blank when one of the ranges holds its code point. -/
def isBlank (c : Char) : Bool :=
  blankRanges.any fun (first, last) => first ≤ c.toNat && c.toNat ≤ last

/-- Drop the blanks in front. -/
def trimStart (text : List Char) : List Char :=
  text.dropWhile isBlank

/-- Drop the blanks in front and behind. -/
def trim (text : List Char) : List Char :=
  (trimStart (trimStart text).reverse).reverse

/-- A string without the blanks at its ends. -/
def trimmed (text : String) : String :=
  String.ofList (trim text.toList)

theorem isBlank_space : isBlank ' ' = true := by decide

theorem trimStart_of_not_isBlank {c : Char} (h : isBlank c = false) (rest : List Char) :
    trimStart (c :: rest) = c :: rest := by
  simp [trimStart, h]

/-- A text that has been cut in front starts with no blank. -/
theorem trimStart_trimStart (text : List Char) : trimStart (trimStart text) = trimStart text := by
  induction text with
  | nil => rfl
  | cons c rest ih =>
      cases h : isBlank c with
      | true => simpa [trimStart, h] using ih
      | false => rw [trimStart_of_not_isBlank h, trimStart_of_not_isBlank h]

end Rollup.Text
