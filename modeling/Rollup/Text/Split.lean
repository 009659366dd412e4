/-
# Cutting at a separator
-/

import Rollup.Text.Blank

namespace Rollup.Text

/-- The parts between separators; a text without separators is one part. -/
def split (separator : Char) : List Char → List (List Char)
  | [] => [[]]
  | c :: rest =>
      if c = separator then [] :: split separator rest
      else
        match split separator rest with
        | [] => [[c]]
        | part :: parts => (c :: part) :: parts

/-- The parts of a string between separators. -/
def parts (separator : Char) (text : String) : List String :=
  (split separator text.toList).map String.ofList

/-- The parts before and behind the first separator, if there is one. -/
def splitFirst? (separator : Char) (text : String) : Option (String × String) :=
  let chars := text.toList
  match chars.dropWhile (· ≠ separator) with
  | [] => none
  | _ :: rest => some (String.ofList (chars.takeWhile (· ≠ separator)), String.ofList rest)

/-- There is always at least one part. -/
theorem split_ne_nil (separator : Char) (text : List Char) : split separator text ≠ [] := by
  cases text with
  | nil => simp [split]
  | cons c rest =>
      unfold split
      split
      · simp
      · split <;> simp

/-- The parts joined by the separator are the text again. -/
theorem intercalate_split (separator : Char) (text : List Char) :
    [separator].intercalate (split separator text) = text := by
  induction text with
  | nil => simp [split, List.intercalate]
  | cons c rest ih =>
      unfold split
      split
      · rename_i h
        cases hs : split separator rest with
        | nil => exact absurd hs (split_ne_nil separator rest)
        | cons part parts =>
            rw [hs] at ih
            simp [List.intercalate, List.intersperse] at ih ⊢
            exact ⟨h.symm, ih⟩
      · cases hs : split separator rest with
        | nil => exact absurd hs (split_ne_nil separator rest)
        | cons part parts =>
            rw [hs] at ih
            cases parts with
            | nil => simpa [List.intercalate] using ih
            | cons next others => simpa [List.intercalate] using ih

end Rollup.Text
