/-
# Table patterns

A star in a pattern stands for any run of characters but line feeds; every other character
stands for itself. A pattern describes whole names.
-/

import Rollup.Text.Split

namespace Rollup

namespace TablePattern

/-- Whether some rest of a text satisfies a test when only a run before it is passed over, which
holds no line feed. -/
def afterRun (test : List Char → Bool) : List Char → Bool
  | [] => test []
  | c :: rest => test (c :: rest) || (c ≠ '\n' && afterRun test rest)

/-- Whether a pattern describes a text. -/
def describes : List Char → List Char → Bool
  | [] => fun text => text.isEmpty
  | '*' :: pattern => afterRun (describes pattern)
  | c :: pattern => fun text =>
      match text with
      | d :: rest => c = d && describes pattern rest
      | [] => false

/-! ## Every rest of a text at once

Which rests of a text a pattern describes follows from the same for the pattern behind its first
character, so a text is matched in as many rounds as the pattern has characters. The answers stand
in the order of the rests, from the whole text to the empty one. -/

/-- Which rests start with a character and go on with a rest that is marked. -/
def marksBehind (c : Char) : List Char → List Bool → List Bool
  | d :: text, _ :: marks => (c = d && marks.headD false) :: marksBehind c text marks
  | _, _ => [false]

/-- Which rests go on with a rest that is marked when only a run before it is passed over. -/
def marksAfterRun : List Char → List Bool → List Bool
  | d :: text, mark :: marks =>
      let later := marksAfterRun text marks
      (mark || (d ≠ '\n' && later.headD false)) :: later
  | _, marks => marks

/-- Which rests of a text a pattern describes. -/
def marks (text : List Char) : List Char → List Bool
  | [] => text.map (fun _ => false) ++ [true]
  | c :: pattern =>
      if c = '*' then marksAfterRun text (marks text pattern)
      else marksBehind c text (marks text pattern)

/-- Whether a pattern describes a name. -/
def isMatch (pattern name : String) : Bool :=
  (marks name.toList pattern.toList).headD false

/-- The answers of a test for every rest of a text. -/
def answers (test : List Char → Bool) : List Char → List Bool
  | [] => [test []]
  | c :: text => test (c :: text) :: answers test text

theorem head?_answers (test : List Char → Bool) (text : List Char) :
    (answers test text).head? = some (test text) := by
  cases text <;> rfl

theorem answers_isEmpty (text : List Char) :
    answers (describes []) text = text.map (fun _ => false) ++ [true] := by
  induction text with
  | nil => rfl
  | cons c text ih => rw [answers, ih]; rfl

theorem marksAfterRun_answers (test : List Char → Bool) (text : List Char) :
    marksAfterRun text (answers test text) = answers (afterRun test) text := by
  induction text with
  | nil => rfl
  | cons c text ih => simp [answers, marksAfterRun, ih, afterRun, head?_answers]

theorem describes_cons {c : Char} (hc : c ≠ '*') (pattern text : List Char) :
    describes (c :: pattern) text =
      match text with
      | d :: rest => c = d && describes pattern rest
      | [] => false := by
  rw [describes]
  exact hc

theorem marksBehind_answers {c : Char} (hc : c ≠ '*') (pattern text : List Char) :
    marksBehind c text (answers (describes pattern) text) =
      answers (describes (c :: pattern)) text := by
  induction text with
  | nil => simp [answers, marksBehind, describes_cons hc]
  | cons d text ih => simp [answers, marksBehind, ih, describes_cons hc, head?_answers]

theorem marks_eq_answers (text pattern : List Char) :
    marks text pattern = answers (describes pattern) text := by
  induction pattern with
  | nil => rw [answers_isEmpty]; rfl
  | cons c pattern ih =>
      rw [marks, ih]
      by_cases hc : c = '*'
      · subst hc
        rw [if_pos rfl, marksAfterRun_answers]
        rfl
      · rw [if_neg hc, marksBehind_answers hc]

/-- Matching every rest at once decides the same as matching the whole text. -/
theorem isMatch_eq_describes (pattern name : String) :
    isMatch pattern name = describes pattern.toList name.toList := by
  simp [isMatch, marks_eq_answers, head?_answers]

theorem isMatch_star_of_no_line_feed {name : String} (h : '\n' ∉ name.toList) :
    isMatch "*" name = true := by
  have hrun : ∀ text : List Char, '\n' ∉ text → afterRun (describes []) text = true := by
    intro text
    induction text with
    | nil => intro _; rfl
    | cons c rest ih =>
        intro hc
        have hne : c ≠ '\n' := fun e => hc (by simp [e])
        have hrest : '\n' ∉ rest := fun hm => hc (List.mem_cons_of_mem c hm)
        simp [afterRun, hne, ih hrest]
  rw [isMatch_eq_describes]
  exact hrun name.toList h

/-- The patterns of a target, which stand between commas; blanks around them do not count, and
neither do empty ones. -/
def ofTarget (target : String) : List String :=
  ((Text.parts ',' target).map Text.trimmed).filter fun pattern => !pattern.isEmpty

end TablePattern
end Rollup
