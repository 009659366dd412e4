/-
# Patterns of names in two languages

A target has stars for runs of characters. The daemon writes a percent sign for a run, an
underscore for any one character, and a backslash before an underscore that stands for itself. The
patterns of a target are written for the daemon and put into a text of a statement, so what is
escaped is escaped twice. The daemon reads back the same places: both languages describe the same
names.
-/

import Mathlib.Data.List.Basic
import Mathlib.Data.List.Infix
import Rollup.Daemon.Tables
import Rollup.Proofs.Statement.Token

namespace Rollup

/-! ## Stars -/

namespace TablePattern

/-- Whether a text is a pattern with some text in the place of every star. -/
inductive Expands : List Char → List Char → Prop where
  | nil : Expands [] []
  | star {pattern rest : List Char} (run : List Char) (h : Expands pattern rest) :
      Expands ('*' :: pattern) (run ++ rest)
  | same {c : Char} {pattern rest : List Char} (hc : c ≠ '*') (h : Expands pattern rest) :
      Expands (c :: pattern) (c :: rest)

section

variable {c d : Char} {pattern text : List Char}

theorem expands_nil_iff : Expands [] text ↔ text = [] := by
  constructor
  · intro h
    cases h
    rfl
  · rintro rfl
    exact .nil

theorem expands_star_iff :
    Expands ('*' :: pattern) text ↔ ∃ run rest, text = run ++ rest ∧ Expands pattern rest := by
  constructor
  · intro h
    cases h with
    | star run h => exact ⟨run, _, rfl, h⟩
    | same hc h => exact absurd rfl hc
  · rintro ⟨run, rest, rfl, h⟩
    exact .star run h

theorem not_expands_cons_nil (hc : c ≠ '*') : ¬ Expands (c :: pattern) [] := by
  generalize hwhole : [] = whole
  intro h
  cases h with
  | star run h => exact hc rfl
  | same hc h => cases hwhole

theorem expands_cons_cons_iff (hc : c ≠ '*') :
    Expands (c :: pattern) (d :: text) ↔ c = d ∧ Expands pattern text := by
  constructor
  · intro h
    generalize hwhole : d :: text = whole at h
    cases h with
    | star run h => exact absurd rfl hc
    | same hc h =>
        obtain ⟨rfl, rfl⟩ := List.cons.inj hwhole
        exact ⟨rfl, h⟩
  · rintro ⟨rfl, h⟩
    exact .same hc h

/-- A run that is passed over has no line feed. -/
theorem afterRun_iff {test : List Char → Bool} :
    afterRun test text = true ↔
      ∃ run rest, text = run ++ rest ∧ '\n' ∉ run ∧ test rest = true := by
  induction text with
  | nil => simp [afterRun]
  | cons c text ih =>
      rw [afterRun, Bool.or_eq_true, Bool.and_eq_true, decide_eq_true_iff, ih]
      constructor
      · rintro (h | ⟨hc, run, rest, rfl, hline, h⟩)
        · exact ⟨[], c :: text, rfl, List.not_mem_nil, h⟩
        · exact ⟨c :: run, rest, rfl, List.not_mem_cons_of_ne_of_not_mem hc.symm hline, h⟩
      · rintro ⟨run, rest, htext, hline, h⟩
        cases run with
        | nil => exact Or.inl (htext ▸ h)
        | cons d run =>
            obtain ⟨rfl, rfl⟩ := List.cons.inj htext
            exact Or.inr ⟨(List.ne_of_not_mem_cons hline).symm, run, rest, rfl,
              List.not_mem_of_not_mem_cons hline, h⟩

theorem expands_of_describes (h : describes pattern text = true) : Expands pattern text := by
  induction pattern generalizing text with
  | nil => exact List.isEmpty_iff.mp h ▸ .nil
  | cons c pattern ih =>
      by_cases hc : c = '*'
      · subst hc
        obtain ⟨run, rest, rfl, -, hrest⟩ := afterRun_iff.mp h
        exact .star run (ih hrest)
      · rw [describes_cons hc] at h
        cases text with
        | nil => cases h
        | cons d rest =>
            obtain ⟨hsame, hrest⟩ := Bool.and_eq_true_iff.mp h
            exact of_decide_eq_true hsame ▸ .same hc (ih hrest)

theorem Expands.describes (h : Expands pattern text) (hline : '\n' ∉ text) :
    describes pattern text = true := by
  induction h with
  | nil => rfl
  | star run h ih =>
      obtain ⟨hrun, hrest⟩ := not_or.mp (List.mem_append.not.mp hline)
      exact afterRun_iff.mpr ⟨run, _, rfl, hrun, ih hrest⟩
  | same hc h ih =>
      rw [describes_cons hc, Bool.and_eq_true]
      exact ⟨decide_eq_true rfl, ih (List.not_mem_of_not_mem_cons hline)⟩

end

section

variable {pattern name : String}

theorem expands_of_isMatch (h : isMatch pattern name = true) :
    Expands pattern.toList name.toList :=
  expands_of_describes (isMatch_eq_describes pattern name ▸ h)

/-- A pattern describes the names that it becomes when its stars are replaced. -/
theorem isMatch_iff (hline : '\n' ∉ name.toList) :
    isMatch pattern name = true ↔ Expands pattern.toList name.toList := by
  refine ⟨expands_of_isMatch, fun h => ?_⟩
  rw [isMatch_eq_describes]
  exact h.describes hline

end

end TablePattern

/-! ## Percent signs and underscores -/

namespace Daemon

open TablePattern

/-- What stands in a place of a pattern of the daemon. -/
inductive Place where
  | anyRun
  | anyOne
  | literal (c : Char)
  deriving DecidableEq

/-- The places of a pattern of the daemon. -/
def places : List Char → List Place
  | [] => []
  | '%' :: like => .anyRun :: places like
  | '_' :: like => .anyOne :: places like
  | '\\' :: '_' :: like => .literal '_' :: places like
  | c :: like => .literal c :: places like

/-- Whether a text fills some places. -/
def fills : List Place → List Char → Bool
  | [], text => text.isEmpty
  | .anyRun :: later, text => text.tails.any (fills later)
  | .anyOne :: _, [] => false
  | .anyOne :: later, _ :: rest => fills later rest
  | .literal _ :: _, [] => false
  | .literal c :: later, d :: rest => c = d && fills later rest

/-- Whether a name is like a pattern of the daemon. -/
def isLike (like name : String) : Bool := fills (places like.toList) name.toList

/-- The place that a character of a pattern with stars is. -/
def starPlace (c : Char) : Place := if c = '*' then .anyRun else .literal c

/-- A character of a pattern in the language of the daemon. -/
def likeTextChar (c : Char) : List Char :=
  if c = '_' then ['\\', '_'] else if c = '*' then ['%'] else [c]

/-- A pattern with stars in the language of the daemon. -/
def likeText (pattern : String) : String := String.ofList (pattern.toList.flatMap likeTextChar)

theorem fills_starPlaces_iff (pattern text : List Char) :
    fills (pattern.map starPlace) text = true ↔ Expands pattern text := by
  induction pattern generalizing text with
  | nil => rw [expands_nil_iff, List.map_nil, fills, List.isEmpty_iff]
  | cons c pattern ih =>
      by_cases hc : c = '*'
      · subst hc
        rw [expands_star_iff, List.map_cons, starPlace, if_pos rfl, fills, List.any_eq_true]
        simp only [List.mem_tails, ih]
        constructor
        · rintro ⟨rest, ⟨run, rfl⟩, h⟩
          exact ⟨run, rest, rfl, h⟩
        · rintro ⟨run, rest, rfl, h⟩
          exact ⟨rest, ⟨run, rfl⟩, h⟩
      · rw [List.map_cons, starPlace, if_neg hc]
        cases text with
        | nil => exact iff_of_false Bool.false_ne_true (not_expands_cons_nil hc)
        | cons d rest =>
            rw [expands_cons_cons_iff hc, fills, Bool.and_eq_true, decide_eq_true_iff, ih]

/-! ## Safe patterns -/

/-- A character that may stand in a pattern. -/
def IsSafeChar (c : Char) : Prop := (c.isAlphanum || ['_', '.', '*', '-'].contains c) = true

instance (c : Char) : Decidable (IsSafeChar c) := inferInstanceAs (Decidable (_ = true))

theorem isSafeChar_of_isSafe {pattern : String} (h : isSafe pattern = true) :
    ∀ c ∈ pattern.toList, IsSafeChar c :=
  List.all_eq_true.mp (Bool.and_eq_true_iff.mp h).2

theorem IsSafeChar.ne {c d : Char} (h : IsSafeChar c) (hd : ¬ IsSafeChar d) : c ≠ d := by
  rintro rfl
  exact hd h

section

variable {c : Char} {chars : List Char}

/-- What is written for a character is read back from a text of a statement. -/
theorem escapeInText_likeTextChar (hc : IsSafeChar c) :
    (likeTextChar c).flatMap Statement.escapeInText = likeChar c := by
  unfold likeTextChar likeChar
  split
  · rfl
  · split
    · rfl
    · have hplain : ¬ (c = '\\' ∨ c = '\'') :=
        not_or.mpr ⟨hc.ne (by decide), hc.ne (by decide)⟩
      rw [List.flatMap_singleton, Statement.escapeInText, if_neg hplain]

theorem places_cons (hrun : c ≠ '%') (hone : c ≠ '_') (hescape : c ≠ '\\') (like : List Char) :
    places (c :: like) = .literal c :: places like := by
  rw [places]
  · exact hrun
  · exact hone
  · exact fun _ h _ => hescape h

/-- The daemon reads the places that were written. -/
theorem places_likeTextChar_append (hc : IsSafeChar c) (like : List Char) :
    places (likeTextChar c ++ like) = starPlace c :: places like := by
  unfold likeTextChar starPlace
  by_cases hunderscore : c = '_'
  · subst hunderscore
    rfl
  · rw [if_neg hunderscore]
    by_cases hstar : c = '*'
    · subst hstar
      rfl
    · rw [if_neg hstar, if_neg hstar]
      exact places_cons (hc.ne (by decide)) hunderscore (hc.ne (by decide)) like

theorem places_flatMap_likeTextChar (hchars : ∀ c ∈ chars, IsSafeChar c) :
    places (chars.flatMap likeTextChar) = chars.map starPlace := by
  induction chars with
  | nil => rfl
  | cons c chars ih =>
      rw [List.flatMap_cons, places_likeTextChar_append (hchars c List.mem_cons_self),
        ih fun d hd => hchars d (List.mem_cons_of_mem c hd), List.map_cons]

end

section

variable {pattern name : String}

/-- In the language of the daemon a pattern describes the same names. -/
theorem isLike_likeText_iff (hsafe : isSafe pattern = true) :
    isLike (likeText pattern) name = true ↔ Expands pattern.toList name.toList := by
  rw [isLike, likeText, String.toList_ofList,
    places_flatMap_likeTextChar (isSafeChar_of_isSafe hsafe), fills_starPlaces_iff]

/-- A pattern as it is written between quotes is its text in the language of the daemon. -/
theorem quoteText_likeText (hsafe : isSafe pattern = true) :
    Statement.quoteText (likeText pattern) = "'" ++ likePattern pattern ++ "'" := by
  have hescaped : (likeText pattern).toList.flatMap Statement.escapeInText =
      pattern.toList.flatMap likeChar := by
    rw [likeText, String.toList_ofList, List.flatMap_assoc]
    exact List.flatMap_congr fun c hc =>
      escapeInText_likeTextChar (isSafeChar_of_isSafe hsafe c hc)
  apply String.toList_inj.mp
  rw [Statement.quoteText, hescaped, likePattern]
  simp

/-- What the daemon reads in the statement that asks for the tables of a pattern. -/
theorem tokens_show (hsafe : isSafe pattern = true) :
    Statement.tokens ("SHOW TABLES LIKE '" ++ likePattern pattern ++ "'") =
      [.word "SHOW", .word "TABLES", .word "LIKE", .text (likeText pattern)] := by
  have hwords : Statement.IsClosed "SHOW TABLES LIKE ".toList
      [.word "SHOW", .word "TABLES", .word "LIKE"] := fun _ _ => rfl
  have hstatement : "SHOW TABLES LIKE '" ++ likePattern pattern ++ "'" =
      "SHOW TABLES LIKE " ++ Statement.quoteText (likeText pattern) := by
    rw [quoteText_likeText hsafe, ← String.append_assoc, ← String.append_assoc]
    rfl
  apply Statement.IsOpen.tokens_eq
  rw [hstatement, String.toList_append]
  exact (hwords.append (Statement.isClosed_quoteText _)).isOpen

end

end Daemon
end Rollup
