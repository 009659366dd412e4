/-
# Searches in a statement

A search in the full text is a call: its name with a parenthesis right behind. The calls of a text
are counted by its tokens, and the count of a text that is put together is the sum of the counts of
its parts, as long as no part starts with a parenthesis. The text of a condition has one call for
each atom that searches.
-/

import Rollup.Proofs.Filter.Grammar
import Rollup.Statement.Basic

namespace Rollup

namespace Statement

/-- Whether a token is the name of the search in the full text, in any case. -/
def Token.isSearch : Token → Bool
  | word name => String.ofList (name.toList.map Char.toUpper) == "MATCH"
  | _ => false

/-- How many calls of the search there are. -/
def searchCount : List Token → Nat
  | [] => 0
  | token :: rest =>
      (if token.isSearch = true ∧ rest.head? = some .opening then 1 else 0) + searchCount rest

section

variable {first second ts : List Token}

theorem searchCount_cons {token : Token} (h : token.isSearch = false) :
    searchCount (token :: ts) = searchCount ts := by
  rw [searchCount, if_neg (by simp [h]), Nat.zero_add]

/-- Whether a parenthesis opens a list is seen in its first part, unless one opens the second. -/
theorem head?_append_eq_opening_iff (h : second.head? ≠ some .opening) :
    (first ++ second).head? = some .opening ↔ first.head? = some .opening := by
  cases first with
  | nil => simpa using h
  | cons _ _ => rfl

theorem searchCount_append (h : second.head? ≠ some .opening) :
    searchCount (first ++ second) = searchCount first + searchCount second := by
  induction first with
  | nil => rw [List.nil_append, searchCount, Nat.zero_add]
  | cons token first ih =>
      rw [List.cons_append, searchCount, searchCount, ih,
        if_congr (by rw [head?_append_eq_opening_iff h]) rfl rfl, Nat.add_assoc]

/-- Tokens that are no name of the search do not count. -/
theorem searchCount_silent (h : ∀ token ∈ first, token.isSearch = false) :
    searchCount (first ++ second) = searchCount second := by
  induction first with
  | nil => rfl
  | cons token first ih =>
      rw [List.cons_append, searchCount_cons (h token List.mem_cons_self),
        ih fun other hother => h other (List.mem_cons_of_mem token hother)]

theorem searchCount_intercalate {separator : Token} (hsilent : separator.isSearch = false)
    (hseparator : separator ≠ .opening) (lists : List (List Token)) :
    searchCount (List.intercalate [separator] lists) = (lists.map searchCount).sum := by
  induction lists with
  | nil => rfl
  | cons ts lists ih =>
      cases lists with
      | nil => simp
      | cons us lists =>
          rw [List.intercalate_cons_cons, List.append_assoc, searchCount_append (by simpa),
            List.singleton_append, searchCount_cons hsilent, ih]
          rfl

end

/-! ## Pieces -/

/-- A piece with a number of calls of the search. -/
def HasSearches (piece : String) (count : Nat) : Prop :=
  ∃ ts, IsOpen piece.toList ts ∧ searchCount ts = count

/-- A piece that may stand before any other, and in which nothing searches. -/
structure IsLead (piece : String) (ts : List Token) : Prop where
  closed : IsClosed piece.toList ts
  silent : ∀ token ∈ ts, token.isSearch = false

/-- A piece that may also stand behind others. -/
structure IsJoint (piece : String) (ts : List Token) : Prop extends IsLead piece ts where
  apart : IsApart piece.toList
  starts : ∃ token rest, ts = token :: rest ∧ token ≠ .opening

namespace HasSearches

variable {first second piece : String} {m n : Nat} {ts : List Token}

theorem searchCount_tokens (h : HasSearches piece n) : searchCount (tokens piece) = n := by
  obtain ⟨ts, hopen, hcount⟩ := h
  rw [hopen.tokens_eq, hcount]

theorem lead (hlead : IsLead first ts) (h : HasSearches second n) :
    HasSearches (first ++ second) n := by
  obtain ⟨us, hopen, hcount⟩ := h
  refine ⟨ts ++ us, ?_, by rw [searchCount_silent hlead.silent, hcount]⟩
  rw [String.toList_append]
  exact hlead.closed.append_isOpen hopen

theorem join (hfirst : HasSearches first m) (hjoint : IsJoint piece ts)
    (hsecond : HasSearches second n) : HasSearches (first ++ piece ++ second) (m + n) := by
  obtain ⟨us, hopen, hcount⟩ := hfirst
  obtain ⟨vs, hopen', hcount'⟩ := hsecond
  obtain ⟨token, rest, hts, htoken⟩ := hjoint.starts
  refine ⟨us ++ ts ++ vs, ?_, ?_⟩
  · rw [String.toList_append, String.toList_append]
    exact (hopen.append_isClosed hjoint.closed hjoint.apart).append_isOpen hopen'
  · rw [List.append_assoc, searchCount_append (by simpa [hts] using htoken), hcount,
      searchCount_silent hjoint.silent, hcount']

theorem empty : HasSearches "" 0 := ⟨[], fun _ _ => rfl, rfl⟩

/-- Pieces with a separator between them. -/
theorem intercalate {separator : String} {token : Token} (hjoint : IsJoint separator [token])
    {pieces : List String} {count : String → Nat}
    (h : ∀ p ∈ pieces, HasSearches p (count p)) :
    HasSearches (String.intercalate separator pieces) (pieces.map count).sum := by
  induction pieces with
  | nil => exact empty
  | cons p pieces ih =>
      have hp := h p List.mem_cons_self
      cases pieces with
      | nil => simpa using hp
      | cons q pieces =>
          rw [String.intercalate_cons_cons, List.map_cons, List.sum_cons]
          exact hp.join hjoint (ih fun r hr => h r (List.mem_cons_of_mem p hr))

/-- A clause behind others. -/
theorem clause (hfirst : HasSearches first n) {keyword separator : String} {token : Token}
    (hkeyword : IsJoint keyword ts) (hseparator : IsJoint separator [token])
    {pieces : List String} {count : String → Nat} (h : ∀ p ∈ pieces, HasSearches p (count p)) :
    HasSearches (first ++ Statement.clause keyword separator pieces)
      (n + (pieces.map count).sum) := by
  unfold Statement.clause
  cases pieces with
  | nil => simpa using hfirst
  | cons p pieces =>
      rw [List.isEmpty_cons, if_neg Bool.false_ne_true, ← String.append_assoc]
      exact hfirst.join hkeyword (intercalate hseparator h)

end HasSearches

end Statement

open Statement

/-! ## Conditions -/

theorem Statement.Literal.isSearch_token (value : Literal) : value.token.isSearch = false := by
  cases value <;> rfl

/-- A list of values has no search. -/
theorem Statement.searchCount_values (values : List Literal) :
    searchCount (List.intercalate [Token.comma] (values.map fun value => [value.token])) = 0 := by
  rw [searchCount_intercalate rfl (by decide), List.map_map, List.sum_eq_zero]
  intro count hcount
  obtain ⟨value, -, rfl⟩ := List.mem_map.mp hcount
  exact searchCount_cons value.isSearch_token

theorem Atom.searchCount_tokens (a : Atom) :
    searchCount a.tokens = if a.isFullText then 1 else 0 := by
  cases a with
  | equals field value => simp [tokens, searchCount, isFullText, Token.isSearch]
  | isIn field values =>
      have hlist : searchCount (List.intercalate [.comma]
          (values.map fun value => [value.token]) ++ [.closing]) = 0 := by
        rw [searchCount_append (by simp), searchCount_values]
        rfl
      simp [tokens, searchCount, isFullText, hlist, Token.isSearch]
  | compares field comparison bound => simp [tokens, searchCount, isFullText, Token.isSearch]
  | isPresent field => simp [tokens, searchCount, isFullText, Token.isSearch]
  | matchesText query => rfl

namespace Condition

/-- How many atoms of a condition search in the full text. -/
def searches (c : Condition) : Nat := c.atoms.countP Atom.isFullText

theorem countP_atomsOf (parts : List Condition) :
    (atomsOf parts).countP Atom.isFullText = (parts.map searches).sum := by
  rw [atomsOf_eq_flatMap, List.countP_flatMap]
  rfl

theorem searchCount_parentheses (ts : List Token) :
    searchCount (.opening :: (ts ++ [.closing])) = searchCount ts := by
  rw [searchCount_cons rfl, searchCount_append (by simp)]
  rfl

/-- The tokens of a condition have a call for each atom that searches. -/
theorem searchCount_tokens (c : Condition) : searchCount c.tokens = c.searches := by
  have hjoined {parts : List Condition} (k : Keyword)
      (h : ∀ part ∈ parts, searchCount part.tokens = part.searches) :
      searchCount (.opening :: (List.intercalate [.keyword k] (tokensOf parts) ++ [.closing])) =
        (atomsOf parts).countP Atom.isFullText := by
    rw [searchCount_parentheses, searchCount_intercalate rfl (by simp), tokensOf_eq_map,
      List.map_map, countP_atomsOf]
    exact congrArg List.sum (List.map_congr_left h)
  match c with
  | atom a =>
      rw [tokens, a.searchCount_tokens, searches, atoms, List.countP_singleton]
  | all parts => exact hjoined .and fun part hpart => searchCount_tokens part
  | any parts => exact hjoined .or fun part hpart => searchCount_tokens part
  | not part =>
      rw [tokens, searchCount_cons rfl]
      split
      · exact searchCount_tokens part
      · rw [searchCount_parentheses]
        exact searchCount_tokens part

/-! ## Searches at the top -/

mutual

/-- The terms that a condition is the conjunction of, through nested conjunctions. -/
def conjuncts : Condition → List Condition
  | all parts => conjunctsOf parts
  | atom a => [atom a]
  | any parts => [any parts]
  | not part => [not part]

def conjunctsOf : List Condition → List Condition
  | [] => []
  | part :: rest => conjuncts part ++ conjunctsOf rest

end

/-- Whether a condition is a call of the search. -/
def isSearch : Condition → Bool
  | atom a => a.isFullText
  | _ => false

mutual

/-- Whether all that searches are terms of the conjunction: nothing below a disjunction or a
negation does. -/
def searchesOnTop : Condition → Bool
  | atom _ => true
  | all parts => allSearchOnTop parts
  | any parts => (atomsOf parts).all fun a => !a.isFullText
  | not part => part.atoms.all fun a => !a.isFullText

def allSearchOnTop : List Condition → Bool
  | [] => true
  | part :: rest => searchesOnTop part && allSearchOnTop rest

end

theorem conjunctsOf_eq_flatMap (parts : List Condition) :
    conjunctsOf parts = parts.flatMap conjuncts := by
  induction parts with
  | nil => rfl
  | cons part rest ih => rw [conjunctsOf, ih, List.flatMap_cons]

theorem allSearchOnTop_iff (parts : List Condition) :
    allSearchOnTop parts = true ↔ ∀ part ∈ parts, part.searchesOnTop = true := by
  induction parts with
  | nil => simp [allSearchOnTop]
  | cons part rest ih => simp [allSearchOnTop, ih]

/-- The terms that search, and with them all that search if all are on top. -/
def topSearches (c : Condition) : Nat := c.conjuncts.countP isSearch

/-- A list of numbers below others has the same sum if the numbers are the same. -/
theorem sum_eq_iff {α : Type} {items : List α} {f g : α → Nat} (h : ∀ a ∈ items, f a ≤ g a) :
    (items.map f).sum ≤ (items.map g).sum ∧
      ((items.map f).sum = (items.map g).sum ↔ ∀ a ∈ items, f a = g a) := by
  induction items with
  | nil => simp
  | cons a items ih =>
      obtain ⟨hle, heq⟩ := ih fun b hb => h b (List.mem_cons_of_mem a hb)
      have ha := h a List.mem_cons_self
      simp only [List.map_cons, List.sum_cons, List.forall_mem_cons, ← heq]
      omega

theorem topSearches_all (parts : List Condition) :
    (all parts).topSearches = (parts.map topSearches).sum := by
  rw [topSearches, conjuncts, conjunctsOf_eq_flatMap, List.countP_flatMap]
  rfl

/-- No atom searches exactly if none is counted. -/
theorem countP_isFullText_eq_zero_iff (atoms : List Atom) :
    0 = atoms.countP Atom.isFullText ↔ (atoms.all fun a => !a.isFullText) = true := by
  rw [eq_comm, List.countP_eq_zero, List.all_eq_true]
  exact forall₂_congr fun a _ => by simp

/-- The terms that search are all that searches exactly if all that searches is on top. -/
theorem topSearches_spec (c : Condition) :
    c.topSearches ≤ c.searches ∧ (c.topSearches = c.searches ↔ c.searchesOnTop = true) := by
  match c with
  | atom a =>
      have heq : (atom a).topSearches = (atom a).searches := by
        rw [topSearches, conjuncts, searches, atoms, List.countP_singleton, List.countP_singleton]
        rfl
      exact ⟨heq.le, fun _ => rfl, fun _ => heq⟩
  | all parts =>
      have hparts (part : Condition) (hpart : part ∈ parts) := topSearches_spec part
      obtain ⟨hle, heq⟩ := sum_eq_iff fun part hpart => (hparts part hpart).1
      rw [topSearches_all, searches, atoms, countP_atomsOf, searchesOnTop, allSearchOnTop_iff, heq]
      exact ⟨hle, forall₂_congr fun part hpart => (hparts part hpart).2⟩
  | any parts =>
      exact ⟨Nat.zero_le _, countP_isFullText_eq_zero_iff (atomsOf parts)⟩
  | not part =>
      exact ⟨Nat.zero_le _, countP_isFullText_eq_zero_iff part.atoms⟩

end Condition

end Rollup
