/-
# Names in a statement

A name is written bare if it is plain and in backquotes otherwise, and is read back as one token
before all that can follow a name. Two things are lost: a name that is a word of the statement
itself is written bare and read as that word, and backquotes in a name are left out.
-/

import Rollup.Proofs.Statement.Token

namespace Rollup.Statement

/-- The words of a statement that are no names: those between its parts, and those of orders and
conditions. -/
def reservedWords : List String :=
  ["SELECT", "FROM", "WHERE", "GROUP", "ORDER", "BY", "LIMIT", "OPTION", "AS", "ASC", "DESC",
    "AND", "OR", "NOT", "IN", "IS", "NULL"]

/-- Whether a word is reserved, in any case. -/
def isReserved (word : String) : Bool :=
  reservedWords.contains (String.ofList (word.toList.map Char.toUpper))

/-- The name that a token stands for; reserved words stand for none. -/
def Token.identifier? : Token → Option String
  | .word name => if isReserved name then none else some name
  | .quoted name => some name
  | _ => none

/-- A name without its backquotes. -/
def withoutBackquotes (name : String) : String :=
  String.ofList (name.toList.filter (· ≠ backquote))

theorem withoutBackquotes_eq_self_iff {name : String} :
    withoutBackquotes name = name ↔ backquote ∉ name.toList := by
  rw [withoutBackquotes, ← String.toList_inj, String.toList_ofList, List.filter_eq_self]
  simp only [ne_eq, decide_not, Bool.not_eq_true', decide_eq_false_iff_not]
  exact ⟨fun h hmem => h backquote hmem rfl, fun h c hc heq => h (heq ▸ hc)⟩

/-! ## Reserved words -/

theorem Keyword.isReserved_of_read? {chars : List Char} {k : Keyword}
    (h : Keyword.read? chars = some k) : isReserved (String.ofList chars) = true := by
  unfold Keyword.read? at h
  rw [isReserved, String.toList_ofList]
  dsimp only at h
  split_ifs at h with hand hor hnot hin his hnull
  · rw [hand]; rfl
  · rw [hor]; rfl
  · rw [hnot]; rfl
  · rw [hin]; rfl
  · rw [his]; rfl
  · rw [hnull]; rfl

/-- A word that ends stands for itself unless it is reserved. -/
theorem identifier?_wordToken (chars : List Char) :
    (Pending.wordToken chars).identifier? =
      if isReserved (String.ofList chars) then none else some (String.ofList chars) := by
  unfold Pending.wordToken
  split
  · rename_i k hread
    rw [if_pos (Keyword.isReserved_of_read? hread)]
    rfl
  · rfl

theorem isAlpha_of_isUpper_toUpper {c : Char} (h : c.toUpper.isUpper = true) :
    c.isAlpha = true := by
  refine Bool.or_eq_true_iff.mpr ?_
  by_cases hlower : c.isLower = true
  · exact Or.inr hlower
  · have hsame : c.toUpper = c := by
      unfold Char.toUpper
      split
      · rename_i hrange
        exact absurd (Bool.and_eq_true_iff.mpr
          ⟨decide_eq_true hrange.1, decide_eq_true hrange.2⟩) hlower
      · rfl
    exact Or.inl (hsame ▸ h)

theorem partsAtPoints_eq_singleton {name : List Char} (h : '.' ∉ name) :
    partsAtPoints name = [name] := by
  induction name with
  | nil => rfl
  | cons c name ih =>
      rw [partsAtPoints, ih (List.not_mem_of_not_mem_cons h)]
      exact if_neg (List.ne_of_not_mem_cons h).symm

theorem isPlainName_of_isAlpha {name : List Char} (hne : name ≠ [])
    (hletters : ∀ c ∈ name, c.isAlpha = true) : isPlainName name = true := by
  have hpoint : '.' ∉ name := fun hmem => absurd (hletters '.' hmem) (by decide)
  obtain ⟨c, more, rfl⟩ := List.exists_cons_of_ne_nil hne
  have hstart (d : Char) (hd : d ∈ c :: more) : startsName d = true := by
    rw [startsName, hletters d hd, Bool.true_or]
  rw [isPlainName, partsAtPoints_eq_singleton hpoint, List.all_cons, List.all_nil, Bool.and_true,
    isPlainPart, hstart c List.mem_cons_self, Bool.true_and, List.all_eq_true]
  exact fun d hd => continuesName_of_startsName (hstart d (List.mem_cons_of_mem c hd))

/-- Reserved words are made of letters, so that they need no quoting. -/
theorem isPlainName_of_isReserved {name : String} (h : isReserved name = true) :
    isPlainName name.toList = true := by
  have hwords : (reservedWords.all fun word =>
      !word.toList.isEmpty && word.toList.all Char.isUpper) = true := by decide
  have hword := List.all_eq_true.mp hwords _ (List.contains_iff_mem.mp h)
  rw [String.toList_ofList, Bool.and_eq_true, List.all_eq_true, Bool.not_eq_true',
    List.isEmpty_eq_false_iff] at hword
  obtain ⟨hne, hupper⟩ := hword
  refine isPlainName_of_isAlpha (fun hnil => hne (by rw [hnil]; rfl)) fun c hc => ?_
  exact isAlpha_of_isUpper_toUpper (hupper _ (List.mem_map_of_mem hc))

/-! ## Names that are read back -/

/-- Plain names have no backquotes. -/
theorem withoutBackquotes_of_isPlainName {name : String} (h : isPlainName name.toList = true) :
    withoutBackquotes name = name := by
  rw [withoutBackquotes_eq_self_iff]
  intro hmem
  obtain ⟨c, more, heq, hstart, hmore⟩ := eq_cons_of_isPlainName h
  rw [heq] at hmem
  rcases List.mem_cons.mp hmem with rfl | hlater
  · exact absurd hstart (by decide)
  · exact absurd (hmore backquote hlater) (by decide)

/-- The name that is read back is the one that is written, without its backquotes. -/
theorem identifier?_nameToken (name : String) :
    (nameToken name).identifier? =
      if isReserved name then none else some (withoutBackquotes name) := by
  unfold nameToken
  by_cases hplain : isPlainName name.toList = true
  · rw [if_pos hplain, identifier?_wordToken, String.ofList_toList,
      withoutBackquotes_of_isPlainName hplain]
  · have hfree : ¬ isReserved name = true := fun h => hplain (isPlainName_of_isReserved h)
    rw [if_neg hplain, if_neg hfree]
    rfl

theorem quoteName_of_not_isPlainName {name : String} (h : ¬ isPlainName name.toList = true) :
    quoteName name =
      String.ofList (backquote :: ((withoutBackquotes name).toList ++ [backquote])) := by
  rw [quoteName, if_neg h, withoutBackquotes, String.toList_ofList]

/-- A bare name is no name in backquotes. -/
theorem quoteName_ne {first second : String} (hfirst : isPlainName first.toList = true)
    (hsecond : ¬ isPlainName second.toList = true) : quoteName first ≠ quoteName second := by
  intro heq
  rw [quoteName, if_pos hfirst, quoteName_of_not_isPlainName hsecond] at heq
  obtain ⟨c, more, hname, hstart, -⟩ := eq_cons_of_isPlainName hfirst
  rw [heq, String.toList_ofList] at hname
  obtain rfl : backquote = c := (List.cons.inj hname).1
  exact absurd hstart (by decide)

/-- Names are written alike if they are the same or stand in backquotes and differ in backquotes
alone. -/
theorem quoteName_eq_iff {first second : String} :
    quoteName first = quoteName second ↔ first = second ∨
      (isPlainName first.toList = false ∧ isPlainName second.toList = false ∧
        withoutBackquotes first = withoutBackquotes second) := by
  by_cases hfirst : isPlainName first.toList = true <;>
    by_cases hsecond : isPlainName second.toList = true
  · rw [quoteName, quoteName, if_pos hfirst, if_pos hsecond]
    simp [hfirst]
  · have hne := quoteName_ne hfirst hsecond
    have hnames : first ≠ second := fun h => hne (congrArg quoteName h)
    simp [hne, hnames, hfirst]
  · have hne := (quoteName_ne hsecond hfirst).symm
    have hnames : first ≠ second := fun h => hne (congrArg quoteName h)
    simp [hne, hnames, hsecond]
  · rw [quoteName_of_not_isPlainName hfirst, quoteName_of_not_isPlainName hsecond]
    have hsame : first = second → withoutBackquotes first = withoutBackquotes second :=
      congrArg withoutBackquotes
    simpa [hfirst, hsecond, String.toList_inj] using hsame

/-- Every name is written as one token. It stands for the name without its backquotes, unless the
name is a reserved word: so it stands for the name itself just when that is not reserved and has no
backquote, and names without backquotes are written alike only if they are the same. -/
theorem quoteName_identifies (name : String) :
    ∃ token, IsOpen (quoteName name).toList [token] ∧
      token.identifier? = (if isReserved name then none else some (withoutBackquotes name)) ∧
      (token.identifier? = some name ↔ isReserved name = false ∧ backquote ∉ name.toList) ∧
      ∀ other, quoteName other = quoteName name ↔ other = name ∨
        (isPlainName other.toList = false ∧ isPlainName name.toList = false ∧
          withoutBackquotes other = withoutBackquotes name) := by
  refine ⟨nameToken name, isOpen_quoteName name, identifier?_nameToken name, ?_,
    fun other => quoteName_eq_iff⟩
  rw [identifier?_nameToken, ← withoutBackquotes_eq_self_iff]
  cases isReserved name <;> simp

/-- A reserved word is written as it stands and read as no name, and of a name with a backquote
another name is read, so that two names are written alike. -/
theorem quoteName_loses_names :
    (¬ ∃ token, tokens (quoteName "select") = [token] ∧ token.identifier? = some "select") ∧
      (¬ ∃ token, tokens (quoteName "a\x60b") = [token] ∧ token.identifier? = some "a\x60b") ∧
      ¬ Function.Injective quoteName := by
  refine ⟨?_, ?_, fun hinjective => ?_⟩
  · rintro ⟨token, htokens, hname⟩
    obtain rfl : nameToken "select" = token := by
      simpa [(isOpen_quoteName "select").tokens_eq] using htokens
    exact absurd hname (by decide)
  · rintro ⟨token, htokens, hname⟩
    obtain rfl : nameToken "a\x60b" = token := by
      simpa [(isOpen_quoteName "a\x60b").tokens_eq] using htokens
    exact absurd hname (by decide)
  · have hsame : quoteName "@a\x60" = quoteName "@a" := by decide
    exact absurd (hinjective hsame) (by decide)

end Rollup.Statement
