/-
# Tokens of a statement

A statement is read character by character into keywords, names, texts, numbers and signs. What is
said about a piece of text is said in front of any text that may follow it, so that pieces are put
together without a second look at their characters: a piece is closed if anything may follow, and
open if it is ended by what cannot go on a name or a number.
-/

import Rollup.Filter.Condition
import Rollup.Proofs.Number.Interchange

namespace Rollup.Statement

/-- The words that conditions are built of. -/
inductive Keyword where
  | and
  | or
  | not
  | isIn
  | is
  | null
  deriving DecidableEq, Repr

/-- The keyword of a word, in any case. -/
def Keyword.read? (word : List Char) : Option Keyword :=
  let upper := String.ofList (word.map Char.toUpper)
  if upper = "AND" then some and
  else if upper = "OR" then some or
  else if upper = "NOT" then some not
  else if upper = "IN" then some isIn
  else if upper = "IS" then some is
  else if upper = "NULL" then some null
  else none

inductive Token where
  | keyword (k : Keyword)
  /-- A name as it stands. -/
  | word (name : String)
  /-- A name in backquotes, without them. -/
  | quoted (name : String)
  /-- A text literal, without its quotes and escapes. -/
  | text (value : String)
  | number (numeral : String)
  | opening
  | closing
  | comma
  | equals
  | compares (comparison : Comparison)
  | sign (c : Char)
  /-- A quote that nothing closes. -/
  | unclosed
  deriving DecidableEq

/-- The token that is being read, with its characters so far. -/
inductive Pending where
  | nothing
  | word (chars : List Char)
  | quoted (chars : List Char)
  | text (chars : List Char)
  /-- Behind a backslash in a text. -/
  | escaped (chars : List Char)
  | minus
  | number (chars : List Char)
  /-- Just behind the mark of an exponent. -/
  | exponent (chars : List Char)
  | less
  | greater

namespace Pending

/-- A word that ends is a keyword or a name. -/
def wordToken (chars : List Char) : Token :=
  match Keyword.read? chars with
  | some k => .keyword k
  | none => .word (String.ofList chars)

/-- The tokens that end with the text. -/
def finish : Pending → List Token
  | nothing => []
  | word chars => [wordToken chars]
  | quoted _ => [.unclosed]
  | text _ => [.unclosed]
  | escaped _ => [.unclosed]
  | minus => [.sign '-']
  | number chars => [.number (String.ofList chars)]
  | exponent chars => [.number (String.ofList chars)]
  | less => [.compares .below]
  | greater => [.compares .above]

/-- The first character of a token, or a token of one character. -/
def start (c : Char) : List Token × Pending :=
  if c = ' ' then ([], nothing)
  else if startsName c then ([], word [c])
  else if c.isDigit then ([], number [c])
  else if c = backquote then ([], quoted [])
  else if c = '\'' then ([], text [])
  else if c = '-' then ([], minus)
  else if c = '<' then ([], less)
  else if c = '>' then ([], greater)
  else if c = '(' then ([.opening], nothing)
  else if c = ')' then ([.closing], nothing)
  else if c = ',' then ([.comma], nothing)
  else if c = '=' then ([.equals], nothing)
  else ([.sign c], nothing)

/-- A token that ends before a character. -/
def endBefore (token : Token) (c : Char) : List Token × Pending :=
  (token :: (start c).1, (start c).2)

/-- The next character: the tokens that end with it, and the one that is read from here on. -/
def step : Pending → Char → List Token × Pending
  | nothing, c => start c
  | word chars, c =>
      if continuesName c || c == '.' then ([], word (chars ++ [c]))
      else endBefore (wordToken chars) c
  | quoted chars, c =>
      if c = backquote then ([.quoted (String.ofList chars)], nothing)
      else ([], quoted (chars ++ [c]))
  | text chars, c =>
      if c = '\'' then ([.text (String.ofList chars)], nothing)
      else if c = '\\' then ([], escaped chars)
      else ([], text (chars ++ [c]))
  | escaped chars, c => ([], text (chars ++ [c]))
  | minus, c => if c.isDigit then ([], number ['-', c]) else endBefore (.sign '-') c
  | number chars, c =>
      if c.isDigit || c == '.' then ([], number (chars ++ [c]))
      else if c = 'e' then ([], exponent (chars ++ [c]))
      else endBefore (.number (String.ofList chars)) c
  | exponent chars, c =>
      if c.isDigit || c == '+' || c == '-' then ([], number (chars ++ [c]))
      else endBefore (.number (String.ofList chars)) c
  | less, c => if c = '=' then ([.compares .atMost], nothing) else endBefore (.compares .below) c
  | greater, c =>
      if c = '=' then ([.compares .atLeast], nothing) else endBefore (.compares .above) c

/-- The tokens of a text, the first of which may be under way. -/
def scan : Pending → List Char → List Token
  | pending, [] => pending.finish
  | pending, c :: rest => (pending.step c).1 ++ scan (pending.step c).2 rest

end Pending

open Pending

/-- The tokens of a text. -/
def tokens (text : String) : List Token := scan nothing text.toList

/-! ## Pieces of a text -/

/-- A piece that has its tokens before every text of some kind. -/
def HasTokens (follows : List Char → Prop) (piece : List Char) (ts : List Token) : Prop :=
  ∀ rest, follows rest → scan nothing (piece ++ rest) = ts ++ scan nothing rest

/-- Whether no name and no number goes on with a text. -/
def IsBoundary (rest : List Char) : Prop :=
  ∀ c ∈ rest.head?, continuesName c = false ∧ c ≠ '.'

/-- A piece that has its tokens whatever follows. -/
def IsClosed : List Char → List Token → Prop := HasTokens fun _ => True

/-- A piece that has its tokens when it is ended by what follows. -/
def IsOpen : List Char → List Token → Prop := HasTokens IsBoundary

section Pieces

variable {piece first second rest : List Char} {ts us : List Token}

theorem isBoundary_cons {c : Char} (hname : continuesName c = false) (hpoint : c ≠ '.') :
    IsBoundary (c :: rest) := by
  intro d hd
  obtain rfl : c = d := Option.some.inj hd
  exact ⟨hname, hpoint⟩

theorem HasTokens.append {follows between : List Char → Prop} (hfirst : HasTokens between first ts)
    (hsecond : HasTokens follows second us)
    (hbetween : ∀ rest, follows rest → between (second ++ rest)) :
    HasTokens follows (first ++ second) (ts ++ us) := by
  intro rest hrest
  rw [List.append_assoc, hfirst _ (hbetween rest hrest), hsecond rest hrest, List.append_assoc]

theorem IsClosed.isOpen (h : IsClosed piece ts) : IsOpen piece ts :=
  fun rest _ => h rest trivial

theorem IsClosed.append (hfirst : IsClosed first ts) (hsecond : IsClosed second us) :
    IsClosed (first ++ second) (ts ++ us) :=
  HasTokens.append hfirst hsecond fun _ _ => trivial

theorem IsClosed.append_isOpen (hfirst : IsClosed first ts) (hsecond : IsOpen second us) :
    IsOpen (first ++ second) (ts ++ us) :=
  HasTokens.append hfirst hsecond fun _ _ => trivial

/-- Whether a piece ends names and numbers before it. -/
def IsApart (piece : List Char) : Prop := ∀ rest, IsBoundary (piece ++ rest)

theorem isApart_cons {c : Char} (hname : continuesName c = false) (hpoint : c ≠ '.') :
    IsApart (c :: piece) :=
  fun _ => isBoundary_cons hname hpoint

theorem IsOpen.append_isClosed (hfirst : IsOpen first ts) (hsecond : IsClosed second us)
    (hapart : IsApart second) : IsClosed (first ++ second) (ts ++ us) :=
  HasTokens.append hfirst hsecond fun rest _ => hapart rest

theorem IsOpen.append (hfirst : IsOpen first ts) (hsecond : IsOpen second us)
    (hapart : IsApart second) : IsOpen (first ++ second) (ts ++ us) :=
  HasTokens.append hfirst hsecond fun rest _ => hapart rest

/-- Open pieces with separators between them. -/
theorem isOpen_intercalate {α : Type} {separator : List Char} {between : List Token}
    (hseparator : IsClosed separator between) (hapart : IsApart separator) {items : List α}
    {text : α → List Char} {toks : α → List Token}
    (hitems : ∀ a ∈ items, IsOpen (text a) (toks a)) :
    IsOpen (separator.intercalate (items.map text)) (between.intercalate (items.map toks)) := by
  induction items with
  | nil => exact fun _ _ => rfl
  | cons a items ih =>
      have ha := hitems a List.mem_cons_self
      cases items with
      | nil => simpa using ha
      | cons b items =>
          have hrest := ih fun c hc => hitems c (List.mem_cons_of_mem a hc)
          simp only [List.map_cons, List.intercalate_cons_cons] at hrest ⊢
          exact HasTokens.append (ha.append_isClosed hseparator hapart) hrest fun _ _ => trivial

/-- The tokens of a text that is one open piece. -/
theorem IsOpen.tokens_eq {text : String} (h : IsOpen text.toList ts) : tokens text = ts := by
  have hscan := h [] (by simp [IsBoundary])
  rwa [List.append_nil, scan, finish, List.append_nil] at hscan

end Pieces

/-! ## Words and names -/

section Words

variable {chars more rest : List Char}

/-- A word goes on with letters, digits, underscores and points. -/
theorem scan_word_append (hmore : ∀ c ∈ more, continuesName c = true ∨ c = '.') :
    scan (word chars) (more ++ rest) = scan (word (chars ++ more)) rest := by
  induction more generalizing chars with
  | nil => rw [List.append_nil, List.nil_append]
  | cons c more ih =>
      have hc : (continuesName c || c == '.') = true := by simpa using hmore c List.mem_cons_self
      rw [List.cons_append, scan, step, if_pos hc, List.nil_append,
        ih fun d hd => hmore d (List.mem_cons_of_mem c hd), List.append_assoc,
        List.singleton_append]

/-- A token that is ended by a character leaves the character to the next token. -/
theorem endBefore_append_scan (token : Token) (c : Char) (rest : List Char) :
    (endBefore token c).1 ++ scan (endBefore token c).2 rest =
      token :: scan nothing (c :: rest) := rfl

theorem scan_word_end (hrest : IsBoundary rest) :
    scan (word chars) rest = wordToken chars :: scan nothing rest := by
  cases rest with
  | nil => rfl
  | cons c rest =>
      obtain ⟨hname, hpoint⟩ := hrest c rfl
      rw [scan, step, if_neg (by simp [hname, hpoint]), endBefore_append_scan]

theorem startsName_ne_blank {c : Char} (h : startsName c = true) : c ≠ ' ' := by
  rintro rfl
  simp [startsName] at h

theorem isOpen_word {c : Char} (hstart : startsName c = true)
    (hmore : ∀ d ∈ more, continuesName d = true ∨ d = '.') :
    IsOpen (c :: more) [wordToken (c :: more)] := by
  intro rest hrest
  rw [List.cons_append, scan, step, start, if_neg (startsName_ne_blank hstart), if_pos hstart,
    List.nil_append, scan_word_append hmore, scan_word_end hrest]
  rfl

theorem partsAtPoints_ne_nil (name : List Char) : partsAtPoints name ≠ [] := by
  fun_cases partsAtPoints name <;> simp_all

/-- A character of a name is a point or stands in a part. -/
theorem exists_mem_partsAtPoints {name : List Char} {c : Char} (hc : c ∈ name) :
    c = '.' ∨ ∃ part ∈ partsAtPoints name, c ∈ part := by
  induction name with
  | nil => cases hc
  | cons d name ih =>
      obtain ⟨part, parts, hparts⟩ := List.exists_cons_of_ne_nil (partsAtPoints_ne_nil name)
      rw [hparts] at ih
      simp only [partsAtPoints, hparts]
      by_cases hd : d = '.'
      · rw [if_pos hd]
        rcases List.mem_cons.mp hc with rfl | hc
        · exact Or.inl hd
        · exact (ih hc).imp_right fun ⟨found, hfound, hmem⟩ =>
            ⟨found, List.mem_cons_of_mem _ hfound, hmem⟩
      · rw [if_neg hd]
        rcases List.mem_cons.mp hc with rfl | hc
        · exact Or.inr ⟨c :: part, List.mem_cons_self, List.mem_cons_self⟩
        · refine (ih hc).imp_right fun ⟨found, hfound, hmem⟩ => ?_
          rcases List.mem_cons.mp hfound with rfl | hfound
          · exact ⟨d :: found, List.mem_cons_self, List.mem_cons_of_mem d hmem⟩
          · exact ⟨found, List.mem_cons_of_mem _ hfound, hmem⟩

theorem continuesName_of_startsName {c : Char} (h : startsName c = true) :
    continuesName c = true := by
  simp only [startsName, continuesName, Char.isAlphanum, Bool.or_eq_true] at h ⊢
  exact h.imp_left Or.inl

theorem continuesName_of_isPlainPart {part : List Char} (h : isPlainPart part = true) {c : Char}
    (hc : c ∈ part) : continuesName c = true := by
  cases part with
  | nil => cases hc
  | cons first more =>
      rw [isPlainPart, Bool.and_eq_true] at h
      rcases List.mem_cons.mp hc with rfl | hc
      · exact continuesName_of_startsName h.1
      · exact List.all_eq_true.mp h.2 c hc

/-- A plain name starts as a name and goes on with letters, digits, underscores and points. -/
theorem eq_cons_of_isPlainName {name : List Char} (h : isPlainName name = true) :
    ∃ c more, name = c :: more ∧ startsName c = true ∧
      ∀ d ∈ more, continuesName d = true ∨ d = '.' := by
  rw [isPlainName, List.all_eq_true] at h
  cases name with
  | nil => exact absurd (h [] List.mem_cons_self) Bool.false_ne_true
  | cons c more =>
      refine ⟨c, more, rfl, ?_, fun d hd => ?_⟩
      · obtain ⟨part, parts, hparts⟩ := List.exists_cons_of_ne_nil (partsAtPoints_ne_nil more)
        simp only [partsAtPoints, hparts] at h
        split at h
        · exact absurd (h [] List.mem_cons_self) Bool.false_ne_true
        · exact (Bool.and_eq_true _ _ ▸ h _ List.mem_cons_self).1
      · rcases exists_mem_partsAtPoints (List.mem_cons_of_mem c hd) with hpoint | ⟨part, hpart, hd⟩
        · exact Or.inr hpoint
        · exact Or.inl (continuesName_of_isPlainPart (h part hpart) hd)

theorem isOpen_of_isPlainName {name : List Char} (h : isPlainName name = true) :
    IsOpen name [wordToken name] := by
  obtain ⟨c, more, rfl, hstart, hmore⟩ := eq_cons_of_isPlainName h
  exact isOpen_word hstart hmore

/-- What is inside backquotes goes on to the next backquote. -/
theorem scan_quoted (hmore : backquote ∉ more) :
    scan (quoted chars) (more ++ backquote :: rest) =
      .quoted (String.ofList (chars ++ more)) :: scan nothing rest := by
  induction more generalizing chars with
  | nil => rw [List.nil_append, List.append_nil, scan, step, if_pos rfl]; rfl
  | cons c more ih =>
      have hc : c ≠ backquote := (List.ne_of_not_mem_cons hmore).symm
      rw [List.cons_append, scan, step, if_neg hc, List.nil_append,
        ih (List.not_mem_of_not_mem_cons hmore), List.append_assoc, List.singleton_append]

theorem isClosed_quoted (hmore : backquote ∉ more) :
    IsClosed (backquote :: (more ++ [backquote])) [.quoted (String.ofList more)] := by
  intro rest _
  have hstart (more : List Char) : scan nothing (backquote :: more) = scan (quoted []) more := rfl
  rw [List.cons_append, List.append_assoc, hstart, List.singleton_append, scan_quoted hmore]
  rfl

/-- The token of a name that is quoted if need be. -/
def nameToken (name : String) : Token :=
  if isPlainName name.toList then wordToken name.toList
  else .quoted (String.ofList (name.toList.filter (· ≠ backquote)))

/-- Every name is written as one token. -/
theorem isOpen_quoteName (name : String) : IsOpen (quoteName name).toList [nameToken name] := by
  by_cases hplain : isPlainName name.toList = true
  · rw [quoteName, nameToken, if_pos hplain, if_pos hplain]
    exact isOpen_of_isPlainName hplain
  · have hquoted : backquote ∉ name.toList.filter (· ≠ backquote) := by simp
    rw [quoteName, nameToken, if_neg hplain, if_neg hplain, String.toList_ofList]
    exact (isClosed_quoted hquoted).isOpen

end Words

/-! ## Texts and numbers -/

section Literals

variable {chars more rest : List Char}

/-- A text goes on to the next quote without a backslash. -/
theorem scan_text_escaped :
    scan (text chars) (more.flatMap escapeInText ++ '\'' :: rest) =
      .text (String.ofList (chars ++ more)) :: scan nothing rest := by
  induction more generalizing chars with
  | nil => rw [List.flatMap_nil, List.nil_append, List.append_nil, scan, step, if_pos rfl]; rfl
  | cons c more ih =>
      have hgoOn :
          scan (text chars) (escapeInText c ++ (more.flatMap escapeInText ++ '\'' :: rest)) =
            scan (text (chars ++ [c])) (more.flatMap escapeInText ++ '\'' :: rest) := by
        unfold escapeInText
        split
        · rfl
        · rename_i hplain
          obtain ⟨hbackslash, hquote⟩ := not_or.mp hplain
          rw [List.singleton_append, scan, step, if_neg hquote, if_neg hbackslash, List.nil_append]
      rw [List.flatMap_cons, List.append_assoc, hgoOn, ih, List.append_assoc,
        List.singleton_append]

/-- Every text is written as one token, whatever its quotes and backslashes. -/
theorem isClosed_quoteText (value : String) :
    IsClosed (quoteText value).toList [.text value] := by
  intro rest _
  have hstart (more : List Char) : scan nothing ('\'' :: more) = scan (text []) more := rfl
  rw [quoteText, String.toList_ofList, List.cons_append, List.append_assoc, List.singleton_append,
    hstart, scan_text_escaped, List.nil_append, String.ofList_toList]
  rfl

/-- A number goes on with digits and points. -/
theorem scan_number_append (hmore : ∀ c ∈ more, c.isDigit = true ∨ c = '.') :
    scan (number chars) (more ++ rest) = scan (number (chars ++ more)) rest := by
  induction more generalizing chars with
  | nil => rw [List.append_nil, List.nil_append]
  | cons c more ih =>
      have hc : (c.isDigit || c == '.') = true := by simpa using hmore c List.mem_cons_self
      rw [List.cons_append, scan, step, if_pos hc, List.nil_append,
        ih fun d hd => hmore d (List.mem_cons_of_mem c hd), List.append_assoc,
        List.singleton_append]

theorem scan_number_end (hrest : IsBoundary rest) :
    scan (number chars) rest = .number (String.ofList chars) :: scan nothing rest := by
  cases rest with
  | nil => rfl
  | cons c rest =>
      obtain ⟨hname, hpoint⟩ := hrest c rfl
      have hdigit : c.isDigit = false := by
        simp only [continuesName, Char.isAlphanum, Bool.or_eq_false_iff] at hname
        exact hname.1.2
      have hexponent : c ≠ 'e' := by
        rintro rfl
        exact absurd hname (by decide)
      rw [scan, step, if_neg (by simp [hdigit, hpoint]), if_neg hexponent, endBefore_append_scan]

/-- An exponent ends a number. -/
theorem scan_number_powerChars (n : Numeral) (hrest : IsBoundary rest) :
    scan (number chars) (n.powerChars ++ rest) =
      .number (String.ofList (chars ++ n.powerChars)) :: scan nothing rest := by
  unfold Numeral.powerChars
  cases hpower : n.power with
  | none => rw [List.nil_append, List.append_nil, scan_number_end hrest]
  | some entry =>
      obtain ⟨negative, digits⟩ := entry
      have hdigits := (n.powerDigits negative digits hpower).2
      have hmark (sign : Char) (hsign : sign = '-' ∨ sign = '+') :
          scan (number chars) ('e' :: sign :: (digits ++ rest)) =
            scan (number (chars ++ ['e'] ++ [sign])) (digits ++ rest) := by
        rcases hsign with rfl | rfl <;> rfl
      rw [List.cons_append, List.cons_append, hmark _ (by cases negative <;> simp),
        scan_number_append fun c hc => Or.inl (hdigits c hc), scan_number_end hrest]
      simp

theorem startsName_of_isDigit {c : Char} (h : c.isDigit = true) : startsName c = false := by
  have hdigit := Char.isDigit_iff_toNat.mp h
  have hupper : c.isUpper = false := decide_eq_false fun hupper => by
    have := UInt32.le_iff_toNat_le.mp hupper.1
    simp only [Char.reduceVal, UInt32.reduceToNat, Char.reduceToNat] at hdigit this
    exact absurd (this.trans hdigit.2) (by decide)
  have hlower : c.isLower = false := Bool.and_eq_false_imp.mpr fun hlower => by
    have := UInt32.le_iff_toNat_le.mp (of_decide_eq_true hlower)
    simp only [Char.reduceVal, UInt32.reduceToNat, Char.reduceToNat] at hdigit this
    exact absurd (this.trans hdigit.2) (by decide)
  have hletter : c.isAlpha = false := by
    change (c.isUpper || c.isLower) = false
    rw [hupper, hlower, Bool.or_false]
  have hline : c ≠ '_' := by
    rintro rfl
    exact absurd h (by decide)
  simpa [startsName, hletter] using hline

theorem scan_digit {c : Char} (h : c.isDigit = true) :
    scan nothing (c :: rest) = scan (number [c]) rest := by
  have hblank : c ≠ ' ' := by
    rintro rfl
    exact absurd h (by decide)
  rw [scan, step, start, if_neg hblank, if_neg (by simp [startsName_of_isDigit h]), if_pos h,
    List.nil_append]

theorem scan_minus_digit {c : Char} (h : c.isDigit = true) :
    scan nothing ('-' :: c :: rest) = scan (number ['-', c]) rest := by
  have hminus : scan nothing ('-' :: c :: rest) = scan minus (c :: rest) := rfl
  rw [hminus, scan, step, if_pos h, List.nil_append]

/-- A numeral is written as one token, with its sign. -/
theorem isOpen_signed (n : Numeral) (negative : Bool) :
    IsOpen (n.signed negative).toList [.number (n.signed negative)] := by
  obtain ⟨c, more, hwhole⟩ := List.exists_cons_of_ne_nil n.nonempty
  have hc : c.isDigit = true := n.wholeDigits c (hwhole ▸ List.mem_cons_self)
  have hchars : n.chars = c :: (more ++ n.pointed ++ n.powerChars) := by
    rw [Numeral.chars, hwhole]
    rfl
  have hmore (d : Char) (hd : d ∈ more ++ n.pointed) : d.isDigit = true ∨ d = '.' := by
    rcases List.mem_append.mp hd with hd | hd
    · exact Or.inl (n.wholeDigits d (hwhole ▸ List.mem_cons_of_mem c hd))
    · exact n.mem_pointed hd
  intro rest hrest
  unfold Numeral.signed
  cases negative with
  | true =>
      rw [if_pos rfl, String.toList_ofList, hchars, List.cons_append, List.cons_append,
        scan_minus_digit hc, List.append_assoc, scan_number_append hmore,
        scan_number_powerChars n hrest]
      rfl
  | false =>
      rw [if_neg Bool.false_ne_true, String.toList_ofList, hchars, List.cons_append,
        scan_digit hc, List.append_assoc, scan_number_append hmore,
        scan_number_powerChars n hrest]
      rfl

end Literals
end Rollup.Statement
