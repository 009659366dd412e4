/-
# Conditions read back

A reader of conditions in which a negation binds tighter than a conjunction and a conjunction
tighter than a disjunction. The text of every filter reads back as the tree that it was written
from, names and texts included, so nothing that a clause says can change the shape of the tree.
-/

import Rollup.Proofs.Filter.Written

namespace Rollup

open Statement

/-! ## Reading -/

/-- A name of a statement that its text does not turn into another one. -/
structure Statement.IsName (name : String) : Prop where
  unquoted : backquote ∉ name.toList
  noKeyword : Keyword.read? name.toList = none

instance (name : String) : Decidable (IsName name) :=
  decidable_of_iff (backquote ∉ name.toList ∧ Keyword.read? name.toList = none)
    ⟨fun h => ⟨h.1, h.2⟩, fun h => ⟨h.1, h.2⟩⟩

namespace Statement.Token

/-- The name that a token says, as it stands or in backquotes. -/
def name? : Token → Option String
  | word name => some name
  | quoted name => some name
  | _ => none

/-- The value that a token says. -/
def literal? : Token → Option Literal
  | text value => some (.text value)
  | number numeral => (Json.Number.ofText? numeral).map .number
  | _ => none

end Statement.Token

/-- Items with a separator between them, one at least. Every item takes a token, so the number of
tokens is fuel enough. -/
def readSeparated {α : Type} (separator : Token) (readItem : List Token → Option (α × List Token)) :
    Nat → List Token → Option (List α × List Token)
  | 0, _ => none
  | fuel + 1, ts =>
      (readItem ts).bind fun first =>
        if first.2.head? = some separator then
          (readSeparated separator readItem fuel first.2.tail).map fun others =>
            (first.1 :: others.1, others.2)
        else some ([first.1], first.2)

/-- What was read, if a closing parenthesis follows. -/
def beforeClosing {α : Type} (found : Option (α × List Token)) : Option (α × List Token) :=
  found.bind fun item =>
    if item.2.head? = some .closing then some (item.1, item.2.tail) else none

def Statement.Literal.read : List Token → Option (Literal × List Token)
  | [] => none
  | token :: rest => token.literal?.map fun value => (value, rest)

def Atom.read : List Token → Option (Atom × List Token)
  | token :: .opening :: .text query :: .closing :: rest =>
      if token = .word "MATCH" then some (matchesText query, rest) else none
  | token :: .equals :: value :: rest =>
      token.name?.bind fun field => value.literal?.map fun value => (equals field value, rest)
  | token :: .compares comparison :: bound :: rest =>
      token.name?.bind fun field =>
        bound.literal?.map fun bound => (compares field comparison bound, rest)
  | token :: .keyword .is :: .keyword .not :: .keyword .null :: rest =>
      token.name?.map fun field => (isPresent field, rest)
  | token :: .keyword .isIn :: .opening :: rest =>
      token.name?.bind fun field =>
        (beforeClosing (readSeparated .comma Literal.read rest.length rest)).map fun values =>
          (isIn field values.1, values.2)
  | _ => none

namespace Condition

section

variable (readPart : List Token → Option (Condition × List Token)) (fuel : Nat)

/-- Parts that are joined by a conjunction, or one part. -/
def readAll (ts : List Token) : Option (Condition × List Token) :=
  (readSeparated (.keyword .and) readPart fuel ts).bind fun parts =>
    (conjunction parts.1).map fun c => (c, parts.2)

/-- Conjunctions that are joined by a disjunction, or one conjunction. -/
def readAny (ts : List Token) : Option (Condition × List Token) :=
  (readSeparated (.keyword .or) (readAll readPart fuel) fuel ts).bind fun parts =>
    (disjunction parts.1).map fun c => (c, parts.2)

end

/-- An atom, a negation, or anything in parentheses. -/
def readPart : Nat → List Token → Option (Condition × List Token)
  | 0, _ => none
  | _ + 1, [] => none
  | fuel + 1, token :: rest =>
      if token = .keyword .not then (readPart fuel rest).map fun part => (not part.1, part.2)
      else if token = .opening then beforeClosing (readAny (readPart fuel) fuel rest)
      else (Atom.read (token :: rest)).map fun a => (atom a.1, a.2)

/-- The condition that all of the tokens say. -/
def parse (ts : List Token) : Option Condition :=
  (readAny (readPart ts.length) ts.length ts).bind fun c =>
    if c.2 = [] then some c.1 else none

end Condition

/-! ## Atoms -/

theorem Statement.IsName.name?_nameToken {name : String} (h : IsName name) :
    (nameToken name).name? = some name := by
  unfold nameToken
  split
  · rw [Pending.wordToken, h.noKeyword, Token.name?, String.ofList_toList]
  · have hfilter : name.toList.filter (· ≠ backquote) = name.toList :=
      List.filter_eq_self.mpr fun c hc => decide_eq_true fun heq => h.unquoted (heq ▸ hc)
    rw [hfilter, Token.name?, String.ofList_toList]

theorem Statement.Literal.literal?_token {value : Literal} (h : value.isFinite = true) :
    value.token.literal? = some value := by
  cases value with
  | number n => rw [token, Token.literal?, Json.Number.ofText?_text h, Option.map_some]
  | text s => rfl

theorem readSeparated_intercalate {α : Type} {separator : Token}
    {readItem : List Token → Option (α × List Token)} {toks : α → List Token}
    {follows : List Token → Prop} {items : List α} {fuel : Nat} {rest : List Token}
    (hitems : ∀ item ∈ items, ∀ rest, follows rest →
      readItem (toks item ++ rest) = some (item, rest))
    (hseparator : ∀ rest, follows (separator :: rest)) (hne : items ≠ [])
    (hfuel : items.length ≤ fuel) (hfollows : follows rest)
    (hrest : rest.head? ≠ some separator) :
    readSeparated separator readItem fuel
      (List.intercalate [separator] (items.map toks) ++ rest) = some (items, rest) := by
  induction items generalizing fuel with
  | nil => exact absurd rfl hne
  | cons first items ih =>
      obtain ⟨fuel, rfl⟩ : ∃ n, fuel = n + 1 := ⟨fuel - 1, by simp at hfuel; omega⟩
      have hfirst := hitems first List.mem_cons_self
      cases items with
      | nil =>
          have hone : List.intercalate [separator] ([first].map toks) = toks first := by simp
          rw [hone, readSeparated, hfirst rest hfollows, Option.bind_some, if_neg hrest]
      | cons second items =>
          have hothers := ih (fun item hitem => hitems item (List.mem_cons_of_mem first hitem))
            (List.cons_ne_nil _ _) (by simpa using hfuel)
          rw [List.map_cons, List.map_cons, List.intercalate_cons_cons, ← List.map_cons,
            List.append_assoc, List.append_assoc, List.singleton_append, readSeparated,
            hfirst _ (hseparator _), Option.bind_some, if_pos (List.head?_cons), List.tail_cons,
            hothers, Option.map_some]

section Lengths

variable {lists : List (List Token)} (separator : List Token)

theorem length_le_length_intercalate (h : ∀ ts ∈ lists, ts ≠ []) :
    lists.length ≤ (separator.intercalate lists).length := by
  induction lists with
  | nil => exact Nat.zero_le _
  | cons ts lists ih =>
      have hts := List.length_pos_of_ne_nil (h ts List.mem_cons_self)
      have hrest := ih fun us hus => h us (List.mem_cons_of_mem ts hus)
      cases lists with
      | nil =>
          rw [List.intercalate_singleton, List.length_singleton]
          exact hts
      | cons us lists =>
          rw [List.intercalate_cons_cons, List.length_append, List.length_append,
            List.length_cons]
          omega

theorem length_le_of_mem {ts : List Token} (hts : ts ∈ lists) :
    ts.length ≤ (separator.intercalate lists).length := by
  induction lists with
  | nil => cases hts
  | cons first lists ih =>
      cases lists with
      | nil =>
          obtain rfl := List.mem_singleton.mp hts
          simp
      | cons second lists =>
          rw [List.intercalate_cons_cons, List.length_append, List.length_append]
          rcases List.mem_cons.mp hts with rfl | hrest
          · omega
          · have := ih hrest
            omega

end Lengths

namespace Atom

/-- Whether the names of an atom are kept by their text. -/
def IsNamed (a : Atom) : Prop := ∀ field ∈ a.field?, IsName field

instance (a : Atom) : Decidable a.IsNamed :=
  inferInstanceAs (Decidable (∀ field ∈ a.field?, IsName field))

/-- The values that an atom compares with or searches for. -/
def values : Atom → List Literal
  | equals _ value => [value]
  | isIn _ values => values
  | compares _ _ bound => [bound]
  | isPresent _ => []
  | matchesText query => [.text query]

/-- Whether the tokens of the names and values of an atom say these names and values. -/
structure IsDecoded (a : Atom) : Prop where
  names : ∀ field ∈ a.field?, (nameToken field).name? = some field
  values : ∀ value ∈ a.values, value.token.literal? = some value

theorem isDecoded {a : Atom} (h : a.isWritable = true) (hnamed : a.IsNamed) : a.IsDecoded := by
  refine ⟨fun field hfield => (hnamed field hfield).name?_nameToken, fun value hvalue => ?_⟩
  refine Literal.literal?_token ?_
  cases a with
  | equals field found | compares field comparison found =>
      obtain rfl := List.mem_singleton.mp hvalue
      exact h
  | isIn field values =>
      rw [isWritable, Bool.and_eq_true] at h
      exact List.all_eq_true.mp h.2 value hvalue
  | isPresent field => cases hvalue
  | matchesText query =>
      obtain rfl := List.mem_singleton.mp hvalue
      rfl

theorem read_values {values : List Literal} (hfinite : values.all Literal.isFinite = true)
    (hne : values ≠ []) {fuel : Nat} (hfuel : values.length ≤ fuel) (rest : List Token) :
    beforeClosing (readSeparated .comma Literal.read fuel
      (List.intercalate [.comma] (values.map fun value => [value.token]) ++ .closing :: rest)) =
        some (values, rest) := by
  have hitems (value : Literal) (hvalue : value ∈ values) (rest : List Token) (_ : True) :
      Literal.read ([value.token] ++ rest) = some (value, rest) := by
    rw [List.singleton_append, Literal.read,
      Literal.literal?_token (List.all_eq_true.mp hfinite value hvalue), Option.map_some]
  rw [readSeparated_intercalate hitems (fun _ => trivial) hne hfuel trivial (by simp)]
  rfl

theorem read_tokens {a : Atom} (h : a.isWritable = true) (hnamed : a.IsNamed) (rest : List Token) :
    read (a.tokens ++ rest) = some (a, rest) := by
  cases a with
  | equals field value =>
      have hname := (hnamed field rfl).name?_nameToken
      have hvalue := Literal.literal?_token h
      simp [tokens, read, hname, hvalue]
  | isIn field values =>
      have hname := (hnamed field rfl).name?_nameToken
      rw [isWritable, Bool.and_eq_true] at h
      have hne : values ≠ [] := by simpa using h.1
      rw [tokens, List.cons_append, List.cons_append, List.cons_append, List.append_assoc,
        List.singleton_append, read, hname, Option.bind_some, read_values h.2 hne ?_ rest,
        Option.map_some]
      have hlength : (values.map fun value => [value.token]).length ≤ _ :=
        length_le_length_intercalate [Token.comma] (by simp)
      rw [List.length_map] at hlength
      rw [List.length_append]
      omega
  | compares field comparison bound =>
      have hname := (hnamed field rfl).name?_nameToken
      have hvalue := Literal.literal?_token h
      simp [tokens, read, hname, hvalue]
  | isPresent field =>
      have hname := (hnamed field rfl).name?_nameToken
      simp [tokens, read, hname]
  | matchesText query => simp [tokens, read]

/-- An atom starts with a name, which is neither a negation nor a parenthesis. -/
theorem exists_tokens_eq_cons {a : Atom} (hnamed : a.IsNamed) :
    ∃ token rest, a.tokens = token :: rest ∧ token ≠ .keyword .not ∧ token ≠ .opening := by
  have hname {field : String} (hfield : a.field? = some field) :
      nameToken field ≠ .keyword .not ∧ nameToken field ≠ .opening := by
    have hname := (hnamed field hfield).name?_nameToken
    constructor
    · intro htoken
      rw [htoken] at hname
      cases hname
    · intro htoken
      rw [htoken] at hname
      cases hname
  cases a with
  | matchesText query => exact ⟨_, _, rfl, by decide, by decide⟩
  | equals field _ | isIn field _ | compares field _ _ | isPresent field =>
      exact ⟨_, _, rfl, hname rfl⟩

end Atom

/-! ## Conditions -/

namespace Condition

section Parts

variable {read : List Token → Option (Condition × List Token)} {fuel : Nat} {c : Condition}
  {parts : List Condition} {rest : List Token}

/-- Whether a reader reads the tokens of a condition in front of everything. -/
def IsReadBy (read : List Token → Option (Condition × List Token)) (c : Condition) : Prop :=
  ∀ rest, read (c.tokens ++ rest) = some (c, rest)

/-- A part that no conjunction goes on with. -/
theorem readAll_part (hc : IsReadBy read c) (hfuel : 0 < fuel)
    (hrest : rest.head? ≠ some (.keyword .and)) :
    readAll read fuel (c.tokens ++ rest) = some (c, rest) := by
  obtain ⟨fuel, rfl⟩ : ∃ n, fuel = n + 1 := ⟨fuel - 1, by omega⟩
  rw [readAll, readSeparated, hc rest, Option.bind_some, if_neg hrest]
  rfl

/-- A part that nothing goes on with. -/
theorem readAny_part (hc : IsReadBy read c) (hfuel : 0 < fuel)
    (hand : rest.head? ≠ some (.keyword .and)) (hor : rest.head? ≠ some (.keyword .or)) :
    readAny read fuel (c.tokens ++ rest) = some (c, rest) := by
  have hpart := readAll_part hc hfuel hand
  obtain ⟨fuel, rfl⟩ : ∃ n, fuel = n + 1 := ⟨fuel - 1, by omega⟩
  rw [readAny, readSeparated, hpart, Option.bind_some, if_neg hor]
  rfl

theorem conjunction_of_several (h : 2 ≤ parts.length) : conjunction parts = some (all parts) := by
  match parts with
  | _ :: _ :: _ => rfl

theorem disjunction_of_several (h : 2 ≤ parts.length) : disjunction parts = some (any parts) := by
  match parts with
  | _ :: _ :: _ => rfl

/-- Parts that are joined by a conjunction. -/
theorem readAny_all (hparts : ∀ part ∈ parts, IsReadBy read part) (hseveral : 2 ≤ parts.length)
    (hfuel : parts.length ≤ fuel) (hand : rest.head? ≠ some (.keyword .and))
    (hor : rest.head? ≠ some (.keyword .or)) :
    readAny read fuel (List.intercalate [.keyword .and] (tokensOf parts) ++ rest) =
      some (all parts, rest) := by
  have hall : readAll read fuel (List.intercalate [.keyword .and] (tokensOf parts) ++ rest) =
      some (all parts, rest) := by
    rw [readAll, tokensOf_eq_map, readSeparated_intercalate
      (fun part hpart rest (_ : True) => hparts part hpart rest) (fun _ => trivial)
      (List.ne_nil_of_length_pos (by omega)) hfuel trivial hand, Option.bind_some,
      conjunction_of_several hseveral, Option.map_some]
  obtain ⟨fuel, rfl⟩ : ∃ n, fuel = n + 1 := ⟨fuel - 1, by omega⟩
  rw [readAny, readSeparated, hall, Option.bind_some, if_neg hor]
  rfl

/-- Parts that are joined by a disjunction. -/
theorem readAny_any (hparts : ∀ part ∈ parts, IsReadBy read part) (hseveral : 2 ≤ parts.length)
    (hfuel : parts.length ≤ fuel) (hand : rest.head? ≠ some (.keyword .and))
    (hor : rest.head? ≠ some (.keyword .or)) :
    readAny read fuel (List.intercalate [.keyword .or] (tokensOf parts) ++ rest) =
      some (any parts, rest) := by
  have hitems (part : Condition) (hpart : part ∈ parts) (rest : List Token)
      (hand : rest.head? ≠ some (.keyword .and)) :
      readAll read fuel (part.tokens ++ rest) = some (part, rest) :=
    readAll_part (hparts part hpart) (by omega) hand
  rw [readAny, tokensOf_eq_map, readSeparated_intercalate hitems (fun _ => by simp)
    (List.ne_nil_of_length_pos (by omega)) hfuel hand hor, Option.bind_some,
    disjunction_of_several hseveral, Option.map_some]

end Parts

/-- Whether a condition can be written and its names are kept. -/
abbrev IsSayable : Condition → Prop := IsJoined fun a => a.isWritable = true ∧ a.IsNamed

theorem tokens_ne_nil (c : Condition) : c.tokens ≠ [] := by
  cases c with
  | atom a => cases a <;> exact List.cons_ne_nil _ _
  | all parts | any parts | not part => exact List.cons_ne_nil _ _

/-- What stands in parentheses is read as one part. -/
theorem readPart_parentheses {fuel : Nat} {c : Condition} {ts rest : List Token}
    (h : readAny (readPart fuel) fuel (ts ++ .closing :: rest) = some (c, .closing :: rest)) :
    readPart (fuel + 1) (.opening :: (ts ++ [.closing]) ++ rest) = some (c, rest) := by
  rw [List.cons_append, List.append_assoc, List.singleton_append, readPart,
    if_neg (by decide), if_pos rfl, h]
  rfl

theorem length_le_of_mem_parts {part : Condition} {parts : List Condition} (hpart : part ∈ parts)
    (separator : List Token) :
    part.tokens.length ≤ (separator.intercalate (tokensOf parts)).length := by
  rw [tokensOf_eq_map]
  exact length_le_of_mem separator (List.mem_map_of_mem hpart)

theorem length_parts_le (parts : List Condition) (separator : List Token) :
    parts.length ≤ (separator.intercalate (tokensOf parts)).length := by
  have hlists : ∀ ts ∈ parts.map tokens, ts ≠ [] := by simp [tokens_ne_nil]
  have hlength := length_le_length_intercalate separator hlists
  rwa [List.length_map, ← tokensOf_eq_map] at hlength

/-- The tokens of a condition read back as the condition, whatever follows. -/
theorem isReadBy_readPart {fuel : Nat} {c : Condition} (hc : c.IsSayable)
    (hfuel : c.tokens.length ≤ fuel) : IsReadBy (readPart fuel) c := by
  induction fuel using Nat.strong_induction_on generalizing c with
  | _ fuel ih =>
      obtain ⟨fuel, rfl⟩ : ∃ n, fuel = n + 1 := by
        have := List.length_pos_of_ne_nil c.tokens_ne_nil
        exact ⟨fuel - 1, by omega⟩
      intro rest
      cases hc with
      | @atom a h =>
          obtain ⟨token, more, htokens, hnot, hopening⟩ := Atom.exists_tokens_eq_cons h.2
          have hread := Atom.read_tokens h.1 h.2 rest
          rw [htokens, List.cons_append] at hread
          rw [tokens, htokens, List.cons_append, readPart, if_neg hnot, if_neg hopening, hread]
          rfl
      | @all parts several h =>
          rw [tokens, List.length_cons, List.length_append] at hfuel
          have hparts (part : Condition) (hpart : part ∈ parts) : IsReadBy (readPart fuel) part :=
            ih fuel (by omega) (h part hpart) (by
              have := length_le_of_mem_parts hpart [Token.keyword .and]
              omega)
          have hcount := length_parts_le parts [Token.keyword .and]
          exact readPart_parentheses
            (readAny_all hparts several (by omega) (by simp) (by simp))
      | @any parts several h =>
          rw [tokens, List.length_cons, List.length_append] at hfuel
          have hparts (part : Condition) (hpart : part ∈ parts) : IsReadBy (readPart fuel) part :=
            ih fuel (by omega) (h part hpart) (by
              have := length_le_of_mem_parts hpart [Token.keyword .or]
              omega)
          have hcount := length_parts_le parts [Token.keyword .or]
          exact readPart_parentheses
            (readAny_any hparts several (by omega) (by simp) (by simp))
      | @not part h =>
          rw [tokens, List.length_cons] at hfuel
          have hread : readPart (fuel + 1) ((not part).tokens ++ rest) =
              (readPart fuel ((if part.isEnclosed then part.tokens
                else .opening :: (part.tokens ++ [.closing])) ++ rest)).map fun part =>
                  (not part.1, part.2) := by
            rw [tokens, List.cons_append, readPart, if_pos rfl]
          rw [hread]
          by_cases henclosed : part.isEnclosed = true
          · rw [if_pos henclosed] at hfuel ⊢
            rw [ih fuel (by omega) h (by omega) rest]
            rfl
          · rw [if_neg henclosed] at hfuel ⊢
            rw [List.length_cons, List.length_append] at hfuel
            obtain ⟨fuel, rfl⟩ : ∃ n, fuel = n + 1 := ⟨fuel - 1, by omega⟩
            have hpos := List.length_pos_of_ne_nil part.tokens_ne_nil
            have hpart : IsReadBy (readPart fuel) part := ih fuel (by omega) h (by omega)
            rw [readPart_parentheses
              (readAny_part hpart (by omega) (by simp) (by simp))]
            rfl

/-- The tokens of a condition say the condition. -/
theorem parse_tokens {c : Condition} (hc : c.IsSayable) : parse c.tokens = some c := by
  have hpos := List.length_pos_of_ne_nil c.tokens_ne_nil
  have hread : readAny (readPart c.tokens.length) c.tokens.length (c.tokens ++ []) = some (c, []) :=
    readAny_part (isReadBy_readPart hc le_rfl) hpos (by simp) (by simp)
  rw [List.append_nil] at hread
  rw [parse, hread]
  rfl

/-- The text of a condition says the condition. -/
theorem parse_text {c : Condition} (hc : c.IsSayable) :
    parse (Statement.tokens c.text) = some c := by
  rw [(isOpen_text fun a ha => (hc.of_mem_atoms ha).1).tokens_eq, parse_tokens hc]

/-- The tokens of conditions with conjunctions between them say the conjunction. -/
theorem parse_joined {parts : List Condition} (h : ∀ part ∈ parts, part.IsSayable) :
    parse (List.intercalate [.keyword .and] (tokensOf parts)) = conjunction parts := by
  match parts, h with
  | [], _ => rfl
  | [part], h =>
      have hone : List.intercalate [Token.keyword .and] (tokensOf [part]) = part.tokens := by
        simp [tokensOf]
      rw [hone, parse_tokens (h part List.mem_cons_self)]
      rfl
  | first :: second :: rest, h =>
      have hcount := length_parts_le (first :: second :: rest) [Token.keyword .and]
      have hparts (part : Condition) (hpart : part ∈ first :: second :: rest) :
          IsReadBy (readPart (List.intercalate [.keyword .and]
            (tokensOf (first :: second :: rest))).length) part :=
        isReadBy_readPart (h part hpart) (length_le_of_mem_parts hpart [Token.keyword .and])
      have hnothing (k : Keyword) : ([] : List Token).head? ≠ some (.keyword k) := by simp
      have hread := readAny_all hparts (Nat.le_add_left 2 rest.length) hcount (hnothing .and)
        (hnothing .or)
      rw [List.append_nil] at hread
      rw [parse, hread]
      rfl

/-- Conditions with one text are one condition. -/
theorem text_injective {c d : Condition} (hc : c.IsSayable) (hd : d.IsSayable)
    (h : c.text = d.text) : c = d :=
  Option.some.inj ((parse_text hc).symm.trans (by rw [h, parse_text hd]))

-- negations first, then conjunctions, then disjunctions
example : parse (Statement.tokens "a = 1 OR NOT b = 2 AND c = 3") =
    some (any [atom (.equals "a" (.number (.integer 1))),
      all [not (atom (.equals "b" (.number (.integer 2)))),
        atom (.equals "c" (.number (.integer 3)))]]) := by
  rfl

end Condition

namespace Clause

/-- The text of a filter reads back as the condition of the filter, and each of its names and
values is one token that says it. -/
theorem parse_compile {now : Calendar.Instant} {clause : Json} {f : Filter}
    (h : compile now clause = .ok (some f)) (hclause : clause.isFinite = true)
    (hnamed : ∀ a ∈ f.condition.atoms, a.IsNamed) :
    Statement.tokens f.text = f.condition.tokens ∧
      (∀ a ∈ f.condition.atoms, a.IsDecoded) ∧
      Condition.parse (Statement.tokens f.text) = some f.condition := by
  have hjoined := isJoined_of_compile h hclause
  have hwritable (a : Atom) (ha : a ∈ f.condition.atoms) : a.isWritable = true :=
    (hjoined.of_mem_atoms ha).1
  refine ⟨(Condition.isOpen_text hwritable).tokens_eq,
    fun a ha => Atom.isDecoded (hwritable a ha) (hnamed a ha), Condition.parse_text ?_⟩
  exact (hjoined.mono fun a ha => ha.1).and hnamed

/-- A clause whose texts look like conditions. -/
def lookalikes : Json :=
  .object [("bool", .object [
    ("should", .array [.object [("term", .object [("a b", .string "x' OR NOT (1 = 1")])],
      .object [("query_string", .object [("query", .string "') AND MATCH('\\")])]]),
    ("must_not", .array [.object [("terms", .object [("host",
      .array [.string "(", .number (.floating (Binary64.ofInt 2)), .string "' IS NOT NULL"])])]])])]

/-- The condition of the clause: a disjunction and a negation, whatever the texts look like. -/
def lookalikesFilter : Filter :=
  let a : Atom := .equals "a b" (.text "x' OR NOT (1 = 1")
  let b : Atom := .matchesText "') AND MATCH('\\"
  let c : Atom := .isIn "host"
    [.text "(", .number (.floating (Binary64.ofInt 2)), .text "' IS NOT NULL"]
  ⟨.all [.any [.atom a, .atom b], .not (.atom c)], [a, b, c]⟩

theorem parse_compile_lookalikes :
    compile default lookalikes = .ok (some lookalikesFilter) ∧
      Condition.parse (Statement.tokens lookalikesFilter.text) =
        some lookalikesFilter.condition := by
  have hcompile : compile default lookalikes = .ok (some lookalikesFilter) := rfl
  exact ⟨hcompile, (parse_compile hcompile (by decide +kernel) (by decide +kernel)).2.2⟩

end Clause
end Rollup
