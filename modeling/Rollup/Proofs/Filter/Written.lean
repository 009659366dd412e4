/-
# How conditions are written

Every condition is an open piece of a statement: its names and values are one token each, and
parentheses stand where the tree has them. A condition that was read from a clause is joined: its
conjunctions and disjunctions have two parts at least, and its numbers are ones that a text can
say.
-/

import Rollup.Proofs.Filter.Data
import Rollup.Proofs.Statement.Token

namespace Rollup

open Statement

/-! ## Tokens -/

namespace Statement.Literal

def token : Literal → Token
  | number n => .number n.text
  | text s => .text s

/-- Whether a literal is no number that a text cannot say. -/
def isFinite : Literal → Bool
  | number n => n.isFinite
  | text _ => true

theorem isOpen_render {value : Literal} (h : value.isFinite = true) :
    IsOpen value.render.toList [value.token] := by
  cases value with
  | number n =>
      obtain ⟨negative, numeral, htext⟩ := n.exists_numeral h
      rw [render, token, htext]
      exact isOpen_signed numeral negative
  | text s => exact (isClosed_quoteText s).isOpen

end Statement.Literal

namespace Atom

def tokens : Atom → List Token
  | equals field value => [nameToken field, .equals, value.token]
  | isIn field values =>
      nameToken field :: .keyword .isIn :: .opening ::
        (([.comma] : List Token).intercalate (values.map fun value => [value.token]) ++ [.closing])
  | compares field comparison bound => [nameToken field, .compares comparison, bound.token]
  | isPresent field => [nameToken field, .keyword .is, .keyword .not, .keyword .null]
  | matchesText query => [.word "MATCH", .opening, .text query, .closing]

/-- Whether the numbers of an atom are ones that a text can say, and its list is not empty. -/
def isWritable : Atom → Bool
  | equals _ value => value.isFinite
  | isIn _ values => !values.isEmpty && values.all Literal.isFinite
  | compares _ _ bound => bound.isFinite
  | isPresent _ => true
  | matchesText _ => true

/-- A name, a sign between blanks and a piece. -/
theorem isOpen_infix (field sign : String) {signs : List Token} {piece : String} {ts : List Token}
    (hsign : IsClosed sign.toList signs) (hapart : IsApart sign.toList)
    (hpiece : IsOpen piece.toList ts) :
    IsOpen (quoteName field ++ sign ++ piece).toList (nameToken field :: (signs ++ ts)) := by
  rw [String.toList_append, String.toList_append]
  exact ((isOpen_quoteName field).append_isClosed hsign hapart).append_isOpen hpiece

/-- A sign that starts with a blank stands apart. -/
theorem isApart_blank (more : List Char) : IsApart (' ' :: more) :=
  isApart_cons rfl (by decide)

theorem isOpen_text {a : Atom} (h : a.isWritable = true) : IsOpen a.text.toList a.tokens := by
  cases a with
  | equals field value =>
      exact isOpen_infix field " = " (fun _ _ => rfl) (isApart_blank _) (Literal.isOpen_render h)
  | isIn field values =>
      rw [isWritable, Bool.and_eq_true] at h
      have hvalues : IsOpen (String.intercalate ", " (values.map Literal.render)).toList
          (([.comma] : List Token).intercalate (values.map fun value => [value.token])) := by
        rw [String.toList_intercalate, List.map_map]
        exact isOpen_intercalate (fun _ _ => rfl) (isApart_cons rfl (by decide))
          fun value hvalue => Literal.isOpen_render (List.all_eq_true.mp h.2 value hvalue)
      have hopening : IsClosed " IN (".toList [.keyword .isIn, .opening] := fun _ _ => rfl
      have hclosing : IsClosed ")".toList [.closing] := fun _ _ => rfl
      have hlist := hvalues.append_isClosed hclosing (isApart_cons rfl (by decide))
      rw [← String.toList_append] at hlist
      have hpiece := isOpen_infix field _ hopening (isApart_blank _) hlist.isOpen
      rwa [← String.append_assoc] at hpiece
  | compares field comparison bound =>
      have hsign : IsClosed (" " ++ comparison.symbol ++ " ").toList [.compares comparison] := by
        cases comparison <;> exact fun _ _ => rfl
      have hapart : IsApart (" " ++ comparison.symbol ++ " ").toList := by
        cases comparison <;> exact isApart_blank _
      have hpiece := isOpen_infix field _ hsign hapart (Literal.isOpen_render h)
      rwa [← String.append_assoc, ← String.append_assoc] at hpiece
  | isPresent field =>
      have htest : IsClosed " IS NOT ".toList [.keyword .is, .keyword .not] := fun _ _ => rfl
      have hnull : IsOpen "NULL".toList [Pending.wordToken "NULL".toList] :=
        isOpen_of_isPlainName (by decide)
      have hpiece := isOpen_infix field _ htest (isApart_blank _) hnull
      rwa [String.append_assoc] at hpiece
  | matchesText query =>
      have hmatch : IsClosed "MATCH(".toList [.word "MATCH", .opening] := fun _ _ => rfl
      have hclosing : IsClosed ")".toList [.closing] := fun _ _ => rfl
      rw [text, String.toList_append, String.toList_append]
      exact ((hmatch.append (isClosed_quoteText query)).append hclosing).isOpen

end Atom

namespace Condition

mutual

def tokens : Condition → List Token
  | atom a => a.tokens
  | all parts => .opening :: (List.intercalate [.keyword .and] (tokensOf parts) ++ [.closing])
  | any parts => .opening :: (List.intercalate [.keyword .or] (tokensOf parts) ++ [.closing])
  | not part =>
      .keyword .not ::
        if part.isEnclosed then tokens part else .opening :: (tokens part ++ [.closing])

def tokensOf : List Condition → List (List Token)
  | [] => []
  | part :: rest => tokens part :: tokensOf rest

end

theorem texts_eq_map (parts : List Condition) : texts parts = parts.map text := by
  induction parts with
  | nil => rfl
  | cons part rest ih => rw [texts, ih, List.map_cons]

theorem tokensOf_eq_map (parts : List Condition) : tokensOf parts = parts.map tokens := by
  induction parts with
  | nil => rfl
  | cons part rest ih => rw [tokensOf, ih, List.map_cons]

theorem atomsOf_eq_flatMap (parts : List Condition) : atomsOf parts = parts.flatMap atoms := by
  induction parts with
  | nil => rfl
  | cons part rest ih => rw [atomsOf, ih, List.flatMap_cons]

/-- Parentheses around a piece. -/
theorem isClosed_parentheses {piece : String} {ts : List Token} (h : IsOpen piece.toList ts) :
    IsClosed ("(" ++ piece ++ ")").toList (.opening :: (ts ++ [.closing])) := by
  have hopening : IsClosed "(".toList [.opening] := fun _ _ => rfl
  have hclosing : IsClosed ")".toList [.closing] := fun _ _ => rfl
  rw [String.toList_append, String.toList_append]
  exact (hopening.append_isOpen h).append_isClosed hclosing (isApart_cons rfl (by decide))

/-- Parts with a keyword between them. -/
theorem isOpen_joined {keyword : String} {k : Keyword}
    (hkeyword : IsClosed keyword.toList [.keyword k]) (hapart : IsApart keyword.toList)
    {parts : List Condition} (h : ∀ part ∈ parts, IsOpen part.text.toList part.tokens) :
    IsOpen (String.intercalate keyword (texts parts)).toList
      (List.intercalate [.keyword k] (tokensOf parts)) := by
  rw [texts_eq_map, tokensOf_eq_map, String.toList_intercalate, List.map_map]
  exact isOpen_intercalate hkeyword hapart h

theorem mem_atomsOf {parts : List Condition} {part : Condition} (hpart : part ∈ parts) {a : Atom}
    (ha : a ∈ part.atoms) : a ∈ atomsOf parts := by
  rw [atomsOf_eq_flatMap]
  exact List.mem_flatMap_of_mem hpart ha

theorem isOpen_text {c : Condition} (h : ∀ a ∈ c.atoms, a.isWritable = true) :
    IsOpen c.text.toList c.tokens := by
  match c with
  | atom a => exact Atom.isOpen_text (h a List.mem_cons_self)
  | all parts =>
      have hand : IsClosed " AND ".toList [.keyword .and] := fun _ _ => rfl
      have hjoined := isOpen_joined hand (Atom.isApart_blank _) fun part hpart =>
        isOpen_text fun a ha => h a (mem_atomsOf hpart ha)
      exact (isClosed_parentheses hjoined).isOpen
  | any parts =>
      have hor : IsClosed " OR ".toList [.keyword .or] := fun _ _ => rfl
      have hjoined := isOpen_joined hor (Atom.isApart_blank _) fun part hpart =>
        isOpen_text fun a ha => h a (mem_atomsOf hpart ha)
      exact (isClosed_parentheses hjoined).isOpen
  | not part =>
      have hpart : IsOpen part.text.toList part.tokens := isOpen_text h
      have hnot : IsClosed "NOT ".toList [.keyword .not] := fun _ _ => rfl
      rw [text, tokens, String.toList_append]
      by_cases henclosed : part.isEnclosed = true
      · rw [if_pos henclosed, if_pos henclosed]
        exact hnot.append_isOpen hpart
      · rw [if_neg henclosed, if_neg henclosed]
        exact hnot.append_isOpen (isClosed_parentheses hpart).isOpen

theorem head?_quoteName (field : String) (more : List Char) :
    ((quoteName field).toList ++ more).head? ≠ some '(' := by
  by_cases hplain : isPlainName field.toList = true
  · obtain ⟨c, rest, hname, hstart, -⟩ := eq_cons_of_isPlainName hplain
    rw [quoteName, if_pos hplain, hname, List.cons_append, List.head?_cons, ne_eq,
      Option.some.injEq]
    rintro rfl
    exact absurd hstart (by decide)
  · rw [quoteName, if_neg hplain, String.toList_ofList, List.cons_append, List.head?_cons]
    decide

theorem head?_text_atom (a : Atom) : a.text.toList.head? ≠ some '(' := by
  cases a with
  | matchesText query =>
      rw [Atom.text, String.append_assoc, String.toList_append]
      simp
  | _ =>
      simp only [Atom.text, String.append_assoc]
      rw [String.toList_append]
      exact head?_quoteName _ _

/-- A text has parentheses around it if it starts with one and ends with one. -/
theorem isEnclosed_iff (c : Condition) :
    c.isEnclosed = true ↔ c.text.toList.head? = some '(' ∧ c.text.toList.getLast? = some ')' := by
  have hparentheses (piece : String) : ("(" ++ piece ++ ")").toList.head? = some '(' ∧
      ("(" ++ piece ++ ")").toList.getLast? = some ')' := by
    rw [String.toList_append]
    refine ⟨?_, List.getLast?_concat⟩
    rw [String.toList_append]
    rfl
  cases c with
  | atom a => simp [isEnclosed, text, head?_text_atom a]
  | all parts => exact iff_of_true rfl (hparentheses _)
  | any parts => exact iff_of_true rfl (hparentheses _)
  | not part => simp [isEnclosed, text]

/-- A tree whose conjunctions and disjunctions have two parts at least, over atoms of some kind. -/
inductive IsJoined (ok : Atom → Prop) : Condition → Prop where
  | atom {a : Atom} (h : ok a) : IsJoined ok (atom a)
  | all {parts : List Condition} (several : 2 ≤ parts.length)
      (h : ∀ part ∈ parts, IsJoined ok part) : IsJoined ok (all parts)
  | any {parts : List Condition} (several : 2 ≤ parts.length)
      (h : ∀ part ∈ parts, IsJoined ok part) : IsJoined ok (any parts)
  | not {part : Condition} (h : IsJoined ok part) : IsJoined ok (not part)

section Joined

variable {ok : Atom → Prop} {c : Condition} {parts : List Condition}

theorem IsJoined.of_mem_atoms (h : IsJoined ok c) {a : Atom} (ha : a ∈ c.atoms) : ok a := by
  induction h with
  | atom h =>
      obtain rfl := List.mem_singleton.mp ha
      exact h
  | all _ _ ih =>
      rw [atoms, atomsOf_eq_flatMap] at ha
      obtain ⟨part, hpart, ha⟩ := List.mem_flatMap.mp ha
      exact ih part hpart ha
  | any _ _ ih =>
      rw [atoms, atomsOf_eq_flatMap] at ha
      obtain ⟨part, hpart, ha⟩ := List.mem_flatMap.mp ha
      exact ih part hpart ha
  | not _ ih => exact ih ha

theorem IsJoined.mono {also : Atom → Prop} (h : IsJoined ok c) (himp : ∀ a, ok a → also a) :
    IsJoined also c := by
  induction h with
  | atom h => exact .atom (himp _ h)
  | all several _ ih => exact .all several ih
  | any several _ ih => exact .any several ih
  | not _ ih => exact .not ih

/-- More may be said of the atoms. -/
theorem IsJoined.and {also : Atom → Prop} (h : IsJoined ok c) (halso : ∀ a ∈ c.atoms, also a) :
    IsJoined (fun a => ok a ∧ also a) c := by
  induction h with
  | atom h => exact .atom ⟨h, halso _ List.mem_cons_self⟩
  | all several _ ih =>
      exact .all several fun part hpart => ih part hpart fun a ha => halso a (mem_atomsOf hpart ha)
  | any several _ ih =>
      exact .any several fun part hpart => ih part hpart fun a ha => halso a (mem_atomsOf hpart ha)
  | not _ ih => exact .not (ih halso)

theorem isJoined_of_conjunction (hparts : ∀ part ∈ parts, IsJoined ok part)
    (h : conjunction parts = some c) : IsJoined ok c := by
  match parts with
  | [part] =>
      obtain rfl := Option.some.inj h
      exact hparts part List.mem_cons_self
  | first :: second :: rest =>
      obtain rfl := Option.some.inj h
      exact .all (by simp) hparts

theorem isJoined_of_disjunction (hparts : ∀ part ∈ parts, IsJoined ok part)
    (h : disjunction parts = some c) : IsJoined ok c := by
  match parts with
  | [part] =>
      obtain rfl := Option.some.inj h
      exact hparts part List.mem_cons_self
  | first :: second :: rest =>
      obtain rfl := Option.some.inj h
      exact .any (by simp) hparts

end Joined

end Condition

/-! ## Finite values -/

namespace Json

mutual

/-- Whether all numbers of a value are ones that a text can say. -/
def isFinite : Json → Bool
  | .null => true
  | .bool _ => true
  | .number n => n.isFinite
  | .string _ => true
  | .array items => itemsAreFinite items
  | .object fields => fieldsAreFinite fields

def itemsAreFinite : List Json → Bool
  | [] => true
  | item :: rest => isFinite item && itemsAreFinite rest

def fieldsAreFinite : List (String × Json) → Bool
  | [] => true
  | (_, value) :: rest => isFinite value && fieldsAreFinite rest

end

theorem itemsAreFinite_iff (items : List Json) :
    itemsAreFinite items = true ↔ ∀ item ∈ items, item.isFinite = true := by
  induction items with
  | nil => simp [itemsAreFinite]
  | cons item rest ih => simp [itemsAreFinite, ih]

theorem fieldsAreFinite_iff (fields : List (String × Json)) :
    fieldsAreFinite fields = true ↔ ∀ field ∈ fields, field.2.isFinite = true := by
  induction fields with
  | nil => simp [fieldsAreFinite]
  | cons field rest ih => simp [fieldsAreFinite, ih]

theorem isFinite_of_mem {fields : List (String × Json)} (h : (object fields).isFinite = true)
    {name : String} {value : Json} (hmem : (name, value) ∈ fields) : value.isFinite = true :=
  (fieldsAreFinite_iff fields).mp (by rwa [isFinite] at h) (name, value) hmem

theorem isFinite_of_get? {fields : Fields} (h : (object fields).isFinite = true) {name : String}
    {value : Json} (hget : fields.get? name = some value) : value.isFinite = true := by
  obtain ⟨before, after, hfields, -⟩ := List.lookup_eq_some_iff.mp hget
  have hmem : (name, value) ∈ fields := by
    rw [hfields]
    simp
  exact isFinite_of_mem h hmem

end Json

theorem Statement.Literal.isFinite_of_ofJson? {value : Json} {literal : Literal}
    (h : Literal.ofJson? value = some literal) (hvalue : value.isFinite = true) :
    literal.isFinite = true := by
  cases value with
  | number n =>
      obtain rfl := Option.some.inj h
      rwa [Json.isFinite] at hvalue
  | bool b =>
      obtain rfl := Option.some.inj h
      rfl
  | string t =>
      obtain rfl := Option.some.inj h
      rfl
  | null => cases h
  | array items => cases h
  | object fields => cases h

/-! ## Reading -/

namespace Clause

/-- Whether an atom can be written and was met. -/
def IsMetIn (met : List Atom) (a : Atom) : Prop := a.isWritable = true ∧ a ∈ met

/-- What clauses of finite values are read into. -/
def IsReadable (outcome : Outcome) : Prop :=
  ∀ c, outcome.condition = some c → c.IsJoined (IsMetIn outcome.met)

theorem isReadable_unrestricted : IsReadable unrestricted := by
  intro c hc
  cases hc

theorem isReadable_single {a : Atom} (h : a.isWritable = true) : IsReadable (single a) := by
  intro c hc
  obtain rfl := Option.some.inj hc
  exact .atom ⟨h, List.mem_singleton_self a⟩

theorem isReadable_equality {kind : String} {body : Json} {outcome : Outcome}
    (h : equality kind body = .ok outcome) (hbody : body.isFinite = true) :
    IsReadable outcome := by
  obtain ⟨field, value, literal, hfield, rfl, hvalue⟩ := equality_spec h
  obtain ⟨fields, rfl, hmem⟩ := singleField_spec hfield
  have hfinite := Json.isFinite_of_mem hbody hmem
  refine isReadable_single ?_
  rcases hvalue with hscalar | ⟨inner, scalar, name, rfl, hget, -, hscalar⟩
  · exact Literal.isFinite_of_ofJson? hscalar hfinite
  · exact Literal.isFinite_of_ofJson? hscalar (Json.isFinite_of_get? hfinite hget)

/-- Only an empty list has no literals. -/
theorem eq_nil_of_literals {items : List Json} (h : items.mapM Literal.ofJson? = some []) :
    items = [] := by
  cases items with
  | nil => rfl
  | cons item rest =>
      rw [List.mapM_cons] at h
      cases hitem : Literal.ofJson? item <;> cases hrest : rest.mapM Literal.ofJson? <;>
        simp [hitem, hrest] at h

theorem isReadable_membership {body : Json} {outcome : Outcome}
    (h : membership body = .ok outcome) (hbody : body.isFinite = true) : IsReadable outcome := by
  obtain ⟨field, items, literals, hfield, hliterals, rfl⟩ := membership_spec h
  obtain ⟨fields, rfl, hmem⟩ := singleField_spec hfield
  have hfinite := Json.isFinite_of_mem hbody hmem
  rw [Json.isFinite, Json.itemsAreFinite_iff] at hfinite
  refine isReadable_single ?_
  rw [Atom.isWritable, Bool.and_eq_true]
  constructor
  · cases literals with
    | cons first others => rfl
    | nil =>
        obtain rfl := eq_nil_of_literals hliterals
        simp [membership, hfield, bind, Except.bind] at h
  · refine List.all_eq_true.mpr fun literal hliteral => ?_
    obtain ⟨item, hitem, heq⟩ := exists_of_mem_literals hliterals hliteral
    exact Literal.isFinite_of_ofJson? heq (hfinite item hitem)

theorem isFinite_of_boundLiteral {now : Calendar.Instant} {format : Option String} {value : Json}
    {literal : Literal} (h : boundLiteral now format value = .ok literal)
    (hvalue : value.isFinite = true) : literal.isFinite = true := by
  unfold boundLiteral at h
  split at h
  · split at h
    · obtain rfl := Except.ok.inj h
      rfl
    · cases h
  · split at h
    · rename_i found hfound
      obtain rfl := Except.ok.inj h
      exact Literal.isFinite_of_ofJson? hfound hvalue
    · cases h

theorem isReadable_range {now : Calendar.Instant} {body : Json} {outcome : Outcome}
    (h : range now body = .ok outcome) (hbody : body.isFinite = true) : IsReadable outcome := by
  obtain ⟨field, bounds, hfield, ⟨condition, hjoin, hcondition⟩, hatoms⟩ := range_spec h
  obtain ⟨fields, rfl, hmem⟩ := singleField_spec hfield
  have hfinite := Json.isFinite_of_mem hbody hmem
  intro c hc
  obtain rfl : condition = c := Option.some.inj (hcondition.symm.trans hc)
  refine Condition.isJoined_of_conjunction (fun part hpart => ?_) hjoin
  obtain ⟨a, ha, rfl⟩ := List.mem_map.mp hpart
  obtain ⟨name, comparison, value, literal, -, hpresent, hliteral, rfl⟩ := hatoms a ha
  have hget : Fields.get? bounds name = some value := (Option.filter_eq_some_iff.mp hpresent).1
  exact .atom ⟨isFinite_of_boundLiteral hliteral (Json.isFinite_of_get? hfinite hget), ha⟩

theorem isReadable_leafOf {now : Calendar.Instant} {kind : String} {body : Json}
    {outcome : Outcome} (h : leafOf now kind body = .ok outcome) (hbody : body.isFinite = true) :
    IsReadable outcome := by
  unfold leafOf at h
  split_ifs at h
  · obtain rfl := Except.ok.inj h
    exact isReadable_unrestricted
  · exact isReadable_equality h hbody
  · exact isReadable_membership h hbody
  · exact isReadable_range h hbody
  · obtain ⟨field, -, rfl⟩ := presence_spec h
    exact isReadable_single rfl
  · obtain ⟨query, -, rfl | ⟨-, rfl⟩⟩ := fullText_spec h
    · exact isReadable_unrestricted
    · exact isReadable_single rfl

/-- The conditions of clauses are joined from the atoms that were met in all of them. -/
theorem isJoined_of_mem_conditions {outcomes all : List Outcome} (hall : outcomes ⊆ all)
    (h : ∀ outcome ∈ outcomes, IsReadable outcome) {c : Condition} (hc : c ∈ conditions outcomes) :
    c.IsJoined (IsMetIn (metIn all)) := by
  obtain ⟨outcome, houtcome, hsome⟩ := List.mem_filterMap.mp hc
  exact (h outcome houtcome c hsome).mono fun a ha =>
    ⟨ha.1, List.mem_flatMap_of_mem (hall houtcome) ha.2⟩

theorem isReadable_conjoin {results : List Result} {outcome : Outcome}
    (h : conjoin results = .ok outcome)
    (hresults : ∀ part, Except.ok part ∈ results → IsReadable part) : IsReadable outcome := by
  obtain ⟨outcomes, rfl, rfl⟩ := conjoin_spec h
  intro c hc
  refine Condition.isJoined_of_conjunction (fun part hpart => ?_) hc
  exact isJoined_of_mem_conditions (List.Subset.refl outcomes)
    (fun outcome houtcome => hresults outcome (List.mem_map_of_mem houtcome)) hpart

theorem isReadable_block {fields : Fields} {occurrences : List (String × List Result)}
    {outcome : Outcome} (h : block fields occurrences = .ok outcome)
    (hoccurrences : ∀ entry ∈ occurrences, ∀ part, Except.ok part ∈ entry.2 → IsReadable part) :
    IsReadable outcome := by
  obtain ⟨must, filter, optional, forbidden, hmust, hfilter, hoptional, hforbidden, rfl⟩ :=
    block_spec h
  have hunder {name : String} {outcomes : List Outcome}
      (heq : under occurrences name = outcomes.map .ok)
      (hall : outcomes ⊆ must ++ filter ++ optional ++ forbidden) {c : Condition}
      (hc : c ∈ conditions outcomes) :
      c.IsJoined (IsMetIn (metIn (must ++ filter ++ optional ++ forbidden))) := by
    refine isJoined_of_mem_conditions hall (fun part hpart => ?_) hc
    have hresult : Except.ok part ∈ under occurrences name := by
      rw [heq]
      exact List.mem_map_of_mem hpart
    obtain ⟨results, hentry, hmem⟩ := exists_of_mem_under hresult
    exact hoccurrences (name, results) hentry part hmem
  intro c hc
  refine Condition.isJoined_of_conjunction (fun part hpart => ?_) hc
  simp only [List.mem_append] at hpart
  rcases hpart with ((hpart | hpart) | hpart) | hpart
  · exact hunder hmust (fun _ h => by simp [h]) hpart
  · exact hunder hfilter (fun _ h => by simp [h]) hpart
  · unfold chosen at hpart
    split at hpart
    · exact Condition.isJoined_of_disjunction
        (fun part hpart => hunder hoptional (fun _ h => by simp [h]) hpart)
        (Option.mem_toList.mp hpart)
    · cases hpart
  · obtain ⟨excluded, hexcluded, rfl⟩ := List.mem_map.mp hpart
    exact .not (hunder hforbidden (fun _ h => by simp [h]) hexcluded)

mutual

/-- A clause of finite values is read into a joined condition. -/
theorem isReadable_read (now : Calendar.Instant) (clause : Json) (outcome : Outcome)
    (h : read now clause = .ok outcome) (hclause : clause.isFinite = true) :
    IsReadable outcome := by
  cases clause with
  | null =>
      obtain rfl : unrestricted = outcome := by simpa [read] using h
      exact isReadable_unrestricted
  | object fields =>
      rw [read] at h
      exact isReadable_conjoin h
        (isReadable_readLeaves now fields (by rwa [Json.isFinite] at hclause))
  | array items =>
      rw [read] at h
      exact isReadable_conjoin h (isReadable_readAll now items (by rwa [Json.isFinite] at hclause))
  | bool _ | number _ | string _ => simp [read, noClause] at h

theorem isReadable_readAll (now : Calendar.Instant) (items : List Json)
    (hitems : Json.itemsAreFinite items = true) (outcome : Outcome)
    (h : Except.ok outcome ∈ readAll now items) : IsReadable outcome := by
  cases items with
  | nil => simp [readAll] at h
  | cons item rest =>
      rw [readAll, List.mem_cons] at h
      rw [Json.itemsAreFinite, Bool.and_eq_true] at hitems
      rcases h with hitem | hrest
      · exact isReadable_read now item outcome hitem.symm hitems.1
      · exact isReadable_readAll now rest hitems.2 outcome hrest

theorem isReadable_readLeaves (now : Calendar.Instant) (fields : List (String × Json))
    (hfields : Json.fieldsAreFinite fields = true) (outcome : Outcome)
    (h : Except.ok outcome ∈ readLeaves now fields) : IsReadable outcome := by
  cases fields with
  | nil => simp [readLeaves] at h
  | cons field rest =>
      obtain ⟨kind, body⟩ := field
      rw [readLeaves, List.mem_cons] at h
      rw [Json.fieldsAreFinite, Bool.and_eq_true] at hfields
      rcases h with hleaf | hrest
      · exact isReadable_readLeaf now kind body outcome hleaf.symm hfields.1
      · exact isReadable_readLeaves now rest hfields.2 outcome hrest

theorem isReadable_readLeaf (now : Calendar.Instant) (kind : String) (body : Json)
    (outcome : Outcome) (h : readLeaf now kind body = .ok outcome)
    (hbody : body.isFinite = true) : IsReadable outcome := by
  have hscalar (hread : readScalarLeaf now kind body = .ok outcome) : IsReadable outcome :=
    isReadable_leafOf (leafOf_of_readScalarLeaf hread) hbody
  cases body with
  | object fields =>
      rw [readLeaf] at h
      split at h
      · exact isReadable_block h
          (isReadable_readOccurrences now fields (by rwa [Json.isFinite] at hbody))
      · exact isReadable_leafOf h hbody
  | null | bool _ | number _ | string _ | array _ => exact hscalar (by rwa [readLeaf] at h)

theorem isReadable_readOccurrences (now : Calendar.Instant) (fields : List (String × Json))
    (hfields : Json.fieldsAreFinite fields = true) (entry : String × List Result)
    (hentry : entry ∈ readOccurrences now fields) (outcome : Outcome)
    (h : Except.ok outcome ∈ entry.2) : IsReadable outcome := by
  cases fields with
  | nil => simp [readOccurrences] at hentry
  | cons field rest =>
      obtain ⟨name, body⟩ := field
      rw [Json.fieldsAreFinite, Bool.and_eq_true] at hfields
      have hlater (hmem : entry ∈ readOccurrences now rest) : IsReadable outcome :=
        isReadable_readOccurrences now rest hfields.2 entry hmem outcome h
      have hbody := hfields.1
      cases body with
      | array items =>
          rw [readOccurrences, List.mem_cons] at hentry
          rw [Json.isFinite] at hbody
          rcases hentry with rfl | hmem
          · exact isReadable_readAll now items hbody outcome h
          · exact hlater hmem
      | object inner =>
          rw [readOccurrences, List.mem_cons] at hentry
          rw [Json.isFinite] at hbody
          rcases hentry with rfl | hmem
          · exact isReadable_conjoin (List.mem_singleton.mp h).symm
              (isReadable_readLeaves now inner hbody)
          · exact hlater hmem
      | null | bool _ | number _ | string _ =>
          rw [readOccurrences, List.mem_cons] at hentry
          rcases hentry with rfl | hmem
          · simp [noClause] at h
          · exact hlater hmem

end

/-- The condition of a filter is joined from atoms that were met. -/
theorem isJoined_of_compile {now : Calendar.Instant} {clause : Json} {f : Filter}
    (h : compile now clause = .ok (some f)) (hclause : clause.isFinite = true) :
    f.condition.IsJoined (IsMetIn f.met) := by
  obtain ⟨outcome, hread, hfilter⟩ := exists_read_of_compile h
  obtain ⟨c, hc, rfl⟩ := Option.map_eq_some_iff.mp hfilter.symm
  exact isReadable_read now clause outcome hread hclause c hc

end Clause

end Rollup
