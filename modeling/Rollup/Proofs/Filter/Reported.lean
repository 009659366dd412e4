/-
# What filters report

A filter reports the attributes and the searches that were met while its clause was read. Its text
says all of them but those of the optional clauses that a block leaves out because none has to
hold: these were met, and are reported, although nothing is left of them. Where nothing is left
out, a filter reports the attributes of its text, each once and in the order of first use, and a
search exactly if its text has one.
-/

import Rollup.Proofs.Filter.Meaning
import Rollup.Proofs.Plan.Legs
import Rollup.Proofs.Statement.Expressions

namespace Rollup

open Statement

/-! ## Attributes of a statement -/

namespace Statement

/-- The attributes of a statement from left to right: the names with no parenthesis right behind
them. -/
def attributesIn : List Token → List String
  | [] => []
  | token :: rest =>
      (if rest.head? = some .opening then [] else token.name?.toList) ++ attributesIn rest

section

variable {first second ts : List Token}

theorem attributesIn_cons {token : Token} (h : token.name? = none) :
    attributesIn (token :: ts) = attributesIn ts := by
  rw [attributesIn, h, Option.toList_none, ite_self, List.nil_append]

theorem attributesIn_append (h : second.head? ≠ some .opening) :
    attributesIn (first ++ second) = attributesIn first ++ attributesIn second := by
  induction first with
  | nil => rfl
  | cons token first ih =>
      rw [List.cons_append, attributesIn, attributesIn, ih,
        if_congr (head?_append_eq_opening_iff h) rfl rfl, List.append_assoc]

theorem attributesIn_intercalate {separator : Token} (hname : separator.name? = none)
    (hseparator : separator ≠ .opening) (lists : List (List Token)) :
    attributesIn (List.intercalate [separator] lists) = lists.flatMap attributesIn := by
  induction lists with
  | nil => rfl
  | cons ts lists ih =>
      cases lists with
      | nil => simp
      | cons us lists =>
          rw [List.intercalate_cons_cons, List.append_assoc, attributesIn_append (by simpa),
            List.singleton_append, attributesIn_cons hname, ih, ← List.flatMap_cons]

theorem attributesIn_parentheses :
    attributesIn (.opening :: (ts ++ [.closing])) = attributesIn ts := by
  rw [attributesIn_cons rfl, attributesIn_append (by simp)]
  exact List.append_nil _

/-- A name is an attribute unless a parenthesis follows. -/
theorem attributesIn_nameToken {name : String} (h : IsName name)
    (hnext : ts.head? ≠ some .opening) :
    attributesIn (nameToken name :: ts) = name :: attributesIn ts := by
  rw [attributesIn, if_neg hnext, h.name?_nameToken]
  rfl

theorem attributesIn_literal (value : Literal) :
    attributesIn (value.token :: ts) = attributesIn ts := by
  refine attributesIn_cons ?_
  cases value <;> rfl

end

end Statement

/-- The tokens of an atom have its attribute, if it reads one. -/
theorem Atom.attributesIn_tokens {a : Atom} (h : a.IsNamed) :
    attributesIn a.tokens = a.field?.toList := by
  cases a with
  | equals field value =>
      rw [tokens, attributesIn_nameToken (h field rfl) (by simp), attributesIn_cons rfl,
        attributesIn_literal]
      rfl
  | isIn field values =>
      have hvalues : attributesIn (List.intercalate [.comma]
          (values.map fun value => [value.token])) = [] := by
        rw [attributesIn_intercalate rfl (by decide), List.flatMap_map, List.flatMap_eq_nil_iff]
        exact fun value _ => attributesIn_literal value
      rw [tokens, attributesIn_nameToken (h field rfl) (by simp), attributesIn_cons rfl,
        attributesIn_parentheses, hvalues]
      rfl
  | compares field comparison bound =>
      rw [tokens, attributesIn_nameToken (h field rfl) (by simp), attributesIn_cons rfl,
        attributesIn_literal]
      rfl
  | isPresent field =>
      rw [tokens, attributesIn_nameToken (h field rfl) (by simp)]
      rfl
  | matchesText query => rfl

namespace Condition

/-- The tokens of a condition have the attributes of its atoms. -/
theorem attributesIn_tokens {c : Condition} (h : ∀ a ∈ c.atoms, a.IsNamed) :
    attributesIn c.tokens = c.atoms.filterMap Atom.field? := by
  have hjoined {parts : List Condition} (k : Keyword)
      (hparts : ∀ part ∈ parts, attributesIn part.tokens = part.atoms.filterMap Atom.field?) :
      attributesIn (.opening :: (List.intercalate [.keyword k] (tokensOf parts) ++ [.closing])) =
        (atomsOf parts).filterMap Atom.field? := by
    rw [attributesIn_parentheses, attributesIn_intercalate rfl (by simp), tokensOf_eq_map,
      List.flatMap_map, atomsOf_eq_flatMap, List.filterMap_flatMap]
    exact List.flatMap_congr hparts
  match c with
  | atom a =>
      rw [tokens, Atom.attributesIn_tokens (h a List.mem_cons_self), atoms]
      cases hfield : a.field? <;> simp [hfield]
  | all parts =>
      exact hjoined .and fun part hpart =>
        attributesIn_tokens fun a ha => h a (mem_atomsOf hpart ha)
  | any parts =>
      exact hjoined .or fun part hpart =>
        attributesIn_tokens fun a ha => h a (mem_atomsOf hpart ha)
  | not part =>
      rw [tokens, attributesIn_cons rfl]
      split
      · exact attributesIn_tokens h
      · rw [attributesIn_parentheses]
        exact attributesIn_tokens h

end Condition

/-! ## What is left out -/

namespace Clause

/-- The atoms that clauses leave out, under one name of a block. -/
def leftUnder (occurrences : List (String × List Atom)) (name : String) : List Atom :=
  (occurrences.lookup name).getD []

/-- The atoms that a block leaves out, by those that its clauses leave out: all that was met in the
optional clauses as well if none of them has to hold. -/
def leftOutOfBlock (fields : Fields) (occurrences : List (String × List Result))
    (inside : List (String × List Atom)) : List Atom :=
  let must := readUnder occurrences "must"
  let filter := readUnder occurrences "filter"
  leftUnder inside "must" ++ leftUnder inside "filter" ++
    (if 0 < minimumOptional fields (conditions must ++ conditions filter) then
      leftUnder inside "should"
    else metIn (readUnder occurrences "should")) ++
    leftUnder inside "must_not"

mutual

/-- The atoms that were met in a clause and then left out with an optional clause. -/
def leftOut (now : Calendar.Instant) : Json → List Atom
  | .object fields => leftOutOfLeaves now fields
  | .array items => leftOutOfAll now items
  | _ => []

def leftOutOfAll (now : Calendar.Instant) : List Json → List Atom
  | [] => []
  | item :: rest => leftOut now item ++ leftOutOfAll now rest

def leftOutOfLeaves (now : Calendar.Instant) : List (String × Json) → List Atom
  | [] => []
  | (kind, body) :: rest => leftOutOfLeaf now kind body ++ leftOutOfLeaves now rest

def leftOutOfLeaf (now : Calendar.Instant) (kind : String) : Json → List Atom
  | .object fields =>
      if kind = "bool" then
        leftOutOfBlock fields (readOccurrences now fields) (leftOutOfOccurrences now fields)
      else []
  | _ => []

/-- The atoms that the clauses under each name of a block leave out. -/
def leftOutOfOccurrences (now : Calendar.Instant) :
    List (String × Json) → List (String × List Atom)
  | [] => []
  | (name, .array items) :: rest => (name, leftOutOfAll now items) :: leftOutOfOccurrences now rest
  | (name, .object fields) :: rest =>
      (name, leftOutOfLeaves now fields) :: leftOutOfOccurrences now rest
  | (name, _) :: rest => (name, []) :: leftOutOfOccurrences now rest

end

theorem leftUnder_cons (key : String) (left : List Atom) (rest : List (String × List Atom))
    (name : String) :
    leftUnder ((key, left) :: rest) name = if name = key then left else leftUnder rest name :=
  getD_lookup_cons key left rest name

/-! ## What is used -/

/-- The atoms of the condition that a clause was read into. -/
def Outcome.used (outcome : Outcome) : List Atom := outcome.condition.elim [] Condition.atoms

theorem used_conjunction (parts : List Condition) (met : List Atom) :
    (Outcome.mk (Condition.conjunction parts) met).used = Condition.atomsOf parts := by
  match parts with
  | [] => rfl
  | [part] => exact (List.append_nil _).symm
  | _ :: _ :: _ => rfl

/-- The conditions of clauses have the atoms that the clauses use. -/
theorem atomsOf_conditions (outcomes : List Outcome) :
    Condition.atomsOf (conditions outcomes) = outcomes.flatMap Outcome.used := by
  induction outcomes with
  | nil => rfl
  | cons outcome rest ih =>
      obtain ⟨condition, met⟩ := outcome
      cases condition with
      | none => rw [conditions_cons_none, ih]; rfl
      | some condition => rw [conditions_cons_some, Condition.atomsOf, ih]; rfl

theorem atomsOf_append (first second : List Condition) :
    Condition.atomsOf (first ++ second) =
      Condition.atomsOf first ++ Condition.atomsOf second := by
  rw [Condition.atomsOf_eq_flatMap, List.flatMap_append, ← Condition.atomsOf_eq_flatMap,
    ← Condition.atomsOf_eq_flatMap]

theorem atomsOf_map_not (parts : List Condition) :
    Condition.atomsOf (parts.map Condition.not) = Condition.atomsOf parts := by
  rw [Condition.atomsOf_eq_flatMap, List.flatMap_map, Condition.atomsOf_eq_flatMap]
  rfl

theorem atomsOf_disjunction (parts : List Condition) :
    Condition.atomsOf (Condition.disjunction parts).toList = Condition.atomsOf parts := by
  match parts with
  | [] => rfl
  | [part] => rfl
  | _ :: _ :: _ => exact List.append_nil _

/-- A block uses what its clauses use, but the optional clauses only if one has to hold. -/
theorem used_block (fields : Fields) (must filter optional forbidden : List Outcome)
    (met : List Atom) :
    (Outcome.mk (Condition.conjunction (conditions must ++ conditions filter ++
        chosen fields must filter optional ++ (conditions forbidden).map Condition.not))
        met).used =
      must.flatMap Outcome.used ++ filter.flatMap Outcome.used ++
        (if 0 < minimumOptional fields (conditions must ++ conditions filter) then
          optional.flatMap Outcome.used
        else []) ++
        forbidden.flatMap Outcome.used := by
  have hchosen : Condition.atomsOf (chosen fields must filter optional) =
      if 0 < minimumOptional fields (conditions must ++ conditions filter) then
        optional.flatMap Outcome.used
      else [] := by
    unfold chosen
    split
    · rw [atomsOf_disjunction, atomsOf_conditions]
    · rfl
  rw [used_conjunction, atomsOf_append, atomsOf_append, atomsOf_append, hchosen, atomsOf_map_not,
    atomsOf_conditions, atomsOf_conditions, atomsOf_conditions]

/-- What was met is split into what is used, in the same order, and what is left out. -/
structure IsSplit (met used left : List Atom) : Prop where
  sublist : used.Sublist met
  perm : met.Perm (used ++ left)

namespace IsSplit

variable {met used left met' used' left' : List Atom}

theorem same (atoms : List Atom) : IsSplit atoms atoms [] :=
  ⟨List.Sublist.refl atoms, by rw [List.append_nil]⟩

theorem dropped (atoms : List Atom) : IsSplit atoms [] atoms :=
  ⟨List.nil_sublist atoms, List.Perm.refl atoms⟩

theorem append (h : IsSplit met used left) (h' : IsSplit met' used' left') :
    IsSplit (met ++ met') (used ++ used') (left ++ left') := by
  refine ⟨h.sublist.append h'.sublist, List.perm_iff_count.mpr fun a => ?_⟩
  have hcount := h.perm.count_eq a
  have hcount' := h'.perm.count_eq a
  simp only [List.count_append] at hcount hcount' ⊢
  omega

theorem mem_iff (h : IsSplit met used left) (a : Atom) : a ∈ met ↔ a ∈ used ∨ a ∈ left := by
  rw [h.perm.mem_iff, List.mem_append]

/-- All that was met is used exactly if nothing is left out. -/
theorem eq_iff (h : IsSplit met used left) : met = used ↔ left = [] := by
  have hlength : met.length = used.length + left.length := by
    rw [h.perm.length_eq, List.length_append]
  constructor
  · rintro rfl
    exact List.eq_nil_of_length_eq_zero (by omega)
  · rintro rfl
    exact (h.sublist.eq_of_length (by simpa using hlength.symm)).symm

end IsSplit

/-- A leaf uses all comparisons in it. -/
theorem used_of_leafOf {now : Calendar.Instant} {kind : String} {body : Json} {outcome : Outcome}
    (h : leafOf now kind body = .ok outcome) : outcome.used = outcome.met := by
  have hatoms (atoms : List Atom) : Condition.atomsOf (atoms.map Condition.atom) = atoms := by
    rw [Condition.atomsOf_eq_flatMap, List.flatMap_map]
    exact List.flatMap_singleton' atoms
  unfold leafOf at h
  split_ifs at h
  · obtain rfl := Except.ok.inj h
    rfl
  · obtain ⟨field, value, literal, -, rfl, -⟩ := equality_spec h
    rfl
  · obtain ⟨field, items, literals, -, -, rfl⟩ := membership_spec h
    rfl
  · obtain ⟨field, bounds, -, ⟨condition, hconjunction, hcondition⟩, -⟩ := range_spec h
    rw [Outcome.used, hcondition, ← hconjunction]
    exact (used_conjunction _ []).trans (hatoms outcome.met)
  · obtain ⟨field, -, rfl⟩ := presence_spec h
    rfl
  · obtain ⟨query, -, rfl | ⟨-, rfl⟩⟩ := fullText_spec h <;> rfl

theorem isSplit_of_leafOf {now : Calendar.Instant} {kind : String} {body : Json}
    {outcome : Outcome} (h : leafOf now kind body = .ok outcome) :
    IsSplit outcome.met outcome.used [] := by
  rw [used_of_leafOf h]
  exact .same outcome.met

theorem isSplit_of_conjoin {results : List Result} {outcome : Outcome} {left : List Atom}
    (h : conjoin results = .ok outcome)
    (hparts : ∀ outcomes : List Outcome, results = outcomes.map .ok →
      IsSplit (metIn outcomes) (outcomes.flatMap Outcome.used) left) :
    IsSplit outcome.met outcome.used left := by
  obtain ⟨outcomes, houtcomes, rfl⟩ := conjoin_spec h
  rw [used_conjunction, atomsOf_conditions]
  exact hparts outcomes houtcomes

theorem isSplit_of_block {fields : Fields} {occurrences : List (String × List Result)}
    {inside : List (String × List Atom)} {outcome : Outcome}
    (h : block fields occurrences = .ok outcome)
    (hparts : ∀ name, ∀ outcomes : List Outcome, under occurrences name = outcomes.map .ok →
      IsSplit (metIn outcomes) (outcomes.flatMap Outcome.used) (leftUnder inside name)) :
    IsSplit outcome.met outcome.used (leftOutOfBlock fields occurrences inside) := by
  obtain ⟨must, filter, optional, forbidden, hmust, hfilter, hoptional, hforbidden, rfl⟩ :=
    block_spec h
  have hchosen : IsSplit (metIn optional)
      (if 0 < minimumOptional fields (conditions must ++ conditions filter) then
        optional.flatMap Outcome.used else [])
      (if 0 < minimumOptional fields (conditions must ++ conditions filter) then
        leftUnder inside "should" else metIn optional) := by
    split
    · exact hparts "should" optional hoptional
    · exact .dropped (metIn optional)
  rw [used_block, leftOutOfBlock, readUnder_eq hmust, readUnder_eq hfilter,
    readUnder_eq hoptional]
  simp only [metIn, List.flatMap_append]
  exact (((hparts "must" must hmust).append (hparts "filter" filter hfilter)).append
    hchosen).append (hparts "must_not" forbidden hforbidden)

mutual

/-- What is met in a clause is split into what its condition uses and what is left out. -/
theorem isSplit_read (now : Calendar.Instant) (clause : Json) (outcome : Outcome)
    (h : read now clause = .ok outcome) :
    IsSplit outcome.met outcome.used (leftOut now clause) := by
  cases clause with
  | null =>
      obtain rfl : unrestricted = outcome := by simpa [read] using h
      exact .same []
  | object fields =>
      rw [read] at h
      exact isSplit_of_conjoin h (isSplit_readLeaves now fields)
  | array items =>
      rw [read] at h
      exact isSplit_of_conjoin h (isSplit_readAll now items)
  | bool _ | number _ | string _ => simp [read, noClause] at h

theorem isSplit_readAll (now : Calendar.Instant) (items : List Json) (outcomes : List Outcome)
    (h : readAll now items = outcomes.map .ok) :
    IsSplit (metIn outcomes) (outcomes.flatMap Outcome.used) (leftOutOfAll now items) := by
  cases items with
  | nil =>
      obtain rfl : outcomes = [] := by simpa [readAll] using h.symm
      exact .same []
  | cons item rest =>
      rw [readAll] at h
      obtain ⟨first, others, rfl, hfirst, hothers⟩ := List.map_eq_cons_iff.mp h.symm
      exact (isSplit_read now item first hfirst.symm).append
        (isSplit_readAll now rest others hothers.symm)

theorem isSplit_readLeaves (now : Calendar.Instant) (fields : List (String × Json))
    (outcomes : List Outcome) (h : readLeaves now fields = outcomes.map .ok) :
    IsSplit (metIn outcomes) (outcomes.flatMap Outcome.used) (leftOutOfLeaves now fields) := by
  cases fields with
  | nil =>
      obtain rfl : outcomes = [] := by simpa [readLeaves] using h.symm
      exact .same []
  | cons field rest =>
      obtain ⟨kind, body⟩ := field
      rw [readLeaves] at h
      obtain ⟨first, others, rfl, hfirst, hothers⟩ := List.map_eq_cons_iff.mp h.symm
      exact (isSplit_readLeaf now kind body first hfirst.symm).append
        (isSplit_readLeaves now rest others hothers.symm)

theorem isSplit_readLeaf (now : Calendar.Instant) (kind : String) (body : Json)
    (outcome : Outcome) (h : readLeaf now kind body = .ok outcome) :
    IsSplit outcome.met outcome.used (leftOutOfLeaf now kind body) := by
  have hscalar (hread : readScalarLeaf now kind body = .ok outcome) :
      IsSplit outcome.met outcome.used [] :=
    isSplit_of_leafOf (leafOf_of_readScalarLeaf hread)
  cases body with
  | object fields =>
      rw [readLeaf] at h
      rw [leftOutOfLeaf]
      split_ifs at h ⊢
      · exact isSplit_of_block h (isSplit_readOccurrences now fields)
      · exact isSplit_of_leafOf h
  | null | bool _ | number _ | string _ | array _ => exact hscalar (by rwa [readLeaf] at h)

theorem isSplit_readOccurrences (now : Calendar.Instant) (fields : List (String × Json))
    (name : String) (outcomes : List Outcome)
    (h : under (readOccurrences now fields) name = outcomes.map .ok) :
    IsSplit (metIn outcomes) (outcomes.flatMap Outcome.used)
      (leftUnder (leftOutOfOccurrences now fields) name) := by
  cases fields with
  | nil =>
      obtain rfl : outcomes = [] := by simpa [readOccurrences, under] using h.symm
      exact .same []
  | cons field rest =>
      obtain ⟨key, body⟩ := field
      have hcons (results : List Result) (left : List Atom)
          (hread : readOccurrences now ((key, body) :: rest) =
            (key, results) :: readOccurrences now rest)
          (hleft : leftOutOfOccurrences now ((key, body) :: rest) =
            (key, left) :: leftOutOfOccurrences now rest)
          (hhere : results = outcomes.map .ok →
            IsSplit (metIn outcomes) (outcomes.flatMap Outcome.used) left) :
          IsSplit (metIn outcomes) (outcomes.flatMap Outcome.used)
            (leftUnder (leftOutOfOccurrences now ((key, body) :: rest)) name) := by
        rw [hread, under_cons] at h
        rw [hleft, leftUnder_cons]
        split_ifs at h ⊢
        · exact hhere h
        · exact isSplit_readOccurrences now rest name outcomes h
      cases body with
      | array items => exact hcons _ _ rfl rfl (isSplit_readAll now items outcomes)
      | object inner =>
          refine hcons _ _ rfl rfl fun hread => ?_
          obtain ⟨first, others, rfl, hfirst, hothers⟩ := List.map_eq_cons_iff.mp hread.symm
          obtain rfl : others = [] := by simpa using hothers
          have hinner := isSplit_of_conjoin hfirst.symm (isSplit_readLeaves now inner)
          simpa [metIn] using hinner
      | null =>
          refine hcons _ _ rfl rfl fun hread => ?_
          obtain rfl : outcomes = [] := by simpa using hread.symm
          exact .same []
      | bool _ | number _ | string _ =>
          refine hcons _ _ rfl rfl fun hread => ?_
          obtain ⟨first, others, rfl, hfirst, -⟩ := List.map_eq_cons_iff.mp hread.symm
          simp [noClause] at hfirst

end

/-! ## Reports -/

theorem isSplit_of_compile {now : Calendar.Instant} {clause : Json} {f : Filter}
    (h : compile now clause = .ok (some f)) :
    IsSplit f.met f.condition.atoms (leftOut now clause) := by
  obtain ⟨outcome, hread, hfilter⟩ := exists_read_of_compile h
  obtain ⟨c, hc, rfl⟩ := Option.map_eq_some_iff.mp hfilter.symm
  have hsplit := isSplit_read now clause outcome hread
  rwa [Outcome.used, hc] at hsplit

/-- A filter reports the attributes of its text and those that its clause leaves out, each once,
and a search if its text or what is left out has one. If nothing is left out, it reports the
attributes of its text in the order of first use, and a search exactly if its text has one. -/
theorem compile_reports {now : Calendar.Instant} {clause : Json} {f : Filter}
    (h : compile now clause = .ok (some f)) (hclause : clause.isFinite = true) :
    let attributes := attributesIn (Statement.tokens f.text)
    let left := leftOut now clause
    (f.isFullText = true ↔
      0 < searchCount (Statement.tokens f.text) ∨ ∃ a ∈ left, a.isFullText = true) ∧
    f.fields.Nodup ∧
    ((∀ a ∈ f.condition.atoms, a.IsNamed) →
      (∀ field, field ∈ f.fields ↔ field ∈ attributes ∨ ∃ a ∈ left, a.field? = some field) ∧
      (left = [] → f.fields = attributes.eraseDups)) := by
  intro attributes left
  have hsplit := isSplit_of_compile h
  have hwritable (a : Atom) (ha : a ∈ f.condition.atoms) : a.isWritable = true :=
    ((isJoined_of_compile h hclause).of_mem_atoms ha).1
  refine ⟨?_, nodup_eraseDups _, fun hnamed => ?_⟩
  · rw [Filter.text, (Condition.hasSearches_text hwritable).searchCount_tokens,
      Condition.searches, List.countP_pos_iff, Filter.isFullText, List.any_eq_true]
    simp only [hsplit.mem_iff, or_and_right, exists_or, left]
  · have hattributes : attributes = f.condition.atoms.filterMap Atom.field? := by
      rw [← Condition.attributesIn_tokens hnamed, ← (Condition.isOpen_text hwritable).tokens_eq]
      rfl
    rw [hattributes]
    constructor
    · intro field
      rw [Filter.fields, List.mem_eraseDups, List.mem_filterMap, List.mem_filterMap]
      simp only [hsplit.mem_iff, or_and_right, exists_or, left]
    · intro hleft
      rw [Filter.fields, hsplit.eq_iff.mpr hleft]

/-- A required comparison of one attribute, and two optional clauses of which some number must
hold: one on another attribute and one on the full text. -/
def optionalSearch (minimum : Int) : Json :=
  .object [("bool", .object [("must", .array [isOne "a"]),
    ("should", .array [isOne "b", .object [("query_string", .object [("query", .string "x")])]]),
    ("minimum_should_match", .number (.integer minimum))])]

/-- The atoms that are met in the clause, whether an optional one must hold or not. -/
def optionalSearchAtoms : List Atom :=
  [.equals "a" (.number (.integer 1)), .equals "b" (.number (.integer 1)), .matchesText "x"]

/-- With an optional clause that must hold, the filter reports what its text says. -/
theorem optionalSearch_one_reports :
    let c : Condition := .all [.atom (.equals "a" (.number (.integer 1))),
      .any [.atom (.equals "b" (.number (.integer 1))), .atom (.matchesText "x")]]
    let f : Filter := ⟨c, optionalSearchAtoms⟩
    compile default (optionalSearch 1) = .ok (some f) ∧
      f.fields = (attributesIn (Statement.tokens f.text)).eraseDups ∧
      (f.isFullText = true ↔ 0 < searchCount (Statement.tokens f.text)) := by
  intro c f
  have hcompile : compile default (optionalSearch 1) = .ok (some f) := rfl
  have hleft : leftOut default (optionalSearch 1) = [] := rfl
  obtain ⟨hsearch, -, hnames⟩ := compile_reports hcompile (by decide +kernel)
  refine ⟨hcompile, (hnames (by decide +kernel)).2 hleft, ?_⟩
  simpa [hleft] using hsearch

/-- Without one, the attribute and the search of the clauses that are left out are reported, and
neither is in the text. -/
theorem optionalSearch_zero_overreports :
    let f : Filter := ⟨.atom (.equals "a" (.number (.integer 1))), optionalSearchAtoms⟩
    compile default (optionalSearch 0) = .ok (some f) ∧
      f.text = "a = 1" ∧ attributesIn (Statement.tokens f.text) = ["a"] ∧
      f.fields = ["a", "b"] ∧
      searchCount (Statement.tokens f.text) = 0 ∧ f.isFullText = true := by
  refine ⟨rfl, ?_, ?_, ?_, ?_, rfl⟩ <;> decide +kernel

end Clause

end Rollup
