/-
# Data in clauses

An atom is hollow when a clause may say it without holding any data: a comparison with the empty
text, or one under the name that matches everything. A clause in which any atom was met that is
not hollow holds data. So only clauses of hollow atoms can restrict and yet hold no data.
-/

import Mathlib.Tactic.SplitIfs
import Rollup.Proofs.Filter.Reading

namespace Rollup

/-- Whether an atom may be said without any data. -/
def Atom.isHollow : Atom → Bool
  | equals field value => field = "match_all" || value = .text ""
  | isIn field values => field = "match_all" || values.all fun value => value = .text ""
  | compares field _ _ => field = "match_all"
  | isPresent field => field = ""
  | matchesText _ => false

namespace Clause

/-- Whether an atom that is not hollow was met. -/
def IsSolid (met : List Atom) : Prop := ∃ a ∈ met, a.isHollow = false

theorem isSolid_single (a : Atom) : IsSolid (single a).met ↔ a.isHollow = false := by
  simp [IsSolid, single]

theorem isSolid_metIn (outcomes : List Outcome) :
    IsSolid (metIn outcomes) ↔ ∃ outcome ∈ outcomes, IsSolid outcome.met := by
  simp only [IsSolid, metIn, List.mem_flatMap]
  constructor
  · rintro ⟨a, ⟨outcome, houtcome, ha⟩, hsolid⟩
    exact ⟨outcome, houtcome, a, ha, hsolid⟩
  · rintro ⟨outcome, houtcome, a, ha, hsolid⟩
    exact ⟨a, ⟨outcome, houtcome, ha⟩, hsolid⟩

theorem fieldsHaveData_iff (fields : List (String × Json)) :
    fieldsHaveData fields = true ↔
      ∃ field ∈ fields, field.1 ≠ "match_all" ∧ hasData field.2 = true := by
  induction fields with
  | nil => simp [fieldsHaveData]
  | cons field rest ih => simp [fieldsHaveData, ih]

theorem itemsHaveData_iff (items : List Json) :
    itemsHaveData items = true ↔ ∃ item ∈ items, hasData item = true := by
  induction items with
  | nil => simp [itemsHaveData]
  | cons item rest ih => simp [itemsHaveData, ih]

theorem hasData_object {fields : List (String × Json)} {name : String} {value : Json}
    (hmem : (name, value) ∈ fields) (hname : name ≠ "match_all")
    (hvalue : hasData value = true) : hasData (.object fields) = true := by
  rw [hasData, fieldsHaveData_iff]
  exact ⟨(name, value), hmem, hname, hvalue⟩

theorem hasData_of_get? {fields : Fields} {name : String} {value : Json}
    (hget : fields.get? name = some value) (hname : name ≠ "match_all")
    (hvalue : hasData value = true) : hasData (.object fields) = true := by
  obtain ⟨before, after, hfields, -⟩ := List.lookup_eq_some_iff.mp hget
  exact hasData_object (by rw [hfields]; simp) hname hvalue

/-- A scalar is data unless it is the empty text. -/
theorem hasData_of_literal {value : Json} {literal : Statement.Literal}
    (hliteral : Statement.Literal.ofJson? value = some literal) (hsome : literal ≠ .text "") :
    hasData value = true := by
  cases value with
  | string t =>
      obtain rfl : Statement.Literal.text t = literal := by
        simpa [Statement.Literal.ofJson?] using hliteral
      have ht : t ≠ "" := fun h => hsome (by rw [h])
      simp [hasData, ht]
  | number n => rfl
  | bool b => rfl
  | null => simp [Statement.Literal.ofJson?] at hliteral
  | array items => simp [Statement.Literal.ofJson?] at hliteral
  | object fields => simp [Statement.Literal.ofJson?] at hliteral

/-- The empty text is no date. -/
theorem resolveMillis_empty (now : Calendar.Instant) (format : Option String) :
    Calendar.resolveMillis now format (.string "") = .error "" := by
  rfl

/-- A bound that is read is data. -/
theorem hasData_of_boundLiteral {now : Calendar.Instant} {format : Option String} {value : Json}
    {literal : Statement.Literal} (h : boundLiteral now format value = .ok literal) :
    hasData value = true := by
  cases value with
  | string t =>
      by_cases ht : t = ""
      · subst ht
        have hdate : isDateBound format (.string "") = true := by
          cases format with
          | none => rfl
          | some f => rfl
        simp [boundLiteral, hdate, resolveMillis_empty] at h
      · simp [hasData, ht]
  | number n => rfl
  | bool b => rfl
  | null => simp [boundLiteral, isDateBound, Statement.Literal.ofJson?] at h
  | array items => simp [boundLiteral, isDateBound, Statement.Literal.ofJson?] at h
  | object fields => simp [boundLiteral, isDateBound, Statement.Literal.ofJson?] at h

/-- A literal that is listed is that of an item. -/
theorem exists_of_mem_literals {items : List Json} {literals : List Statement.Literal}
    (h : items.mapM Statement.Literal.ofJson? = some literals) {literal : Statement.Literal}
    (hliteral : literal ∈ literals) :
    ∃ item ∈ items, Statement.Literal.ofJson? item = some literal := by
  induction items generalizing literals with
  | nil =>
      obtain rfl : [] = literals := by simpa using h
      simp at hliteral
  | cons item rest ih =>
      rw [List.mapM_cons] at h
      cases hitem : Statement.Literal.ofJson? item with
      | none => simp [hitem] at h
      | some first =>
          cases hrest : rest.mapM Statement.Literal.ofJson? with
          | none => simp [hitem, hrest] at h
          | some others =>
              obtain rfl : first :: others = literals := by simpa [hitem, hrest] using h
              rcases List.mem_cons.mp hliteral with rfl | hlater
              · exact ⟨item, by simp, hitem⟩
              · obtain ⟨found, hfound, heq⟩ := ih hrest hlater
                exact ⟨found, by simp [hfound], heq⟩

/-! ## Leaves -/

theorem hasData_of_equality {kind : String} {body : Json} {outcome : Outcome}
    (h : equality kind body = .ok outcome) (hsolid : IsSolid outcome.met) :
    hasData body = true := by
  obtain ⟨field, value, literal, hfield, rfl, hvalue⟩ := equality_spec h
  obtain ⟨fields, rfl, hmem⟩ := singleField_spec hfield
  rw [isSolid_single, Atom.isHollow, Bool.or_eq_false_iff, decide_eq_false_iff_not,
    decide_eq_false_iff_not] at hsolid
  apply hasData_object hmem hsolid.1
  rcases hvalue with hscalar | ⟨inner, scalar, name, rfl, hget, hname, hscalar⟩
  · exact hasData_of_literal hscalar hsolid.2
  · apply hasData_of_get? hget _ (hasData_of_literal hscalar hsolid.2)
    rcases hname with rfl | rfl <;> decide

theorem hasData_of_membership {body : Json} {outcome : Outcome}
    (h : membership body = .ok outcome) (hsolid : IsSolid outcome.met) :
    hasData body = true := by
  obtain ⟨field, items, literals, hfield, hliterals, rfl⟩ := membership_spec h
  obtain ⟨fields, rfl, hmem⟩ := singleField_spec hfield
  rw [isSolid_single, Atom.isHollow, Bool.or_eq_false_iff, decide_eq_false_iff_not,
    List.all_eq_false] at hsolid
  obtain ⟨hname, literal, hliteral, hsome⟩ := hsolid
  obtain ⟨item, hitem, heq⟩ := exists_of_mem_literals hliterals hliteral
  apply hasData_object hmem hname
  rw [hasData, itemsHaveData_iff]
  exact ⟨item, hitem, hasData_of_literal heq (by simpa using hsome)⟩

theorem hasData_of_range {now : Calendar.Instant} {body : Json} {outcome : Outcome}
    (h : range now body = .ok outcome) (hsolid : IsSolid outcome.met) :
    hasData body = true := by
  obtain ⟨field, bounds, hfield, -, hatoms⟩ := range_spec h
  obtain ⟨fields, rfl, hmem⟩ := singleField_spec hfield
  obtain ⟨a, ha, hsome⟩ := hsolid
  obtain ⟨name, comparison, value, literal, hname, hpresent, hliteral, rfl⟩ := hatoms a ha
  rw [Atom.isHollow, decide_eq_false_iff_not] at hsome
  apply hasData_object hmem hsome
  have hget : Fields.get? bounds name = some value := (Option.filter_eq_some_iff.mp hpresent).1
  apply hasData_of_get? hget _ (hasData_of_boundLiteral hliteral)
  rintro rfl
  simp [boundNames] at hname

theorem hasData_of_stringField {body : Json} {name text : String}
    (h : body.stringField? name = some text) (hname : name ≠ "match_all") (htext : text ≠ "") :
    hasData body = true := by
  cases body with
  | object fields =>
      obtain ⟨value, hget, hvalue⟩ := Option.bind_eq_some_iff.mp h
      refine hasData_of_get? hget hname ?_
      cases value with
      | string t =>
          obtain rfl : t = text := by simpa [Json.string?] using hvalue
          simp [hasData, htext]
      | null => simp [Json.string?] at hvalue
      | bool b => rfl
      | number n => rfl
      | array items => simp [Json.string?] at hvalue
      | object inner => simp [Json.string?] at hvalue
  | null => simp [Json.stringField?, Json.field?] at h
  | bool b => simp [Json.stringField?, Json.field?] at h
  | number n => simp [Json.stringField?, Json.field?] at h
  | string t => simp [Json.stringField?, Json.field?] at h
  | array items => simp [Json.stringField?, Json.field?] at h

theorem not_isSolid_unrestricted : ¬ IsSolid unrestricted.met := by
  rintro ⟨a, ha, -⟩
  simp [unrestricted] at ha

/-- A leaf in which an atom was met that is not hollow holds data. -/
theorem hasData_of_leafOf {now : Calendar.Instant} {kind : String} {body : Json}
    {outcome : Outcome} (h : leafOf now kind body = .ok outcome)
    (hsolid : IsSolid outcome.met) : kind ≠ "match_all" ∧ hasData body = true := by
  unfold leafOf at h
  split_ifs at h with hall hequality hterms hrange hexists htext
  · obtain rfl := Except.ok.inj h
    exact absurd hsolid not_isSolid_unrestricted
  · exact ⟨hall, hasData_of_equality h hsolid⟩
  · exact ⟨hall, hasData_of_membership h hsolid⟩
  · exact ⟨hall, hasData_of_range h hsolid⟩
  · obtain ⟨field, hfield, rfl⟩ := presence_spec h
    rw [isSolid_single, Atom.isHollow, decide_eq_false_iff_not] at hsolid
    exact ⟨hall, hasData_of_stringField hfield (by decide) hsolid⟩
  · obtain ⟨query, hquery, rfl | ⟨hsome, rfl⟩⟩ := fullText_spec h
    · exact absurd hsolid not_isSolid_unrestricted
    · refine ⟨hall, hasData_of_stringField hquery (by decide) ?_⟩
      rintro rfl
      exact hsome rfl

/-! ## Clauses -/

/-- An atom that is not hollow was met in one of the clauses of a conjunction. -/
theorem isSolid_of_conjoin {results : List Result} {outcome : Outcome}
    (h : conjoin results = .ok outcome) (hsolid : IsSolid outcome.met) :
    ∃ part, Except.ok part ∈ results ∧ IsSolid part.met := by
  obtain ⟨outcomes, rfl, rfl⟩ := conjoin_spec h
  obtain ⟨part, hpart, hmet⟩ := (isSolid_metIn outcomes).mp hsolid
  exact ⟨part, List.mem_map_of_mem hpart, hmet⟩

/-- An atom that is not hollow was met in one of the clauses under one of the names of a block. -/
theorem isSolid_of_block {fields : Fields} {occurrences : List (String × List Result)}
    {outcome : Outcome} (h : block fields occurrences = .ok outcome)
    (hsolid : IsSolid outcome.met) :
    ∃ entry ∈ occurrences, entry.1 ≠ "match_all" ∧
      ∃ part, Except.ok part ∈ entry.2 ∧ IsSolid part.met := by
  obtain ⟨must, filter, optional, forbidden, hmust, hfilter, hoptional, hforbidden, rfl⟩ :=
    block_spec h
  have hunder {name : String} {outcomes : List Outcome} (hname : name ≠ "match_all")
      (heq : under occurrences name = outcomes.map .ok) {part : Outcome}
      (hpart : part ∈ outcomes) (hmet : IsSolid part.met) :
      ∃ entry ∈ occurrences, entry.1 ≠ "match_all" ∧
        ∃ part, Except.ok part ∈ entry.2 ∧ IsSolid part.met := by
    have hmem : Except.ok part ∈ under occurrences name := by
      rw [heq]
      exact List.mem_map_of_mem hpart
    obtain ⟨results, hentry, hresult⟩ := exists_of_mem_under hmem
    exact ⟨(name, results), hentry, hname, part, hresult, hmet⟩
  obtain ⟨part, hpart, hmet⟩ := (isSolid_metIn _).mp hsolid
  simp only [List.mem_append] at hpart
  rcases hpart with ((h | h) | h) | h
  · exact hunder (by decide) hmust h hmet
  · exact hunder (by decide) hfilter h hmet
  · exact hunder (by decide) hoptional h hmet
  · exact hunder (by decide) hforbidden h hmet

mutual

/-- A clause in which an atom was met that is not hollow holds data. -/
theorem hasData_of_read (now : Calendar.Instant) (clause : Json) (outcome : Outcome)
    (h : read now clause = .ok outcome) (hsolid : IsSolid outcome.met) :
    hasData clause = true := by
  cases clause with
  | null =>
      obtain rfl : unrestricted = outcome := by simpa [read] using h
      exact absurd hsolid not_isSolid_unrestricted
  | object fields =>
      rw [read] at h
      obtain ⟨part, hpart, hmet⟩ := isSolid_of_conjoin h hsolid
      exact hasData_of_readLeaves now fields part hpart hmet
  | array items =>
      rw [read] at h
      obtain ⟨part, hpart, hmet⟩ := isSolid_of_conjoin h hsolid
      exact hasData_of_readAll now items part hpart hmet
  | bool b => rfl
  | number n => rfl
  | string t => simp [read, noClause] at h

theorem hasData_of_readAll (now : Calendar.Instant) (items : List Json) (outcome : Outcome)
    (h : Except.ok outcome ∈ readAll now items) (hsolid : IsSolid outcome.met) :
    itemsHaveData items = true := by
  cases items with
  | nil => simp [readAll] at h
  | cons item rest =>
      rw [readAll, List.mem_cons] at h
      rw [itemsHaveData, Bool.or_eq_true]
      rcases h with hitem | hrest
      · exact Or.inl (hasData_of_read now item outcome hitem.symm hsolid)
      · exact Or.inr (hasData_of_readAll now rest outcome hrest hsolid)

theorem hasData_of_readLeaves (now : Calendar.Instant) (fields : List (String × Json))
    (outcome : Outcome) (h : Except.ok outcome ∈ readLeaves now fields)
    (hsolid : IsSolid outcome.met) : fieldsHaveData fields = true := by
  cases fields with
  | nil => simp [readLeaves] at h
  | cons field rest =>
      obtain ⟨kind, body⟩ := field
      rw [readLeaves, List.mem_cons] at h
      rw [fieldsHaveData, Bool.or_eq_true]
      rcases h with hleaf | hrest
      · obtain ⟨hkind, hbody⟩ := hasData_of_readLeaf now kind body outcome hleaf.symm hsolid
        exact Or.inl (by simp [hkind, hbody])
      · exact Or.inr (hasData_of_readLeaves now rest outcome hrest hsolid)

theorem hasData_of_readLeaf (now : Calendar.Instant) (kind : String) (body : Json)
    (outcome : Outcome) (h : readLeaf now kind body = .ok outcome)
    (hsolid : IsSolid outcome.met) : kind ≠ "match_all" ∧ hasData body = true := by
  have hscalar (hread : readScalarLeaf now kind body = .ok outcome) :
      kind ≠ "match_all" ∧ hasData body = true :=
    hasData_of_leafOf (leafOf_of_readScalarLeaf hread) hsolid
  cases body with
  | object fields =>
      rw [readLeaf] at h
      split at h
      · rename_i hkind
        obtain ⟨entry, hentry, hname, part, hpart, hmet⟩ := isSolid_of_block h hsolid
        refine ⟨by rw [hkind]; decide, ?_⟩
        exact hasData_of_readOccurrences now fields entry hentry hname part hpart hmet
      · exact hasData_of_leafOf h hsolid
  | null | bool _ | number _ | string _ | array _ => exact hscalar (by rwa [readLeaf] at h)

theorem hasData_of_readOccurrences (now : Calendar.Instant) (fields : List (String × Json))
    (entry : String × List Result) (hentry : entry ∈ readOccurrences now fields)
    (hname : entry.1 ≠ "match_all") (outcome : Outcome) (h : Except.ok outcome ∈ entry.2)
    (hsolid : IsSolid outcome.met) : fieldsHaveData fields = true := by
  cases fields with
  | nil => simp [readOccurrences] at hentry
  | cons field rest =>
      obtain ⟨name, body⟩ := field
      have hhere (hbody : hasData body = true) (heq : name = entry.1) :
          fieldsHaveData ((name, body) :: rest) = true := by
        rw [fieldsHaveData, Bool.or_eq_true]
        exact Or.inl (by simp [heq, hname, hbody])
      have hlater (hmem : entry ∈ readOccurrences now rest) :
          fieldsHaveData ((name, body) :: rest) = true := by
        rw [fieldsHaveData, Bool.or_eq_true]
        exact Or.inr (hasData_of_readOccurrences now rest entry hmem hname outcome h hsolid)
      cases body with
      | array items =>
          rw [readOccurrences, List.mem_cons] at hentry
          rcases hentry with rfl | hmem
          · exact hhere (hasData_of_readAll now items outcome h hsolid) rfl
          · exact hlater hmem
      | object inner =>
          rw [readOccurrences, List.mem_cons] at hentry
          rcases hentry with rfl | hmem
          · obtain ⟨part, hpart, hmet⟩ :=
              isSolid_of_conjoin (List.mem_singleton.mp h).symm hsolid
            exact hhere (hasData_of_readLeaves now inner part hpart hmet) rfl
          · exact hlater hmem
      | null | bool _ | number _ | string _ =>
          rw [readOccurrences, List.mem_cons] at hentry
          rcases hentry with rfl | hmem
          · simp [noClause] at h
          · exact hlater hmem

end

end Clause
end Rollup
