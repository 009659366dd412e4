/-
# How clauses are read

A list of clauses is read when every one of them is. The conjunction of clauses and the boolean
block then have the conditions and the atoms of their parts, and every leaf has one comparison,
or the comparisons of its bounds.
-/

import Rollup.Filter.Clause

namespace Rollup.Clause

/-- Clauses that are read one after the other were all read. -/
theorem eq_of_sequence {results : List Result} {outcomes : List Outcome}
    (h : sequence results = .ok outcomes) : results = outcomes.map .ok := by
  induction results generalizing outcomes with
  | nil =>
      obtain rfl : [] = outcomes := by simpa [sequence] using h
      rfl
  | cons result rest ih =>
      cases result with
      | error e => simp [sequence, bind, Except.bind] at h
      | ok outcome =>
          cases hrest : sequence rest with
          | error e => simp [sequence, hrest, bind, Except.bind] at h
          | ok others =>
              simp only [sequence, hrest, bind, Except.bind, pure, Except.pure,
                Except.ok.injEq] at h
              rw [← h, List.map_cons, ih hrest]

@[simp] theorem sequence_map_ok (outcomes : List Outcome) :
    sequence (outcomes.map .ok) = .ok outcomes := by
  induction outcomes with
  | nil => rfl
  | cons outcome rest ih => simp [sequence, ih, bind, Except.bind, pure, Except.pure]

/-- A conjunction that is read is the one of clauses that were read. -/
theorem conjoin_spec {results : List Result} {outcome : Outcome}
    (h : conjoin results = .ok outcome) :
    ∃ outcomes, results = outcomes.map .ok ∧
      outcome = ⟨Condition.conjunction (conditions outcomes), metIn outcomes⟩ := by
  cases hsequence : sequence results with
  | error e => simp [conjoin, hsequence, bind, Except.bind] at h
  | ok outcomes =>
      simp only [conjoin, hsequence, bind, Except.bind, pure, Except.pure, Except.ok.injEq] at h
      exact ⟨outcomes, eq_of_sequence hsequence, h.symm⟩

/-- The clauses of a boolean block under one name. -/
def under (occurrences : List (String × List Result)) (name : String) : List Result :=
  (occurrences.lookup name).getD []

/-- What is listed under a name stands in the first entry of that name. -/
theorem getD_lookup_cons {α : Type} (key : String) (items : List α)
    (rest : List (String × List α)) (name : String) :
    (((key, items) :: rest).lookup name).getD [] =
      if name = key then items else (rest.lookup name).getD [] := by
  by_cases hkey : name = key
  · simp [hkey]
  · have hbeq : (name == key) = false := by simpa using hkey
    simp [List.lookup_cons, hbeq, hkey]

/-- What stands under a name of a block is the result of a clause of an entry of that name. -/
theorem exists_of_mem_under {occurrences : List (String × List Result)} {name : String}
    {result : Result} (h : result ∈ under occurrences name) :
    ∃ results, (name, results) ∈ occurrences ∧ result ∈ results := by
  unfold under at h
  cases hlookup : occurrences.lookup name with
  | none => simp [hlookup] at h
  | some results =>
      obtain ⟨before, after, hoccurrences, -⟩ := List.lookup_eq_some_iff.mp hlookup
      refine ⟨results, by rw [hoccurrences]; simp, ?_⟩
      rwa [hlookup, Option.getD_some] at h

/-- The conditions of which any suffices when a block asks for at least one. -/
def chosen (fields : Fields) (must filter optional : List Outcome) : List Condition :=
  if 0 < minimumOptional fields (conditions must ++ conditions filter) then
    (Condition.disjunction (conditions optional)).toList
  else []

/-- What a boolean block is read into: all its clauses were read. -/
theorem block_spec {fields : Fields} {occurrences : List (String × List Result)}
    {outcome : Outcome} (h : block fields occurrences = .ok outcome) :
    ∃ must filter optional forbidden,
      under occurrences "must" = must.map .ok ∧ under occurrences "filter" = filter.map .ok ∧
      under occurrences "should" = optional.map .ok ∧
      under occurrences "must_not" = forbidden.map .ok ∧
      outcome = ⟨Condition.conjunction
          (conditions must ++ conditions filter ++ chosen fields must filter optional ++
            (conditions forbidden).map Condition.not),
        metIn (must ++ filter ++ optional ++ forbidden)⟩ := by
  unfold block at h
  change (do
    let must ← sequence (under occurrences "must")
    let filter ← sequence (under occurrences "filter")
    let optional ← sequence (under occurrences "should")
    let forbidden ← sequence (under occurrences "must_not")
    pure (Outcome.mk (Condition.conjunction
          (conditions must ++ conditions filter ++ chosen fields must filter optional ++
            (conditions forbidden).map Condition.not))
        (metIn (must ++ filter ++ optional ++ forbidden))) : Result) = .ok outcome at h
  cases hmust : sequence (under occurrences "must") with
  | error e => simp [hmust, bind, Except.bind] at h
  | ok must =>
      cases hfilter : sequence (under occurrences "filter") with
      | error e => simp [hmust, hfilter, bind, Except.bind] at h
      | ok filter =>
          cases hoptional : sequence (under occurrences "should") with
          | error e => simp [hmust, hfilter, hoptional, bind, Except.bind] at h
          | ok optional =>
              cases hforbidden : sequence (under occurrences "must_not") with
              | error e =>
                  simp [hmust, hfilter, hoptional, hforbidden, bind, Except.bind] at h
              | ok forbidden =>
                  simp only [hmust, hfilter, hoptional, hforbidden, bind, Except.bind, pure,
                    Except.pure, Except.ok.injEq] at h
                  exact ⟨must, filter, optional, forbidden, eq_of_sequence hmust,
                    eq_of_sequence hfilter, eq_of_sequence hoptional, eq_of_sequence hforbidden,
                    h.symm⟩

/-- The field of a leaf is one of the fields of its body. -/
theorem singleField_spec {kind field : String} {body value : Json}
    (h : singleField kind body = .ok (field, value)) :
    ∃ fields, body = .object fields ∧ (field, value) ∈ fields := by
  unfold singleField at h
  split at h
  · rename_i found hfound
    obtain rfl : found = (field, value) := by simpa using h
    cases body with
    | object fields => exact ⟨fields, rfl, List.mem_of_find?_eq_some hfound⟩
    | null => simp [Json.object?] at hfound
    | bool b => simp [Json.object?] at hfound
    | number n => simp [Json.object?] at hfound
    | string t => simp [Json.object?] at hfound
    | array items => simp [Json.object?] at hfound
  · simp at h

/-- An equality compares the field with a scalar, which may stand inside an object. -/
theorem equality_spec {kind : String} {body : Json} {outcome : Outcome}
    (h : equality kind body = .ok outcome) :
    ∃ field value literal, singleField kind body = .ok (field, value) ∧
      outcome = single (.equals field literal) ∧
      (Statement.Literal.ofJson? value = some literal ∨
        ∃ inner scalar name, value = .object inner ∧ Fields.get? inner name = some scalar ∧
          (name = "value" ∨ name = "query") ∧
          Statement.Literal.ofJson? scalar = some literal) := by
  unfold equality at h
  cases hfield : singleField kind body with
  | error e => simp [hfield, bind, Except.bind] at h
  | ok pair =>
      obtain ⟨field, value⟩ := pair
      simp only [hfield, bind, Except.bind] at h
      split at h
      · rename_i inner
        split at h
        · rename_i scalar hinner
          cases hliteral : Statement.Literal.ofJson? scalar with
          | none => simp [hliteral] at h
          | some literal =>
              refine ⟨field, .object inner, literal, rfl, by simpa [hliteral] using h.symm,
                Or.inr ⟨inner, scalar, ?_⟩⟩
              rcases Option.or_eq_some_iff.mp hinner with hvalue | ⟨-, hquery⟩
              · exact ⟨"value", rfl, hvalue, Or.inl rfl, hliteral⟩
              · exact ⟨"query", rfl, hquery, Or.inr rfl, hliteral⟩
        · simp at h
      · cases hliteral : Statement.Literal.ofJson? value with
        | none => simp [hliteral] at h
        | some literal =>
            exact ⟨field, value, literal, rfl, by simpa [hliteral] using h.symm,
              Or.inl hliteral⟩

/-- A membership compares the field with a list of scalars. -/
theorem membership_spec {body : Json} {outcome : Outcome} (h : membership body = .ok outcome) :
    ∃ field items literals, singleField "terms" body = .ok (field, .array items) ∧
      items.mapM Statement.Literal.ofJson? = some literals ∧
      outcome = single (.isIn field literals) := by
  unfold membership at h
  cases hfield : singleField "terms" body with
  | error e => simp [hfield, bind, Except.bind] at h
  | ok pair =>
      obtain ⟨field, value⟩ := pair
      simp only [hfield, bind, Except.bind] at h
      split at h
      · simp at h
      · rename_i items hnonempty
        split at h
        · rename_i literals hliterals
          exact ⟨field, items, literals, rfl, hliterals, (Except.ok.inj h).symm⟩
        · simp at h
      · simp at h

/-- Every result of steps over a list is the result of one step. -/
theorem exists_of_mem_mapM {α β ε : Type} {f : α → Except ε β} {items : List α}
    {results : List β} (h : items.mapM f = .ok results) {b : β} (hb : b ∈ results) :
    ∃ a ∈ items, f a = .ok b := by
  induction items generalizing results with
  | nil =>
      obtain rfl : [] = results := by simpa [pure, Except.pure] using h
      simp at hb
  | cons item rest ih =>
      rw [List.mapM_cons] at h
      cases hitem : f item with
      | error e => simp [hitem, bind, Except.bind] at h
      | ok result =>
          cases hrest : rest.mapM f with
          | error e => simp [hitem, hrest, bind, Except.bind] at h
          | ok others =>
              simp only [hitem, hrest, bind, Except.bind, pure, Except.pure,
                Except.ok.injEq] at h
              subst h
              rcases List.mem_cons.mp hb with rfl | hlater
              · exact ⟨item, by simp, hitem⟩
              · obtain ⟨a, ha, heq⟩ := ih hrest hlater
                exact ⟨a, by simp [ha], heq⟩

/-- A range compares the field with each of the bounds that are there. -/
theorem range_spec {now : Calendar.Instant} {body : Json} {outcome : Outcome}
    (h : range now body = .ok outcome) :
    ∃ field bounds, singleField "range" body = .ok (field, .object bounds) ∧
      (∃ condition, Condition.conjunction (outcome.met.map Condition.atom) = some condition ∧
        outcome.condition = some condition) ∧
      ∀ a ∈ outcome.met, ∃ name comparison value literal,
        (name, comparison) ∈ boundNames ∧ (Json.object bounds).present? name = some value ∧
        boundLiteral now ((Json.object bounds).stringField? "format") value = .ok literal ∧
        a = .compares field comparison literal := by
  unfold range at h
  cases hfield : singleField "range" body with
  | error e => simp [hfield, bind, Except.bind] at h
  | ok pair =>
      obtain ⟨field, value⟩ := pair
      simp only [hfield, bind, Except.bind] at h
      split at h
      · rename_i bounds
        split at h
        · simp at h
        · rename_i atoms hatoms
          split at h
          · rename_i condition hcondition
            obtain rfl := Except.ok.inj h
            refine ⟨field, bounds, rfl, ⟨condition, hcondition, rfl⟩, ?_⟩
            intro a ha
            obtain ⟨⟨comparison, value⟩, hpresent, hstep⟩ := exists_of_mem_mapM hatoms ha
            simp only [List.mem_filterMap, Option.map_eq_some_iff, Prod.mk.injEq] at hpresent
            obtain ⟨⟨name, other⟩, hname, found, hfound, rfl, rfl⟩ := hpresent
            cases hliteral :
                boundLiteral now ((Json.object bounds).stringField? "format") found with
            | error e => simp [hliteral] at hstep
            | ok literal =>
                simp only [hliteral, pure, Except.pure, Except.ok.injEq] at hstep
                exact ⟨name, other, found, literal, hname, hfound, hliteral, hstep.symm⟩
          · simp at h
      · simp at h

/-- A test whether a field is set. -/
theorem presence_spec {kind : String} {body : Json} {outcome : Outcome}
    (h : presence kind body = .ok outcome) :
    ∃ field, body.stringField? "field" = some field ∧ outcome = single (.isPresent field) := by
  unfold presence at h
  split at h
  · rename_i field hfield
    exact ⟨field, hfield, (Except.ok.inj h).symm⟩
  · simp at h

/-- A search for a text other than nothing and a lone star, or no restriction. -/
theorem fullText_spec {kind : String} {body : Json} {outcome : Outcome}
    (h : fullText kind body = .ok outcome) :
    ∃ query, body.stringField? "query" = some query ∧
      (outcome = unrestricted ∨
        Text.trimmed query ≠ "" ∧ outcome = single (.matchesText (Text.trimmed query))) := by
  unfold fullText at h
  split at h
  · rename_i query hquery
    refine ⟨query, hquery, ?_⟩
    dsimp only at h
    split at h
    · exact Or.inl (Except.ok.inj h).symm
    · rename_i hsome
      exact Or.inr ⟨fun hempty => hsome (Or.inl hempty), (Except.ok.inj h).symm⟩
  · simp at h

/-- A leaf whose body is no object is read if its kind is one of a leaf. -/
theorem leafOf_of_readScalarLeaf {now : Calendar.Instant} {kind : String} {body : Json}
    {outcome : Outcome} (h : readScalarLeaf now kind body = .ok outcome) :
    leafOf now kind body = .ok outcome := by
  unfold readScalarLeaf at h
  split at h
  · simp at h
  · exact h

/-- A clause is compiled to the condition of what is read, with the atoms that were met. -/
theorem exists_read_of_compile {now : Calendar.Instant} {clause : Json} {filter : Option Filter}
    (h : compile now clause = .ok filter) :
    ∃ outcome, read now clause = .ok outcome ∧
      filter = outcome.condition.map fun condition => ⟨condition, outcome.met⟩ := by
  cases hread : read now clause with
  | error e => simp [compile, hread, bind, Except.bind] at h
  | ok outcome =>
      simp only [compile, hread, bind, Except.bind, pure, Except.pure, Except.ok.injEq] at h
      exact ⟨outcome, rfl, h.symm⟩

end Rollup.Clause
