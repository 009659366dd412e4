/-
# The terms of a statement

The conditions of a statement are written with conjunctions between them, and what they are the
conjunction of are the terms of the statement. If nothing else of a statement searches, all of its
searches are terms exactly if none stands below a disjunction or a negation.
-/

import Rollup.Proofs.Json.Fields
import Rollup.Proofs.Statement.Expressions

namespace Rollup

namespace Statement

/-- A piece that starts with a blank may stand behind others. -/
theorem isJoint_of_blank {piece : String} {token : Token} {rest : List Token} {more : List Char}
    (hlead : IsLead piece (token :: rest)) (hblank : piece.toList = ' ' :: more)
    (htoken : token ≠ .opening) : IsJoint piece (token :: rest) :=
  ⟨hlead, hblank ▸ isApart_cons rfl (by decide), _, _, rfl, htoken⟩

/-! ## Names, options and items -/

theorem hasSearches_word {name : String} {c : Char} {more : List Char}
    (hname : name.toList = c :: more) (hstart : startsName c = true)
    (hmore : ∀ d ∈ more, continuesName d = true ∨ d = '.') : HasSearches name 0 := by
  refine ⟨_, hname ▸ isOpen_word hstart hmore, ?_⟩
  rw [searchCount, searchCount]
  simp

theorem hasSearches_of_isPlainName {name : String} (h : isPlainName name.toList = true) :
    HasSearches name 0 := by
  obtain ⟨c, more, hname, hstart, hmore⟩ := eq_cons_of_isPlainName h
  exact hasSearches_word hname hstart hmore

theorem hasSearches_optionText {value : Json} (h : value.isFinite = true) :
    HasSearches (optionText value) 0 := by
  unfold optionText
  split
  · rename_i literal hliteral
    refine ⟨_, Literal.isOpen_render (Literal.isFinite_of_ofJson? hliteral h), ?_⟩
    exact searchCount_cons literal.isSearch_token
  · exact ⟨_, (isClosed_quoteText _).isOpen, rfl⟩

theorem mem_options_foldl {options : Fields} {s : Statement} {option : String × Json}
    (h : option ∈ (options.foldl (fun s option => s.setOption option.1 option.2) s).options) :
    option ∈ s.options ∨ option ∈ options := by
  induction options generalizing s with
  | nil => exact Or.inl h
  | cons first rest ih =>
      rcases ih h with hbefore | hlater
      · rcases Fields.mem_insert hbefore with hold | rfl
        · exact Or.inl hold
        · exact Or.inr List.mem_cons_self
      · exact Or.inr (List.mem_cons_of_mem first hlater)

/-- The select list is what is selected and the count. -/
theorem mem_selectList {s : Statement} {item : SelectItem} (h : item ∈ s.selectList) :
    item ∈ s.items ∨ item = ⟨countExpression, some s.countColumn⟩ := by
  unfold selectList at h
  split at h
  · exact Or.inl h
  · simpa using h

theorem hasSearches_itemText {item : SelectItem} (hexpression : HasSearches item.expression 0)
    (hname : ∀ name ∈ item.name, HasSearches name 0) : HasSearches (SelectItem.text item) 0 := by
  unfold SelectItem.text
  split
  · rename_i name heq
    have has : IsJoint " AS " [.word "AS"] :=
      isJoint_of_blank ⟨fun _ _ => rfl, by decide⟩ rfl (by decide)
    exact hexpression.join has (hname name heq)
  · exact hexpression

theorem hasSearches_order {order : String × Direction} (h : HasSearches order.1 0) :
    HasSearches (order.1 ++ " " ++ order.2.keyword) 0 := by
  have hdirection : IsCalm (" " ++ order.2.keyword) := by cases order.2 <;> decide
  rw [String.append_assoc]
  refine h.calm hdirection ?_
  rw [String.toList_append]
  exact isApart_cons rfl (by decide)

theorem hasSearches_setting {name value : String} (hname : HasSearches name 0)
    (hvalue : HasSearches value 0) : HasSearches (name ++ "=" ++ value) 0 := by
  have hequals : IsJoint "=" [.equals] :=
    ⟨⟨fun _ _ => rfl, by decide⟩, isApart_cons rfl (by decide), _, _, rfl, by decide⟩
  exact hname.join hequals hvalue

/-! ## The text of a statement -/

/-- What is selected, grouped by, ordered by and set does not search. -/
structure IsQuiet (s : Statement) : Prop where
  items : ∀ item ∈ s.selectList, HasSearches (SelectItem.text item) 0
  conditions : ∀ condition ∈ s.conditions, ∃ n, HasSearches condition n
  groups : ∀ group ∈ s.groups, HasSearches group 0
  orders : ∀ order ∈ s.orders, HasSearches order.1 0
  options : ∀ option ∈ s.options,
    HasSearches option.1 0 ∧ HasSearches (optionText option.2) 0

/-- What the rows are restricted by: the conditions with conjunctions between them, read again. -/
def terms (s : Statement) : List Condition :=
  match Condition.parse (tokens (String.intercalate " AND " s.conditions)) with
  | some c => c.conjuncts
  | none => []

/-- Whether every search in the text of a statement is a term of the WHERE clause. -/
def SearchesOnTop (s : Statement) : Prop :=
  searchCount (tokens s.text) = s.terms.countP Condition.isSearch

instance (s : Statement) : Decidable s.SearchesOnTop :=
  inferInstanceAs (Decidable (_ = _))

/-- Only conditions search. -/
theorem IsQuiet.searchCount_text {s : Statement} (h : s.IsQuiet) :
    searchCount (tokens s.text) =
      (s.conditions.map fun condition => searchCount (tokens condition)).sum := by
  have hcomma : IsJoint ", " [.comma] :=
    ⟨⟨fun _ _ => rfl, by decide⟩, isApart_cons rfl (by decide), _, _, rfl, by decide⟩
  have hand : IsJoint " AND " [.keyword .and] :=
    isJoint_of_blank ⟨fun _ _ => rfl, by decide⟩ rfl (by decide)
  have hfrom : IsJoint " FROM " [.word "FROM"] :=
    isJoint_of_blank ⟨fun _ _ => rfl, by decide⟩ rfl (by decide)
  have hwhere : IsJoint " WHERE " [.word "WHERE"] :=
    isJoint_of_blank ⟨fun _ _ => rfl, by decide⟩ rfl (by decide)
  have hgroup : IsJoint " GROUP BY " [.word "GROUP", .word "BY"] :=
    isJoint_of_blank ⟨fun _ _ => rfl, by decide⟩ rfl (by decide)
  have horder : IsJoint " ORDER BY " [.word "ORDER", .word "BY"] :=
    isJoint_of_blank ⟨fun _ _ => rfl, by decide⟩ rfl (by decide)
  have hlimit : IsJoint " LIMIT 0," [.word "LIMIT", .number "0", .comma] :=
    isJoint_of_blank ⟨fun _ _ => rfl, by decide⟩ rfl (by decide)
  have hoption : IsJoint " OPTION " [.word "OPTION"] :=
    isJoint_of_blank ⟨fun _ _ => rfl, by decide⟩ rfl (by decide)
  have hselect : IsLead "SELECT " [.word "SELECT"] := ⟨fun _ _ => rfl, by decide⟩
  have hitems : ∀ piece ∈ s.selectList.map SelectItem.text, HasSearches piece 0 :=
    List.forall_mem_map.mpr h.items
  have hconditions (condition : String) (hcondition : condition ∈ s.conditions) :
      HasSearches condition (searchCount (tokens condition)) := by
    obtain ⟨n, hn⟩ := h.conditions condition hcondition
    rwa [hn.searchCount_tokens]
  have horders : ∀ piece ∈ s.orders.map (fun order => order.1 ++ " " ++ order.2.keyword),
      HasSearches piece 0 :=
    List.forall_mem_map.mpr fun order hmem => hasSearches_order (h.orders order hmem)
  have hoptions : ∀ piece ∈ s.options.map (fun option => option.1 ++ "=" ++ optionText option.2),
      HasSearches piece 0 :=
    List.forall_mem_map.mpr fun option hmem =>
      hasSearches_setting (h.options option hmem).1 (h.options option hmem).2
  have hnumber : HasSearches (toString rowLimit) 0 :=
    (show IsCalm (toString rowLimit) by decide).hasSearches
  have hselected := HasSearches.lead hselect (HasSearches.intercalate hcomma hitems)
  have hrestricted := (hselected.join hfrom (hasSearches_quoteName s.table)).clause hwhere hand
    hconditions
  have hordered := (hrestricted.clause hgroup hcomma h.groups).clause horder hcomma horders
  have htext := (hordered.join hlimit hnumber).clause hoption hcomma hoptions
  have hsilent (pieces : List String) : (pieces.map fun _ => 0).sum = 0 := by simp
  have hcount := htext.searchCount_tokens
  simp only [hsilent, Nat.zero_add, Nat.add_zero] at hcount
  exact hcount

/-! ## Terms -/

section Terms

variable {s : Statement} {kept : List Condition}

/-- The terms of a statement are those of its conditions. -/
theorem terms_eq (hsay : ∀ c ∈ kept, c.IsSayable)
    (hconditions : s.conditions = kept.map Condition.text) :
    s.terms = Condition.conjunctsOf kept := by
  have hand : IsClosed " AND ".toList [.keyword .and] := fun _ _ => rfl
  have hjoined := Condition.isOpen_joined hand (Atom.isApart_blank _) fun c hc =>
    Condition.isOpen_text fun a ha => ((hsay c hc).of_mem_atoms ha).1
  rw [terms, hconditions, ← Condition.texts_eq_map, hjoined.tokens_eq,
    Condition.parse_joined hsay]
  match kept with
  | [] => rfl
  | [c] => exact (List.append_nil c.conjuncts).symm
  | _ :: _ :: _ => rfl

/-- All searches of a statement are on top exactly if those of its conditions are. -/
theorem IsQuiet.searchesOnTop_iff (h : s.IsQuiet) (hsay : ∀ c ∈ kept, c.IsSayable)
    (hconditions : s.conditions = kept.map Condition.text) :
    s.SearchesOnTop ↔ ∀ c ∈ kept, c.searchesOnTop = true := by
  have hcount : searchCount (tokens s.text) = (kept.map Condition.searches).sum := by
    rw [h.searchCount_text, hconditions, List.map_map]
    refine congrArg List.sum (List.map_congr_left fun c hc => ?_)
    exact (Condition.hasSearches_text fun a ha =>
      ((hsay c hc).of_mem_atoms ha).1).searchCount_tokens
  have hterms : s.terms.countP Condition.isSearch = (kept.map Condition.topSearches).sum := by
    rw [terms_eq hsay hconditions, ← Condition.topSearches_all]
    rfl
  rw [SearchesOnTop, hcount, hterms, eq_comm,
    (Condition.sum_eq_iff fun c _ => c.topSearches_spec.1).2]
  exact forall₂_congr fun c _ => c.topSearches_spec.2

end Terms

end Statement
end Rollup
