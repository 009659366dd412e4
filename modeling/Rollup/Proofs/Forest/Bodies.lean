/-
# What the nodes of a forest are read from

The nodes of an aggregation are read from a value inside the request, and the query is. So what
passes from a JSON object to the values of its fields, and from the body of an aggregation to its
nodes, holds of all nodes when it holds of the request. When no object of a request has a key
twice, the named legs of a filter aggregation have different labels.
-/

import Rollup.Proofs.Forest.Layout
import Rollup.Proofs.Request.Spelling

namespace Rollup

/-- Whether a property passes from an object to the values of its fields. -/
def Json.IsInherited (holds : Json → Prop) : Prop :=
  ∀ fields, holds (.object fields) → ∀ field ∈ fields, holds field.2

/-- What is inherited holds of the value of any field. -/
theorem Json.IsInherited.field? {holds : Json → Prop} (h : IsInherited holds) {body value : Json}
    (hbody : holds body) {name : String} (hfield : body.field? name = some value) :
    holds value := by
  cases body with
  | object fields => exact h fields hbody (name, value) (Request.mem_of_lookup hfield)
  | null | bool _ | number _ | string _ | array _ => cases hfield

namespace Request

/-- The query of a request is read from a value of the request. -/
theorem exists_of_readQuery {now : Calendar.Instant} {fields : Fields} {a : Aggregation}
    (h : readQuery now fields = .ok (some a)) :
    ∃ clause, fields.get? "query" = some clause ∧ Aggregation.queryOf now clause = .ok a := by
  unfold readQuery at h
  split at h
  · cases h
  · cases h
  · rename_i clause hclause
    obtain ⟨found, hread, hfound⟩ := exists_ok_of_map h
    obtain rfl := Option.some.inj hfound
    exact ⟨_, hclause, hread⟩
  · cases h

/-- Every tree of a block is the tree of an entry. -/
theorem exists_entry_of_mem {now : Calendar.Instant} {fields : Fields}
    {ordered : List (String × Json)} {branches : List Branch}
    (hordered : IsInOrder (blockOf fields) ordered)
    (hbranches : List.Forall₂ (fun entry branch => Spells now entry.1 entry.2 branch) ordered
      branches) {branch : Branch} (hbranch : branch ∈ branches) :
    ∃ entry ∈ blockOf fields, Spells now entry.1 entry.2 branch := by
  obtain ⟨i, hi, rfl⟩ := List.getElem_of_mem hbranch
  have hlt : i < ordered.length := hbranches.length_eq ▸ hi
  exact ⟨ordered.get ⟨i, hlt⟩, hordered.perm.mem_iff.mp (List.get_mem ordered ⟨i, hlt⟩),
    hbranches.get hlt hi⟩

section

variable {now : Calendar.Instant} {holds : Json → Prop} {p : Aggregation → Prop}

/-- The entries of the block of an object are values inside the object. -/
theorem holds_of_mem_blockOf (hinherited : Json.IsInherited holds) {fields : Fields}
    (h : holds (.object fields)) {entry : String × Json} (hentry : entry ∈ blockOf fields) :
    holds entry.2 := by
  rcases blockOf_eq_nil_or_mem fields with hnil | ⟨block, hblock⟩
  · rw [hnil] at hentry
    cases hentry
  · exact hinherited _ (hinherited fields h _ hblock) entry hentry

/-- What passes from a body to its nodes holds of all nodes of a tree. -/
theorem everywhere_of_spells (hinherited : Json.IsInherited holds)
    (hnodes : ∀ name kind body nodes, nodesOfKind now name kind body = .ok nodes → holds body →
      ∀ a ∈ nodes, p a)
    {name : String} {json : Json} (branch : Branch) (h : Spells now name json branch)
    (hjson : holds json) : branch.Everywhere fun _ legs _ => ∀ a ∈ legs, p a := by
  match branch, h with
  | _, @Spells.node _ _ kind fields body legs ordered children hkind hlegs hordered hchildren =>
      refine .node (hnodes name kind body legs hlegs ?_) fun child hchild => ?_
      · have hmem : (kind, body) ∈ fields.filter fun field => isKindName field.1 := by
          rw [hkind]
          exact List.mem_singleton_self _
        exact hinherited fields hjson _ (List.mem_filter.mp hmem).1
      · obtain ⟨entry, hentry, hspells⟩ := exists_entry_of_mem hordered hchildren hchild
        exact everywhere_of_spells hinherited hnodes child hspells
          (holds_of_mem_blockOf hinherited hjson hentry)
termination_by sizeOf branch
decreasing_by
  have := List.sizeOf_lt_of_mem hchild
  simp only [Branch.node.sizeOf_spec]
  omega

/-- What passes from a body to its nodes, and to a query, holds of all nodes of a forest. -/
theorem forall_of_ofJson {json : Json} {forest : Forest}
    (h : Forest.ofJson now json = .ok forest) (hjson : holds json)
    (hinherited : Json.IsInherited holds)
    (hnodes : ∀ name kind body nodes, nodesOfKind now name kind body = .ok nodes → holds body →
      ∀ a ∈ nodes, p a)
    (hquery : ∀ clause a, Aggregation.queryOf now clause = .ok a → holds clause → p a) :
    ∀ n ∈ forest, p n.aggregation := by
  obtain ⟨request, hrequest, rfl⟩ := Forest.ofJson_spec h
  obtain ⟨fields, rfl, hspelled⟩ := isSpelled_of_ofJson hrequest
  intro n hn
  rw [Forest.ofRequest, List.mem_append] at hn
  rcases hn with htop | hbranch
  · obtain ⟨a, ha, rfl⟩ := List.mem_map.mp htop
    obtain ⟨clause, hclause, hread⟩ := exists_of_readQuery
      (hspelled.query.trans (congrArg Except.ok (Option.mem_toList.mp ha)))
    exact hquery clause a hread (hinherited fields hjson _ (mem_of_lookup hclause))
  · obtain ⟨ordered, hordered, hbranches⟩ := hspelled.branches
    refine Forest.forall_mem_ofBranches _ _ _ _ (fun branch hbranch => ?_) n hbranch
    obtain ⟨entry, hentry, hspells⟩ := exists_entry_of_mem hordered hbranches hbranch
    exact everywhere_of_spells hinherited hnodes branch hspells
      (holds_of_mem_blockOf hinherited hjson hentry)

end

/-! ## Labels -/

end Request

theorem Json.isInherited_hasDistinctKeys :
    IsInherited fun json => json.hasDistinctKeys = true := by
  intro fields h field hfield
  rw [hasDistinctKeys, Bool.and_eq_true] at h
  replace h := h.2
  induction fields with
  | nil => cases hfield
  | cons first rest ih =>
      rw [fieldsHaveDistinctKeys, Bool.and_eq_true] at h
      rcases List.mem_cons.mp hfield with rfl | hrest
      · exact h.1
      · exact ih hrest h.2

/-- Whether the labels of a named leg are different. -/
def Aggregation.HasDistinctLabels (a : Aggregation) : Prop :=
  ∀ l, a = .leg l → l.shape = .named → l.labels.Nodup

namespace Request

variable {now : Calendar.Instant} {name kind : String} {body : Json}

theorem hasDistinctLabels_legOf {shape : LegShape} {index : Nat} {labels : List String}
    {clause : Json} (h : shape = .named → labels.Nodup) :
    (Aggregation.legOf now shape index labels clause).HasDistinctLabels := by
  rintro l hl hshape
  obtain rfl := Aggregation.leg.inj hl
  exact h hshape

theorem hasDistinctLabels_of_ofKind {a : Aggregation} (hkind : kind ≠ "query")
    (h : Aggregation.ofKind now name kind body = .ok a) : a.HasDistinctLabels := by
  intro l hl hshape
  subst hl
  cases areNodes_ofKind hkind h with
  | single b hnodes hleg =>
      obtain rfl := List.singleton_inj.mp hnodes
      cases hleg
  | legs shape labels hsome hlabels hsingle hlegs =>
      obtain ⟨filter, hleg⟩ := hlegs 0 _ rfl
      obtain rfl := Aggregation.leg.inj hleg
      obtain ⟨label, hlabel⟩ := List.length_eq_one_iff.mp hlabels
      exact hlabel ▸ List.nodup_singleton label

/-- Named legs stand in an object, under its keys. -/
theorem nodup_of_legsOfJson {shape : LegShape} {legs : List (String × Json)}
    (h : legsOfJson name body = .ok (shape, legs)) (hbody : body.hasDistinctKeys = true)
    (hshape : shape = .named) : (legs.map Prod.fst).Nodup := by
  obtain ⟨-, ⟨-, hfield⟩ | ⟨hlist, -⟩⟩ := legsOfJson_cases h
  · have hvalue := Json.isInherited_hasDistinctKeys.field? hbody hfield
    rw [Json.hasDistinctKeys, Bool.and_eq_true, decide_eq_true_eq] at hvalue
    exact hvalue.1
  · rw [hshape] at hlist
    cases hlist

theorem hasDistinctLabels_of_nodesOfKind {nodes : List Aggregation}
    (h : nodesOfKind now name kind body = .ok nodes) (hbody : body.hasDistinctKeys = true) :
    ∀ a ∈ nodes, a.HasDistinctLabels := by
  intro a ha
  obtain ⟨shape, legs, hlegs, rfl⟩ | rfl | ⟨found, hquery, hkind, rfl⟩ := nodesOfKind_cases h
  · obtain ⟨⟨entry, i⟩, -, rfl⟩ := List.mem_map.mp ha
    exact hasDistinctLabels_legOf (nodup_of_legsOfJson hlegs hbody)
  · obtain rfl := List.mem_singleton.mp ha
    exact hasDistinctLabels_legOf fun hshape => by cases hshape
  · obtain rfl := List.mem_singleton.mp ha
    exact hasDistinctLabels_of_ofKind hquery hkind

end Request

/-- Where no object of a request has a key twice, the named legs of an aggregation have different
labels. -/
theorem Forest.hasDistinctLabels_of_ofJson {now : Calendar.Instant} {json : Json} {forest : Forest}
    (h : ofJson now json = .ok forest) (hkeys : json.hasDistinctKeys = true) :
    ∀ n ∈ forest, n.aggregation.HasDistinctLabels := by
  refine Request.forall_of_ofJson h hkeys Json.isInherited_hasDistinctKeys
    (fun _ _ _ _ hnodes hbody => Request.hasDistinctLabels_of_nodesOfKind hnodes hbody) ?_
  intro clause a hquery _ l hl
  subst hl
  unfold Aggregation.queryOf at hquery
  split at hquery <;> cases hquery

end Rollup
