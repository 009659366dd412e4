/-
# The filters of a request

Every leg of a filter aggregation and the query have a filter that was read from a value of the
request. So when the numbers of a request are ones that a text can say, the condition of every
filter of its forest is joined from atoms that can be written and that were met.
-/

import Rollup.Proofs.Filter.Written
import Rollup.Proofs.Forest.Bodies

namespace Rollup

namespace Aggregation

/-- The filter of a leg and of the query. -/
def filter? : Aggregation → Option Filter
  | leg l => l.filter?
  | query q => q.filter
  | _ => none

/-- Whether the condition of a filter is joined from atoms that were met. -/
def IsJoined (a : Aggregation) : Prop :=
  ∀ f ∈ a.filter?, f.condition.IsJoined (Clause.IsMetIn f.met)

theorem isJoined_legOf {now : Calendar.Instant} {shape : LegShape} {index : Nat}
    {labels : List String} {clause : Json} (hclause : clause.isFinite = true) :
    (legOf now shape index labels clause).IsJoined := by
  intro f hf
  unfold legOf filter? Leg.filter? at hf
  cases hcompile : Clause.compile now clause with
  | error e =>
      rw [hcompile] at hf
      cases hf
  | ok filter =>
      rw [hcompile] at hf
      obtain rfl : filter = some f := hf
      exact Clause.isJoined_of_compile hcompile hclause

theorem isJoined_queryOf {now : Calendar.Instant} {clause : Json} {a : Aggregation}
    (h : queryOf now clause = .ok a) (hclause : clause.isFinite = true) : a.IsJoined := by
  unfold queryOf at h
  cases hcompile : Clause.compile now clause with
  | error e => simp [hcompile] at h
  | ok filter =>
      rw [hcompile] at h
      obtain rfl := Except.ok.inj h
      intro f hf
      obtain rfl : filter = some f := hf
      exact Clause.isJoined_of_compile hcompile hclause

theorem isJoined_ofKind {now : Calendar.Instant} {name kind : String} {body : Json}
    {a : Aggregation} (h : ofKind now name kind body = .ok a) (hbody : body.isFinite = true) :
    a.IsJoined := by
  have hmap {α : Type} {read : Except RequestError α} {f : α → Aggregation}
      (hread : read.map f = .ok a) (hfilter : ∀ x, (f x).filter? = none) : a.IsJoined := by
    obtain ⟨x, -, rfl⟩ := exists_ok_of_map hread
    intro found hfound
    rw [hfilter x] at hfound
    cases hfound
  unfold ofKind at h
  split_ifs at h
  · exact hmap h fun _ => rfl
  · exact hmap h fun _ => rfl
  · exact hmap h fun _ => rfl
  · exact hmap h fun _ => rfl
  · exact hmap h fun _ => rfl
  · exact isJoined_queryOf h hbody
  · split at h
    · exact hmap h fun _ => rfl
    · obtain rfl := Except.ok.inj h
      exact isJoined_legOf hbody

end Aggregation

theorem Json.isInherited_isFinite : IsInherited fun json => json.isFinite = true :=
  fun _ h _ hfield => isFinite_of_mem h hfield

namespace Request

/-- The legs of a filter aggregation are read from values of its body. -/
theorem isFinite_of_mem_legsOfJson {name : String} {body : Json} {shape : LegShape}
    {legs : List (String × Json)} (h : legsOfJson name body = .ok (shape, legs))
    (hbody : body.isFinite = true) {entry : String × Json} (hentry : entry ∈ legs) :
    entry.2.isFinite = true := by
  obtain ⟨-, ⟨-, hfield⟩ | ⟨-, items, hfield, rfl⟩⟩ := legsOfJson_cases h
  · exact Json.isFinite_of_mem (Json.isInherited_isFinite.field? hbody hfield) hentry
  · have hfinite := Json.isInherited_isFinite.field? hbody hfield
    rw [Json.isFinite, Json.itemsAreFinite_iff] at hfinite
    obtain ⟨⟨clause, i⟩, hmem, rfl⟩ := List.mem_map.mp hentry
    exact hfinite clause (List.fst_mem_of_mem_zipIdx hmem)

theorem isJoined_of_nodesOfKind {now : Calendar.Instant} {name kind : String} {body : Json}
    {nodes : List Aggregation} (h : nodesOfKind now name kind body = .ok nodes)
    (hbody : body.isFinite = true) : ∀ a ∈ nodes, a.IsJoined := by
  intro a ha
  obtain ⟨shape, legs, hlegs, rfl⟩ | rfl | ⟨found, -, hkind, rfl⟩ := nodesOfKind_cases h
  · obtain ⟨⟨entry, i⟩, hmem, rfl⟩ := List.mem_map.mp ha
    exact Aggregation.isJoined_legOf
      (isFinite_of_mem_legsOfJson hlegs hbody (List.fst_mem_of_mem_zipIdx hmem))
  · obtain rfl := List.mem_singleton.mp ha
    exact Aggregation.isJoined_legOf hbody
  · obtain rfl := List.mem_singleton.mp ha
    exact Aggregation.isJoined_ofKind hkind hbody

end Request

/-- The filters of a forest that is read are joined. -/
theorem Forest.isJoined_of_ofJson {now : Calendar.Instant} {json : Json} {forest : Forest}
    (h : ofJson now json = .ok forest) (hjson : json.isFinite = true) :
    ∀ n ∈ forest, n.aggregation.IsJoined :=
  Request.forall_of_ofJson h hjson Json.isInherited_isFinite
    (fun _ _ _ _ hnodes hbody => Request.isJoined_of_nodesOfKind hnodes hbody)
    fun _ _ hquery hclause => Aggregation.isJoined_queryOf hquery hclause

end Rollup
