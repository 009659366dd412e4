/-
# Fields that are set one by one

A field that is set again keeps its place and takes the new value; one that is new comes last. So
every name is there once, with the value that was set last, and nothing is lost just when no name is
set twice.
-/

import Mathlib.Data.List.Nodup
import Mathlib.Data.List.Perm.Subperm
import Rollup.Json.Basic

namespace Rollup

/-- Where every name stands once, an entry is what is found under its name. -/
theorem lookup_eq_of_mem {α : Type} {entries : List (String × α)}
    (h : (entries.map Prod.fst).Nodup) {entry : String × α} (hentry : entry ∈ entries) :
    entries.lookup entry.1 = some entry.2 := by
  induction entries with
  | nil => cases hentry
  | cons first rest ih =>
      rw [List.map_cons, List.nodup_cons] at h
      rcases List.mem_cons.mp hentry with rfl | hrest
      · exact List.lookup_cons_self
      · have hne : entry.1 ≠ first.1 := fun heq => h.1 (heq ▸ List.mem_map_of_mem hrest)
        rw [List.lookup_cons, beq_false_of_ne hne]
        exact ih h.2 hrest

namespace Fields

/-- A field that is set replaces the one of its name. -/
theorem mem_insert {fields : Fields} {name : String} {value : Json}
    {entry : String × Json} (h : entry ∈ fields.insert name value) :
    entry ∈ fields ∨ entry = (name, value) := by
  induction fields with
  | nil => exact Or.inr (List.mem_singleton.mp h)
  | cons first rest ih =>
      obtain ⟨key, old⟩ := first
      rw [insert] at h
      split at h
      · rename_i hkey
        rcases List.mem_cons.mp h with rfl | hrest
        · exact Or.inr (by rw [hkey])
        · exact Or.inl (List.mem_cons_of_mem _ hrest)
      · rcases List.mem_cons.mp h with rfl | hrest
        · exact Or.inl List.mem_cons_self
        · exact (ih hrest).imp_left (List.mem_cons_of_mem _)

/-- A field that is set is there. -/
theorem isSome_get?_insert (fields : Fields) (name other : String) (value : Json) :
    ((fields.insert name value).get? other).isSome = true ↔
      other = name ∨ (fields.get? other).isSome = true := by
  by_cases h : other = name
  · subst h
    simp [Fields.get?_insert_self]
  · simp [Fields.get?_insert_of_ne fields h value, h]

theorem isSome_get?_insertAll (fields : Fields) (entries : List (String × Json))
    (name : String) : ((fields.insertAll entries).get? name).isSome = true ↔
      (fields.get? name).isSome = true ∨ name ∈ entries.map Prod.fst := by
  unfold Fields.insertAll
  induction entries generalizing fields with
  | nil => simp
  | cons entry rest ih =>
      rw [List.foldl_cons, ih, Fields.isSome_get?_insert, List.map_cons, List.mem_cons]
      exact ⟨by rintro ((h | h) | h) <;> simp [h], by rintro (h | h | h) <;> simp [h]⟩

/-- A field keeps its place when it is set again, and comes last when it is new. -/
theorem map_fst_insert (fields : Fields) (name : String) (value : Json) :
    (fields.insert name value).map Prod.fst =
      if name ∈ fields.map Prod.fst then fields.map Prod.fst
      else fields.map Prod.fst ++ [name] := by
  induction fields with
  | nil => rfl
  | cons field rest ih =>
      obtain ⟨key, old⟩ := field
      rw [insert]
      by_cases hkey : key = name
      · simp [hkey]
      · rw [if_neg hkey, List.map_cons, ih]
        have hne : ¬ name = key := fun heq => hkey heq.symm
        by_cases hmem : name ∈ rest.map Prod.fst <;> simp [hmem, hne]

theorem insert_of_not_mem {fields : Fields} {name : String} (h : name ∉ fields.map Prod.fst)
    (value : Json) : fields.insert name value = fields ++ [(name, value)] := by
  induction fields with
  | nil => rfl
  | cons field rest ih =>
      rw [List.map_cons, List.mem_cons, not_or] at h
      rw [insert, if_neg fun heq => h.1 heq.symm, ih h.2, List.cons_append]

/-- However often names are set, each is there once. -/
theorem nodup_insertAll {fields : Fields} (h : (fields.map Prod.fst).Nodup)
    (entries : List (String × Json)) : ((fields.insertAll entries).map Prod.fst).Nodup := by
  unfold insertAll
  induction entries generalizing fields with
  | nil => exact h
  | cons entry rest ih =>
      refine ih ?_
      rw [map_fst_insert]
      split
      · exact h
      · rename_i hnew
        rw [← List.concat_eq_append]
        exact h.concat hnew

theorem insertAll_eq_append {fields entries : Fields}
    (h : ((fields ++ entries).map Prod.fst).Nodup) :
    fields.insertAll entries = fields ++ entries := by
  unfold insertAll
  induction entries generalizing fields with
  | nil => exact (List.append_nil fields).symm
  | cons entry rest ih =>
      have hsplit : fields ++ entry :: rest = fields ++ [entry] ++ rest := by simp
      rw [hsplit] at h ⊢
      have hnew : entry.1 ∉ fields.map Prod.fst := by
        rw [List.map_append, List.map_append, List.nodup_append'] at h
        exact fun hmem => (List.nodup_append'.mp h.1).2.2 hmem (by simp)
      rw [List.foldl_cons, insert_of_not_mem hnew]
      exact ih h

/-- Entries with different names make the fields that they are. -/
theorem ofEntries_eq_self {entries : List (String × Json)} (h : (entries.map Prod.fst).Nodup) :
    ofEntries entries = entries :=
  insertAll_eq_append h

/-- There are as many fields as entries just when no name is set twice. -/
theorem length_ofEntries_iff (entries : List (String × Json)) :
    (ofEntries entries).length = entries.length ↔ (entries.map Prod.fst).Nodup := by
  refine ⟨fun hlength => ?_, fun h => by rw [ofEntries_eq_self h]⟩
  have hnone : (([] : Fields).map Prod.fst).Nodup := List.nodup_nil
  have hnodup : ((ofEntries entries).map Prod.fst).Nodup := nodup_insertAll hnone entries
  have hsubset : (ofEntries entries).map Prod.fst ⊆ entries.map Prod.fst := by
    intro name hname
    obtain ⟨field, hfield, rfl⟩ := List.mem_map.mp hname
    have hsome : ((ofEntries entries).get? field.1).isSome = true := by
      rw [get?, lookup_eq_of_mem hnodup hfield]
      rfl
    simpa [get?] using (isSome_get?_insertAll [] entries field.1).mp hsome
  have hperm := (hnodup.subperm hsubset).perm_of_length_le (by simp [hlength])
  exact hperm.nodup_iff.mp hnodup

end Fields

end Rollup
