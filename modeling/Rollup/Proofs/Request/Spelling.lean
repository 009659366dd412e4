/-
# The tree that a request spells out

An aggregation stands under its name, with one kind and a block of the aggregations below it. The
block has one of two names, and the second counts when both are there. In a block the names that
are no numbers come first, as they are written, and numbers follow in ascending order. A request
that is read is read into this tree.
-/

import Rollup.Proofs.Request.Branches
import Rollup.Proofs.Sorting

namespace Rollup.Request

open Branch

/-! ## The order of a block -/

/-- The number that a name is, if it is one. -/
def number? (name : String) : Option Nat := Text.readUnsigned64? name.toList

/-- The entries of a block put in order. A name that is no number comes before all numbers, numbers
ascend, and otherwise entries stay as they are written. -/
structure IsInOrder {α : Type} (entries ordered : List (String × α)) : Prop where
  perm : ordered.Perm entries
  ascending : ordered.Pairwise fun a b =>
    ∀ m, number? a.1 = some m → ∃ n, number? b.1 = some n ∧ m ≤ n
  asWritten : ∀ number,
    ordered.filter (number? ·.1 = number) = entries.filter (number? ·.1 = number)

section

variable {α β : Type}

/-- The place of an entry among the numbers. -/
private def numberOf (entry : String × α) : Nat := (number? entry.1).getD 0

/-- The entries whose names are numbers, in ascending order. -/
private def sortedNumbers (entries : List (String × α)) : List (String × α) :=
  Order.sortBy (compareOn numberOf) (entries.filter fun entry => (number? entry.1).isSome)

private theorem isSome_of_mem_sortedNumbers {entries : List (String × α)} {entry : String × α}
    (h : entry ∈ sortedNumbers entries) : number? entry.1 = some (numberOf entry) := by
  have hmem := (Order.sortBy_perm _ _).mem_iff.mp h
  obtain ⟨n, hn⟩ := Option.isSome_iff_exists.mp (List.mem_filter.mp hmem).2
  rw [numberOf, hn]
  rfl

/-- Entries under one number keep their order. -/
private theorem filter_sortedNumbers (entries : List (String × α)) (n : Nat) :
    (sortedNumbers entries).filter (number? ·.1 = some n) =
      entries.filter (number? ·.1 = some n) := by
  have htie {given entry : String × α} (hgiven : number? given.1 = some n)
      (hentry : number? entry.1 = some (numberOf entry)) :
      compareOn numberOf given entry = .eq ↔ number? entry.1 = some n := by
    rw [compareOn, Nat.compare_eq_eq, hentry, numberOf, hgiven, Option.getD_some,
      Option.some.injEq]
    exact eq_comm
  have hnumbered : (entries.filter fun entry => (number? entry.1).isSome).filter
      (number? ·.1 = some n) = entries.filter (number? ·.1 = some n) := by
    rw [List.filter_filter]
    refine List.filter_congr fun entry _ => ?_
    by_cases hentry : number? entry.1 = some n <;> simp [hentry]
  rw [← hnumbered]
  by_cases hsome : ∃ given ∈ entries, number? given.1 = some n
  · obtain ⟨given, -, hgiven⟩ := hsome
    have hties : (sortedNumbers entries).filter (compareOn numberOf given · = .eq) =
        (entries.filter fun entry => (number? entry.1).isSome).filter
          (compareOn numberOf given · = .eq) := Order.filter_sortBy_ties given _
    have hcongr (items : List (String × α))
        (hitems : ∀ entry ∈ items, number? entry.1 = some (numberOf entry)) :
        items.filter (number? ·.1 = some n) =
          items.filter (compareOn numberOf given · = .eq) :=
      List.filter_congr fun entry hentry =>
        decide_eq_decide.mpr (htie hgiven (hitems entry hentry)).symm
    rw [hcongr _ fun entry hentry => isSome_of_mem_sortedNumbers hentry, hties]
    refine (hcongr _ fun entry hentry => ?_).symm
    have hsorted : entry ∈ sortedNumbers entries := (Order.sortBy_perm _ _).mem_iff.mpr hentry
    exact isSome_of_mem_sortedNumbers hsorted
  · have hnone (items : List (String × α)) (hitems : ∀ entry ∈ items, entry ∈ entries) :
        items.filter (number? ·.1 = some n) = [] := by
      rw [List.filter_eq_nil_iff]
      intro entry hentry hn
      exact hsome ⟨entry, hitems entry hentry, by simpa using hn⟩
    rw [hnone _ fun entry hentry => (List.mem_filter.mp hentry).1]
    refine hnone _ fun entry hentry => ?_
    exact (List.mem_filter.mp ((Order.sortBy_perm _ _).mem_iff.mp hentry)).1

/-- The entries of a block: those under a name, as they are written, and then the numbers. -/
private def namedThenNumbered (entries : List (String × α)) : List (String × α) :=
  (entries.filter fun entry => (number? entry.1).isNone) ++ sortedNumbers entries

private theorem number?_eq_none_of_mem {entries : List (String × α)} {entry : String × α}
    (h : entry ∈ entries.filter fun entry => (number? entry.1).isNone) :
    number? entry.1 = none :=
  Option.isNone_iff_eq_none.mp (List.mem_filter.mp h).2

private theorem isInOrder_namedThenNumbered (entries : List (String × α)) :
    IsInOrder entries (namedThenNumbered entries) where
  perm := by
    have hsplit := List.filter_append_perm (fun entry => (number? entry.1).isNone) entries
    simp only [Option.not_isNone] at hsplit
    exact ((Order.sortBy_perm _ _).append_left _).trans hsplit
  ascending := by
    unfold namedThenNumbered
    rw [List.pairwise_append]
    refine ⟨?_, ?_, ?_⟩
    · refine List.pairwise_of_forall_mem_list fun a ha b _ m hm => ?_
      rw [number?_eq_none_of_mem ha] at hm
      cases hm
    · have hsorted : (sortedNumbers entries).Pairwise fun a b =>
          (compareOn numberOf a b).isLE = true := Order.pairwise_sortBy _
      refine hsorted.imp_of_mem ?_
      intro a b ha hb hle m hm
      refine ⟨numberOf b, isSome_of_mem_sortedNumbers hb, ?_⟩
      rw [isSome_of_mem_sortedNumbers ha, Option.some.injEq] at hm
      rw [← hm]
      exact Nat.isLE_compare.mp hle
    · intro a ha b _ m hm
      rw [number?_eq_none_of_mem ha] at hm
      cases hm
  asWritten := by
    intro number
    unfold namedThenNumbered
    rw [List.filter_append]
    cases number with
    | none =>
        have hnumbers : (sortedNumbers entries).filter (number? ·.1 = none) = [] := by
          rw [List.filter_eq_nil_iff]
          intro entry hentry
          simp [isSome_of_mem_sortedNumbers hentry]
        rw [hnumbers, List.append_nil, List.filter_filter]
        refine List.filter_congr fun entry _ => ?_
        cases number? entry.1 <;> rfl
    | some n =>
        have hnone : (entries.filter fun entry => (number? entry.1).isNone).filter
            (number? ·.1 = some n) = [] := by
          rw [List.filter_eq_nil_iff]
          intro entry hentry
          simp [number?_eq_none_of_mem hentry]
        rw [hnone, List.nil_append, filter_sortedNumbers]

/-- Entries that are read first are put in the same order. -/
private theorem orderedEntries_read (entries : List (String × α)) (read : String × α → β) :
    orderedEntries (entries.map fun entry => (entry.1, read entry)) =
      (namedThenNumbered entries).map read := by
  have hread : (sortedNumbers entries).map (fun entry => (numberOf entry, read entry)) =
      Order.sortBy (fun a b => compare a.1 b.1)
        ((entries.filter fun entry => (number? entry.1).isSome).map
          fun entry => (numberOf entry, read entry)) :=
    Order.map_sortBy fun _ _ _ _ => rfl
  have hnumbered : (entries.map fun entry => (entry.1, read entry)).filterMap
      (fun entry => (number? entry.1).map fun n => (n, entry.2)) =
      (entries.filter fun entry => (number? entry.1).isSome).map
        fun entry => (numberOf entry, read entry) := by
    rw [List.filterMap_map, ← List.filterMap_eq_map, List.filterMap_filter]
    refine List.filterMap_congr fun entry _ => ?_
    simp only [Function.comp_apply, numberOf]
    cases number? entry.1 <;> rfl
  unfold orderedEntries
  change ((entries.map fun entry => (entry.1, read entry)).filter
    fun entry => (number? entry.1).isNone).map Prod.snd ++
      (Order.sortBy (fun a b => compare a.1 b.1)
        ((entries.map fun entry => (entry.1, read entry)).filterMap
          fun entry => (number? entry.1).map fun n => (n, entry.2))).map Prod.snd = _
  rw [hnumbered, ← hread, List.filter_map, List.map_map, List.map_map, namedThenNumbered,
    List.map_append]
  rfl

/-- A block is read in order. -/
theorem exists_isInOrder (entries : List (String × α)) (read : String × α → β) :
    ∃ ordered, IsInOrder entries ordered ∧
      orderedEntries (entries.map fun entry => (entry.1, read entry)) = ordered.map read :=
  ⟨_, isInOrder_namedThenNumbered entries, orderedEntries_read entries read⟩

end

/-! ## The tree -/

/-- The entries of the block of an object. The second name counts when both are there. -/
def blockOf (fields : Fields) : List (String × Json) :=
  match fields.get? "aggregations", fields.get? "aggs" with
  | some (.object entries), _ => entries
  | _, some (.object entries) => entries
  | _, _ => []

/-- The tree that stands under a name. -/
inductive Spells (now : Calendar.Instant) : String → Json → Branch → Prop
  | node {name kind : String} {fields : Fields} {body : Json} {legs : List Aggregation}
      {ordered : List (String × Json)} {children : List Branch}
      (hkind : (fields.filter fun field => isKindName field.1) = [(kind, body)])
      (hlegs : nodesOfKind now name kind body = .ok legs)
      (hordered : IsInOrder (blockOf fields) ordered)
      (hchildren : List.Forall₂ (fun entry child => Spells now entry.1 entry.2 child)
        ordered children) :
      Spells now name (.object fields) (.node name legs children)

/-- The query and the trees of a request. -/
structure IsSpelled (now : Calendar.Instant) (fields : Fields) (request : Request) : Prop where
  query : readQuery now fields = .ok request.query
  branches : ∃ ordered, IsInOrder (blockOf fields) ordered ∧
    List.Forall₂ (fun entry branch => Spells now entry.1 entry.2 branch) ordered request.branches

theorem readEntries_eq_map (now : Calendar.Instant) (entries : List (String × Json)) :
    readEntries now entries =
      entries.map fun entry => (entry.1, readBranch now entry.1 entry.2) := by
  induction entries with
  | nil => rfl
  | cons entry rest ih => rw [readEntries, List.map_cons, ih]

/-- The block under one of the two names. -/
theorem lookup_readBlocks {now : Calendar.Instant} {fields entries : Fields} {block : String}
    (hblock : block ∈ blockNames) (h : fields.get? block = some (.object entries)) :
    (readBlocks now fields).lookup block = some (readEntries now entries) := by
  induction fields with
  | nil => cases h
  | cons field rest ih =>
      obtain ⟨name, body⟩ := field
      rw [Fields.get?, List.lookup_cons] at h
      by_cases hname : block = name
      · subst hname
        rw [beq_self_eq_true] at h
        obtain rfl : body = .object entries := Option.some.inj h
        rw [readBlocks, if_pos (by simpa using hblock), List.lookup_cons_self]
      · have hother : (block == name) = false := by simpa using hname
        rw [hother] at h
        cases body with
        | object inner =>
            rw [readBlocks]
            split
            · rw [List.lookup_cons, hother]
              exact ih h
            · exact ih h
        | null => exact ih h
        | bool b => exact ih h
        | number n => exact ih h
        | string t => exact ih h
        | array items => exact ih h

/-- One name more: the block stands under it, or where it stood. -/
theorem blockName?_step {fields : Fields} {name : String} {found next : Option String}
    {message : RequestError}
    (h : (match fields.get? name with
      | none => Except.ok found
      | some .null => .ok found
      | some (.object _) => .ok (some name)
      | some _ => .error message) = .ok next) :
    (next = some name ∧ ∃ entries, fields.get? name = some (.object entries)) ∨
      (next = found ∧ ∀ entries, fields.get? name ≠ some (.object entries)) := by
  split at h <;> simp_all

/-- The block of an object is the last of its names under which an object stands. -/
theorem blockName?_spec {owner : String} {fields : Fields} {block : Option String}
    (h : blockName? owner fields = .ok block) :
    (block = some "aggregations" ∧ ∃ entries, fields.get? "aggregations" = some (.object entries)) ∨
      (∀ entries, fields.get? "aggregations" ≠ some (.object entries)) ∧
        ((block = some "aggs" ∧ ∃ entries, fields.get? "aggs" = some (.object entries)) ∨
          (block = none ∧ ∀ entries, fields.get? "aggs" ≠ some (.object entries))) := by
  simp only [blockName?, blockNames, List.foldlM_cons, List.foldlM_nil, bind, Except.bind, pure,
    Except.pure] at h
  split at h
  · cases h
  · rename_i first hfirst
    split at h
    · cases h
    · rename_i second hsecond
      obtain rfl := Except.ok.inj h
      rcases blockName?_step hsecond with hfound | ⟨rfl, hnone⟩
      · exact Or.inl hfound
      · exact Or.inr ⟨hnone, blockName?_step hfirst⟩

/-- The entries that are read are those of the block that counts. -/
theorem entries_of_blockName? {now : Calendar.Instant} {owner : String} {fields : Fields}
    {block : Option String} (h : blockName? owner fields = .ok block) :
    (block.bind fun block => (readBlocks now fields).lookup block).getD [] =
      readEntries now (blockOf fields) := by
  rcases blockName?_spec h with ⟨rfl, entries, hentries⟩ | ⟨hsecond, hfirst⟩
  · rw [Option.bind_some, lookup_readBlocks (by decide) hentries, Option.getD_some, blockOf,
      hentries]
  · rcases hfirst with ⟨rfl, entries, hentries⟩ | ⟨rfl, hfirst⟩
    · rw [Option.bind_some, lookup_readBlocks (by decide) hentries, Option.getD_some, blockOf,
        hentries]
      split
      · exact absurd ‹_› (hsecond _)
      · rename_i heq _
        obtain rfl := Json.object.inj (Option.some.inj heq)
        rfl
      · rename_i hnone
        exact absurd rfl (hnone entries)
    · rw [blockOf]
      split
      · exact absurd ‹_› (hsecond _)
      · exact absurd ‹_› (hfirst _)
      · rfl

/-- The block of an object is empty or stands under one of its fields. -/
theorem blockOf_eq_nil_or_mem (fields : Fields) :
    blockOf fields = [] ∨ ∃ name, (name, Json.object (blockOf fields)) ∈ fields := by
  unfold blockOf
  split
  · exact Or.inr ⟨_, mem_of_lookup ‹_›⟩
  · exact Or.inr ⟨_, mem_of_lookup ‹_›⟩
  · exact Or.inl rfl

/-- The branches that are gathered from a block are the trees of its entries in order. -/
theorem exists_spells_of_gather {now : Calendar.Instant} {entries : List (String × Json)}
    {branches : List Branch} (h : gather (orderedEntries (readEntries now entries)) = .ok branches)
    (hbelow : ∀ entry ∈ entries, ∀ branch,
      readBranch now entry.1 entry.2 = .ok branch → Spells now entry.1 entry.2 branch) :
    ∃ ordered, IsInOrder entries ordered ∧
      List.Forall₂ (fun entry branch => Spells now entry.1 entry.2 branch) ordered branches := by
  obtain ⟨ordered, hordered, hread⟩ :=
    exists_isInOrder entries fun entry => readBranch now entry.1 entry.2
  refine ⟨ordered, hordered, ?_⟩
  have hboth : List.Forall₂ (fun entry branch =>
      readBranch now entry.1 entry.2 = .ok branch) ordered branches := by
    have hgather := eq_of_gather h
    rw [readEntries_eq_map, hread, ← List.forall₂_eq_eq_eq, List.forall₂_map_left_iff,
      List.forall₂_map_right_iff] at hgather
    exact hgather
  have hmem : ∀ entry ∈ ordered, entry ∈ entries := fun entry hentry =>
    hordered.perm.mem_iff.mp hentry
  refine ((List.forall₂_and_left _ _).mpr ⟨hmem, hboth⟩).imp ?_
  rintro entry branch ⟨hentry, hbranch⟩
  exact hbelow entry hentry branch hbranch

mutual

/-- A branch that is read is the tree under its name. -/
theorem spells_of_readBranch (now : Calendar.Instant) (name : String) (json : Json)
    (branch : Branch) (h : readBranch now name json = .ok branch) :
    Spells now name json branch := by
  cases json with
  | object fields =>
      have hbelow : ∀ entry ∈ blockOf fields, ∀ child,
          readBranch now entry.1 entry.2 = .ok child → Spells now entry.1 entry.2 child := by
        rcases blockOf_eq_nil_or_mem fields with hnil | ⟨block, hblock⟩
        · simp [hnil]
        · exact spells_of_mem_block now fields block _ hblock
      rw [readBranch] at h
      obtain ⟨kind, body, block, legs, children, hkind, hblock, hlegs, hgather, rfl⟩ :=
        exists_of_assemble h
      rw [entries_of_blockName? hblock] at hgather
      obtain ⟨ordered, hordered, hchildren⟩ := exists_spells_of_gather hgather hbelow
      exact .node hkind hlegs hordered hchildren
  | null | bool _ | number _ | string _ | array _ => simp [readBranch] at h

theorem spells_of_mem_entries (now : Calendar.Instant) (entries : List (String × Json)) :
    ∀ entry ∈ entries, ∀ branch,
      readBranch now entry.1 entry.2 = .ok branch → Spells now entry.1 entry.2 branch := by
  cases entries with
  | nil => simp
  | cons entry rest =>
      obtain ⟨name, body⟩ := entry
      intro entry hentry branch h
      rcases List.mem_cons.mp hentry with rfl | hlater
      · exact spells_of_readBranch now name body branch h
      · exact spells_of_mem_entries now rest entry hlater branch h

theorem spells_of_mem_block (now : Calendar.Instant) (fields : Fields) (block : String)
    (entries : List (String × Json)) (hblock : (block, Json.object entries) ∈ fields) :
    ∀ entry ∈ entries, ∀ branch,
      readBranch now entry.1 entry.2 = .ok branch → Spells now entry.1 entry.2 branch := by
  cases fields with
  | nil => cases hblock
  | cons field rest =>
      obtain ⟨name, body⟩ := field
      by_cases hhead : (block, Json.object entries) = (name, body)
      · cases body with
        | object inner =>
            have hinner : entries = inner := by simpa using (Prod.mk.inj hhead).2
            exact hinner ▸ spells_of_mem_entries now inner
        | _ => simp at hhead
      · exact spells_of_mem_block now rest block entries
          ((List.mem_cons.mp hblock).resolve_left hhead)

end

/-- A request that is read is the query and the trees that it spells out. -/
theorem isSpelled_of_ofJson {now : Calendar.Instant} {json : Json} {request : Request}
    (h : ofJson now json = .ok request) :
    ∃ fields, json = .object fields ∧ IsSpelled now fields request := by
  obtain ⟨fields, block, rfl, hquery, hblock, hgather⟩ := exists_of_ofJson h
  rw [entries_of_blockName? hblock] at hgather
  exact ⟨fields, rfl, hquery, exists_spells_of_gather hgather fun entry _ branch =>
    spells_of_readBranch now entry.1 entry.2 branch⟩

end Rollup.Request
