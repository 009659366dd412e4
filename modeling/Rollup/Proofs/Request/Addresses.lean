/-
# Addresses

A node of a request is found by the places of the aggregations on the way to it, its own the last,
and by its place among the legs there. Ordered by their steps, addresses run through the request in
pre-order: an aggregation comes before those below it, and all of these before the next beside it.
-/

import Mathlib.Data.List.Basic
import Rollup.Proofs.Request.Branches

namespace Rollup

/-- Where a node stands in a request. No step leads to the query. -/
structure Address where
  /-- The place of each aggregation on the way, its own included, among those beside it. -/
  steps : List Nat
  /-- The place among the legs of the aggregation. -/
  leg : Nat
  deriving DecidableEq

namespace Address

/-- The order of the nodes. The steps of an aggregation begin those of all below it, and a list
comes before those that it begins. -/
def Precedes (a b : Address) : Prop := a.steps < b.steps ∨ a.steps = b.steps ∧ a.leg < b.leg

/-- An aggregation lies inside another when the way to it leads through the other. -/
def IsInside (a b : Address) : Prop := b.steps ≠ [] ∧ b.steps <+: a.steps ∧ b.steps ≠ a.steps

theorem lt_append_cons (steps : List Nat) (step : Nat) (rest : List Nat) :
    steps < steps ++ step :: rest := by
  have hlt : steps ++ [] < steps ++ step :: rest := List.append_left_lt (List.nil_lt_cons step rest)
  rwa [List.append_nil] at hlt

theorem not_precedes_self (a : Address) : ¬ a.Precedes a := by
  rintro (hlt | ⟨-, hlt⟩)
  · exact List.lt_irrefl _ hlt
  · exact Nat.lt_irrefl _ hlt

theorem Precedes.trans {a b c : Address} (hab : a.Precedes b) (hbc : b.Precedes c) :
    a.Precedes c := by
  rcases hab with hab | ⟨hab, hlegs⟩
  · rcases hbc with hbc | ⟨hbc, -⟩
    · exact Or.inl (List.lt_trans hab hbc)
    · exact Or.inl (hbc ▸ hab)
  · rcases hbc with hbc | ⟨hbc, hlegs'⟩
    · exact Or.inl (hab ▸ hbc)
    · exact Or.inr ⟨hab.trans hbc, Nat.lt_trans hlegs hlegs'⟩

/-- Nothing comes between a leg and the next one. -/
theorem not_between_legs {steps : List Nat} {leg : Nat} {a : Address}
    (hbefore : Precedes ⟨steps, leg⟩ a) (hafter : a.Precedes ⟨steps, leg + 1⟩) : False := by
  rcases hbefore with hbefore | ⟨hbefore, hlt⟩
  · rcases hafter with hafter | ⟨hafter, -⟩
    · exact List.lt_irrefl _ (List.lt_trans hbefore hafter)
    · exact List.lt_irrefl _ (hafter ▸ hbefore)
  · rcases hafter with hafter | ⟨-, hlt'⟩
    · exact List.lt_irrefl _ (hbefore ▸ hafter)
    · dsimp only at hlt hlt'
      omega

theorem not_precedes_query (a : Address) : ¬ a.Precedes ⟨[], 0⟩ := by
  rintro (hlt | ⟨-, hlt⟩)
  · exact List.not_lt_nil _ hlt
  · exact Nat.not_lt_zero _ hlt

end Address

namespace Branch

def legs : Branch → List Aggregation
  | node _ legs _ => legs

def children : Branch → List Branch
  | node _ _ children => children

/-- The branch that steps lead to. -/
def descend? : Branch → List Nat → Option Branch
  | branch, [] => some branch
  | branch, step :: steps => branch.children[step]?.bind fun child => child.descend? steps

/-- What holds everywhere holds where steps lead. -/
theorem Everywhere.descend? {p : String → List Aggregation → List Branch → Prop} {branch : Branch}
    {steps : List Nat} {found : Branch} (h : branch.Everywhere p)
    (hfound : branch.descend? steps = some found) : found.Everywhere p := by
  induction steps generalizing branch with
  | nil => exact Option.some.inj hfound ▸ h
  | cons step steps ih =>
      cases h with
      | node here below =>
          obtain ⟨child, hchild, hrest⟩ := Option.bind_eq_some_iff.mp hfound
          exact ih (below child (List.mem_of_getElem? hchild)) hrest

theorem Everywhere.here {p : String → List Aggregation → List Branch → Prop} {branch : Branch}
    (h : branch.Everywhere p) : p branch.name branch.legs branch.children := by
  cases h with
  | node here below => exact here

theorem descend?_concat (branch : Branch) (steps : List Nat) (step : Nat) :
    branch.descend? (steps ++ [step]) =
      (branch.descend? steps).bind fun found => found.children[step]? := by
  induction steps generalizing branch with
  | nil =>
      simp only [List.nil_append, descend?, Option.bind_some]
      exact Option.bind_fun_some _
  | cons first steps ih =>
      simp only [List.cons_append, descend?, ih, Option.bind_assoc]

end Branch

namespace Request

open Branch

/-- The aggregation that steps lead to. -/
def branchAt? (request : Request) : List Nat → Option Branch
  | [] => none
  | step :: steps => request.branches[step]?.bind fun branch => branch.descend? steps

/-- The node at an address. -/
def nodeAt? (request : Request) (address : Address) : Option Aggregation :=
  match address.steps with
  | [] => if address.leg = 0 then request.query else none
  | _ :: _ => (request.branchAt? address.steps).bind fun branch => branch.legs[address.leg]?

mutual

/-- The addresses of an aggregation and of all below it, the steps to it being given. -/
def addressesOf (steps : List Nat) : Branch → List Address
  | .node _ legs children =>
      (List.range legs.length).map (Address.mk steps) ++ addressesBelow steps 0 children

/-- The addresses of aggregations beside each other, the place of the first being given. -/
def addressesBelow (steps : List Nat) (place : Nat) : List Branch → List Address
  | [] => []
  | branch :: rest =>
      addressesOf (steps ++ [place]) branch ++ addressesBelow steps (place + 1) rest

end

/-- The addresses of all nodes. -/
def addresses (request : Request) : List Address :=
  request.query.toList.map (fun _ => ⟨[], 0⟩) ++ addressesBelow [] 0 request.branches

/-! ## Every node has an address -/

theorem mem_addressesBelow {address : Address} {steps : List Nat} {place : Nat}
    {branches : List Branch} :
    address ∈ addressesBelow steps place branches ↔
      ∃ i branch, branches[i]? = some branch ∧
        address ∈ addressesOf (steps ++ [place + i]) branch := by
  induction branches generalizing place with
  | nil => simp [addressesBelow]
  | cons first rest ih =>
      rw [addressesBelow, List.mem_append, ih]
      constructor
      · rintro (hfirst | ⟨i, branch, hbranch, hmem⟩)
        · exact ⟨0, first, rfl, hfirst⟩
        · exact ⟨i + 1, branch, hbranch, by rwa [Nat.add_right_comm] at hmem⟩
      · rintro ⟨i, branch, hbranch, hmem⟩
        cases i with
        | zero => exact Or.inl (Option.some.inj hbranch ▸ hmem)
        | succ i => exact Or.inr ⟨i, branch, hbranch, by rwa [Nat.add_right_comm]⟩

mutual

theorem exists_descend_of_mem (steps : List Nat) (branch : Branch) (address : Address)
    (h : address ∈ addressesOf steps branch) :
    ∃ rest found, address.steps = steps ++ rest ∧ branch.descend? rest = some found ∧
      address.leg < found.legs.length := by
  cases branch with
  | node name legs children =>
      rw [addressesOf, List.mem_append] at h
      rcases h with hroot | hbelow
      · obtain ⟨leg, hleg, rfl⟩ := List.mem_map.mp hroot
        exact ⟨[], .node name legs children, by simp, rfl, List.mem_range.mp hleg⟩
      · obtain ⟨i, child, hchild, hmem⟩ := mem_addressesBelow.mp hbelow
        obtain ⟨rest, found, hsteps, hfound, hleg⟩ := exists_descend_of_mem_child
          (steps ++ [0 + i]) children child (List.mem_of_getElem? hchild) address hmem
        refine ⟨i :: rest, found, by simpa using hsteps, ?_, hleg⟩
        rw [Branch.descend?, Branch.children, hchild]
        exact hfound

theorem exists_descend_of_mem_child (steps : List Nat) (branches : List Branch) (branch : Branch)
    (hbranch : branch ∈ branches) (address : Address)
    (h : address ∈ addressesOf steps branch) :
    ∃ rest found, address.steps = steps ++ rest ∧ branch.descend? rest = some found ∧
      address.leg < found.legs.length := by
  cases branches with
  | nil => cases hbranch
  | cons first rest =>
      by_cases hfirst : branch = first
      · have hhead := exists_descend_of_mem steps first address (hfirst ▸ h)
        rwa [hfirst]
      · exact exists_descend_of_mem_child steps rest branch
          ((List.mem_cons.mp hbranch).resolve_left hfirst) address h

end

/-- The addresses in a branch are the steps that lead somewhere in it, with a leg that is there. -/
theorem mem_addressesOf {address : Address} {steps : List Nat} {branch : Branch} :
    address ∈ addressesOf steps branch ↔
      ∃ rest found, address.steps = steps ++ rest ∧ branch.descend? rest = some found ∧
        address.leg < found.legs.length := by
  refine ⟨exists_descend_of_mem steps branch address, ?_⟩
  rintro ⟨rest, found, hsteps, hfound, hleg⟩
  induction rest generalizing steps branch with
  | nil =>
      obtain ⟨name, legs, children⟩ := branch
      obtain rfl := Option.some.inj hfound
      rw [addressesOf, List.mem_append]
      refine Or.inl (List.mem_map.mpr ⟨address.leg, List.mem_range.mpr hleg, ?_⟩)
      rw [List.append_nil] at hsteps
      rw [← hsteps]
  | cons step rest ih =>
      obtain ⟨name, legs, children⟩ := branch
      obtain ⟨child, hchild, hrest⟩ := Option.bind_eq_some_iff.mp hfound
      rw [addressesOf, List.mem_append]
      refine Or.inr (mem_addressesBelow.mpr ⟨step, child, hchild, ?_⟩)
      exact ih (by simpa using hsteps) hrest

/-- The addresses of a request are those at which there is a node. -/
theorem mem_addresses {request : Request} {address : Address} :
    address ∈ request.addresses ↔ (request.nodeAt? address).isSome = true := by
  obtain ⟨steps, leg⟩ := address
  rw [addresses, List.mem_append, mem_addressesBelow]
  cases steps with
  | nil =>
      have hbelow : ¬ ∃ i branch, request.branches[i]? = some branch ∧
          ⟨[], leg⟩ ∈ addressesOf ([] ++ [0 + i]) branch := by
        rintro ⟨i, branch, -, hmem⟩
        obtain ⟨rest, found, hsteps, -⟩ := mem_addressesOf.mp hmem
        simp at hsteps
      rw [or_iff_left hbelow, nodeAt?]
      cases request.query with
      | none => simp
      | some query => by_cases hleg : leg = 0 <;> simp [hleg]
  | cons step steps =>
      have hquery : (⟨step :: steps, leg⟩ : Address) ∉
          request.query.toList.map fun _ => (⟨[], 0⟩ : Address) := by simp
      rw [or_iff_right hquery, nodeAt?, branchAt?]
      dsimp only
      rw [Option.bind_assoc, Option.isSome_iff_exists]
      constructor
      · rintro ⟨i, branch, hbranch, hmem⟩
        obtain ⟨rest, found, hsteps, hfound, hleg⟩ := mem_addressesOf.mp hmem
        obtain ⟨rfl, rfl⟩ : step = i ∧ steps = rest := by simpa using hsteps
        exact ⟨found.legs[leg], by
          rw [hbranch, Option.bind_some, hfound, Option.bind_some, List.getElem?_eq_getElem hleg]⟩
      · rintro ⟨aggregation, h⟩
        obtain ⟨branch, hbranch, h⟩ := Option.bind_eq_some_iff.mp h
        obtain ⟨found, hfound, hleg⟩ := Option.bind_eq_some_iff.mp h
        refine ⟨step, branch, hbranch, mem_addressesOf.mpr ⟨steps, found, by simp, hfound, ?_⟩⟩
        exact (List.getElem?_eq_some_iff.mp hleg).1

/-! ## Addresses in order -/

/-- The steps to what is inside begin with those given. -/
theorem prefix_of_mem_addressesOf {address : Address} {steps : List Nat} {branch : Branch}
    (h : address ∈ addressesOf steps branch) : steps <+: address.steps := by
  obtain ⟨rest, -, hsteps, -⟩ := mem_addressesOf.mp h
  exact ⟨rest, hsteps.symm⟩

theorem precedes_of_place_lt {first second : Address} {steps : List Nat} {i j : Nat}
    (hij : i < j) (hfirst : steps ++ [i] <+: first.steps)
    (hsecond : steps ++ [j] <+: second.steps) : first.Precedes second := by
  obtain ⟨rest, hrest⟩ := hfirst
  obtain ⟨rest', hrest'⟩ := hsecond
  refine Or.inl ?_
  rw [← hrest, ← hrest', List.append_assoc, List.append_assoc]
  exact List.append_left_lt (List.cons_lt_cons_iff.mpr (Or.inl hij))

mutual

theorem pairwise_addressesOf (steps : List Nat) (branch : Branch) :
    (addressesOf steps branch).Pairwise Address.Precedes := by
  cases branch with
  | node name legs children =>
      rw [addressesOf, List.pairwise_append]
      refine ⟨?_, pairwise_addressesBelow steps 0 children, ?_⟩
      · rw [List.pairwise_map]
        exact List.pairwise_lt_range.imp fun hlt => Or.inr ⟨rfl, hlt⟩
      · intro root hroot below hbelow
        obtain ⟨leg, -, rfl⟩ := List.mem_map.mp hroot
        obtain ⟨i, child, -, hmem⟩ := mem_addressesBelow.mp hbelow
        obtain ⟨rest, hrest⟩ := prefix_of_mem_addressesOf hmem
        refine Or.inl ?_
        rw [← hrest, List.append_assoc]
        exact Address.lt_append_cons steps (0 + i) rest

/-- Addresses run in pre-order. -/
theorem pairwise_addressesBelow (steps : List Nat) (place : Nat) (branches : List Branch) :
    (addressesBelow steps place branches).Pairwise Address.Precedes := by
  cases branches with
  | nil => exact List.Pairwise.nil
  | cons branch rest =>
      rw [addressesBelow, List.pairwise_append]
      refine ⟨pairwise_addressesOf _ branch, pairwise_addressesBelow steps (place + 1) rest, ?_⟩
      intro first hfirst second hsecond
      obtain ⟨i, later, -, hmem⟩ := mem_addressesBelow.mp hsecond
      exact precedes_of_place_lt (by omega) (prefix_of_mem_addressesOf hfirst)
        (prefix_of_mem_addressesOf hmem)

end

theorem pairwise_addresses (request : Request) :
    request.addresses.Pairwise Address.Precedes := by
  rw [addresses, List.pairwise_append]
  refine ⟨?_, pairwise_addressesBelow [] 0 request.branches, ?_⟩
  · cases request.query with
    | none => exact List.Pairwise.nil
    | some query => exact List.pairwise_singleton _ _
  · intro query hquery below hbelow
    obtain ⟨-, -, rfl⟩ := List.mem_map.mp hquery
    obtain ⟨i, child, -, hmem⟩ := mem_addressesBelow.mp hbelow
    obtain ⟨rest, hrest⟩ := prefix_of_mem_addressesOf hmem
    refine Or.inl ?_
    rw [← hrest]
    exact List.nil_lt_cons _ _

/-- Of two addresses of a list in pre-order the one that precedes comes first. -/
theorem lt_of_precedes {addresses : List Address} (h : addresses.Pairwise Address.Precedes)
    {i j : Nat} {a b : Address} (hi : addresses[i]? = some a) (hj : addresses[j]? = some b)
    (hab : a.Precedes b) : i < j := by
  obtain ⟨hilt, rfl⟩ := List.getElem?_eq_some_iff.mp hi
  obtain ⟨hjlt, rfl⟩ := List.getElem?_eq_some_iff.mp hj
  by_contra hnot
  rcases Nat.eq_or_lt_of_le (Nat.le_of_not_lt hnot) with rfl | hji
  · exact Address.not_precedes_self _ hab
  · exact Address.not_precedes_self _
      (hab.trans (List.pairwise_iff_getElem.mp h j i hjlt hilt hji))

/-- An address stands at one place only. -/
theorem eq_of_address_eq {addresses : List Address} (h : addresses.Pairwise Address.Precedes)
    {i j : Nat} {a : Address} (hi : addresses[i]? = some a) (hj : addresses[j]? = some a) :
    i = j := by
  obtain ⟨hilt, rfl⟩ := List.getElem?_eq_some_iff.mp hi
  obtain ⟨hjlt, heq⟩ := List.getElem?_eq_some_iff.mp hj
  rcases Nat.lt_trichotomy i j with hij | hij | hji
  · have hprecedes := List.pairwise_iff_getElem.mp h i j hilt hjlt hij
    exact absurd (heq ▸ hprecedes) (Address.not_precedes_self _)
  · exact hij
  · have hprecedes := List.pairwise_iff_getElem.mp h j i hjlt hilt hji
    exact absurd (heq ▸ hprecedes) (Address.not_precedes_self _)

end Request
end Rollup
