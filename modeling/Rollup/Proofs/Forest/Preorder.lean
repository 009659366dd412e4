/-
# Forests in pre-order

The nodes of a forest stand in the order of their addresses in the request, so the forest is the
request in pre-order. What the forest says about parents, depths, anchors, groups of legs and what
lies below what is what the addresses say.
-/

import Rollup.Proofs.Plan.Legs
import Rollup.Proofs.Request.Addresses
import Rollup.Proofs.Request.Spelling

namespace Rollup.Forest

open Branch Request

/-! ## Nodes at their addresses -/

/-- A node of the aggregation that steps lead to, below what `base` leads to. Parents are told by
their place among the addresses, the first of which is at `start`. -/
structure StandsAt (parent : Option Nat) (depth start : Nat) (addresses : List Address)
    (base rest : List Nat) (found : Branch) (n : Node) (address : Address) : Prop where
  steps : address.steps = base ++ rest
  leg : found.legs[address.leg]? = some n.aggregation
  name : n.name = found.name
  hasChildren : n.hasChildren = !found.children.isEmpty
  depth : n.depth = depth + rest.length
  top : rest = [] → n.parent = parent
  below : rest ≠ [] → ∃ place, n.parent = some (start + place) ∧
    addresses[place]? = some ⟨base ++ rest.dropLast, 0⟩

/-- Addresses may stand in front of those that are meant, and behind them. -/
theorem StandsAt.extend {parent : Option Nat} {depth start : Nat}
    {addresses : List Address} {base rest : List Nat} {found : Branch} {n : Node}
    {address : Address} (before after : List Address)
    (h : StandsAt parent depth (start + before.length) addresses base rest found n address) :
    StandsAt parent depth start (before ++ (addresses ++ after)) base rest found n address where
  steps := h.steps
  leg := h.leg
  name := h.name
  hasChildren := h.hasChildren
  depth := h.depth
  top := h.top
  below := fun hrest => by
    obtain ⟨place, hparent, hplace⟩ := h.below hrest
    refine ⟨before.length + place, by rw [hparent, Nat.add_assoc], ?_⟩
    rw [List.getElem?_append_right (by omega), Nat.add_sub_cancel_left,
      List.getElem?_append_left (List.getElem?_eq_some_iff.mp hplace).1, hplace]

/-- What is said of the nodes of a branch. -/
def StandIn (parent : Option Nat) (depth start : Nat) (steps : List Nat) (branch : Branch)
    (n : Node) (address : Address) : Prop :=
  ∃ rest found, branch.descend? rest = some found ∧
    StandsAt parent depth start (addressesOf steps branch) steps rest found n address

/-- What is said of the nodes of branches beside each other. -/
def StandBelow (parent : Option Nat) (depth start : Nat) (steps : List Nat) (place : Nat)
    (branches : List Branch) (n : Node) (address : Address) : Prop :=
  ∃ i branch rest found, branches[i]? = some branch ∧ branch.descend? rest = some found ∧
    StandsAt parent depth start (addressesBelow steps place branches) (steps ++ [place + i]) rest
      found n address

/-- The nodes of an aggregation itself, those below it being added. -/
theorem standIn_roots (parent : Option Nat) (depth start : Nat) (steps : List Nat)
    (name : String) (legs : List Aggregation) (children : List Branch) :
    List.Forall₂ (StandIn parent depth start steps (.node name legs children))
      (legs.map (Node.new name parent depth !children.isEmpty))
      ((List.range legs.length).map (Address.mk steps)) := by
  rw [List.forall₂_iff_get]
  refine ⟨by simp, fun i hi hi' => ?_⟩
  have hleg : i < legs.length := by simpa using hi
  refine ⟨[], .node name legs children, rfl, ?_⟩
  exact
    { steps := by simp
      leg := by simp [Branch.legs, Node.new, hleg]
      name := by simp [Node.new, Branch.name]
      hasChildren := by simp [Node.new, Branch.children]
      depth := by simp [Node.new]
      top := by simp [Node.new]
      below := fun hrest => absurd rfl hrest }

/-- The nodes below an aggregation, of which the first is the parent. -/
theorem StandBelow.standIn {parent : Option Nat} {depth start : Nat} {steps : List Nat}
    {name : String} {legs : List Aggregation} {children : List Branch} {n : Node}
    {address : Address} (hlegs : legs ≠ [])
    (h : StandBelow (some start) (depth + 1) (start + legs.length) steps 0 children n address) :
    StandIn parent depth start steps (.node name legs children) n address := by
  obtain ⟨i, child, rest, found, hchild, hfound, hstands⟩ := h
  let roots := (List.range legs.length).map (Address.mk steps)
  have hlength : roots.length = legs.length := by simp [roots]
  have hextended := StandsAt.extend roots [] (hlength ▸ hstands)
  rw [List.append_nil] at hextended
  refine ⟨i :: rest, found, ?_, ?_⟩
  · rw [Branch.descend?, Branch.children, hchild]
    exact hfound
  · exact
      { steps := by simpa using hextended.steps
        leg := hextended.leg
        name := hextended.name
        hasChildren := hextended.hasChildren
        depth := by rw [hextended.depth, List.length_cons]; omega
        top := fun hrest => by simp at hrest
        below := fun _ => by
          rw [addressesOf]
          by_cases hrest : rest = []
          · subst hrest
            refine ⟨0, hextended.top rfl, ?_⟩
            have hfirst : 0 < legs.length := List.length_pos_of_ne_nil hlegs
            rw [List.getElem?_append_left (by simpa using hfirst)]
            simp [hfirst]
          · obtain ⟨place, hparent, hplace⟩ := hextended.below hrest
            refine ⟨place, hparent, ?_⟩
            rw [List.dropLast_cons_of_ne_nil hrest]
            simpa [roots] using hplace }

mutual

theorem standIn_ofBranch (parent : Option Nat) (depth start : Nat) (steps : List Nat)
    (branch : Branch) (hbranch : branch.Everywhere fun _ legs _ => AreNodes legs) :
    List.Forall₂ (StandIn parent depth start steps branch) (ofBranch parent depth start branch)
      (addressesOf steps branch) := by
  cases hbranch with
  | @node name legs children hlegs hchildren =>
      rw [ofBranch, addressesOf]
      refine List.rel_append (standIn_roots parent depth start steps name legs children) ?_
      rw [List.length_map]
      refine (standBelow_ofBranches (some start) (depth + 1) (start + legs.length) steps 0
        children hchildren).imp fun n address h => ?_
      exact h.standIn hlegs.ne_nil

/-- The nodes of branches stand at their addresses. -/
theorem standBelow_ofBranches (parent : Option Nat) (depth start : Nat) (steps : List Nat)
    (place : Nat) (branches : List Branch)
    (hbranches : ∀ branch ∈ branches, branch.Everywhere fun _ legs _ => AreNodes legs) :
    List.Forall₂ (StandBelow parent depth start steps place branches)
      (ofBranches parent depth start branches) (addressesBelow steps place branches) := by
  cases branches with
  | nil => exact .nil
  | cons branch rest =>
      have hfirst := standIn_ofBranch parent depth start (steps ++ [place]) branch
        (hbranches branch (by simp))
      have hrest := standBelow_ofBranches parent depth
        (start + (ofBranch parent depth start branch).length) steps (place + 1) rest
        fun other hother => hbranches other (by simp [hother])
      rw [ofBranches, addressesBelow]
      refine List.rel_append (hfirst.imp fun n address h => ?_) (hrest.imp fun n address h => ?_)
      · obtain ⟨steps', found, hfound, hstands⟩ := h
        exact ⟨0, branch, steps', found, rfl, hfound, by
          simpa [addressesBelow] using
            StandsAt.extend [] (addressesBelow steps (place + 1) rest) hstands⟩
      · obtain ⟨i, other, steps', found, hother, hfound, hstands⟩ := h
        rw [hfirst.length_eq] at hstands
        have hextended :=
          StandsAt.extend (addressesOf (steps ++ [place]) branch) [] hstands
        rw [List.append_nil, Nat.add_assoc, Nat.add_comm 1] at hextended
        exact ⟨i + 1, other, steps', found, hother, hfound, by
          simpa [addressesBelow] using hextended⟩

end

/-- Whether a node is the query, or stands where its steps lead. -/
def StandFor (request : Request) (n : Node) (address : Address) : Prop :=
  (address = ⟨[], 0⟩ ∧ ∃ query, request.query = some query ∧
      n = Node.new "query" none 0 false query) ∨
    ∃ step rest found, request.branchAt? (step :: rest) = some found ∧
      StandsAt none 0 0 request.addresses [step] rest found n address

theorem standFor_ofRequest {request : Request}
    (hnodes : ∀ branch ∈ request.branches, branch.Everywhere fun _ legs _ => AreNodes legs) :
    List.Forall₂ (StandFor request) (ofRequest request) request.addresses := by
  have hbelow := standBelow_ofBranches none 0 request.query.toList.length [] 0 request.branches
    hnodes
  rw [ofRequest, addresses, List.length_map]
  refine List.rel_append ?_ (hbelow.imp fun n address h => ?_)
  · cases hquery : request.query with
    | none => exact .nil
    | some query => exact .cons (Or.inl ⟨rfl, query, hquery, rfl⟩) .nil
  · obtain ⟨i, branch, rest, found, hbranch, hfound, hstands⟩ := h
    refine Or.inr ⟨i, rest, found, ?_, ?_⟩
    · rw [branchAt?, hbranch]
      exact hfound
    · have hshifted : StandsAt none 0
          (0 + (request.query.toList.map fun _ => (⟨[], 0⟩ : Address)).length)
          (addressesBelow [] 0 request.branches) ([] ++ [0 + i]) rest found n address := by
        simpa using hstands
      have hextended := StandsAt.extend _ [] hshifted
      rw [List.append_nil, List.nil_append, Nat.zero_add] at hextended
      exact hextended

section

variable {request : Request} {n : Node} {step : Nat} {rest : List Nat} {leg : Nat}

theorem StandFor.eq_query (h : StandFor request n ⟨[], leg⟩) :
    leg = 0 ∧ ∃ query, request.query = some query ∧ n = Node.new "query" none 0 false query := by
  rcases h with ⟨hquery, hn⟩ | ⟨step', rest', found, -, hstands⟩
  · exact ⟨by simpa using hquery, hn⟩
  · simpa using hstands.steps

theorem StandFor.exists_standsAt (h : StandFor request n ⟨step :: rest, leg⟩) :
    ∃ found, request.branchAt? (step :: rest) = some found ∧
      StandsAt none 0 0 request.addresses [step] rest found n ⟨step :: rest, leg⟩ := by
  rcases h with ⟨hquery, -⟩ | ⟨step', rest', found, hfound, hstands⟩
  · simp at hquery
  · obtain ⟨rfl, rfl⟩ : step = step' ∧ rest = rest' := by simpa using hstands.steps
    exact ⟨found, hfound, hstands⟩

end

/-! ## The forest of a request -/

/-- A forest that is a request in pre-order, each node at its address. -/
structure Represents (forest : Forest) (request : Request) (addresses : List Address) :
    Prop where
  length_eq : addresses.length = forest.length
  preorder : addresses.Pairwise Address.Precedes
  complete : ∀ address, address ∈ addresses ↔ (request.nodeAt? address).isSome = true
  aggregation : ∀ (i : Nat) (n : Node) (address : Address), forest[i]? = some n →
    addresses[i]? = some address → request.nodeAt? address = some n.aggregation
  /-- The query comes first. -/
  query : ∀ (i : Nat) (n : Node) (leg : Nat), forest[i]? = some n →
    addresses[i]? = some ⟨[], leg⟩ → i = 0 ∧ n.name = "query" ∧ n.hasChildren = false
  /-- The nodes of an aggregation have its name and know whether anything is below it. -/
  node : ∀ (i : Nat) (n : Node) (address : Address) (branch : Branch), forest[i]? = some n →
    addresses[i]? = some address → request.branchAt? address.steps = some branch →
    n.name = branch.name ∧ (n.hasChildren = true ↔ branch.children ≠ [])
  /-- Legs of one aggregation stand side by side. -/
  adjacent : ∀ (i : Nat) (steps : List Nat) (leg : Nat), addresses[i]? = some ⟨steps, leg + 1⟩ →
    ∃ j, i = j + 1 ∧ addresses[j]? = some ⟨steps, leg⟩
  /-- At the top there is no parent. -/
  top : ∀ (i : Nat) (n : Node) (address : Address), forest[i]? = some n →
    addresses[i]? = some address → address.steps.length ≤ 1 → n.parent = none ∧ n.depth = 0
  /-- The parent of a node is the first node of the aggregation right above. -/
  below : ∀ (i : Nat) (n : Node) (base : List Nat) (step leg : Nat), forest[i]? = some n →
    addresses[i]? = some ⟨base ++ [step], leg⟩ → base ≠ [] →
    ∃ (p : Nat) (parent : Node), n.parent = some p ∧ p < i ∧ forest[p]? = some parent ∧
      addresses[p]? = some ⟨base, 0⟩ ∧ n.depth = parent.depth + 1

/-- Where there is a leg, there are those before it, each beside the next. -/
theorem adjacent_of_preorder {request : Request} {addresses : List Address}
    (hpreorder : addresses.Pairwise Address.Precedes)
    (hcomplete : ∀ address, address ∈ addresses ↔ (request.nodeAt? address).isSome = true)
    {i : Nat} {steps : List Nat} {leg : Nat} (h : addresses[i]? = some ⟨steps, leg + 1⟩) :
    ∃ j, i = j + 1 ∧ addresses[j]? = some ⟨steps, leg⟩ := by
  have hbefore : (⟨steps, leg⟩ : Address) ∈ addresses := by
    have hthere := (hcomplete _).mp (List.mem_of_getElem? h)
    refine (hcomplete _).mpr ?_
    cases steps with
    | nil => simp [nodeAt?] at hthere
    | cons step rest =>
        obtain ⟨a, ha⟩ := Option.isSome_iff_exists.mp hthere
        obtain ⟨branch, hbranch, hleg⟩ := Option.bind_eq_some_iff.mp ha
        have hlt := (List.getElem?_eq_some_iff.mp hleg).1
        rw [nodeAt?]
        simp [hbranch, List.getElem?_eq_getElem (show leg < branch.legs.length by
          exact Nat.lt_of_succ_lt hlt)]
  obtain ⟨j, hj⟩ := List.getElem?_of_mem hbefore
  have hji : j < i := lt_of_precedes hpreorder hj h (Or.inr ⟨rfl, Nat.lt_succ_self leg⟩)
  refine ⟨j, ?_, hj⟩
  by_contra hne
  -- no address is between a leg and the next one
  have hi := (List.getElem?_eq_some_iff.mp h).1
  have hnext := List.getElem?_eq_getElem (l := addresses) (i := j + 1) (by omega)
  have hpair := List.pairwise_iff_getElem.mp hpreorder
  obtain ⟨hjlt, hjeq⟩ := List.getElem?_eq_some_iff.mp hj
  obtain ⟨hilt, hieq⟩ := List.getElem?_eq_some_iff.mp h
  have hafter := hpair j (j + 1) hjlt (by omega) (Nat.lt_succ_self j)
  have hbehind := hpair (j + 1) i (by omega) hilt (by omega)
  rw [hjeq] at hafter
  rw [hieq] at hbehind
  exact Address.not_between_legs hafter hbehind

/-- A request is laid out in pre-order. -/
theorem represents_ofRequest {request : Request}
    (hnodes : ∀ branch ∈ request.branches, branch.Everywhere fun _ legs _ => AreNodes legs) :
    Represents (ofRequest request) request request.addresses := by
  have hall := standFor_ofRequest hnodes
  have hpreorder := pairwise_addresses request
  have hat {i : Nat} {n : Node} {address : Address} (hn : (ofRequest request)[i]? = some n)
      (haddress : request.addresses[i]? = some address) : StandFor request n address := by
    obtain ⟨hi, rfl⟩ := List.getElem?_eq_some_iff.mp hn
    obtain ⟨hi', rfl⟩ := List.getElem?_eq_some_iff.mp haddress
    exact (List.forall₂_iff_get.mp hall).2 i hi hi'
  exact
    { length_eq := hall.length_eq.symm
      preorder := hpreorder
      complete := fun address => mem_addresses
      aggregation := by
        rintro i n ⟨steps, leg⟩ hn haddress
        cases steps with
        | nil =>
            obtain ⟨rfl, query, hsome, rfl⟩ := (hat hn haddress).eq_query
            exact hsome
        | cons step rest =>
            obtain ⟨found, hfound, hstands⟩ := (hat hn haddress).exists_standsAt
            rw [nodeAt?]
            simp only [hfound, Option.bind_some]
            exact hstands.leg
      query := by
        intro i n leg hn haddress
        obtain ⟨rfl, query, -, rfl⟩ := (hat hn haddress).eq_query
        refine ⟨?_, rfl, rfl⟩
        by_contra hpos
        obtain ⟨hlt, heq⟩ := List.getElem?_eq_some_iff.mp haddress
        have hfirst := List.pairwise_iff_getElem.mp hpreorder 0 i (by omega) hlt (by omega)
        rw [heq] at hfirst
        exact Address.not_precedes_query _ hfirst
      node := by
        rintro i n ⟨steps, leg⟩ branch hn haddress hbranch
        cases steps with
        | nil => cases hbranch
        | cons step rest =>
            obtain ⟨found, hfound, hstands⟩ := (hat hn haddress).exists_standsAt
            obtain rfl := Option.some.inj (hfound.symm.trans hbranch)
            refine ⟨hstands.name, ?_⟩
            rw [hstands.hasChildren, Bool.not_eq_true', List.isEmpty_eq_false_iff]
      adjacent := fun i steps leg h =>
        adjacent_of_preorder hpreorder (fun address => mem_addresses) h
      top := by
        rintro i n ⟨steps, leg⟩ hn haddress htop
        cases steps with
        | nil =>
            obtain ⟨-, query, -, rfl⟩ := (hat hn haddress).eq_query
            exact ⟨rfl, rfl⟩
        | cons step rest =>
            obtain ⟨found, -, hstands⟩ := (hat hn haddress).exists_standsAt
            obtain rfl : rest = [] := by simpa using htop
            exact ⟨hstands.top rfl, hstands.depth⟩
      below := by
        intro i n base step leg hn haddress hbase
        obtain ⟨first, rest, rfl⟩ := List.exists_cons_of_ne_nil hbase
        rw [List.cons_append] at haddress
        obtain ⟨found, -, hn'⟩ := (hat hn haddress).exists_standsAt
        obtain ⟨p, hparent, hp⟩ := hn'.below (by simp)
        rw [List.dropLast_concat, List.singleton_append] at hp
        have hplt : p < (ofRequest request).length := by
          rw [hall.length_eq]
          exact (List.getElem?_eq_some_iff.mp hp).1
        obtain ⟨above, -, hp'⟩ := (hat (List.getElem?_eq_getElem hplt) hp).exists_standsAt
        refine ⟨p, _, by rw [hparent, Nat.zero_add], ?_, List.getElem?_eq_getElem hplt, hp, ?_⟩
        · refine lt_of_precedes hpreorder hp haddress (Or.inl ?_)
          exact Address.lt_append_cons (first :: rest) step []
        · rw [hn'.depth, hp'.depth]
          simp }

end Rollup.Forest
