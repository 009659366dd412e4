/-
# What lies inside what

Nodes of one aggregation are those with the same steps, for names tell the aggregations below one
parent apart. So the anchor of a node is the first leg at its steps, a group of legs has all legs at
its steps, and a node is below an aggregation when the steps of the aggregation begin its own.
-/

import Rollup.Proofs.Forest.Preorder

namespace Rollup

open Branch

/-- A request with the query of a kind of its own, and aggregations beside each other told apart by
their names. -/
structure Request.IsTree (request : Request) : Prop where
  query : ∀ query, request.query = some query → query.isQuery = true
  nodes : ∀ branch ∈ request.branches, branch.Everywhere fun _ legs _ => AreNodes legs
  names : ∀ branch ∈ request.branches, branch.Everywhere DistinctNames
  distinct : (request.branches.map Branch.name).Nodup

theorem Request.isTree_of_ofJson {now : Calendar.Instant} {json : Json} {request : Request}
    (h : Request.ofJson now json = .ok request) (hkeys : json.hasDistinctKeys = true) :
    request.IsTree := by
  obtain ⟨fields, rfl, hquery, hbranches, hdistinct⟩ := Request.ofJson_spec h
  refine ⟨fun query hsome => ?_, fun branch hbranch => ?_, fun branch hbranch => ?_,
    hdistinct hkeys⟩
  · exact Forest.isQuery_of_readQuery (hquery.trans (by rw [hsome]))
  · exact (hbranches branch hbranch).elim fun _ hread => hread.nodes
  · exact (hbranches branch hbranch).elim fun _ hread => hread.names hkeys

namespace Request

variable {request : Request}

/-- What holds everywhere holds of the aggregation that steps lead to. -/
theorem everywhere_of_branchAt? {p : String → List Aggregation → List Branch → Prop}
    (h : ∀ branch ∈ request.branches, branch.Everywhere p) {steps : List Nat} {found : Branch}
    (hfound : request.branchAt? steps = some found) : found.Everywhere p := by
  cases steps with
  | nil => cases hfound
  | cons step steps =>
      obtain ⟨branch, hbranch, hrest⟩ := Option.bind_eq_some_iff.mp hfound
      exact (h branch (List.mem_of_getElem? hbranch)).descend? hrest

theorem branchAt?_concat {base : List Nat} (hbase : base ≠ []) (step : Nat) :
    request.branchAt? (base ++ [step]) =
      (request.branchAt? base).bind fun found => found.children[step]? := by
  obtain ⟨first, rest, rfl⟩ := List.exists_cons_of_ne_nil hbase
  simp only [List.cons_append, branchAt?, descend?_concat, Option.bind_assoc]

/-- Names tell branches beside each other apart. -/
theorem place_eq_of_name_eq {branches : List Branch} (hdistinct : (branches.map name).Nodup)
    {i j : Nat} {first second : Branch} (hfirst : branches[i]? = some first)
    (hsecond : branches[j]? = some second) (hname : first.name = second.name) : i = j := by
  have hi := (List.getElem?_eq_some_iff.mp hfirst).1
  refine (List.getElem?_inj (by simpa using hi) hdistinct).mp ?_
  rw [List.getElem?_map, List.getElem?_map, hfirst, hsecond, Option.map_some, Option.map_some,
    hname]

/-- Below one aggregation, too, names tell aggregations apart. -/
theorem IsTree.step_eq (htree : request.IsTree) {base : List Nat} {i j : Nat}
    {first second : Branch} (hfirst : request.branchAt? (base ++ [i]) = some first)
    (hsecond : request.branchAt? (base ++ [j]) = some second)
    (hname : first.name = second.name) : i = j := by
  by_cases hbase : base = []
  · subst hbase
    obtain ⟨branch, hbranch, hrest⟩ := Option.bind_eq_some_iff.mp hfirst
    obtain ⟨other, hother, hrest'⟩ := Option.bind_eq_some_iff.mp hsecond
    obtain rfl := Option.some.inj hrest
    obtain rfl := Option.some.inj hrest'
    exact place_eq_of_name_eq htree.distinct hbranch hother hname
  · rw [branchAt?_concat hbase] at hfirst hsecond
    obtain ⟨above, habove, hchild⟩ := Option.bind_eq_some_iff.mp hfirst
    obtain ⟨above', habove', hchild'⟩ := Option.bind_eq_some_iff.mp hsecond
    obtain rfl := Option.some.inj (habove.symm.trans habove')
    exact place_eq_of_name_eq (everywhere_of_branchAt? htree.names habove).here hchild hchild'
      hname

end Request

namespace Forest

variable {forest : Forest} {request : Request} {addresses : List Address}

/-- A node and the aggregation at its steps. -/
theorem Represents.exists_branch (h : forest.Represents request addresses) {i : Nat} {n : Node}
    {address : Address} (hn : forest[i]? = some n) (haddress : addresses[i]? = some address)
    (hsteps : address.steps ≠ []) :
    ∃ branch, request.branchAt? address.steps = some branch ∧
      branch.legs[address.leg]? = some n.aggregation := by
  obtain ⟨steps, leg⟩ := address
  have hat := h.aggregation i n _ hn haddress
  cases steps with
  | nil => exact absurd rfl hsteps
  | cons step rest => exact Option.bind_eq_some_iff.mp hat

/-- Only the query is at no steps. -/
theorem Represents.isQuery_iff (h : forest.Represents request addresses) (htree : request.IsTree)
    {i : Nat} {n : Node} {address : Address} (hn : forest[i]? = some n)
    (haddress : addresses[i]? = some address) : n.isQuery = true ↔ address.steps = [] := by
  by_cases hsteps : address.steps = []
  · refine iff_of_true ?_ hsteps
    have hat := h.aggregation i n address hn haddress
    rw [Request.nodeAt?, hsteps] at hat
    dsimp only at hat
    split at hat
    · exact htree.query _ hat
    · cases hat
  · refine iff_of_false ?_ hsteps
    obtain ⟨branch, hbranch, hleg⟩ := h.exists_branch hn haddress hsteps
    have hnodes := (Request.everywhere_of_branchAt? htree.nodes hbranch).here
    have hkind := hnodes.isQuery _ (List.mem_of_getElem? hleg)
    exact fun hquery => Bool.false_ne_true (hkind.symm.trans hquery)

/-- The parent of a node is told by its steps. -/
theorem Represents.parent_iff (h : forest.Represents request addresses) {i : Nat} {n : Node}
    {base : List Nat} {step leg : Nat} (hn : forest[i]? = some n)
    (haddress : addresses[i]? = some ⟨base ++ [step], leg⟩) (p : Nat) :
    n.parent = some p ↔ base ≠ [] ∧ addresses[p]? = some ⟨base, 0⟩ := by
  by_cases hbase : base = []
  · subst hbase
    have htop := h.top i n _ hn haddress (by simp)
    simp [htop.1]
  · obtain ⟨p', parent, hparent, -, -, hp', -⟩ := h.below i n base step leg hn haddress hbase
    rw [hparent, Option.some.injEq]
    constructor
    · rintro rfl
      exact ⟨hbase, hp'⟩
    · rintro ⟨-, hp⟩
      exact Request.eq_of_address_eq h.preorder hp' hp

/-- Nodes of one aggregation are nodes at the same steps. -/
theorem Represents.isAkin_iff (h : forest.Represents request addresses) (htree : request.IsTree)
    {i j : Nat} {x y : Node} {a b : Address} (hx : forest[i]? = some x)
    (hy : forest[j]? = some y) (ha : addresses[i]? = some a) (hb : addresses[j]? = some b) :
    x.IsAkin y ↔ a.steps ≠ [] ∧ a.steps = b.steps := by
  have hquery {k : Nat} {n : Node} {address : Address} (hn : forest[k]? = some n)
      (haddress : addresses[k]? = some address) :
      n.isQuery = false ↔ address.steps ≠ [] := by
    rw [← Bool.not_eq_true, h.isQuery_iff htree hn haddress]
  constructor
  · rintro ⟨hxquery, hyquery, hname, hparent⟩
    have hsteps := (hquery hx ha).mp hxquery
    refine ⟨hsteps, ?_⟩
    obtain ⟨first, hfirst, -⟩ := h.exists_branch hx ha hsteps
    obtain ⟨second, hsecond, -⟩ := h.exists_branch hy hb ((hquery hy hb).mp hyquery)
    have hnames : first.name = second.name := by
      rw [← (h.node i x a first hx ha hfirst).1, ← (h.node j y b second hy hb hsecond).1, hname]
    obtain ⟨steps, leg⟩ := a
    obtain ⟨steps', leg'⟩ := b
    obtain ⟨base, step, rfl⟩ := (List.eq_nil_or_concat' steps).resolve_left hsteps
    obtain ⟨base', step', rfl⟩ :=
      (List.eq_nil_or_concat' steps').resolve_left ((hquery hy hb).mp hyquery)
    have hbases : base = base' := by
      by_cases hbase : base = []
      · subst hbase
        have htop := (h.top i x _ hx ha (by simp)).1
        by_contra hne
        obtain ⟨p, -, hp, -⟩ := h.below j y base' step' leg' hy hb (Ne.symm hne)
        rw [← hparent, htop] at hp
        cases hp
      · obtain ⟨p, -, hp, -, -, hpa, -⟩ := h.below i x base step leg hx ha hbase
        have hpb := ((h.parent_iff hy hb p).mp (hparent ▸ hp)).2
        exact (Address.mk.inj (Option.some.inj (hpa.symm.trans hpb))).1
    subst hbases
    rw [htree.step_eq hfirst hsecond hnames]
  · rintro ⟨hsteps, heq⟩
    have hsteps' : b.steps ≠ [] := heq ▸ hsteps
    obtain ⟨branch, hbranch, -⟩ := h.exists_branch hx ha hsteps
    refine ⟨(hquery hx ha).mpr hsteps, (hquery hy hb).mpr hsteps', ?_, ?_⟩
    · rw [(h.node i x a branch hx ha hbranch).1, (h.node j y b branch hy hb (heq ▸ hbranch)).1]
    · obtain ⟨steps, leg⟩ := a
      obtain ⟨steps', leg'⟩ := b
      obtain rfl : steps = steps' := heq
      obtain ⟨base, step, rfl⟩ := (List.eq_nil_or_concat' steps).resolve_left hsteps
      refine Option.ext fun p => ?_
      rw [h.parent_iff hx ha, h.parent_iff hy hb]

/-! ## Anchors and groups -/

section

variable (h : forest.Represents request addresses) (htree : request.IsTree)
  (hlaid : forest.IsLaidOut)

include h

/-- Where there is an address, there is a node. -/
theorem Represents.exists_node {i : Nat} {address : Address}
    (haddress : addresses[i]? = some address) : ∃ n, forest[i]? = some n := by
  have hlt := (List.getElem?_eq_some_iff.mp haddress).1
  rw [h.length_eq] at hlt
  exact ⟨_, List.getElem?_eq_getElem hlt⟩

theorem Represents.exists_address {i : Nat} {n : Node} (hn : forest[i]? = some n) :
    ∃ address, addresses[i]? = some address := by
  have hlt := (List.getElem?_eq_some_iff.mp hn).1
  rw [← h.length_eq] at hlt
  exact ⟨_, List.getElem?_eq_getElem hlt⟩

include htree hlaid

/-- The anchor of a node is the first node at its steps. -/
theorem Represents.anchor_address {i : Nat} {address : Address}
    (haddress : addresses[i]? = some address) :
    addresses[forest.anchor i]? = some ⟨address.steps, 0⟩ := by
  obtain ⟨n, hn⟩ := h.exists_node haddress
  by_cases hsteps : address.steps = []
  · obtain ⟨steps, leg⟩ := address
    obtain rfl : steps = [] := hsteps
    obtain rfl := (h.query i n leg hn haddress).1
    have hthere := (h.complete _).mp (List.mem_of_getElem? haddress)
    obtain rfl : leg = 0 := by
      by_contra hleg
      simp [Request.nodeAt?, hleg] at hthere
    rw [anchor_zero]
    exact haddress
  · have hquery : n.isQuery = false := by
      rw [← Bool.not_eq_true, h.isQuery_iff htree hn haddress]
      exact hsteps
    obtain ⟨⟨x, hx, hakin⟩, -, hfirst⟩ := hlaid.anchor_spec hn hquery
    obtain ⟨⟨steps, leg⟩, ha⟩ := h.exists_address hx
    obtain ⟨-, hsame⟩ := (h.isAkin_iff htree hx hn ha haddress).mp hakin
    obtain rfl : steps = address.steps := hsame
    cases leg with
    | zero => exact ha
    | succ leg =>
        -- the leg before would be an earlier node of the aggregation
        obtain ⟨j, hj, hbefore⟩ := h.adjacent _ _ leg ha
        obtain ⟨y, hy⟩ := h.exists_node hbefore
        have hle := hfirst j y hy ((h.isAkin_iff htree hy hn hbefore haddress).mpr ⟨hsteps, rfl⟩)
        omega

/-- Nodes have one anchor just when they are at the same steps. -/
theorem Represents.anchor_eq_iff {i j : Nat} {a b : Address} (ha : addresses[i]? = some a)
    (hb : addresses[j]? = some b) : forest.anchor i = forest.anchor j ↔ a.steps = b.steps := by
  have hi := h.anchor_address htree hlaid ha
  have hj := h.anchor_address htree hlaid hb
  constructor
  · intro heq
    rw [heq, hj] at hi
    exact (Address.mk.inj (Option.some.inj hi)).1.symm
  · intro heq
    rw [heq] at hi
    exact Request.eq_of_address_eq h.preorder hi hj

/-! ## Nesting -/

omit htree hlaid in
/-- The ancestors of a node are the first nodes of the aggregations that it lies inside of. -/
theorem Represents.mem_ancestorsFrom_iff {fuel j a : Nat} {address : Address}
    (hfuel : j ≤ fuel) (haddress : addresses[j]? = some address) :
    a ∈ forest.ancestorsFrom fuel j ↔
      ∃ base, addresses[a]? = some ⟨base, 0⟩ ∧ address.IsInside ⟨base, 0⟩ := by
  induction j using Nat.strongRecOn generalizing fuel address with
  | ind j ih =>
      obtain ⟨n, hn⟩ := h.exists_node haddress
      obtain ⟨steps, leg⟩ := address
      by_cases htop : steps.length ≤ 1
      · have hnone : forest.ancestorsFrom fuel j = [] := by
          have hparent := (h.top j n _ hn haddress htop).1
          cases fuel with
          | zero => rfl
          | succ fuel => simp [ancestorsFrom, hn, hparent]
        rw [hnone]
        refine iff_of_false List.not_mem_nil ?_
        rintro ⟨base, -, hbase, hstarts, hne⟩
        have hpos := List.length_pos_of_ne_nil hbase
        refine hne (hstarts.eq_of_length ?_)
        have hle := hstarts.length_le
        dsimp only at hpos hle htop ⊢
        omega
      · have hsteps : steps ≠ [] := by
          rintro rfl
          simp at htop
        obtain ⟨base, step, rfl⟩ := (List.eq_nil_or_concat' steps).resolve_left hsteps
        have hbase : base ≠ [] := by
          rintro rfl
          simp at htop
        obtain ⟨p, parent, hparent, hlt, -, hp, -⟩ :=
          h.below j n base step leg hn haddress hbase
        obtain ⟨fuel, rfl⟩ : ∃ smaller, fuel = smaller + 1 := ⟨fuel - 1, by omega⟩
        have hstep : forest.ancestorsFrom (fuel + 1) j = p :: forest.ancestorsFrom fuel p := by
          simp [ancestorsFrom, hn, hparent]
        rw [hstep, List.mem_cons, ih p hlt (by omega) hp]
        constructor
        · rintro (rfl | ⟨above, habove, hne, hstarts, hproper⟩)
          · refine ⟨base, hp, hbase, List.prefix_append base [step], ?_⟩
            simp
          · refine ⟨above, habove, hne, hstarts.trans (List.prefix_append base [step]), ?_⟩
            rintro rfl
            have hle : (base ++ [step]).length ≤ base.length := hstarts.length_le
            rw [List.length_append, List.length_singleton] at hle
            omega
        · rintro ⟨above, habove, hne, hstarts, hproper⟩
          rcases List.prefix_concat_iff.mp hstarts with heq | hstarts
          · exact absurd heq hproper
          · by_cases heq : above = base
            · subst heq
              exact Or.inl (Request.eq_of_address_eq h.preorder habove hp)
            · exact Or.inr ⟨above, habove, hne, hstarts, heq⟩

/-- A node is below an aggregation when it lies inside of it. -/
theorem Represents.isBelow_iff {i j : Nat} {a b : Address} (ha : addresses[i]? = some a)
    (hb : addresses[j]? = some b) : forest.isBelow j i = true ↔ b.IsInside a := by
  have hlt := (List.getElem?_eq_some_iff.mp hb).1
  rw [h.length_eq] at hlt
  have hanchor := h.anchor_address htree hlaid ha
  rw [isBelow, List.contains_iff_mem, ancestors,
    h.mem_ancestorsFrom_iff (Nat.le_of_lt hlt) hb]
  constructor
  · rintro ⟨base, hbase, hinside⟩
    obtain rfl : a.steps = base :=
      (Address.mk.inj (Option.some.inj (hanchor.symm.trans hbase))).1
    exact hinside
  · intro hinside
    exact ⟨a.steps, hanchor, hinside⟩

/-- A node is within an aggregation when it belongs to it or lies inside of it. -/
theorem Represents.isWithin_iff {i j : Nat} {a b : Address} (ha : addresses[i]? = some a)
    (hb : addresses[j]? = some b) :
    forest.isWithin j (forest.anchor i) = true ↔ b.steps = a.steps ∨ b.IsInside a := by
  have hanchor := h.anchor_address htree hlaid ha
  rw [isWithin, Bool.or_eq_true, beq_iff_eq, h.anchor_eq_iff htree hlaid hb ha,
    h.isBelow_iff htree hlaid hanchor hb]
  rfl

end

/-- What the forest says of anchors, groups of legs and nesting is what the addresses say. -/
structure IsNestedBy (forest : Forest) (addresses : List Address) : Prop where
  anchor : ∀ (i : Nat) (a : Address), addresses[i]? = some a →
    addresses[forest.anchor i]? = some ⟨a.steps, 0⟩
  /-- The groups are the legs of one aggregation each, in order. -/
  legGroups : ∀ group ∈ forest.legGroups, group ≠ [] ∧ group.Pairwise (· < ·) ∧
    ∀ (i : Nat) (a : Address), i ∈ group → addresses[i]? = some a →
      ∀ j, j ∈ group ↔ ∃ (y : Node) (b : Address), forest[j]? = some y ∧ y.isLeg = true ∧
        addresses[j]? = some b ∧ b.steps = a.steps
  /-- Every leg is in one group, and only one. -/
  covered : ∀ (i : Nat) (n : Node), forest[i]? = some n →
    (n.isLeg = true ↔ ∃ group ∈ forest.legGroups, i ∈ group)
  disjoint : forest.legGroups.Pairwise List.Disjoint
  below : ∀ (i j : Nat) (a b : Address), addresses[i]? = some a → addresses[j]? = some b →
    (forest.isBelow j i = true ↔ b.IsInside a)
  within : ∀ (i j : Nat) (a b : Address), addresses[i]? = some a → addresses[j]? = some b →
    (forest.isWithin j (forest.anchor i) = true ↔ b.steps = a.steps ∨ b.IsInside a)

theorem Represents.isNestedBy (h : forest.Represents request addresses) (htree : request.IsTree)
    (hlaid : forest.IsLaidOut) : forest.IsNestedBy addresses where
  anchor := fun i a ha => h.anchor_address htree hlaid ha
  legGroups := by
    intro group hgroup
    obtain ⟨first, hfirst, rfl⟩ := mem_legGroups.mp hgroup
    refine ⟨?_, pairwise_legsOf forest _, ?_⟩
    · exact List.ne_nil_of_mem (mem_legsOf.mpr ⟨mem_legIndices.mp hfirst, rfl⟩)
    · intro i a hi ha j
      rw [mem_legsOf, ← (mem_legsOf.mp hi).2]
      constructor
      · rintro ⟨⟨y, hy, hleg⟩, hanchor⟩
        obtain ⟨b, hb⟩ := h.exists_address hy
        exact ⟨y, b, hy, hleg, hb, (h.anchor_eq_iff htree hlaid hb ha).mp hanchor⟩
      · rintro ⟨y, b, hy, hleg, hb, hsteps⟩
        exact ⟨⟨y, hy, hleg⟩, (h.anchor_eq_iff htree hlaid hb ha).mpr hsteps⟩
  covered := by
    intro i n hn
    rw [mem_group_iff, mem_legIndices]
    constructor
    · exact fun hleg => ⟨n, hn, hleg⟩
    · rintro ⟨x, hx, hleg⟩
      obtain rfl := Option.some.inj (hn.symm.trans hx)
      exact hleg
  disjoint := pairwise_disjoint_legGroups forest
  below := fun i j a b ha hb => h.isBelow_iff htree hlaid ha hb
  within := fun i j a b ha hb => h.isWithin_iff htree hlaid ha hb

/-- The forest of a request is the tree that the request spells out, in pre-order: every node is at
its address, and all that the forest says of parents, anchors, groups and nesting is read off the
addresses. -/
theorem exists_represents_of_ofJson {now : Calendar.Instant} {json : Json} {forest : Forest}
    (h : ofJson now json = .ok forest) (hkeys : json.hasDistinctKeys = true) :
    ∃ fields request addresses, json = .object fields ∧ request.IsSpelled now fields ∧
      forest.Represents request addresses ∧ forest.IsNestedBy addresses := by
  obtain ⟨request, hrequest, rfl⟩ := ofJson_spec h
  obtain ⟨fields, rfl, hspelled⟩ := Request.isSpelled_of_ofJson hrequest
  have htree := Request.isTree_of_ofJson hrequest hkeys
  have hrepresents := represents_ofRequest htree.nodes
  exact ⟨fields, request, request.addresses, rfl, hspelled, hrepresents,
    hrepresents.isNestedBy htree (isLaidOut_of_ofJson h hkeys)⟩

/-- The clause for the documents of one host. -/
def hostClause (host : String) : Json := .object [("term", .object [("host", .string host)])]

/-- The aggregation for the greatest size. -/
def greatestSize : Json := .object [("max", .object [("field", .string "size")])]

/-- A request with a block under both names, a number before a word, and a name at two levels. -/
def nestedRequest : Json :=
  .object [("query", hostClause "web"), ("aggs", .object [("dropped", greatestSize)]),
    ("aggregations", .object [("10", greatestSize),
      ("hosts", .object [
        ("filters", .object [("filters", .array [hostClause "web", hostClause "db"])]),
        ("aggs", .object [("hosts", greatestSize)])]),
      ("2", greatestSize)])]

/-- Both legs come before the metric below them, and numbers come last. -/
theorem nestedRequest_represented :
    ∃ forest, ofJson default nestedRequest = .ok forest ∧
      forest.map (fun n : Node => (n.name, n.parent, n.depth)) =
        [("query", none, 0), ("hosts", none, 0), ("hosts", none, 0), ("hosts", some 1, 1),
          ("2", none, 0), ("10", none, 0)] ∧
      nestedRequest.hasDistinctKeys = true ∧
      ∃ fields request addresses, nestedRequest = .object fields ∧
        request.IsSpelled default fields ∧
        forest.Represents request addresses ∧ forest.IsNestedBy addresses := by
  have hkeys : nestedRequest.hasDistinctKeys = true := by decide +kernel
  have hnodes : (ofJson default nestedRequest).map
      (fun forest => forest.map fun n : Node => (n.name, n.parent, n.depth)) =
        .ok [("query", none, 0), ("hosts", none, 0), ("hosts", none, 0), ("hosts", some 1, 1),
          ("2", none, 0), ("10", none, 0)] := rfl
  cases hforest : ofJson default nestedRequest with
  | error e =>
      rw [hforest] at hnodes
      cases hnodes
  | ok forest =>
      rw [hforest] at hnodes
      exact ⟨forest, rfl, Except.ok.inj hnodes, hkeys, exists_represents_of_ofJson hforest hkeys⟩

end Forest
end Rollup
