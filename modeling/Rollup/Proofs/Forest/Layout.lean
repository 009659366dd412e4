/-
# How a request is laid out

The nodes of a request stand in pre-order. The query, if there is one, is the first node and the
only one of its kind. Nodes of one aggregation stand side by side and are legs that differ in
their labels, and all of them come before the nodes below the aggregation, which name the first.
-/

import Rollup.Forest.OfRequest
import Rollup.Proofs.Request.Branches

namespace Rollup

namespace Node

/-- Nodes of one aggregation. -/
def IsAkin (first second : Node) : Prop :=
  first.isQuery = false ∧ second.isQuery = false ∧ first.name = second.name ∧
    first.parent = second.parent

/-- Different legs of one aggregation, which is one that lists its legs. -/
def SharesLegs (first second : Node) : Prop :=
  ∃ l l', first.aggregation = .leg l ∧ second.aggregation = .leg l' ∧ l.shape = l'.shape ∧
    l.labels = l'.labels ∧ l.shape ≠ .single ∧ l.index ≠ l'.index

/-- Whether a leg stands among the labels of its aggregation. -/
def IsLabelled (n : Node) : Prop := ∀ l, n.aggregation = .leg l → l.index < l.labels.length

theorem exists_leg {n : Node} (h : n.isLeg = true) : ∃ l, n.aggregation = .leg l := by
  unfold isLeg at h
  cases hkind : n.aggregation with
  | leg l => exact ⟨l, rfl⟩
  | _ => simp [hkind, Aggregation.isLeg, Aggregation.leg?] at h

theorem exists_metric {n : Node} (h : n.isMetric = true) : ∃ m, n.aggregation = .metric m := by
  unfold isMetric at h
  cases hkind : n.aggregation with
  | metric m => exact ⟨m, rfl⟩
  | _ => simp [hkind, Aggregation.isMetric, Aggregation.metric?] at h

theorem isLeg_of_eq {n : Node} {l : Leg} (h : n.aggregation = .leg l) : n.isLeg = true := by
  rw [isLeg, h]
  rfl

theorem isQuery_of_isLeg {n : Node} (h : n.isLeg = true) : n.isQuery = false := by
  obtain ⟨l, hl⟩ := exists_leg h
  rw [isQuery, hl]
  rfl

theorem terms?_of_isLeg {n : Node} (h : n.isLeg = true) : n.aggregation.terms? = none := by
  obtain ⟨l, hl⟩ := exists_leg h
  rw [hl]
  rfl

theorem terms?_of_isMetric {n : Node} (h : n.isMetric = true) :
    n.aggregation.terms? = none := by
  obtain ⟨m, hm⟩ := exists_metric h
  rw [hm]
  rfl

theorem isLeg_of_metric {n : Node} {m : Metric} (h : n.aggregation = .metric m) :
    n.isLeg = false := by
  rw [isLeg, h]
  rfl

theorem isQuery_of_metric {n : Node} {m : Metric} (h : n.aggregation = .metric m) :
    n.isQuery = false := by
  rw [isQuery, h]
  rfl

theorem isShown_of_metric {n : Node} {m : Metric} (h : n.aggregation = .metric m)
    (hactive : n.isActive = true) : n.isShown = true := by
  simp [isShown, isQuery_of_metric h, hactive]

theorem IsAkin.symm {first second : Node} (h : first.IsAkin second) : second.IsAkin first :=
  ⟨h.2.1, h.1, h.2.2.1.symm, h.2.2.2.symm⟩

theorem IsAkin.trans {first second third : Node} (h : first.IsAkin second)
    (h' : second.IsAkin third) : first.IsAkin third :=
  ⟨h.1, h'.2.1, h.2.2.1.trans h'.2.2.1, h.2.2.2.trans h'.2.2.2⟩

theorem IsAkin.refl {n : Node} (h : n.isQuery = false) : n.IsAkin n := ⟨h, h, rfl, rfl⟩

end Node

namespace Forest

open Branch

/-- A forest that is read lays out a request that is read. -/
theorem ofJson_spec {now : Calendar.Instant} {json : Json} {forest : Forest}
    (h : ofJson now json = .ok forest) :
    ∃ request, Request.ofJson now json = .ok request ∧ forest = ofRequest request := by
  cases hrequest : Request.ofJson now json with
  | error e => simp [ofJson, hrequest, bind, Except.bind] at h
  | ok request =>
      cases horders : checkOrders (ofRequest request) with
      | error e => simp [ofJson, hrequest, horders, bind, Except.bind] at h
      | ok u =>
          simp only [ofJson, hrequest, horders, bind, Except.bind, pure, Except.pure,
            Except.ok.injEq] at h
          exact ⟨request, rfl, h.symm⟩

/-! ## The query -/

section

variable {p : Aggregation → Prop}

mutual

theorem forall_mem_ofBranch (parent : Option Nat) (depth start : Nat) (branch : Branch)
    (hbranch : branch.Everywhere fun _ legs _ => ∀ a ∈ legs, p a) :
    ∀ node ∈ ofBranch parent depth start branch, p node.aggregation := by
  cases hbranch with
  | @node name legs children hlegs hchildren =>
      intro node hnode
      rw [ofBranch, List.mem_append] at hnode
      rcases hnode with hroot | hbelow
      · obtain ⟨leg, hleg, rfl⟩ := List.mem_map.mp hroot
        exact hlegs leg hleg
      · exact forall_mem_ofBranches _ _ _ children hchildren node hbelow

/-- What holds of the aggregations of branches holds of their nodes. -/
theorem forall_mem_ofBranches (parent : Option Nat) (depth start : Nat)
    (branches : List Branch)
    (hbranches : ∀ branch ∈ branches, branch.Everywhere fun _ legs _ => ∀ a ∈ legs, p a) :
    ∀ node ∈ ofBranches parent depth start branches, p node.aggregation := by
  cases branches with
  | nil => simp [ofBranches]
  | cons branch rest =>
      intro node hnode
      rw [ofBranches, List.mem_append] at hnode
      rcases hnode with hfirst | hlater
      · exact forall_mem_ofBranch _ _ _ branch (hbranches branch (by simp)) node hfirst
      · exact forall_mem_ofBranches _ _ _ rest
          (fun other hother => hbranches other (by simp [hother])) node hlater

end

end

/-- No node of an aggregation is the query. -/
theorem isQuery_of_mem_ofBranches (parent : Option Nat) (depth start : Nat)
    (branches : List Branch)
    (hbranches : ∀ branch ∈ branches, branch.Everywhere fun _ legs _ => AreNodes legs) :
    ∀ node ∈ ofBranches parent depth start branches, node.isQuery = false :=
  forall_mem_ofBranches parent depth start branches fun branch hbranch =>
    (hbranches branch hbranch).imp fun _ _ _ hlegs => hlegs.isQuery

mutual

theorem decisions_of_mem_ofBranch (parent : Option Nat) (depth start : Nat) (branch : Branch) :
    ∀ node ∈ ofBranch parent depth start branch, node.decisions = {} := by
  cases branch with
  | node name legs children =>
      intro node hnode
      rw [ofBranch, List.mem_append] at hnode
      rcases hnode with hroot | hbelow
      · obtain ⟨leg, -, rfl⟩ := List.mem_map.mp hroot
        rfl
      · exact decisions_of_mem_ofBranches _ _ _ children node hbelow

theorem decisions_of_mem_ofBranches (parent : Option Nat) (depth start : Nat)
    (branches : List Branch) :
    ∀ node ∈ ofBranches parent depth start branches, node.decisions = {} := by
  cases branches with
  | nil => simp [ofBranches]
  | cons branch rest =>
      intro node hnode
      rw [ofBranches, List.mem_append] at hnode
      rcases hnode with hfirst | hlater
      · exact decisions_of_mem_ofBranch _ _ _ branch node hfirst
      · exact decisions_of_mem_ofBranches _ _ _ rest node hlater

end

/-- Nothing is decided yet about a forest that is read. -/
theorem decisions_of_ofJson {now : Calendar.Instant} {json : Json} {forest : Forest}
    (h : ofJson now json = .ok forest) : ∀ node ∈ forest, node.decisions = {} := by
  obtain ⟨request, -, rfl⟩ := ofJson_spec h
  intro node hnode
  rw [ofRequest, List.mem_append] at hnode
  rcases hnode with hquery | hbranch
  · obtain ⟨query, -, rfl⟩ := List.mem_map.mp hquery
    rfl
  · exact decisions_of_mem_ofBranches _ _ _ _ node hbranch

/-- The query of a request that has one is the first node, and the only one of its kind. -/
theorem query_of_ofJson {now : Calendar.Instant} {json clause : Json} {forest : Forest}
    {filter : Option Filter} (h : ofJson now json = .ok forest)
    (hclause : json.field? "query" = some clause)
    (hfilter : Clause.compile now clause = .ok filter) (hsome : clause.isNull = false) :
    ∃ rest, forest =
        Node.new "query" none 0 false (.query ⟨filter, Clause.hasData clause⟩) :: rest ∧
      ∀ node ∈ rest, node.isQuery = false := by
  obtain ⟨request, hrequest, rfl⟩ := ofJson_spec h
  obtain ⟨fields, rfl, hquery, hbranches, -⟩ := Request.ofJson_spec hrequest
  have hget : Fields.get? fields "query" = some clause := hclause
  have hread : request.query = some (.query ⟨filter, Clause.hasData clause⟩) := by
    unfold Request.readQuery at hquery
    rw [hget] at hquery
    cases clause with
    | object inner => simpa [Aggregation.queryOf, hfilter, Except.map] using hquery.symm
    | null => simp [Json.isNull] at hsome
    | bool b => simp at hquery
    | number n => simp at hquery
    | string t => simp at hquery
    | array items => simp at hquery
  refine ⟨_, by rw [ofRequest, hread]; rfl, ?_⟩
  apply isQuery_of_mem_ofBranches
  intro branch hbranch
  obtain ⟨name, hbranchRead⟩ := hbranches branch hbranch
  exact hbranchRead.nodes

/-! ## Neighbours and parents -/

/-- Nodes of one aggregation stand side by side and are different legs. -/
def HasNeighbours (nodes : List Node) : Prop :=
  ∀ (i j : Nat) (x y : Node), i < j → nodes[i]? = some x → nodes[j]? = some y → x.IsAkin y →
    x.SharesLegs y ∧ ∀ m, i < m → m < j → ∃ z, nodes[m]? = some z ∧ x.IsAkin z

/-- The parent of a node is the first node of an aggregation that ends before the node. Of nodes
that stand at a place in a longer list only the parents within are meant. -/
def HasParents (start : Nat) (nodes : List Node) : Prop :=
  ∀ j y a, nodes[j]? = some y → y.parent = some a → start ≤ a →
    ∃ x, nodes[a - start]? = some x ∧ x.isQuery = false ∧
      ∀ m z, nodes[m]? = some z → x.IsAkin z → a ≤ start + m ∧ m < j

/-- The parent of a node is the common one, or a node that comes before. -/
def HasParentsBefore (parent : Option Nat) (start : Nat) (nodes : List Node) : Prop :=
  ∀ i n, nodes[i]? = some n → n.parent = parent ∨
    ∃ a, n.parent = some a ∧ start ≤ a ∧ a < start + i

/-- The names of the nodes below the common parent. -/
def HasNames (parent : Option Nat) (names : List String) (nodes : List Node) : Prop :=
  ∀ n ∈ nodes, n.parent = parent → n.name ∈ names

/-- What is shown of the nodes of branches below one parent, the first of them at `start`. -/
structure IsLaid (parent : Option Nat) (names : List String) (start : Nat)
    (nodes : List Node) : Prop where
  neighbours : HasNeighbours nodes
  parents : HasParents start nodes
  before : HasParentsBefore parent start nodes
  names : HasNames parent names nodes
  labelled : ∀ n ∈ nodes, n.IsLabelled

theorem HasNeighbours.append {first second : List Node} (hfirst : HasNeighbours first)
    (hsecond : HasNeighbours second)
    (hcross : ∀ x ∈ first, ∀ y ∈ second, ¬ x.IsAkin y) : HasNeighbours (first ++ second) := by
  intro i j x y hij hx hy hakin
  by_cases hj : j < first.length
  · rw [List.getElem?_append_left hj] at hy
    rw [List.getElem?_append_left (by omega)] at hx
    obtain ⟨hshares, hbetween⟩ := hfirst i j x y hij hx hy hakin
    refine ⟨hshares, ?_⟩
    intro m him hmj
    rw [List.getElem?_append_left (by omega)]
    exact hbetween m him hmj
  · rw [List.getElem?_append_right (by omega)] at hy
    by_cases hi : i < first.length
    · rw [List.getElem?_append_left hi] at hx
      exact absurd hakin
        (hcross x (List.mem_of_getElem? hx) y (List.mem_of_getElem? hy))
    · rw [List.getElem?_append_right (by omega)] at hx
      obtain ⟨hshares, hbetween⟩ := hsecond _ _ x y (by omega) hx hy hakin
      refine ⟨hshares, ?_⟩
      intro m him hmj
      rw [List.getElem?_append_right (by omega)]
      exact hbetween _ (by omega) (by omega)

/-- Parents within the second part of a list, and within the first. -/
theorem HasParents.append {start : Nat} {first second : List Node}
    (hfirst : HasParents start first) (hsecond : HasParents (start + first.length) second)
    (hcross : ∀ x ∈ first, ∀ y ∈ second, ¬ x.IsAkin y)
    (hbetween : ∀ y ∈ second, ∀ a, y.parent = some a → start ≤ a → a < start + first.length →
      ∃ x, first[a - start]? = some x ∧ x.isQuery = false ∧
        ∀ m z, first[m]? = some z → x.IsAkin z → a ≤ start + m) :
    HasParents start (first ++ second) := by
  intro j y a hy hparent hle
  by_cases hj : j < first.length
  · rw [List.getElem?_append_left hj] at hy
    obtain ⟨x, hx, hquery, hakin⟩ := hfirst j y a hy hparent hle
    refine ⟨x, ?_, hquery, ?_⟩
    · rw [List.getElem?_append_left (List.getElem?_eq_some_iff.mp hx).1]
      exact hx
    · intro m z hz hxz
      by_cases hm : m < first.length
      · rw [List.getElem?_append_left hm] at hz
        exact hakin m z hz hxz
      · rw [List.getElem?_append_right (by omega)] at hz
        exact absurd hxz
          (hcross x (List.mem_of_getElem? hx) z (List.mem_of_getElem? hz))
  · rw [List.getElem?_append_right (by omega)] at hy
    by_cases ha : a < start + first.length
    · obtain ⟨x, hx, hquery, hakin⟩ := hbetween y (List.mem_of_getElem? hy) a hparent hle ha
      refine ⟨x, ?_, hquery, ?_⟩
      · rw [List.getElem?_append_left (by omega)]
        exact hx
      · intro m z hz hxz
        by_cases hm : m < first.length
        · rw [List.getElem?_append_left hm] at hz
          exact ⟨hakin m z hz hxz, by omega⟩
        · rw [List.getElem?_append_right (by omega)] at hz
          exact absurd hxz
            (hcross x (List.mem_of_getElem? hx) z (List.mem_of_getElem? hz))
    · obtain ⟨x, hx, hquery, hakin⟩ := hsecond _ y a hy hparent (by omega)
      refine ⟨x, ?_, hquery, ?_⟩
      · rw [List.getElem?_append_right (by omega), ← hx]
        congr 1
        omega
      · intro m z hz hxz
        by_cases hm : m < first.length
        · rw [List.getElem?_append_left hm] at hz
          exact absurd hxz.symm
            (hcross z (List.mem_of_getElem? hz) x (List.mem_of_getElem? hx))
        · rw [List.getElem?_append_right (by omega)] at hz
          obtain ⟨hfrom, hbefore⟩ := hakin _ z hz hxz
          omega

/-- The nodes of one aggregation without those below. -/
theorem isLaid_roots (name : String) {legs : List Aggregation} (hlegs : AreNodes legs)
    {parent : Option Nat} {start : Nat} (hparent : ∀ a, parent = some a → a < start)
    (depth : Nat) (hasChildren : Bool) :
    IsLaid parent [name] start (legs.map (Node.new name parent depth hasChildren)) where
  neighbours := by
    intro i j x y hij hx hy hakin
    rw [List.getElem?_map, Option.map_eq_some_iff] at hx hy
    obtain ⟨a, ha, rfl⟩ := hx
    obtain ⟨a', ha', rfl⟩ := hy
    have hj := (List.getElem?_eq_some_iff.mp ha').1
    constructor
    · cases hlegs with
      | single b hnodes => simp [hnodes] at hj; omega
      | legs shape labels hsome hlabels hsingle hat =>
          obtain ⟨filter, rfl⟩ := hat i a ha
          obtain ⟨filter', rfl⟩ := hat j a' ha'
          refine ⟨_, _, rfl, rfl, rfl, rfl, ?_, by simpa using Nat.ne_of_lt hij⟩
          intro hshape
          have hlength := hsingle hshape
          omega
    · intro m him hmj
      have hm : m < legs.length := by omega
      refine ⟨Node.new name parent depth hasChildren legs[m], ?_, hakin.1, ?_, rfl, rfl⟩
      · rw [List.getElem?_map, List.getElem?_eq_getElem hm]
        rfl
      · exact hlegs.isQuery _ (List.getElem_mem hm)
  parents := by
    intro j y a hy hyparent hle
    rw [List.getElem?_map, Option.map_eq_some_iff] at hy
    obtain ⟨leg, -, rfl⟩ := hy
    have := hparent a hyparent
    omega
  before := by
    intro i n hn
    rw [List.getElem?_map, Option.map_eq_some_iff] at hn
    obtain ⟨leg, -, rfl⟩ := hn
    exact Or.inl rfl
  names := by
    intro n hn _
    obtain ⟨leg, -, rfl⟩ := List.mem_map.mp hn
    simp [Node.new]
  labelled := by
    intro n hn l hl
    obtain ⟨a, ha, rfl⟩ := List.mem_map.mp hn
    obtain rfl : a = .leg l := hl
    obtain ⟨i, hi⟩ := List.getElem?_of_mem ha
    cases hlegs with
    | single b hnodes hleg =>
        rw [hnodes, List.mem_singleton] at ha
        simp [← ha, Aggregation.isLeg, Aggregation.leg?] at hleg
    | legs shape labels hsome hlabels hsingle hat =>
        obtain ⟨filter, hfilter⟩ := hat i _ hi
        obtain rfl := Aggregation.leg.inj hfilter
        simpa [hlabels] using (List.getElem?_eq_some_iff.mp hi).1

/-- The nodes of one aggregation are not akin to those below, whose parents come later. -/
theorem IsLaid.not_akin_below {parent : Option Nat} {start : Nat} {names : List String}
    {roots nodes : List Node} (hparent : ∀ a, parent = some a → a < start)
    (hroots : ∀ n ∈ roots, n.parent = parent)
    (hnodes : IsLaid (some start) names (start + roots.length) nodes) :
    ∀ x ∈ roots, ∀ y ∈ nodes, ¬ x.IsAkin y := by
  intro x hx y hy hakin
  obtain ⟨i, hi⟩ := List.getElem?_of_mem hy
  have heq : y.parent = parent := hakin.2.2.2.symm.trans (hroots x hx)
  rcases hnodes.before i y hi with hstart | ⟨a, ha, hle, -⟩
  · have := hparent start (heq.symm.trans hstart)
    omega
  · have := hparent a (heq.symm.trans ha)
    omega

/-- An aggregation with the nodes below it. -/
theorem IsLaid.branch {name : String} {legs : List Aggregation} (hlegs : AreNodes legs)
    {parent : Option Nat} {start : Nat} (hparent : ∀ a, parent = some a → a < start)
    (depth : Nat) (hasChildren : Bool) {names : List String} {nodes : List Node}
    (hnodes : IsLaid (some start) names
      (start + (legs.map (Node.new name parent depth hasChildren)).length) nodes) :
    IsLaid parent [name] start
      (legs.map (Node.new name parent depth hasChildren) ++ nodes) := by
  have hroots := isLaid_roots name hlegs hparent depth hasChildren
  have hrootsParent : ∀ n ∈ legs.map (Node.new name parent depth hasChildren),
      n.parent = parent := by
    intro n hn
    obtain ⟨leg, -, rfl⟩ := List.mem_map.mp hn
    rfl
  have hcross := hnodes.not_akin_below hparent hrootsParent
  have hpositive : 0 < legs.length := List.length_pos_iff.mpr hlegs.ne_nil
  exact
    { neighbours := hroots.neighbours.append hnodes.neighbours hcross
      parents := by
        refine hroots.parents.append hnodes.parents hcross ?_
        intro y hy a ha hle hlt
        obtain ⟨i, hi⟩ := List.getElem?_of_mem hy
        rcases hnodes.before i y hi with hstart | ⟨a', ha', hle', -⟩
        · obtain rfl : start = a := Option.some.inj (hstart.symm.trans ha)
          refine ⟨Node.new name parent depth hasChildren legs[0], ?_, ?_, ?_⟩
          · rw [Nat.sub_self, List.getElem?_map, List.getElem?_eq_getElem hpositive]
            rfl
          · exact hlegs.isQuery _ (List.getElem_mem hpositive)
          · intro m z _ _
            omega
        · have := Option.some.inj (ha.symm.trans ha')
          omega
      before := by
        intro i n hn
        by_cases hi : i < (legs.map (Node.new name parent depth hasChildren)).length
        · rw [List.getElem?_append_left hi] at hn
          exact hroots.before i n hn
        · rw [List.getElem?_append_right (by omega)] at hn
          rcases hnodes.before _ n hn with hstart | ⟨a, ha, hle, hlt⟩
          · rw [List.length_map] at hi
            exact Or.inr ⟨start, hstart, Nat.le_refl _, by omega⟩
          · exact Or.inr ⟨a, ha, by omega, by omega⟩
      names := by
        intro n hn hp
        rcases List.mem_append.mp hn with hroot | hbelow
        · exact hroots.names n hroot hp
        · obtain ⟨i, hi⟩ := List.getElem?_of_mem hbelow
          rcases hnodes.before i n hi with hstart | ⟨a, ha, hle, -⟩
          · have := hparent start (hp.symm.trans hstart)
            omega
          · have := hparent a (hp.symm.trans ha)
            omega
      labelled := by
        intro n hn
        rcases List.mem_append.mp hn with hroot | hbelow
        · exact hroots.labelled n hroot
        · exact hnodes.labelled n hbelow }

/-- Aggregations side by side. -/
theorem IsLaid.append {parent : Option Nat} {start : Nat} {names names' : List String}
    {first second : List Node} (hparent : ∀ a, parent = some a → a < start)
    (hfirst : IsLaid parent names start first)
    (hsecond : IsLaid parent names' (start + first.length) second)
    (hnames : names.Disjoint names') :
    IsLaid parent (names ++ names') start (first ++ second) := by
  have hcross : ∀ x ∈ first, ∀ y ∈ second, ¬ x.IsAkin y := by
    intro x hx y hy hakin
    obtain ⟨i, hi⟩ := List.getElem?_of_mem hx
    obtain ⟨j, hj⟩ := List.getElem?_of_mem hy
    have hlt := (List.getElem?_eq_some_iff.mp hi).1
    have heq := hakin.2.2.2
    rcases hfirst.before i x hi with hx' | ⟨a, ha, hle, hlt'⟩
    · rcases hsecond.before j y hj with hy' | ⟨b, hb, hle, -⟩
      · exact hnames (hfirst.names x hx hx') (hakin.2.2.1 ▸ hsecond.names y hy hy')
      · have := hparent b (hx'.symm.trans (heq.trans hb))
        omega
    · rcases hsecond.before j y hj with hy' | ⟨b, hb, hle', -⟩
      · have := hparent a (hy'.symm.trans (heq.symm.trans ha))
        omega
      · have := Option.some.inj (ha.symm.trans (heq.trans hb))
        omega
  exact
    { neighbours := hfirst.neighbours.append hsecond.neighbours hcross
      parents := by
        refine hfirst.parents.append hsecond.parents hcross ?_
        intro y hy a ha hle hlt
        obtain ⟨i, hi⟩ := List.getElem?_of_mem hy
        rcases hsecond.before i y hi with hp | ⟨b, hb, hle', -⟩
        · have := hparent a (hp.symm.trans ha)
          omega
        · have := Option.some.inj (ha.symm.trans hb)
          omega
      before := by
        intro i n hn
        by_cases hi : i < first.length
        · rw [List.getElem?_append_left hi] at hn
          exact hfirst.before i n hn
        · rw [List.getElem?_append_right (by omega)] at hn
          rcases hsecond.before _ n hn with hp | ⟨a, ha, hle, hlt⟩
          · exact Or.inl hp
          · exact Or.inr ⟨a, ha, by omega, by omega⟩
      names := by
        intro n hn hp
        rcases List.mem_append.mp hn with hmem | hmem
        · exact List.mem_append.mpr (Or.inl (hfirst.names n hmem hp))
        · exact List.mem_append.mpr (Or.inr (hsecond.names n hmem hp))
      labelled := by
        intro n hn
        rcases List.mem_append.mp hn with hmem | hmem
        · exact hfirst.labelled n hmem
        · exact hsecond.labelled n hmem }

mutual

theorem isLaid_ofBranch (parent : Option Nat) (depth start : Nat) (branch : Branch)
    (hparent : ∀ a, parent = some a → a < start)
    (hnodes : branch.Everywhere fun _ legs _ => AreNodes legs)
    (hnames : branch.Everywhere DistinctNames) :
    IsLaid parent [branch.name] start (ofBranch parent depth start branch) := by
  cases hnodes with
  | @node name legs children hlegs hbelow =>
      cases hnames with
      | node hdistinct hbelowNames =>
          rw [ofBranch]
          apply IsLaid.branch hlegs hparent
          apply isLaid_ofBranches _ _ _ children _ hbelow hbelowNames hdistinct
          intro a ha
          obtain rfl := Option.some.inj ha
          have := List.length_pos_iff.mpr hlegs.ne_nil
          rw [List.length_map]
          omega

/-- The nodes of branches below one parent, of which none has the name of another. -/
theorem isLaid_ofBranches (parent : Option Nat) (depth start : Nat) (branches : List Branch)
    (hparent : ∀ a, parent = some a → a < start)
    (hnodes : ∀ branch ∈ branches, branch.Everywhere fun _ legs _ => AreNodes legs)
    (hnames : ∀ branch ∈ branches, branch.Everywhere DistinctNames)
    (hdistinct : (branches.map Branch.name).Nodup) :
    IsLaid parent (branches.map Branch.name) start
      (ofBranches parent depth start branches) := by
  cases branches with
  | nil =>
      rw [ofBranches]
      exact
        { neighbours := by simp [HasNeighbours]
          parents := by simp [HasParents]
          before := by simp [HasParentsBefore]
          names := by simp [HasNames]
          labelled := by simp }
  | cons branch rest =>
      rw [List.map_cons, List.nodup_cons] at hdistinct
      have hfirst := isLaid_ofBranch parent depth start branch hparent
        (hnodes branch (by simp)) (hnames branch (by simp))
      have hrest := isLaid_ofBranches parent depth
        (start + (ofBranch parent depth start branch).length) rest
        (fun a ha => Nat.lt_of_lt_of_le (hparent a ha) (Nat.le_add_right _ _))
        (fun other hother => hnodes other (by simp [hother]))
        (fun other hother => hnames other (by simp [hother])) hdistinct.2
      rw [ofBranches]
      exact hfirst.append hparent hrest (by simpa using hdistinct.1)

end

/-! ## The whole forest -/

/-- A forest in which the nodes of one aggregation stand side by side as different legs, and come
before those below, which name the first of them. -/
structure IsLaidOut (forest : Forest) : Prop where
  neighbours : HasNeighbours forest
  parents : HasParents 0 forest
  labelled : ∀ n ∈ forest, n.IsLabelled

/-- What the query of a request is read into. -/
theorem isQuery_of_readQuery {now : Calendar.Instant} {fields : Fields} {query : Aggregation}
    (h : Request.readQuery now fields = .ok (some query)) : query.isQuery = true := by
  unfold Request.readQuery at h
  split at h
  · cases h
  · cases h
  · rename_i clause _
    unfold Aggregation.queryOf at h
    cases hcompile : Clause.compile now (.object clause) with
    | error e => simp [hcompile, Except.map] at h
    | ok filter =>
        simp only [hcompile, Except.map, Except.ok.injEq, Option.some.injEq] at h
        rw [← h]
        rfl
  · cases h

/-- A forest that is read from a request without repeated keys is laid out. -/
theorem isLaidOut_of_ofJson {now : Calendar.Instant} {json : Json} {forest : Forest}
    (h : ofJson now json = .ok forest) (hkeys : json.hasDistinctKeys = true) :
    forest.IsLaidOut := by
  obtain ⟨request, hrequest, rfl⟩ := ofJson_spec h
  obtain ⟨fields, rfl, hquery, hbranches, hdistinct⟩ := Request.ofJson_spec hrequest
  have hlaid := isLaid_ofBranches none 0 request.query.toList.length request.branches
    (fun a ha => nomatch ha)
    (fun branch hbranch => (hbranches branch hbranch).elim fun _ hread => hread.nodes)
    (fun branch hbranch => (hbranches branch hbranch).elim fun _ hread => hread.names hkeys)
    (hdistinct hkeys)
  rw [ofRequest]
  cases hread : request.query with
  | none =>
      rw [hread] at hlaid
      exact ⟨hlaid.neighbours, hlaid.parents, hlaid.labelled⟩
  | some query =>
      rw [hread] at hlaid
      have hkind : query.isQuery = true := isQuery_of_readQuery (hquery.trans (by rw [hread]))
      have hcross : ∀ x ∈ [Node.new "query" none 0 false query],
          ∀ y ∈ ofBranches none 0 1 request.branches, ¬ x.IsAkin y := by
        intro x hx y _ hakin
        obtain rfl := List.mem_singleton.mp hx
        exact Bool.false_ne_true (hakin.1.symm.trans hkind)
      have hlone : HasNeighbours [Node.new "query" none 0 false query] := by
        intro i j x y hij hx hy
        have := (List.getElem?_eq_some_iff.mp hy).1
        simp at this
        omega
      have htop : HasParents 0 [Node.new "query" none 0 false query] := by
        intro j y a hy hparent
        obtain rfl := List.mem_singleton.mp (List.mem_of_getElem? hy)
        cases hparent
      refine ⟨hlone.append hlaid.neighbours hcross, htop.append hlaid.parents hcross ?_, ?_⟩
      · intro y hy a ha hle hlt
        obtain ⟨i, hi⟩ := List.getElem?_of_mem hy
        rcases hlaid.before i y hi with hnone | ⟨b, hb, hle', -⟩
        · rw [hnone] at ha
          cases ha
        · obtain rfl := Option.some.inj (ha.symm.trans hb)
          simp at hle' hlt
          omega
      · intro n hn
        rcases List.mem_append.mp hn with htop | hbelow
        · obtain rfl := List.mem_singleton.mp htop
          intro l hl
          obtain rfl : query = .leg l := hl
          cases hkind
        · exact hlaid.labelled n hbelow

end Forest
end Rollup
