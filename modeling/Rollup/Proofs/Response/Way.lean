/-
# What a bucket asks of a row

Whether a row belongs into a bucket depends on the nodes on the way to it only, one of each
aggregation, and of a leg on whether the row matches. So a bucket within a filter aggregation asks
that the row matches a certain leg, and makes no difference between rows that look alike to the
nodes on the way.
-/

import Rollup.Proofs.Plan.Legs
import Rollup.Proofs.Response.Follow
import Rollup.Proofs.Rows.Sight

namespace Rollup.Forest

/-- Whether a node stands on a way and may put rows into the bucket of the step there. -/
def OnWay (forest : Forest) (steps : Path) (index : Nat) (node : Node) : Prop :=
  forest[index]? = some node ∧ node.isShown = true ∧
    ∃ base step rest, steps = base ++ step :: rest ∧
      forest.parentAt? none base = some node.parent ∧ step.name = node.name ∧
      ∃ row id, node.hits row step id = true

/-- What is shown of a question about rows that is decided on the way to a node. -/
structure Asks (forest : Forest) (steps : Path) (index : Nat) (asks : Row → Bool) : Prop where
  alike : ∀ row row', (∀ i y, forest.OnWay steps i y → y.SeesAlike row row') →
    asks row = asks row'
  within : ∀ i y, forest.OnWay steps i y → forest.isWithin index (forest.anchor i) = true
  enters : ∀ row anchor, asks row = true → forest.anchor anchor = anchor →
    forest.isWithin index anchor = true → forest.legsOf anchor ≠ [] →
    ∃ i y, forest.OnWay steps i y ∧ forest.anchor i = anchor ∧ y.matchesLeg row = true

variable {forest : Forest}

/-- Ways to one parent are of one length. -/
theorem length_eq_of_parentAt? {path path' : Path} {parent : Option Nat}
    (hpath : forest.parentAt? none path = some parent)
    (hpath' : forest.parentAt? none path' = some parent) : path.length = path'.length := by
  induction path using List.reverseRecOn generalizing path' parent with
  | nil =>
      obtain rfl : none = parent := Option.some.inj hpath
      rw [parentAt?_eq_none_iff.mp hpath']
  | append_singleton base segment ih =>
      rcases List.eq_nil_or_concat' path' with rfl | ⟨base', segment', rfl⟩
      · obtain rfl : none = parent := Option.some.inj hpath'
        exact absurd (parentAt?_eq_none_iff.mp hpath) (by simp)
      · rw [parentAt?_concat] at hpath hpath'
        obtain ⟨last, hlast, hmap⟩ := Option.bind_eq_some_iff.mp hpath
        obtain ⟨last', hlast', hmap'⟩ := Option.bind_eq_some_iff.mp hpath'
        obtain ⟨a, ha, rfl⟩ := Option.map_eq_some_iff.mp hmap
        obtain ⟨a', ha', heq⟩ := Option.map_eq_some_iff.mp hmap'
        obtain rfl := Option.some.inj heq
        obtain ⟨x, hx, -, rfl, -⟩ := first?_spec ha
        obtain ⟨x', hx', -, rfl, -⟩ := first?_spec ha'
        obtain rfl : x = x' := Option.some.inj (hx.symm.trans hx')
        rw [List.length_append, List.length_append, ih hlast hlast']
        rfl

/-- Of each aggregation one node at most stands on a way. -/
theorem IsLaidOut.eq_of_onWay (h : forest.IsLaidOut) {steps : Path} {i j : Nat} {x y : Node}
    (hx : forest.OnWay steps i x) (hy : forest.OnWay steps j y)
    (hanchor : forest.anchor i = forest.anchor j) : i = j := by
  obtain ⟨hi, hxshown, base, step, rest, rfl, hbase, hname, row, id, hhits⟩ := hx
  obtain ⟨hj, hyshown, base', step', rest', heq, hbase', hname', row', id', hhits'⟩ := hy
  by_contra hne
  have hakin := (h.anchor_eq_iff hi hj (Node.isQuery_of_isShown hxshown)
    (Node.isQuery_of_isShown hyshown)).mp hanchor
  have hlength := length_eq_of_parentAt? hbase (hakin.2.2.2 ▸ hbase')
  obtain ⟨-, hrest⟩ := List.append_inj heq hlength
  obtain ⟨rfl, -⟩ := List.cons.inj hrest
  have hnot := (h.sharesLegs hne hi hj hakin).not_hits hhits row' id'
  rw [hhits'] at hnot
  cases hnot

/-- The nodes on a way to the parent of a node are above the node. -/
theorem IsLaidOut.isWithin_of_onWay (h : forest.IsLaidOut) {path : Path} {i j : Nat}
    {x y : Node} (hj : forest[j]? = some y) (hpath : forest.parentAt? none path = some y.parent)
    (hx : forest.OnWay path i x) : forest.isWithin j (forest.anchor i) = true := by
  obtain ⟨hi, hshown, base, step, rest, rfl, hbase, hname, -⟩ := hx
  have hquery := Node.isQuery_of_isShown hshown
  rw [h.isWithin_iff hj (h.anchor_anchor hi hquery) hpath]
  refine Or.inr ⟨base, step, rest, rfl, ?_⟩
  rw [parentAt?_concat, hbase, Option.bind_some, hname, h.first?_eq hi hquery]
  rfl

/-- A longer way has the same nodes at its start. -/
theorem OnWay.append {steps : Path} {i : Nat} {x : Node} (hx : forest.OnWay steps i x)
    (more : Path) : forest.OnWay (steps ++ more) i x := by
  obtain ⟨hi, hshown, base, step, rest, rfl, hway⟩ := hx
  exact ⟨hi, hshown, base, step, rest ++ more, by simp, hway⟩

/-- What stands on a way is active. -/
theorem IsMarked.isActive_of_onWay (hmarked : forest.IsMarked) {steps : Path} {i : Nat} {x : Node}
    (hx : forest.OnWay steps i x) : x.isActive = true := by
  obtain ⟨hi, hshown, base, step, rest, -, -, -, row, id, hhits⟩ := hx
  refine (hmarked.isActive_or_isMetric (List.mem_of_getElem? hi) hshown).resolve_right ?_
  -- a metric holds no buckets
  intro hmetric
  unfold Node.hits at hhits
  cases haggregation : x.aggregation <;>
    simp_all [Node.isMetric, Aggregation.isMetric, Aggregation.metric?]

variable {row row' : Row} {root : Level} {path : Path}

/-- A node that takes rows into a bucket stands on the way. -/
theorem onWay_of_hits {base : Path} {segment : Segment} {last : Option Nat} {n : Node}
    (hbase : forest.parentAt? none base = some last) (hn : n ∈ forest)
    (hshown : n.isShown = true) (hparent : n.parent = last) (hname : n.name = segment.name)
    {id : String} (hhits : n.hits row segment id = true) :
    ∃ i, forest.OnWay (base ++ [segment]) i n := by
  obtain ⟨i, hi⟩ := List.getElem?_of_mem hn
  exact ⟨i, hi, hshown, base, segment, [], rfl, hparent ▸ hbase, hname.symm, row, id, hhits⟩

theorem isEntered_of_alike {base : Path} {segment : Segment} {last : Option Nat}
    (hbase : forest.parentAt? none base = some last)
    (halike : ∀ i y, forest.OnWay (base ++ [segment]) i y → y.SeesAlike row row') {id : String}
    (h : forest.isEntered row last segment id = true) :
    forest.isEntered row' last segment id = true := by
  rw [isEntered, List.any_eq_true] at h ⊢
  obtain ⟨n, hn, hnode⟩ := h
  simp only [Bool.and_eq_true, beq_iff_eq] at hnode ⊢
  obtain ⟨⟨⟨hshown, hparent⟩, hname⟩, henters⟩ := hnode
  obtain ⟨i, hway⟩ := onWay_of_hits hbase hn hshown hparent hname (Node.hits_of_enters henters)
  rw [(halike i n hway).enters] at henters
  exact ⟨n, hn, ⟨⟨hshown, hparent⟩, hname⟩, henters⟩

/-- Rows that look alike on the way follow the same paths. -/
theorem follow?_congr (halike : ∀ i y, forest.OnWay path i y → y.SeesAlike row row') :
    forest.follow? row none root path = forest.follow? row' none root path := by
  induction path using List.reverseRecOn with
  | nil => rfl
  | append_singleton base segment ih =>
      rw [follow?_concat, follow?_concat, ih fun i y hy => halike i y (hy.append _)]
      cases hlast : forest.follow? row' none root base with
      | none => rfl
      | some last =>
          have hbase := parentAt?_of_follow? hlast
          rw [Option.bind_some, Option.bind_some]
          congr 1
          funext b
          have hentered : forest.isEntered row last segment b.id =
              forest.isEntered row' last segment b.id :=
            Bool.eq_iff_iff.mpr ⟨isEntered_of_alike hbase halike,
              isEntered_of_alike hbase fun i y hy => (halike i y hy).symm⟩
          rw [hentered]

/-- All nodes of an aggregation with legs are legs. -/
theorem IsLaidOut.exists_leg_of_anchor (h : forest.IsLaidOut) {i : Nat} {y : Node}
    (hi : forest[i]? = some y) (hquery : y.isQuery = false)
    (hlegs : forest.legsOf (forest.anchor i) ≠ []) : ∃ l, y.aggregation = .leg l := by
  obtain ⟨j, hj⟩ := List.exists_mem_of_ne_nil _ hlegs
  obtain ⟨⟨z, hz, hleg⟩, hanchor⟩ := mem_legsOf.mp hj
  have hakin := (h.anchor_eq_iff hi hz hquery (Node.isQuery_of_isLeg hleg)).mp hanchor.symm
  by_cases hij : i = j
  · subst hij
    obtain rfl : y = z := Option.some.inj (hi.symm.trans hz)
    exact Node.exists_leg hleg
  · obtain ⟨l, l', hl, -⟩ := h.sharesLegs hij hi hz hakin
    exact ⟨l, hl⟩

/-- Inside a filter aggregation a row has matched a leg on the way. -/
theorem IsLaidOut.exists_leg_of_follow? (h : forest.IsLaidOut) {base : Path}
    {segment : Segment} {rest : Path} {parent : Option Nat} {a : Nat}
    (hfollow : forest.follow? row none root (base ++ segment :: rest) = some parent)
    (hat : forest.parentAt? none (base ++ [segment]) = some (some a))
    (hlegs : forest.legsOf a ≠ []) :
    ∃ i y, forest.OnWay (base ++ segment :: rest) i y ∧ forest.anchor i = a ∧
      y.matchesLeg row = true := by
  induction rest using List.reverseRecOn generalizing parent with
  | nil =>
      have hsome : forest.follow? row none root (base ++ [segment]) = some (some a) := by
        rw [hfollow, ← hat, parentAt?_of_follow? hfollow]
      obtain ⟨i, y, hi, hanchor, hshown, base', segment', b, heq, hname, hbase, hb, henters⟩ :=
        h.follow?_eq_some_iff.mp hsome
      obtain ⟨rfl, hsegment⟩ := List.append_inj' heq rfl
      obtain rfl : segment = segment' := by simpa using hsegment
      have hhits := Node.hits_of_enters henters
      refine ⟨i, y, ⟨hi, hshown, base, segment, [], rfl, parentAt?_of_follow? hbase, hname,
        row, b.id, hhits⟩, hanchor, ?_⟩
      obtain ⟨l, hl⟩ := h.exists_leg_of_anchor hi (Node.isQuery_of_isShown hshown)
        (hanchor ▸ hlegs)
      exact Node.matchesLeg_of_hits hl hhits
  | append_singleton front last ih =>
      have hsplit : base ++ segment :: (front ++ [last]) =
          (base ++ segment :: front) ++ [last] := by simp
      rw [hsplit, follow?_concat] at hfollow
      obtain ⟨earlier, hearlier, -⟩ := Option.bind_eq_some_iff.mp hfollow
      obtain ⟨i, y, hway, hanchor, hmatches⟩ := ih hearlier
      rw [hsplit]
      exact ⟨i, y, hway.append _, hanchor, hmatches⟩

/-! ## Buckets and metrics -/

/-- Whether the documents of a row belong into a bucket is decided on the way to it. -/
theorem IsLaidOut.asks_isCounted (h : forest.IsLaidOut) {segment : Segment} {j : Nat} {y : Node}
    (hj : forest[j]? = some y) (hshown : y.isShown = true)
    (hparent : forest.parentAt? none path = some y.parent) (hname : segment.name = y.name)
    (root : Level) :
    forest.Asks (path ++ [segment]) j fun row => forest.isCounted row root path segment where
  alike := by
    have hstep {row row' : Row}
        (halike : ∀ i y, forest.OnWay (path ++ [segment]) i y → y.SeesAlike row row')
        (hcounted : forest.isCounted row root path segment = true) :
        forest.isCounted row' root path segment = true := by
      obtain ⟨n, hn, hnshown, hnname, hfollow, b, hb, hhits⟩ := isCounted_iff.mp hcounted
      obtain ⟨i, hway⟩ := onWay_of_hits (parentAt?_of_follow? hfollow) hn hnshown rfl hnname hhits
      rw [(halike i n hway).hits] at hhits
      rw [follow?_congr fun i y hy => halike i y (hy.append _)] at hfollow
      exact isCounted_iff.mpr ⟨n, hn, hnshown, hnname, hfollow, b, hb, hhits⟩
    intro row row' halike
    exact Bool.eq_iff_iff.mpr ⟨hstep halike, hstep fun i y hy => (halike i y hy).symm⟩
  within := by
    rintro i x ⟨hi, hxshown, base, step, rest, heq, hbase, hxname, hhits⟩
    rcases List.eq_nil_or_concat' rest with rfl | ⟨front, last, rfl⟩
    · obtain ⟨rfl, hsegment⟩ := List.append_inj' heq rfl
      obtain rfl : segment = step := by simpa using hsegment
      have hakin : x.IsAkin y := ⟨Node.isQuery_of_isShown hxshown, Node.isQuery_of_isShown hshown,
        hxname.symm.trans hname, Option.some.inj (hbase.symm.trans hparent)⟩
      rw [isWithin, (h.anchor_eq_iff hi hj hakin.1 hakin.2.1).mpr hakin]
      simp
    · have hlist : path ++ [segment] = (base ++ step :: front) ++ [last] := by
        rw [heq]
        simp
      obtain ⟨rfl, -⟩ := List.append_inj' hlist rfl
      exact h.isWithin_of_onWay hj hparent ⟨hi, hxshown, base, step, front, rfl, hbase, hxname,
        hhits⟩
  enters := by
    intro row a hcounted ha hwithin hlegs
    obtain ⟨n, hn, hnshown, hnname, hfollow, b, hb, hhits⟩ := isCounted_iff.mp hcounted
    rcases (h.isWithin_iff hj ha hparent).mp hwithin with hanchor | ⟨base, step, rest, rfl, hat⟩
    · have hbase := parentAt?_of_follow? hfollow
      obtain ⟨i, hway⟩ := onWay_of_hits hbase hn hnshown rfl hnname hhits
      have hakin : n.IsAkin y := ⟨Node.isQuery_of_isShown hnshown, Node.isQuery_of_isShown hshown,
        hnname.trans hname, Option.some.inj (hbase.symm.trans hparent)⟩
      have hsame := (h.anchor_eq_iff hway.1 hj hakin.1 hakin.2.1).mpr hakin
      obtain ⟨l, hl⟩ := h.exists_leg_of_anchor hway.1 hakin.1 (by rwa [hsame, hanchor])
      exact ⟨i, n, hway, hsame.trans hanchor, Node.matchesLeg_of_hits hl hhits⟩
    · obtain ⟨i, x, hway, hanchor, hmatches⟩ := h.exists_leg_of_follow? hfollow hat hlegs
      exact ⟨i, x, hway.append _, hanchor, hmatches⟩

/-- Whether a row comes to a metric is decided on the way to it. -/
theorem IsLaidOut.asks_follow? (h : forest.IsLaidOut) {j : Nat} {y : Node}
    (hj : forest[j]? = some y) (hleg : y.isLeg = false) (hquery : y.isQuery = false)
    (hparent : forest.parentAt? none path = some y.parent) (root : Level) :
    forest.Asks path j fun row => forest.follow? row none root path == some y.parent where
  alike := by
    intro row row' halike
    rw [follow?_congr halike]
  within := fun i x hx => h.isWithin_of_onWay hj hparent hx
  enters := by
    intro row a hfollow ha hwithin hlegs
    rw [beq_iff_eq] at hfollow
    rcases (h.isWithin_iff hj ha hparent).mp hwithin with hanchor | ⟨base, step, rest, rfl, hat⟩
    · obtain ⟨l, hl⟩ := h.exists_leg_of_anchor hj hquery (by rwa [hanchor])
      rw [Node.isLeg_of_eq hl] at hleg
      cases hleg
    · exact h.exists_leg_of_follow? hfollow hat hlegs

end Rollup.Forest
