/-
# A row through the forest

A row visits the nodes in order. Of the legs of one aggregation it matches one at most, so the
aggregation takes it to one place at most, which is settled when the last of its legs is passed;
every node below comes later. In the end the row has followed exactly the paths that its own columns
tell, and has left its documents once in every bucket on them and its values in every metric.
-/

import Rollup.Proofs.Plan.Legs
import Rollup.Proofs.Response.Visit

namespace Rollup

namespace Forest

/-- Whether a row matches one leg of each aggregation at most. -/
def MatchesOne (forest : Forest) (row : Row) : Prop :=
  ∀ (i j : Nat) (x y : Node), i ≠ j → forest[i]? = some x → forest[j]? = some y →
    x.isShown = true → y.isShown = true → x.IsAkin y →
    ¬(x.matchesLeg row = true ∧ y.matchesLeg row = true)

/-- Whether a leg that decides where a row goes on is still to come. -/
def IsOpen (forest : Forest) (k anchor : Nat) : Prop :=
  ∃ last, k ≤ last ∧ forest.anchor last = anchor ∧
    lastLeg? forest.concurrentRuns last = some true

/-- Whether one of the first nodes of an aggregation takes a row to the end of a path. -/
def ReachesBefore (forest : Forest) (row : Row) (root : Level) (k anchor : Nat) (path : Path) :
    Prop :=
  ∃ j node, j < k ∧ forest[j]? = some node ∧ forest.anchor j = anchor ∧
    forest.Reaches row root node path

/-- Places after a node of an aggregation took a row somewhere, or nowhere. -/
def advance (places : Places) (anchor : Nat) (lastLeg : Option Bool) (outcome : Option Path) :
    Places :=
  match outcome with
  | some path =>
      if lastLeg = some false then places.suspend anchor (some path)
      else places.settle anchor (some path)
  | none =>
      if lastLeg = some true then
        (places.settle anchor (places.pending anchor)).suspend anchor none
      else places

theorem settled_advance_of_ne {places : Places} {anchor other : Nat} (h : anchor ≠ other)
    {lastLeg : Option Bool} {outcome : Option Path} :
    (advance places anchor lastLeg outcome).settled other = places.settled other := by
  unfold advance
  split <;> split <;> simp [Places.settle, Places.suspend, h.symm]

theorem pending_advance_of_ne {places : Places} {anchor other : Nat} (h : anchor ≠ other)
    {lastLeg : Option Bool} {outcome : Option Path} :
    (advance places anchor lastLeg outcome).pending other = places.pending other := by
  unfold advance
  split <;> split <;> simp [Places.settle, Places.suspend, h.symm]

/-- A node that has no others beside it settles where it takes the row. -/
theorem settled_advance_alone (places : Places) (anchor : Nat) (outcome : Option Path) :
    (advance places anchor none outcome).settled anchor =
      outcome.or (places.settled anchor) := by
  cases outcome <;> simp [advance, Places.settle]

/-- The last leg settles where it takes the row, or else where an earlier one took it. -/
theorem settled_advance_last (places : Places) (anchor : Nat) (outcome : Option Path) :
    (advance places anchor (some true) outcome).settled anchor =
      outcome.or (places.pending anchor) := by
  cases outcome <;> simp [advance, Places.settle, Places.suspend]

/-- An earlier leg settles nothing, and has it remembered where it takes the row. -/
theorem advance_earlier (places : Places) (anchor : Nat) (outcome : Option Path) :
    (advance places anchor (some false) outcome).settled anchor = places.settled anchor ∧
      (advance places anchor (some false) outcome).pending anchor =
        outcome.or (places.pending anchor) := by
  cases outcome <;> simp [advance, Places.suspend]

/-- Settling where there is nothing to settle. -/
theorem settle_pending_of_none {places : Places} {anchor : Nat}
    (hsettled : places.settled anchor = none) (hpending : places.pending anchor = none) :
    (places.settle anchor (places.pending anchor)).suspend anchor none = places := by
  obtain ⟨settled, pending⟩ := places
  simp only at hsettled hpending
  simp only [Places.settle, Places.suspend, Places.mk.injEq]
  constructor
  · funext i
    by_cases hi : i = anchor <;> simp [hi, hsettled, hpending]
  · funext i
    by_cases hi : i = anchor <;> simp [hi, hpending]

/-- The places that a row is known to have gone to before it visits a node: once no leg of an
aggregation is to come, where it has settled, and until then where it is to go on. -/
structure Tracks (forest : Forest) (row : Row) (root : Level) (k : Nat) (places : Places) :
    Prop where
  settled : ∀ later, root.Extends later → forest.Fits later → ∀ anchor,
    ¬ forest.IsOpen k anchor → ∀ path,
      places.settled anchor = some path ↔ forest.ReachesBefore row later k anchor path
  pending : ∀ later, root.Extends later → forest.Fits later → ∀ anchor,
    forest.IsOpen k anchor → ∀ path,
      places.pending anchor = some path ↔ forest.ReachesBefore row later k anchor path
  unsettled : ∀ anchor, forest.IsOpen k anchor → places.settled anchor = none

section

variable {forest : Forest} {row : Row} {k : Nat} {node : Node} {root after : Level}
  {places : Places}

/-- Only a shown node is a leg that decides. -/
theorem exists_leg_of_lastLeg? {i : Nat} {last : Bool}
    (h : lastLeg? forest.concurrentRuns i = some last) :
    ∃ y, forest[i]? = some y ∧ y.isLeg = true ∧ y.isActive = true ∧ y.isQuery = false ∧
      y.isShown = true := by
  obtain ⟨⟨y, hy, hleg, hactive, -⟩, -⟩ := mem_runOf.mp (mem_runOf_of_lastLeg? h)
  have hquery := Node.isQuery_of_isLeg hleg
  exact ⟨y, hy, hleg, hactive, hquery, by simp [Node.isShown, hquery, hactive]⟩

/-- Beside a shown node that is no concurrent leg there is no concurrent leg. -/
theorem IsLaidOut.alone_of_lastLeg? (h : forest.IsLaidOut) (hmarked : forest.IsMarked)
    (hk : forest[k]? = some node) (hshown : node.isShown = true)
    (hnone : lastLeg? forest.concurrentRuns k = none) {i : Nat} {last : Bool}
    (hi : lastLeg? forest.concurrentRuns i = some last) : forest.anchor i ≠ forest.anchor k := by
  intro hanchor
  obtain ⟨y, hy, hyleg, hyactive, hyquery, -⟩ := exists_leg_of_lastLeg? hi
  have hquery := Node.isQuery_of_isShown hshown
  have hne : i ≠ k := by
    rintro rfl
    rw [hnone] at hi
    cases hi
  obtain ⟨l, l', hl, hl', -⟩ :=
    h.sharesLegs hne hy hk ((h.anchor_eq_iff hy hk hyquery hquery).mp hanchor)
  have hleg := Node.isLeg_of_eq hl'
  have hactive := hmarked.isActive_of_isShown (List.mem_of_getElem? hk) hleg hshown
  have hconcurrent := (hmarked.concurrent k node hk hleg hactive).mpr
    ⟨i, y, hne, hy, hyleg, hyactive, hanchor⟩
  rw [lastLeg?_eq, if_pos (mem_runOf.mpr ⟨⟨node, hk, hleg, hactive, hconcurrent⟩, rfl⟩)] at hnone
  cases hnone

/-- Two nodes of one aggregation do not both take a row somewhere. -/
theorem IsLaidOut.not_reaches (h : forest.IsLaidOut) (hone : forest.MatchesOne row) {i j : Nat}
    {x y : Node} (hne : i ≠ j) (hx : forest[i]? = some x) (hy : forest[j]? = some y)
    (hanchor : forest.anchor i = forest.anchor j) {path path' : Path}
    (hreaches : forest.Reaches row root x path) : ¬ forest.Reaches row root y path' := by
  intro hreaches'
  obtain ⟨hxshown, base, segment, b, -, -, -, -, hxenters⟩ := hreaches
  obtain ⟨hyshown, base', segment', b', -, -, -, -, hyenters⟩ := hreaches'
  have hakin := (h.anchor_eq_iff hx hy (Node.isQuery_of_isShown hxshown)
    (Node.isQuery_of_isShown hyshown)).mp hanchor
  obtain ⟨l, l', hl, hl', -⟩ := h.sharesLegs hne hx hy hakin
  exact hone i j x y hne hx hy hxshown hyshown hakin
    ⟨Node.matchesLeg_of_hits hl (Node.hits_of_enters hxenters),
      Node.matchesLeg_of_hits hl' (Node.hits_of_enters hyenters)⟩

theorem tracks_nowhere (forest : Forest) (row : Row) (root : Level) :
    forest.Tracks row root 0 .nowhere where
  settled := by
    intro later _ _ anchor _ path
    constructor
    · intro h
      cases h
    · rintro ⟨j, node, hj, -⟩
      omega
  pending := by
    intro later _ _ anchor _ path
    constructor
    · intro h
      cases h
    · rintro ⟨j, node, hj, -⟩
      omega
  unsettled := fun _ _ => rfl

/-- Where a row is below the parent of the next node. -/
theorem Tracks.base?_iff (htracks : forest.Tracks row root k places) (h : forest.IsLaidOut)
    (hk : forest[k]? = some node) {later : Level} (hext : root.Extends later)
    (hlater : forest.Fits later) (path : Path) :
    places.base? node.parent = some path ↔
      forest.follow? row none later path = some node.parent := by
  cases hparent : node.parent with
  | none =>
      rw [follow?_eq_none_iff, Places.base?, Option.some.injEq]
      exact eq_comm
  | some a =>
      obtain ⟨-, -, -, -, -, hbefore⟩ := h.parent_spec hk hparent
      have hclosed : ¬ forest.IsOpen k a := by
        rintro ⟨last, hle, hanchor, hlast⟩
        obtain ⟨y, hy, -, -, hquery, -⟩ := exists_leg_of_lastLeg? hlast
        have := hbefore last y hy hquery hanchor
        omega
      rw [Places.base?, htracks.settled later hext hlater a hclosed, h.follow?_eq_some_iff]
      constructor
      · rintro ⟨j, x, -, hj, hanchor, hreaches⟩
        exact ⟨j, x, hj, hanchor, hreaches⟩
      · rintro ⟨j, x, hj, hanchor, hreaches⟩
        exact ⟨j, x, hbefore j x hj (Node.isQuery_of_isShown hreaches.1) hanchor, hj, hanchor,
          hreaches⟩

theorem isOpen_iff (forest : Forest) (k anchor : Nat) :
    forest.IsOpen k anchor ↔ forest.IsOpen (k + 1) anchor ∨
      forest.anchor k = anchor ∧ lastLeg? forest.concurrentRuns k = some true := by
  constructor
  · rintro ⟨last, hle, hanchor, hlast⟩
    rcases Nat.eq_or_lt_of_le hle with rfl | hlt
    · exact Or.inr ⟨hanchor, hlast⟩
    · exact Or.inl ⟨last, hlt, hanchor, hlast⟩
  · rintro (⟨last, hle, hanchor, hlast⟩ | ⟨hanchor, hlast⟩)
    · exact ⟨last, by omega, hanchor, hlast⟩
    · exact ⟨k, Nat.le_refl k, hanchor, hlast⟩

/-- Whether a leg is to come of another aggregation than that of the next node. -/
theorem isOpen_succ_of_ne {anchor : Nat} (hne : forest.anchor k ≠ anchor) :
    forest.IsOpen (k + 1) anchor ↔ forest.IsOpen k anchor := by
  rw [isOpen_iff forest k]
  exact ⟨Or.inl, fun hopen => hopen.resolve_right fun hat => hne hat.1⟩

/-- After the last leg of an aggregation none is to come. -/
theorem not_isOpen_succ (hlast : lastLeg? forest.concurrentRuns k = some true) :
    ¬ forest.IsOpen (k + 1) (forest.anchor k) := by
  rintro ⟨last, hle, hanchor, hlast'⟩
  have := eq_of_lastLeg? hlast' hlast hanchor
  omega

/-- After an earlier leg of an aggregation its last one is to come. -/
theorem isOpen_succ (hearlier : lastLeg? forest.concurrentRuns k = some false) :
    forest.IsOpen (k + 1) (forest.anchor k) := by
  obtain ⟨last, hlt, hanchor, hlast⟩ := exists_last_of_lastLeg? hearlier
  exact ⟨last, hlt, hanchor, hlast⟩

/-- Of an aggregation without concurrent legs none is ever to come. -/
theorem IsLaidOut.not_isOpen_of_lastLeg? (h : forest.IsLaidOut) (hmarked : forest.IsMarked)
    (hk : forest[k]? = some node) (hshown : node.isShown = true)
    (hnone : lastLeg? forest.concurrentRuns k = none) (i : Nat) :
    ¬ forest.IsOpen i (forest.anchor k) := by
  rintro ⟨last, -, hanchor, hlast⟩
  exact h.alone_of_lastLeg? hmarked hk hshown hnone hlast hanchor

/-- The next node takes a row where it reaches, and no other. -/
theorem reachesBefore_succ_iff (hk : forest[k]? = some node) {anchor : Nat} {path : Path} :
    forest.ReachesBefore row root (k + 1) anchor path ↔
      forest.ReachesBefore row root k anchor path ∨
        forest.anchor k = anchor ∧ forest.Reaches row root node path := by
  constructor
  · rintro ⟨j, x, hj, hx, hanchor, hreaches⟩
    rcases Nat.eq_or_lt_of_le (Nat.le_of_lt_succ hj) with rfl | hlt
    · obtain rfl : node = x := Option.some.inj (hk.symm.trans hx)
      exact Or.inr ⟨hanchor, hreaches⟩
    · exact Or.inl ⟨j, x, hlt, hx, hanchor, hreaches⟩
  · rintro (⟨j, x, hj, hx, hanchor, hreaches⟩ | ⟨hanchor, hreaches⟩)
    · exact ⟨j, x, by omega, hx, hanchor, hreaches⟩
    · exact ⟨k, node, Nat.lt_succ_self k, hk, hanchor, hreaches⟩

/-- An aggregation takes a row where its next node does, or else where it took it before. -/
theorem IsLaidOut.or_eq_some_iff_reachesBefore (h : forest.IsLaidOut)
    (hone : forest.MatchesOne row) (hk : forest[k]? = some node) {outcome before : Option Path}
    (houtcome : ∀ path, forest.Reaches row root node path ↔ outcome = some path)
    (hbefore : ∀ path, before = some path ↔
      forest.ReachesBefore row root k (forest.anchor k) path) (path : Path) :
    outcome.or before = some path ↔
      forest.ReachesBefore row root (k + 1) (forest.anchor k) path := by
  rw [reachesBefore_succ_iff hk, houtcome]
  cases htaken : outcome with
  | none => simp [hbefore]
  | some taken =>
      -- no earlier node of the aggregation has taken the row anywhere
      have hfresh : ¬ forest.ReachesBefore row root k (forest.anchor k) path := by
        rintro ⟨j, x, hj, hx, hanchor, hreaches⟩
        exact h.not_reaches hone (by omega) hx hk hanchor hreaches ((houtcome taken).mpr htaken)
      simp [hfresh]

/-- The places after the next node. -/
theorem Tracks.step (htracks : forest.Tracks row root k places) (h : forest.IsLaidOut)
    (hmarked : forest.IsMarked) (hone : forest.MatchesOne row) (hk : forest[k]? = some node)
    (hext : root.Extends after) (outcome : Option Path)
    (hshown : outcome ≠ none → node.isShown = true)
    (houtcome : ∀ later, after.Extends later → forest.Fits later → ∀ path,
      forest.Reaches row later node path ↔ outcome = some path) :
    forest.Tracks row after (k + 1)
      (advance places (forest.anchor k) (lastLeg? forest.concurrentRuns k) outcome) := by
  have hplace (later : Level) (hlaterExt : after.Extends later) (hlater : forest.Fits later)
      {before : Option Path} (hbefore : ∀ path, before = some path ↔
        forest.ReachesBefore row later k (forest.anchor k) path) (path : Path) :=
    h.or_eq_some_iff_reachesBefore hone hk (houtcome later hlaterExt hlater) hbefore path
  have hother {later : Level} {anchor : Nat} (ha : forest.anchor k ≠ anchor) (path : Path) :
      forest.ReachesBefore row later (k + 1) anchor path ↔
        forest.ReachesBefore row later k anchor path := by
    rw [reachesBefore_succ_iff hk]
    simp [ha]
  -- a node that has no concurrent legs beside it leaves the places alone while a leg is to come
  have hidle {last : Nat} (hnone : lastLeg? forest.concurrentRuns k = none)
      (hopen : forest.IsOpen last (forest.anchor k)) :
      outcome = none ∧ advance places (forest.anchor k) none outcome = places := by
    cases htaken : outcome with
    | none => exact ⟨rfl, by simp [advance]⟩
    | some taken =>
        exact absurd hopen
          (h.not_isOpen_of_lastLeg? hmarked hk (hshown (by simp [htaken])) hnone last)
  exact
    { settled := by
        intro later hlaterExt hlater anchor hnot path
        by_cases ha : forest.anchor k = anchor
        · subst ha
          cases hlast : lastLeg? forest.concurrentRuns k with
          | none =>
              have hclosed : ¬ forest.IsOpen k (forest.anchor k) := by
                rw [isOpen_iff, hlast]
                simpa using hnot
              rw [settled_advance_alone]
              exact hplace later hlaterExt hlater
                (htracks.settled later (hext.trans hlaterExt) hlater _ hclosed) path
          | some last =>
              cases last with
              | false => exact absurd (isOpen_succ hlast) hnot
              | true =>
                  rw [settled_advance_last]
                  exact hplace later hlaterExt hlater
                    (htracks.pending later (hext.trans hlaterExt) hlater _
                      ((isOpen_iff forest k _).mpr (Or.inr ⟨rfl, hlast⟩))) path
        · rw [settled_advance_of_ne ha, hother ha]
          exact htracks.settled later (hext.trans hlaterExt) hlater anchor
            (fun hopen => hnot ((isOpen_succ_of_ne ha).mpr hopen)) path
      pending := by
        intro later hlaterExt hlater anchor hopen path
        by_cases ha : forest.anchor k = anchor
        · subst ha
          have hpending := hplace later hlaterExt hlater
            (htracks.pending later (hext.trans hlaterExt) hlater _
              ((isOpen_iff forest k _).mpr (Or.inl hopen))) path
          cases hlast : lastLeg? forest.concurrentRuns k with
          | none =>
              obtain ⟨hnone, hkept⟩ := hidle hlast hopen
              rw [hkept]
              simpa [hnone] using hpending
          | some last =>
              cases last with
              | true => exact absurd hopen (not_isOpen_succ hlast)
              | false =>
                  rw [(advance_earlier places _ outcome).2]
                  exact hpending
        · rw [pending_advance_of_ne ha, hother ha]
          exact htracks.pending later (hext.trans hlaterExt) hlater anchor
            ((isOpen_succ_of_ne ha).mp hopen) path
      unsettled := by
        intro anchor hopen
        by_cases ha : forest.anchor k = anchor
        · subst ha
          have hunsettled := htracks.unsettled _ ((isOpen_iff forest k _).mpr (Or.inl hopen))
          cases hlast : lastLeg? forest.concurrentRuns k with
          | none => rwa [(hidle hlast hopen).2]
          | some last =>
              cases last with
              | true => exact absurd hopen (not_isOpen_succ hlast)
              | false => rwa [(advance_earlier places _ outcome).1]
        · rw [settled_advance_of_ne ha]
          exact htracks.unsettled anchor ((isOpen_succ_of_ne ha).mp hopen) }

/-! ## What has been counted -/

/-- Whether the documents of a row belong into a bucket because of one of the first nodes. -/
def CountsBefore (forest : Forest) (row : Row) (root : Level) (k : Nat) (path : Path)
    (segment : Segment) : Prop :=
  ∃ j node, j < k ∧ forest[j]? = some node ∧ forest.Counts row root j node path segment

/-- Whether a metric gets the value of a row that goes along a path. -/
def Receives (forest : Forest) (row : Row) (root : Level) (index : Nat) (node : Node)
    (path : Path) : Prop :=
  forest.isSilenced row index = false ∧ forest.follow? row none root path = some node.parent

/-- A response after a row has visited the first nodes. Which buckets and metrics belong to the row
can be told in any later response. -/
structure Walked (forest : Forest) (countColumn : String) (row : Row) (before : Level) (k : Nat)
    (state : Places × Level) : Prop where
  fits : forest.Fits state.2
  grown : before.Extends state.2
  tracks : forest.Tracks row state.2 k state.1
  entered : ∀ later, state.2.Extends later → forest.Fits later →
    ∀ (j : Nat) (node : Node) path, j < k → forest[j]? = some node → node.isShown = true →
    forest.follow? row none later path = some node.parent → ∀ segment id,
    node.hits row segment id = true → ∃ next b, next.name = node.name ∧
      state.2.bucketIn? path next = some b ∧ node.enters row next b.id = true
  origin : ∀ later, state.2.Extends later → forest.Fits later →
    ∀ (j : Nat) (node : Node) path i b,
    forest[j]? = some node → node.isShown = true → node.aggregation.isValueGroup = true →
    forest.parentAt? none path = some node.parent →
    state.2.bucketIn? path (.bucket node.name i) = some b →
    (∃ b', before.bucketIn? path (.bucket node.name i) = some b' ∧ b'.id = b.id ∧
      b'.key = b.key) ∨ forest.follow? row none later path = some node.parent ∧ node.Makes row b
  docs : ∀ later, state.2.Extends later → forest.Fits later → ∀ path segment,
    (forest.CountsBefore row later k path segment →
      state.2.docsIn path segment = before.docsIn path segment + row.count countColumn) ∧
    (¬ forest.CountsBefore row later k path segment →
      state.2.docsIn path segment = before.docsIn path segment)
  tally : ∀ later, state.2.Extends later → forest.Fits later → ∀ j node m path,
    forest[j]? = some node → node.isShown = true → node.aggregation = .metric m →
    forest.parentAt? none path = some node.parent →
    (j < k ∧ forest.Receives row later j node path →
      Node.tallyOf m (state.2.outputAt? path node.name) =
        (Node.tallyOf m (before.outputAt? path node.name)).addRow
          (node.decisions.column.getD "") countColumn row) ∧
    (¬(j < k ∧ forest.Receives row later j node path) →
      Node.tallyOf m (state.2.outputAt? path node.name) =
        Node.tallyOf m (before.outputAt? path node.name))

variable {countColumn : String} {before : Level} {state : Places × Level}

theorem walked_nowhere (hfits : forest.Fits root) :
    forest.Walked countColumn row root 0 (Places.nowhere, root) where
  fits := hfits
  grown := .refl root
  tracks := tracks_nowhere forest row root
  entered := fun _ _ _ j _ _ hj => absurd hj (Nat.not_lt_zero j)
  origin := fun _ _ _ _ _ _ _ b _ _ _ _ hb => Or.inl ⟨b, hb, rfl, rfl⟩
  docs := by
    intro later _ _ path segment
    refine ⟨?_, fun _ => rfl⟩
    rintro ⟨j, x, hj, -⟩
    omega
  tally := by
    intro later _ _ j x m path _ _ _ _
    exact ⟨fun h => absurd h.1 (Nat.not_lt_zero j), fun _ => rfl⟩

/-- Of the nodes of one aggregation only one counts a row in a bucket. -/
theorem IsLaidOut.not_counts (h : forest.IsLaidOut) {i j : Nat} {x y : Node} (hne : i ≠ j)
    (hx : forest[i]? = some x) (hy : forest[j]? = some y) {path : Path} {segment : Segment}
    (hcounts : forest.Counts row root i x path segment) :
    ¬ forest.Counts row root j y path segment := by
  rintro ⟨hyshown, -, hyname, hyfollow, b', -, hyhits⟩
  obtain ⟨hxshown, -, hxname, hxfollow, b, -, hxhits⟩ := hcounts
  have hakin : x.IsAkin y := ⟨Node.isQuery_of_isShown hxshown, Node.isQuery_of_isShown hyshown,
    hxname.symm.trans hyname, Option.some.inj (hxfollow.symm.trans hyfollow)⟩
  have hnot := (h.sharesLegs hne hx hy hakin).not_hits hxhits row b'.id
  rw [hyhits] at hnot
  cases hnot

theorem countsBefore_succ (hk : forest[k]? = some node) (row : Row) (root : Level) (path : Path)
    (segment : Segment) :
    forest.CountsBefore row root (k + 1) path segment ↔
      forest.CountsBefore row root k path segment ∨
        forest.Counts row root k node path segment := by
  constructor
  · rintro ⟨j, x, hj, hx, hcounts⟩
    rcases Nat.eq_or_lt_of_le (Nat.le_of_lt_succ hj) with rfl | hlt
    · obtain rfl : node = x := Option.some.inj (hk.symm.trans hx)
      exact Or.inr hcounts
    · exact Or.inl ⟨j, x, hlt, hx, hcounts⟩
  · rintro (⟨j, x, hj, hx, hcounts⟩ | hcounts)
    · exact ⟨j, x, by omega, hx, hcounts⟩
    · exact ⟨k, node, Nat.lt_succ_self k, hk, hcounts⟩

/-- Where a node is passed over, none of the legs beside it has brought the row anywhere. -/
theorem Walked.advance_of_passed (hwalked : forest.Walked countColumn row before k state)
    (h : forest.IsLaidOut) (hk : forest[k]? = some node)
    (hpassed : ∀ path,
      ¬(node.isShown = true ∧ forest.follow? row none state.2 path = some node.parent)) :
    advance state.1 (forest.anchor k) (lastLeg? forest.concurrentRuns k) none = state.1 := by
  unfold advance
  dsimp only
  split
  · rename_i hlast
    have hopen : forest.IsOpen k (forest.anchor k) := ⟨k, Nat.le_refl k, rfl, hlast⟩
    have hpending : state.1.pending (forest.anchor k) = none := by
      rw [Option.eq_none_iff_forall_ne_some]
      intro path hpath
      obtain ⟨j, x, -, hx, hanchor, hxshown, base, segment, b, -, -, hfollow, -⟩ :=
        (hwalked.tracks.pending _ (.refl _) hwalked.fits _ hopen path).mp hpath
      obtain ⟨y, hy, -, -, hquery, hshown⟩ := exists_leg_of_lastLeg? hlast
      obtain rfl : node = y := Option.some.inj (hk.symm.trans hy)
      have hakin := (h.anchor_eq_iff hx hk (Node.isQuery_of_isShown hxshown) hquery).mp hanchor
      exact hpassed base ⟨hshown, hakin.2.2.2 ▸ hfollow⟩
    exact settle_pending_of_none (hwalked.tracks.unsettled _ hopen) hpending
  · rfl

/-- A node that is passed over changes nothing. -/
theorem Walked.pass (hwalked : forest.Walked countColumn row before k state)
    (h : forest.IsLaidOut) (hmarked : forest.IsMarked) (hone : forest.MatchesOne row)
    (hk : forest[k]? = some node)
    (hpassed : ∀ later, state.2.Extends later → forest.Fits later → ∀ path,
      ¬(node.isShown = true ∧ forest.follow? row none later path = some node.parent)) :
    forest.Walked countColumn row before (k + 1) state := by
  have hnot (later : Level) (hext : state.2.Extends later) (hlater : forest.Fits later)
      (path : Path) : ¬ forest.Reaches row later node path := by
    rintro ⟨hshown, base, segment, b, -, -, hfollow, -⟩
    exact hpassed later hext hlater base ⟨hshown, hfollow⟩
  have hadvance := hwalked.advance_of_passed h hk (hpassed _ (.refl _) hwalked.fits)
  exact
    { fits := hwalked.fits
      grown := hwalked.grown
      tracks := by
        have htracks := hwalked.tracks.step h hmarked hone hk (.refl _)
          none (fun hne => absurd rfl hne) (fun later hext hlater path => by
            simp [hnot later hext hlater path])
        rwa [hadvance] at htracks
      entered := by
        intro later hext hlater j x path hj hx hxshown hfollow
        rcases Nat.eq_or_lt_of_le (Nat.le_of_lt_succ hj) with rfl | hlt
        · obtain rfl : node = x := Option.some.inj (hk.symm.trans hx)
          exact absurd ⟨hxshown, hfollow⟩ (hpassed later hext hlater path)
        · exact hwalked.entered later hext hlater j x path hlt hx hxshown hfollow
      origin := hwalked.origin
      docs := by
        intro later hext hlater path segment
        have hiff := countsBefore_succ hk row later path segment
        have hnotCounts : ¬ forest.Counts row later k node path segment :=
          fun hcounts => hpassed later hext hlater path ⟨hcounts.1, hcounts.2.2.2.1⟩
        rw [hiff, or_iff_left hnotCounts]
        exact hwalked.docs later hext hlater path segment
      tally := by
        intro later hext hlater j x m path hx hxshown hm hparent
        have hiff : j < k + 1 ∧ forest.Receives row later j x path ↔
            j < k ∧ forest.Receives row later j x path := by
          constructor
          · rintro ⟨hj, hreceives⟩
            rcases Nat.eq_or_lt_of_le (Nat.le_of_lt_succ hj) with rfl | hlt
            · obtain rfl : node = x := Option.some.inj (hk.symm.trans hx)
              exact absurd ⟨hxshown, hreceives.2⟩ (hpassed later hext hlater path)
            · exact ⟨hlt, hreceives⟩
          · rintro ⟨hj, hreceives⟩
            exact ⟨by omega, hreceives⟩
        rw [hiff]
        exact hwalked.tally later hext hlater j x m path hx hxshown hm hparent }

/-- What is remembered of a step is what it comes to: only a metric stays, and it is no leg. -/
theorem remember_eq_advance {anchor : Nat} {base : Path} {source : Row} {found : Option Output}
    {output : Output} {step : Step} (hk : forest[k]? = some node)
    (hplaced : node.Placed countColumn source found output step) :
    remember places anchor (lastLeg? forest.concurrentRuns k) base step =
      advance places anchor (lastLeg? forest.concurrentRuns k) (outcomeOf base step) := by
  cases step with
  | descend segment => rfl
  | skip => rfl
  | stay =>
      have hnot : lastLeg? forest.concurrentRuns k ≠ some true := by
        intro hlast
        obtain ⟨y, hy, hleg, -⟩ := exists_leg_of_lastLeg? hlast
        obtain rfl : node = y := Option.some.inj (hk.symm.trans hy)
        rw [hplaced.stay rfl] at hleg
        cases hleg
      unfold advance outcomeOf
      rw [if_neg hnot]
      rfl

theorem tallyOf_congr {m : Metric} {first second : Option Output}
    (h : first.map Output.bare = second.map Output.bare) :
    Node.tallyOf m first = Node.tallyOf m second := by
  have hbare (output : Option Output) :
      Node.tallyOf m output = Node.tallyOf m (output.map Output.bare) := by
    cases output with
    | none => rfl
    | some o => cases o <;> rfl
  rw [hbare first, h, ← hbare]

/-- A row that is silenced adds nothing to a tally. -/
theorem addRow_sourceAt (tally : Tally) (column : String) (j : Nat) :
    tally.addRow column countColumn (forest.sourceAt countColumn row j) =
      if forest.isSilenced row j then tally else tally.addRow column countColumn row := by
  unfold sourceAt
  split
  · rw [Tally.addRow, Row.measure?, if_pos (Row.count_muted row countColumn)]
  · rfl

section

variable {output : Output} {base : Path} {step : Step}

/-- A metric adds the row to its tally where it is written, unless the row is silenced there. -/
theorem tallyOf_written {m : Metric} (hwrite : Level.IsWrite root after base node.name output)
    (hplaced : node.Placed countColumn (forest.sourceAt countColumn row k)
      (root.outputAt? base node.name) output step) (hm : node.aggregation = .metric m) :
    Node.tallyOf m (after.outputAt? base node.name) =
      if forest.isSilenced row k then Node.tallyOf m (root.outputAt? base node.name)
      else (Node.tallyOf m (root.outputAt? base node.name)).addRow
        (node.decisions.column.getD "") countColumn row := by
  rw [hwrite.at_path, hplaced.tally m hm, Node.tallyOf, addRow_sourceAt]

/-- A write leaves the tallies of the other metrics alone, and its own where it is not. -/
theorem IsLaidOut.tallyOf_elsewhere (h : forest.IsLaidOut) {j : Nat} {x : Node} {m : Metric}
    {path : Path} (hk : forest[k]? = some node) (hshown : node.isShown = true)
    (hparent : forest.parentAt? none base = some node.parent)
    (hwrite : Level.IsWrite root after base node.name output) (hx : forest[j]? = some x)
    (hxshown : x.isShown = true) (hm : x.aggregation = .metric m)
    (hpath : forest.parentAt? none path = some x.parent) (hne : j = k → path ≠ base) :
    Node.tallyOf m (after.outputAt? path x.name) =
      Node.tallyOf m (root.outputAt? path x.name) := by
  refine tallyOf_congr (hwrite.elsewhere path x.name ?_)
  rintro ⟨rfl, hname⟩
  have hakin : x.IsAkin node := ⟨Node.isQuery_of_isShown hxshown, Node.isQuery_of_isShown hshown,
    hname, Option.some.inj (hpath.symm.trans hparent)⟩
  -- akin nodes are legs of one group, and a metric is no leg
  obtain ⟨l, l', hl, -⟩ := h.sharesLegs (fun hj => hne hj rfl) hx hk hakin
  rw [hm] at hl
  cases hl

/-- As no two nodes count a row in one bucket, it is counted once at most. -/
theorem IsLaidOut.docs_succ (h : forest.IsLaidOut) (hk : forest[k]? = some node) {later : Level}
    {path : Path} {segment : Segment} {first second third count : Nat}
    (hearlier : (forest.CountsBefore row later k path segment → second = first + count) ∧
      (¬ forest.CountsBefore row later k path segment → second = first))
    (hnow : (forest.Counts row later k node path segment → third = second + count) ∧
      (¬ forest.Counts row later k node path segment → third = second)) :
    (forest.CountsBefore row later (k + 1) path segment → third = first + count) ∧
      (¬ forest.CountsBefore row later (k + 1) path segment → third = first) := by
  have hexclusive (hbefore : forest.CountsBefore row later k path segment) :
      ¬ forest.Counts row later k node path segment := by
    obtain ⟨j, x, hj, hx, hcounts⟩ := hbefore
    exact h.not_counts (Nat.ne_of_lt hj) hx hk hcounts
  rw [countsBefore_succ hk]
  constructor
  · rintro (hbefore | hcounts)
    · rw [hnow.2 (hexclusive hbefore), hearlier.1 hbefore]
    · rw [hnow.1 hcounts, hearlier.2 fun hbefore => hexclusive hbefore hcounts]
  · intro hneither
    rw [hnow.2 fun hcounts => hneither (Or.inr hcounts),
      hearlier.2 fun hbefore => hneither (Or.inl hbefore)]

/-- A node that places a row. -/
theorem Walked.place
    (hwalked : forest.Walked countColumn row before k (places, root)) (h : forest.IsLaidOut)
    (hmarked : forest.IsMarked) (hone : forest.MatchesOne row) (hk : forest[k]? = some node)
    (hshown : node.isShown = true) (hcount : node.readColumn? ≠ some countColumn)
    (hbase : places.base? node.parent = some base)
    (hwrite : Level.IsWrite root after base node.name output)
    (hplaced : node.Placed countColumn (forest.sourceAt countColumn row k)
      (root.outputAt? base node.name) output step) :
    forest.Walked countColumn row before (k + 1)
      (remember places (forest.anchor k) (lastLeg? forest.concurrentRuns k) base step,
        after) := by
  have hext : root.Extends after := hwrite.extends_of_keepsIds hplaced.ids
  have hfollow {later : Level} (hlaterExt : root.Extends later) (hlater : forest.Fits later)
      (path : Path) : forest.follow? row none later path = some node.parent ↔ path = base := by
    rw [← hwalked.tracks.base?_iff h hk hlaterExt hlater, hbase, Option.some.injEq]
    exact eq_comm
  have hparent : forest.parentAt? none base = some node.parent :=
    parentAt?_of_follow? ((hfollow (.refl root) hwalked.fits base).mpr rfl)
  exact
    { fits := h.fits_of_write hk hshown hwalked.fits hparent hwrite hplaced.fits
      grown := hwalked.grown.trans hext
      tracks := by
        rw [remember_eq_advance hk hplaced]
        exact hwalked.tracks.step h hmarked hone hk hext _ (fun _ => hshown)
          (fun later hlaterExt hlater path => reaches_iff_outcomeOf hk hshown hcount hwrite hplaced
            hlaterExt hlater (hfollow (hext.trans hlaterExt) hlater) path)
      entered := by
        intro later hlaterExt hlater j x path hj hx hxshown hgoes segment id hhits
        rcases Nat.eq_or_lt_of_le (Nat.le_of_lt_succ hj) with rfl | hlt
        · obtain rfl : node = x := Option.some.inj (hk.symm.trans hx)
          obtain rfl := (hfollow (hext.trans hlaterExt) hlater path).mp hgoes
          exact entered_of_write hcount hwrite hplaced hhits
        · obtain ⟨next, b, hname, hb, henters⟩ := hwalked.entered later (hext.trans hlaterExt)
            hlater j x path hlt hx hxshown hgoes segment id hhits
          obtain ⟨b', hb', hid⟩ := hext path next b hb
          exact ⟨next, b', hname, hb', hid ▸ henters⟩
      origin := by
        intro later hlaterExt hlater j x path i b hx hxshown hvalue hpath hb
        rcases h.origin_of_write hk hshown hcount hparent hwrite hplaced hx hxshown hvalue hpath hb
          with ⟨b', hb', hid, hkey⟩ | ⟨rfl, hparentSame, hmakes⟩
        · rcases hwalked.origin later (hext.trans hlaterExt) hlater j x path i b' hx hxshown hvalue
            hpath hb' with ⟨b'', hb'', hid', hkey'⟩ | ⟨hgoes, fresh, hfresh, hid', hkey'⟩
          · exact Or.inl ⟨b'', hb'', hid'.trans hid, hkey'.trans hkey⟩
          · exact Or.inr ⟨hgoes, fresh, hfresh, hid'.trans hid, hkey'.trans hkey⟩
        · exact Or.inr ⟨hparentSame ▸ (hfollow (hext.trans hlaterExt) hlater path).mpr rfl, hmakes⟩
      docs := by
        intro later hlaterExt hlater path segment
        exact h.docs_succ hk (hwalked.docs later (hext.trans hlaterExt) hlater path segment)
          (docsIn_of_write hk hshown hcount hwrite hplaced hlaterExt hlater
            (hfollow (hext.trans hlaterExt) hlater) path segment)
      tally := by
        intro later hlaterExt hlater j x m path hx hxshown hm hpath
        obtain ⟨hreceived, hnot⟩ :=
          hwalked.tally later (hext.trans hlaterExt) hlater j x m path hx hxshown hm hpath
        dsimp only at hreceived hnot ⊢
        have hsame := h.tallyOf_elsewhere hk hshown hparent hwrite hx hxshown hm hpath
        by_cases hj : j = k
        · subst hj
          obtain rfl : node = x := Option.some.inj (hk.symm.trans hx)
          have hbefore := hnot fun hlt => Nat.lt_irrefl j hlt.1
          by_cases hat : path = base
          · subst hat
            have hreceives : j < j + 1 ∧ forest.Receives row later j node path ↔
                forest.isSilenced row j = false :=
              ⟨fun hboth => hboth.2.1, fun hsilent => ⟨Nat.lt_succ_self j, hsilent,
                (hfollow (hext.trans hlaterExt) hlater path).mpr rfl⟩⟩
            rw [tallyOf_written hwrite hplaced hm, ← hbefore, hreceives]
            cases forest.isSilenced row j <;> simp
          · rw [hsame fun _ => hat, hbefore]
            refine ⟨?_, fun _ => rfl⟩
            rintro ⟨-, -, hgoes⟩
            exact absurd ((hfollow (hext.trans hlaterExt) hlater path).mp hgoes) hat
        · have hiff : j < k + 1 ∧ forest.Receives row later j x path ↔
              j < k ∧ forest.Receives row later j x path :=
            and_congr_left fun _ => ⟨fun hlt => by omega, fun hlt => by omega⟩
          rw [hiff, hsame fun heq => absurd heq hj]
          exact ⟨hreceived, hnot⟩ }

end

/-- What one node does to the response. -/
theorem Walked.visit (hwalked : forest.Walked countColumn row before k state)
    (h : forest.IsLaidOut) (hmarked : forest.IsMarked) (hone : forest.MatchesOne row)
    (hk : forest[k]? = some node)
    (hcount : node.isShown = true → node.readColumn? ≠ some countColumn) :
    forest.Walked countColumn row before (k + 1)
      (forest.visit forest.concurrentRuns countColumn row state (node, k)) := by
  obtain ⟨places, root⟩ := state
  unfold Forest.visit
  dsimp only
  split
  · rename_i hhidden
    refine hwalked.pass h hmarked hone hk ?_
    rintro later - - path ⟨hshown, -⟩
    simp [hshown] at hhidden
  · rename_i hshown
    replace hshown : node.isShown = true := by simpa using hshown
    have hiff {later : Level} (hext : root.Extends later) (hlater : forest.Fits later)
        (path : Path) := hwalked.tracks.base?_iff h hk hext hlater path
    cases hbase : places.base? node.parent with
    | none =>
        refine hwalked.pass h hmarked hone hk ?_
        rintro later hext hlater path ⟨-, hfollow⟩
        rw [← hiff hext hlater, hbase] at hfollow
        cases hfollow
    | some base =>
        have hfollow := (hiff (.refl root) hwalked.fits base).mp hbase
        have hlevel : (Level.levelAt? base root).isSome = true := by
          rcases List.eq_nil_or_concat' base with rfl | ⟨path, segment, rfl⟩
          · rfl
          · rw [follow?_concat] at hfollow
            obtain ⟨last, -, hrest⟩ := Option.bind_eq_some_iff.mp hfollow
            obtain ⟨b, hb, -⟩ := Option.bind_eq_some_iff.mp hrest
            exact Level.isSome_levelAt?_concat hb
        obtain ⟨step, after, output, hact, hwrite, hplaced⟩ := h.exists_placed
          countColumn hk hshown hwalked.fits (parentAt?_of_follow? hfollow)
          hlevel (forest.orderMetricName? node) (forest.sourceAt countColumn row k)
        have hvisit : Level.atPath (node.place countColumn (forest.orderMetricName? node)
            (if forest.isSilenced row k then row.muted countColumn else row)) base root =
            some (step, after) := hact
        dsimp only
        rw [hvisit]
        exact hwalked.place h hmarked hone hk hshown (hcount hshown) hbase hwrite hplaced

/-- What a row does to the response. -/
theorem walked_foldRow (h : forest.IsLaidOut) (hmarked : forest.IsMarked)
    (hone : forest.MatchesOne row)
    (hcount : ∀ n ∈ forest, n.isShown = true → n.readColumn? ≠ some countColumn)
    (hfits : forest.Fits root) :
    ∃ places, forest.Walked countColumn row root forest.length
      (places, forest.foldRow forest.concurrentRuns countColumn root row) := by
  have hprefix : ∀ k ≤ forest.length, forest.Walked countColumn row root k
      ((forest.zipIdx.take k).foldl (forest.visit forest.concurrentRuns countColumn row)
        (Places.nowhere, root)) := by
    intro k hk
    induction k with
    | zero => exact walked_nowhere hfits
    | succ k ih =>
        have hlt : k < forest.zipIdx.length := by
          rw [List.length_zipIdx]
          exact hk
        have hnode : forest[k]? = some forest[k] := List.getElem?_eq_getElem hk
        rw [List.take_add_one, List.getElem?_eq_getElem hlt, List.foldl_append,
          List.getElem_zipIdx]
        simp only [Option.toList_some, List.foldl_cons, List.foldl_nil, Nat.zero_add]
        exact (ih (by omega)).visit h hmarked hone hnode (hcount _ (List.getElem_mem hk))
  have hall := hprefix forest.length (Nat.le_refl _)
  rw [List.take_of_length_le (by simp)] at hall
  exact ⟨_, hall⟩

end

end Forest
end Rollup
