/-
# The stops of a row

Where a row stops in a forest the row alone tells: it goes from node to node, and every node at
which it stops says by a mark where it goes on. The response keeps to it, whatever is in the
response already. So rows, and the tables that they come from, bring the same stops in any order.
-/

import Rollup.Proofs.Response.Closed
import Rollup.Proofs.Response.Parts
import Rollup.Proofs.Response.Stop

namespace Rollup

/-- The trails of a row so far. -/
structure Ways where
  /-- Where the row is, for each aggregation by its first node. -/
  settled : Nat → Option Trail
  /-- Where the row goes on unless a later leg matches. -/
  pending : Nat → Option Trail

namespace Ways

/-- A row that has gone nowhere yet. -/
def nowhere : Ways := ⟨fun _ => none, fun _ => none⟩

/-- Where a row is below some parent. -/
def base? (ways : Ways) (parent : Option Nat) : Option Trail :=
  match parent with
  | none => some []
  | some index => ways.settled index

def settle (ways : Ways) (anchor : Nat) (trail : Option Trail) : Ways :=
  { ways with settled := fun i => if i = anchor then trail else ways.settled i }

def suspend (ways : Ways) (anchor : Nat) (trail : Option Trail) : Ways :=
  { ways with pending := fun i => if i = anchor then trail else ways.pending i }

/-- After a node of an aggregation took the row somewhere, or nowhere. -/
def advance (ways : Ways) (anchor : Nat) (lastLeg : Option Bool) (outcome : Option Trail) : Ways :=
  match outcome with
  | some trail =>
      if lastLeg = some false then ways.suspend anchor (some trail)
      else ways.settle anchor (some trail)
  | none =>
      if lastLeg = some true then
        (ways.settle anchor (ways.pending anchor)).suspend anchor none
      else ways

/-- Whether each trail is as it should be for the aggregation that it is kept for. -/
def All (p : Nat → Trail → Prop) (ways : Ways) : Prop :=
  ∀ anchor trail, ways.settled anchor = some trail ∨ ways.pending anchor = some trail →
    p anchor trail

section

variable {p : Nat → Trail → Prop} {ways : Ways} {anchor : Nat}

theorem all_nowhere (p : Nat → Trail → Prop) : nowhere.All p := by simp [All, nowhere]

theorem All.settle (h : ways.All p) {trail? : Option Trail}
    (htrail : ∀ trail, trail? = some trail → p anchor trail) :
    (ways.settle anchor trail?).All p := by
  intro other trail
  simp only [Ways.settle]
  split
  · rename_i heq
    rintro (hfound | hfound)
    · exact heq ▸ htrail trail hfound
    · exact h other trail (Or.inr hfound)
  · exact h other trail

theorem All.suspend (h : ways.All p) {trail? : Option Trail}
    (htrail : ∀ trail, trail? = some trail → p anchor trail) :
    (ways.suspend anchor trail?).All p := by
  intro other trail
  simp only [Ways.suspend]
  split
  · rename_i heq
    rintro (hfound | hfound)
    · exact h other trail (Or.inl hfound)
    · exact heq ▸ htrail trail hfound
  · exact h other trail

theorem All.advance (h : ways.All p) {lastLeg : Option Bool} {onward : Option Trail}
    (honward : ∀ trail, onward = some trail → p anchor trail) :
    (ways.advance anchor lastLeg onward).All p := by
  unfold Ways.advance
  cases onward with
  | none =>
      dsimp only
      split
      · exact (h.settle fun trail hpending => h anchor trail (Or.inr hpending)).suspend (by simp)
      · exact h
  | some trail =>
      dsimp only
      split
      · exact h.suspend honward
      · exact h.settle honward

/-- Going on below one aggregation says nothing about where a row is below another. -/
theorem settled_advance_of_ne {other : Nat} (h : other ≠ anchor) (lastLeg : Option Bool)
    (onward : Option Trail) : (ways.advance anchor lastLeg onward).settled other =
      ways.settled other := by
  unfold Ways.advance
  cases onward with
  | none =>
      dsimp only
      split
      · exact if_neg h
      · rfl
  | some trail =>
      dsimp only
      split
      · rfl
      · exact if_neg h

end

end Ways

/-- Where a row goes on from a stop. -/
def Stop.onward? (stop : Stop) : Option Trail :=
  (stop.node.goesTo? stop.row).map fun mark => stop.trail ++ [⟨stop.node.name, mark⟩]

namespace Forest

/-- The stop of a row at a node. -/
def stopAt? (forest : Forest) (countColumn : String) (row : Row) (ways : Ways)
    (entry : Node × Nat) : Option Stop :=
  if entry.1.isShown then
    (ways.base? entry.1.parent).map fun trail =>
      ⟨trail, entry.1, forest.orderMetricName? entry.1, countColumn,
        forest.sourceAt countColumn row entry.2⟩
  else none

/-- The trails of a row after a node. -/
def moveOn (forest : Forest) (countColumn : String) (row : Row) (ways : Ways)
    (entry : Node × Nat) : Ways :=
  match forest.stopAt? countColumn row ways entry with
  | none => ways
  | some stop =>
      ways.advance (forest.anchor entry.2) (lastLeg? forest.concurrentRuns entry.2) stop.onward?

/-- The stops of a row at some nodes, one after the other. -/
def stopsFrom (forest : Forest) (countColumn : String) (row : Row) :
    Ways → List (Node × Nat) → List Stop
  | _, [] => []
  | ways, entry :: rest =>
      (forest.stopAt? countColumn row ways entry).toList ++
        stopsFrom forest countColumn row (forest.moveOn countColumn row ways entry) rest

/-- The stops of a row. -/
def stops (forest : Forest) (countColumn : String) (row : Row) : List Stop :=
  forest.stopsFrom countColumn row .nowhere forest.zipIdx

section

variable {forest : Forest} {countColumn : String} {row : Row}

theorem stopAt?_spec {ways : Ways} {entry : Node × Nat} {stop : Stop}
    (h : forest.stopAt? countColumn row ways entry = some stop) :
    entry.1.isShown = true ∧ ways.base? entry.1.parent = some stop.trail ∧ stop.node = entry.1 ∧
      stop.metricName = forest.orderMetricName? entry.1 ∧ stop.countColumn = countColumn ∧
      stop.row = forest.sourceAt countColumn row entry.2 := by
  unfold stopAt? at h
  split at h
  · rename_i hshown
    obtain ⟨trail, htrail, rfl⟩ := Option.map_eq_some_iff.mp h
    exact ⟨hshown, htrail, rfl, rfl, rfl, rfl⟩
  · cases h

theorem all_moveOn {p : Nat → Trail → Prop} {ways : Ways} (h : ways.All p) {entry : Node × Nat}
    (honward : ∀ stop, forest.stopAt? countColumn row ways entry = some stop →
      ∀ trail, stop.onward? = some trail → p (forest.anchor entry.2) trail) :
    (forest.moveOn countColumn row ways entry).All p := by
  unfold moveOn
  cases hstop : forest.stopAt? countColumn row ways entry with
  | none => exact h
  | some stop => exact h.advance (honward stop hstop)

/-- Whatever holds of the trails that a row goes on to holds of those by which it has come to its
stops. -/
theorem exists_ways_of_mem_stopsFrom {p : Nat → Trail → Prop} {ways : Ways} (h : ways.All p)
    {entries : List (Node × Nat)}
    (honward : ∀ entry ∈ entries, ∀ ways : Ways, ways.All p → ∀ stop,
      forest.stopAt? countColumn row ways entry = some stop →
      ∀ trail, stop.onward? = some trail → p (forest.anchor entry.2) trail)
    {stop : Stop} (hstop : stop ∈ forest.stopsFrom countColumn row ways entries) :
    ∃ entry ∈ entries, ∃ ways' : Ways, ways'.All p ∧
      forest.stopAt? countColumn row ways' entry = some stop := by
  induction entries generalizing ways with
  | nil => cases hstop
  | cons entry rest ih =>
      rw [stopsFrom, List.mem_append, Option.mem_toList] at hstop
      rcases hstop with hnow | hlater
      · exact ⟨entry, List.mem_cons_self, ways, h, hnow⟩
      · have hmoved := all_moveOn h fun stop hstop =>
          honward entry List.mem_cons_self ways h stop hstop
        obtain ⟨other, hother, ways', hways', hfound⟩ := ih hmoved
          (fun other hother => honward other (List.mem_cons_of_mem entry hother)) hlater
        exact ⟨other, List.mem_cons_of_mem entry hother, ways', hways', hfound⟩

/-- A row stops at shown nodes only, and brings itself. -/
theorem mem_stopsFrom {ways : Ways} {entries : List (Node × Nat)} {stop : Stop}
    (h : stop ∈ forest.stopsFrom countColumn row ways entries) :
    ∃ entry ∈ entries, ∃ ways', forest.stopAt? countColumn row ways' entry = some stop := by
  have htrue : ways.All fun _ _ => True := fun _ _ _ => trivial
  obtain ⟨entry, hentry, ways', -, hstop⟩ :=
    exists_ways_of_mem_stopsFrom htrue (fun _ _ _ _ _ _ _ _ => trivial) h
  exact ⟨entry, hentry, ways', hstop⟩

theorem mem_stops {stop : Stop} (h : stop ∈ forest.stops countColumn row) :
    ∃ i, forest[i]? = some stop.node ∧ stop.node.isShown = true ∧
      stop.metricName = forest.orderMetricName? stop.node ∧ stop.countColumn = countColumn ∧
      stop.row = forest.sourceAt countColumn row i := by
  obtain ⟨entry, hentry, ways, hstop⟩ := mem_stopsFrom h
  obtain ⟨hshown, -, hnode, hmetric, hcount, hrow⟩ := stopAt?_spec hstop
  rw [hnode]
  exact ⟨entry.2, List.mem_zipIdx_iff_getElem?.mp hentry, hshown, hmetric, hcount, hrow⟩

/-- Every node gets its turn, wherever the row is by then. -/
theorem exists_ways_of_mem (forest : Forest) (countColumn : String) (row : Row) (ways : Ways)
    {entries : List (Node × Nat)} {entry : Node × Nat} (h : entry ∈ entries) :
    ∃ ways', ∀ stop, forest.stopAt? countColumn row ways' entry = some stop →
      stop ∈ forest.stopsFrom countColumn row ways entries := by
  induction entries generalizing ways with
  | nil => cases h
  | cons first rest ih =>
      rcases List.mem_cons.mp h with rfl | hrest
      · exact ⟨ways, fun stop hstop => by simp [stopsFrom, hstop]⟩
      · obtain ⟨ways', hmem⟩ := ih (forest.moveOn countColumn row ways first) hrest
        exact ⟨ways', fun stop hstop => by simp [stopsFrom, hmem stop hstop]⟩

/-- Every row stops at every shown node that lies in no other aggregation. -/
theorem exists_stop_of_root (countColumn : String) (row : Row) {i : Nat} {node : Node}
    (hi : forest[i]? = some node) (hshown : node.isShown = true) (hparent : node.parent = none) :
    ∃ stop ∈ forest.stops countColumn row, stop.trail = [] ∧ stop.node = node := by
  obtain ⟨ways, hmem⟩ := forest.exists_ways_of_mem countColumn row .nowhere
    (List.mem_zipIdx_iff_getElem?.mpr hi : (node, i) ∈ forest.zipIdx)
  refine ⟨⟨[], node, forest.orderMetricName? node, countColumn, forest.sourceAt countColumn row i⟩,
    hmem _ ?_, rfl, rfl⟩
  simp [stopAt?, hshown, hparent, Ways.base?]

/-! ## Where a row stops -/

/-- The parent of the nodes at the end of a trail. -/
def parentOn? (forest : Forest) (trail : Trail) : Option (Option Nat) :=
  forest.parentAt? none (trail.map fun turn => Segment.single turn.aggregation)

theorem parentOn?_concat (forest : Forest) (trail : Trail) (turn : Turn) :
    forest.parentOn? (trail ++ [turn]) = (forest.parentOn? trail).bind fun last =>
      (forest.first? last turn.aggregation).map some := by
  rw [parentOn?, List.map_append]
  exact forest.parentAt?_concat none _ _

/-- Whether the trails of a row lead to where the nodes below are. -/
def Guides (forest : Forest) (ways : Ways) : Prop :=
  ∀ anchor trail, ways.settled anchor = some trail ∨ ways.pending anchor = some trail →
    forest.parentOn? trail = some (some anchor)

theorem guides_nowhere (forest : Forest) : forest.Guides .nowhere := by
  simp [Guides, Ways.nowhere]

theorem Guides.base? {ways : Ways} (h : forest.Guides ways) {parent : Option Nat} {trail : Trail}
    (hbase : ways.base? parent = some trail) : forest.parentOn? trail = some parent := by
  cases parent with
  | none =>
      obtain rfl := Option.some.inj hbase
      rfl
  | some anchor => exact h anchor trail (Or.inl hbase)

/-- A row stops where the node is. -/
theorem Guides.parentOn?_of_stopAt? {ways : Ways} (h : forest.Guides ways) {entry : Node × Nat}
    {stop : Stop} (hstop : forest.stopAt? countColumn row ways entry = some stop) :
    forest.parentOn? stop.trail = some stop.node.parent := by
  obtain ⟨-, hbase, hnode, -⟩ := stopAt?_spec hstop
  rw [hnode]
  exact h.base? hbase

/-- From where the node is a row goes on to where the nodes below are. -/
theorem Guides.parentOn?_of_onward? {ways : Ways} (h : forest.Guides ways)
    (hlaid : forest.IsLaidOut) {entry : Node × Nat} (hentry : forest[entry.2]? = some entry.1)
    {stop : Stop} (hstop : forest.stopAt? countColumn row ways entry = some stop) {trail : Trail}
    (htrail : stop.onward? = some trail) :
    forest.parentOn? trail = some (some (forest.anchor entry.2)) := by
  obtain ⟨hshown, hbase, hnode, -⟩ := stopAt?_spec hstop
  obtain ⟨mark, -, rfl⟩ := Option.map_eq_some_iff.mp htrail
  rw [parentOn?_concat, h.base? hbase, Option.bind_some, hnode,
    hlaid.first?_eq hentry (Node.isQuery_of_isShown hshown)]
  rfl

theorem Guides.moveOn {ways : Ways} (h : forest.Guides ways) (hlaid : forest.IsLaidOut)
    {entry : Node × Nat} (hentry : forest[entry.2]? = some entry.1) :
    forest.Guides (forest.moveOn countColumn row ways entry) :=
  all_moveOn h fun _ hstop _ => h.parentOn?_of_onward? hlaid hentry hstop

theorem IsLaidOut.parentOn?_of_mem_stopsFrom (h : forest.IsLaidOut) {ways : Ways}
    (hguides : forest.Guides ways) {entries : List (Node × Nat)}
    (hentries : ∀ entry ∈ entries, forest[entry.2]? = some entry.1) {stop : Stop}
    (hstop : stop ∈ forest.stopsFrom countColumn row ways entries) :
    forest.parentOn? stop.trail = some stop.node.parent := by
  obtain ⟨entry, hentry, ways', hguides', hfound⟩ := exists_ways_of_mem_stopsFrom hguides
    (fun entry hentry ways' hways' _ hstop _ =>
      Guides.parentOn?_of_onward? hways' h (hentries entry hentry) hstop) hstop
  exact Guides.parentOn?_of_stopAt? hguides' hfound

/-- A row stops at a node where the node is. -/
theorem IsLaidOut.parentOn?_of_mem_stops (h : forest.IsLaidOut) {stop : Stop}
    (hstop : stop ∈ forest.stops countColumn row) :
    forest.parentOn? stop.trail = some stop.node.parent :=
  h.parentOn?_of_mem_stopsFrom (guides_nowhere forest)
    (fun _ hentry => List.mem_zipIdx_iff_getElem?.mp hentry) hstop

/-- A row gets to a node below an aggregation by a node of that aggregation that is shown and is no
metric. -/
theorem exists_shown_of_mem_stops {stop : Stop} (hstop : stop ∈ forest.stops countColumn row)
    {a : Nat} (hparent : stop.node.parent = some a) :
    ∃ i n, forest[i]? = some n ∧ n.isShown = true ∧ n.isMetric = false ∧ forest.anchor i = a := by
  let p (anchor : Nat) (_ : Trail) : Prop :=
    ∃ i n, forest[i]? = some n ∧ n.isShown = true ∧ n.isMetric = false ∧ forest.anchor i = anchor
  obtain ⟨entry, -, ways, hways, hfound⟩ := exists_ways_of_mem_stopsFrom (Ways.all_nowhere p)
    (fun entry hentry ways _ stop hfound trail htrail => by
      obtain ⟨hshown, -, hnode, -⟩ := stopAt?_spec hfound
      refine ⟨entry.2, entry.1, List.mem_zipIdx_iff_getElem?.mp hentry, hshown, ?_, rfl⟩
      obtain ⟨mark, hmark, -⟩ := Option.map_eq_some_iff.mp htrail
      rw [hnode] at hmark
      cases hmetric : entry.1.isMetric with
      | false => rfl
      | true =>
          obtain ⟨m, hm⟩ := Node.exists_metric hmetric
          simp [Node.goesTo?, Node.valueBucket?, hm] at hmark) hstop
  obtain ⟨-, hbase, hnode, -⟩ := stopAt?_spec hfound
  rw [← hnode, hparent] at hbase
  exact hways a stop.trail (Or.inl hbase)

/-! ## Nodes side by side -/

/-- A row is where it was below an aggregation when it has passed a node of another one. -/
theorem settled_moveOn {ways : Ways} {entry : Node × Nat} {a : Nat}
    (hother : entry.1.isQuery = false → forest.anchor entry.2 ≠ a) :
    (forest.moveOn countColumn row ways entry).settled a = ways.settled a := by
  unfold moveOn
  cases hstop : forest.stopAt? countColumn row ways entry with
  | none => rfl
  | some stop =>
      obtain ⟨hshown, -⟩ := stopAt?_spec hstop
      exact Ways.settled_advance_of_ne
        (fun heq => hother (Node.isQuery_of_isShown hshown) heq.symm) _ _

/-- Where all nodes of an aggregation are passed, a row stops below it at one place. -/
theorem settled_of_mem_stopsFrom {ways : Ways} {entries : List (Node × Nat)} {a : Nat}
    (hpassed : ∀ entry ∈ entries, entry.1.isQuery = false → forest.anchor entry.2 ≠ a)
    {stop : Stop} (hstop : stop ∈ forest.stopsFrom countColumn row ways entries)
    (hparent : stop.node.parent = some a) : ways.settled a = some stop.trail := by
  induction entries generalizing ways with
  | nil => cases hstop
  | cons entry rest ih =>
      rw [stopsFrom, List.mem_append, Option.mem_toList] at hstop
      rcases hstop with hnow | hlater
      · obtain ⟨-, hbase, hnode, -⟩ := stopAt?_spec hnow
        rwa [← hnode, hparent] at hbase
      · rw [← ih (fun other hother => hpassed other (List.mem_cons_of_mem entry hother)) hlater,
          settled_moveOn (hpassed entry List.mem_cons_self)]

/-- Where all nodes of an aggregation are passed, a row stops at all nodes below it that are
shown. -/
theorem exists_stop_of_settled {ways : Ways} {entries : List (Node × Nat)} {a : Nat}
    (hpassed : ∀ entry ∈ entries, entry.1.isQuery = false → forest.anchor entry.2 ≠ a)
    {trail : Trail} (hsettled : ways.settled a = some trail) {entry : Node × Nat}
    (hentry : entry ∈ entries) (hshown : entry.1.isShown = true)
    (hparent : entry.1.parent = some a) :
    ∃ stop ∈ forest.stopsFrom countColumn row ways entries,
      stop.trail = trail ∧ stop.node = entry.1 := by
  induction entries generalizing ways with
  | nil => cases hentry
  | cons first rest ih =>
      rcases List.mem_cons.mp hentry with rfl | hrest
      · exact ⟨_, List.mem_append_left _ (Option.mem_toList.mpr (by
          simp only [stopAt?, hshown, if_true, hparent, Ways.base?, hsettled, Option.map_some]
          rfl)), rfl, rfl⟩
      · rw [← settled_moveOn (hpassed first List.mem_cons_self)] at hsettled
        obtain ⟨stop, hstop, hat⟩ := ih
          (fun other hother => hpassed other (List.mem_cons_of_mem first hother)) hsettled hrest
        exact ⟨stop, List.mem_append_right _ hstop, hat⟩

/-- Where all nodes of an aggregation are passed before those below it, a row that stops at one of
these stops at all of them that are shown. -/
theorem exists_beside_of_mem_stopsFrom {ways : Ways} {entries : List (Node × Nat)} {a : Nat}
    (hself : ∀ entry ∈ entries, entry.1.parent = some a → entry.1.isQuery = false →
      forest.anchor entry.2 ≠ a)
    (hlater : entries.Pairwise fun entry later => entry.1.parent = some a →
      later.1.isQuery = false → forest.anchor later.2 ≠ a)
    {stop : Stop} (hstop : stop ∈ forest.stopsFrom countColumn row ways entries)
    (hparent : stop.node.parent = some a) {entry : Node × Nat} (hentry : entry ∈ entries)
    (hshown : entry.1.isShown = true) (hentryParent : entry.1.parent = some a) :
    ∃ other ∈ forest.stopsFrom countColumn row ways entries,
      other.trail = stop.trail ∧ other.node = entry.1 := by
  induction entries generalizing ways with
  | nil => cases hentry
  | cons first rest ih =>
      obtain ⟨hfirstLater, hrestLater⟩ := List.pairwise_cons.mp hlater
      by_cases hfirst : first.1.parent = some a
      · have hpassed : ∀ entry ∈ first :: rest, entry.1.isQuery = false →
            forest.anchor entry.2 ≠ a := by
          intro other hother hquery
          rcases List.mem_cons.mp hother with rfl | hrest
          · exact hself other hother hfirst hquery
          · exact hfirstLater other hrest hfirst hquery
        exact exists_stop_of_settled hpassed (settled_of_mem_stopsFrom hpassed hstop hparent)
          hentry hshown hentryParent
      · have hrest : entry ∈ rest := (List.mem_cons.mp hentry).resolve_left
          fun heq => hfirst (heq ▸ hentryParent)
        rw [stopsFrom, List.mem_append, Option.mem_toList] at hstop
        rcases hstop with hnow | hfound
        · obtain ⟨-, -, hnode, -⟩ := stopAt?_spec hnow
          exact absurd (hnode ▸ hparent) hfirst
        · obtain ⟨other, hother, hat⟩ := ih
            (fun entry hentry => hself entry (List.mem_cons_of_mem first hentry)) hrestLater
            hfound hrest
          exact ⟨other, List.mem_append_right _ hother, hat⟩

/-- Below one aggregation a row stops at all nodes that are shown, if it stops at any. -/
theorem IsLaidOut.exists_stop_beside (h : forest.IsLaidOut) {stop : Stop}
    (hstop : stop ∈ forest.stops countColumn row) {i : Nat} {x : Node} (hx : forest[i]? = some x)
    (hshown : x.isShown = true) (hparent : x.parent = stop.node.parent) :
    ∃ other ∈ forest.stops countColumn row, other.trail = stop.trail ∧ other.node = x := by
  cases ha : stop.node.parent with
  | none =>
      obtain ⟨entry, -, ways, hfound⟩ := mem_stopsFrom hstop
      obtain ⟨-, hbase, hnode, -⟩ := stopAt?_spec hfound
      rw [← hnode, ha] at hbase
      obtain ⟨other, hother, htrail, hat⟩ :=
        exists_stop_of_root countColumn row hx hshown (hparent.trans ha)
      exact ⟨other, hother, htrail.trans (Option.some.inj hbase), hat⟩
  | some a =>
      have hpassed (entry : Node × Nat) (hentry : entry ∈ forest.zipIdx)
          (hbelow : entry.1.parent = some a) (later : Node × Nat) (hlater : later ∈ forest.zipIdx)
          (hquery : later.1.isQuery = false) (hle : entry.2 ≤ later.2) :
          forest.anchor later.2 ≠ a := by
        intro hanchor
        obtain ⟨-, -, -, -, -, hbefore⟩ :=
          h.parent_spec (List.mem_zipIdx_iff_getElem?.mp hentry) hbelow
        have := hbefore later.2 later.1 (List.mem_zipIdx_iff_getElem?.mp hlater) hquery hanchor
        omega
      have hascending : forest.zipIdx.Pairwise fun entry later => entry.2 < later.2 := by
        rw [← List.pairwise_map, List.zipIdx_map_snd]
        exact List.pairwise_lt_range'
      have hmem : (x, i) ∈ forest.zipIdx := List.mem_zipIdx_iff_getElem?.mpr hx
      exact exists_beside_of_mem_stopsFrom
        (fun entry hentry hbelow hquery =>
          hpassed entry hentry hbelow entry hentry hquery (Nat.le_refl _))
        (hascending.imp_of_mem fun hentry hlater hlt hbelow hquery =>
          hpassed _ hentry hbelow _ hlater hquery (Nat.le_of_lt hlt))
        hstop ha hmem hshown (hparent.trans ha)

end

/-! ## Responses that suit a forest -/

section

variable {forest : Forest} {root : Level}

/-- A response that the nodes of a forest have made. -/
structure Hosts (forest : Forest) (root : Level) : Prop where
  suits : ∀ path n output, n ∈ forest → n.isQuery = false →
    forest.parentAt? none path = some n.parent → root.outputAt? path n.name = some output →
    n.Suits output
  distinct : root.HasDistinctIds

theorem hosts_nil (forest : Forest) : forest.Hosts [] where
  suits := by
    intro path n output _ _ _ houtput
    rw [Level.outputAt?_empty] at houtput
    cases houtput
  distinct := Level.hasDistinctIds_nil

theorem Hosts.fits (h : forest.Hosts root) : forest.Fits root :=
  fun path n output hn hquery hparent houtput =>
    (h.suits path n output hn hquery hparent houtput).fits

end

end Forest

/-- The legs of one aggregation start with the same buckets. -/
theorem Node.SharesLegs.initial_eq {first second : Node} (h : first.SharesLegs second) :
    second.initial none = first.initial none := by
  obtain ⟨l, l', hl, hl', hshape, hlabels, hsingle, -⟩ := h
  have hbuckets : l'.buckets = l.buckets := by rw [Leg.buckets, Leg.buckets, hlabels]
  unfold Node.initial
  rw [hl, hl']
  dsimp only
  rw [hbuckets, ← hshape]
  cases hkind : l.shape with
  | single => exact absurd hkind hsingle
  | named => rfl
  | anonymous => rfl

/-- The legs of one aggregation make the same outputs. -/
theorem Node.SharesLegs.suits {first second : Node} (h : first.SharesLegs second) {output : Output}
    (hsuits : first.Suits output) : second.Suits output := by
  obtain ⟨l, l', hl, hl', -⟩ := id h
  refine ⟨(h.fits_iff output).mp hsuits.fits, ?_, h.initial_eq ▸ hsuits.preset⟩
  rw [hsuits.ordered, hl, hl']
  rfl

/-- What is decided about a node does not change how it starts. -/
theorem Node.IsRevision.initial_eq {before first second : Node} (h : before.IsRevision first)
    (h' : before.IsRevision second) (metricName : Option String) :
    first.initial metricName = second.initial metricName := by
  unfold Node.initial Node.valueFinish
  rw [h.aggregation, h'.aggregation, h.name, h'.name]

/-- What is decided about a node does not change what it makes. -/
theorem Node.IsRevision.suits_iff {first second : Node} (h : first.IsRevision second)
    (output : Output) : second.Suits output ↔ first.Suits output := by
  have hfits : second.Fits output ↔ first.Fits output := by
    unfold Node.Fits
    rw [h.aggregation]
  have hinitial : second.initial none = first.initial none := h.initial_eq (.refl first) none
  constructor
  · rintro ⟨hfit, hordered, hpreset⟩
    exact ⟨hfits.mp hfit, h.aggregation ▸ hordered, hinitial ▸ hpreset⟩
  · rintro ⟨hfit, hordered, hpreset⟩
    exact ⟨hfits.mpr hfit, h.aggregation.symm ▸ hordered, hinitial ▸ hpreset⟩

namespace Forest

variable {forest before after : Forest} {root later : Level}

/-- Plans for one request agree about what they make. -/
theorem IsRevision.hosts_iff (hrevision : before.IsRevision after) (root : Level) :
    after.Hosts root ↔ before.Hosts root := by
  constructor
  · rintro ⟨hsuits, hdistinct⟩
    refine ⟨?_, hdistinct⟩
    intro path n output hn hquery hparent houtput
    obtain ⟨i, hi⟩ := List.getElem?_of_mem hn
    obtain ⟨m, hm, hnode⟩ := hrevision.node_after hi
    rw [← hnode.suits_iff]
    refine hsuits path m output (List.mem_of_getElem? hm) (hnode.isQuery.trans hquery) ?_ ?_
    · rw [hrevision.parentAt?_eq, hnode.parent, hparent]
    · rw [hnode.name, houtput]
  · rintro ⟨hsuits, hdistinct⟩
    refine ⟨?_, hdistinct⟩
    intro path n output hn hquery hparent houtput
    obtain ⟨i, hi⟩ := List.getElem?_of_mem hn
    obtain ⟨m, hm, hnode⟩ := hrevision.node hi
    rw [hnode.suits_iff]
    refine hsuits path m output (List.mem_of_getElem? hm) (hnode.isQuery.symm.trans hquery) ?_ ?_
    · rw [← hrevision.parentAt?_eq, ← hnode.parent, hparent]
    · rw [← hnode.name, houtput]

/-- A response still suits a forest after a node has placed a row. -/
theorem IsLaidOut.hosts_of_write (h : forest.IsLaidOut) (hhosts : forest.Hosts root) {j : Nat}
    {node : Node} (hj : forest[j]? = some node) (hshown : node.isShown = true) {base : Path}
    (hparent : forest.parentAt? none base = some node.parent) {output : Output}
    (hwrite : Level.IsWrite root later base node.name output) (houtput : node.Suits output) :
    forest.Hosts later where
  distinct := hwrite.hasDistinctIds hhosts.distinct houtput.hasDistinctIds
  suits := fun _ _ _ hn hnquery hnparent hfound =>
    h.outputs_of_write (p := Node.Suits) hj hshown hparent hwrite
      (fun _ _ _ heq hsuits => hsuits.congr heq)
      (fun _ hshares => hshares.suits) hhosts.suits houtput hn hnquery hnparent hfound

/-! ## The walk of a row -/

/-- A path, if there is one, and its trail. -/
def Leads (root : Level) (path? : Option Path) (trail? : Option Trail) : Prop :=
  path?.map (fun path => Level.trailOf? path root) = trail?.map some

theorem leads_none_iff {root : Level} {trail? : Option Trail} :
    Leads root none trail? ↔ trail? = none := by
  cases trail? <;> simp [Leads]

theorem leads_some_iff {root : Level} {path : Path} {trail? : Option Trail} :
    Leads root (some path) trail? ↔
      ∃ trail, trail? = some trail ∧ Level.trailOf? path root = some trail := by
  cases trail? <;> simp [Leads]

theorem Leads.kept {root later : Level} {path? : Option Path} {trail? : Option Trail}
    (h : Leads root path? trail?)
    (hkept : ∀ path trail, Level.trailOf? path root = some trail →
      Level.trailOf? path later = some trail) : Leads later path? trail? := by
  cases path? with
  | none => exact leads_none_iff.mpr (leads_none_iff.mp h)
  | some path =>
      obtain ⟨trail, htrail, hpath⟩ := leads_some_iff.mp h
      exact leads_some_iff.mpr ⟨trail, htrail, hkept path trail hpath⟩

/-- A path leads to the same nodes as its trail. -/
theorem parentAt?_eq_parentOn? (forest : Forest) {root : Level} {path : Path} {trail : Trail}
    (h : Level.trailOf? path root = some trail) :
    forest.parentAt? none path = forest.parentOn? trail := by
  refine forest.parentAt?_congr ?_ none
  rw [List.map_map]
  exact (Level.map_aggregation_of_trailOf? h).symm

/-- The trails of a row are those of its paths. -/
structure Agrees (root : Level) (places : Places) (ways : Ways) : Prop where
  settled : ∀ anchor, Leads root (places.settled anchor) (ways.settled anchor)
  pending : ∀ anchor, Leads root (places.pending anchor) (ways.pending anchor)

section

variable {places : Places} {ways : Ways} {countColumn : String} {row : Row}

theorem agrees_nowhere (root : Level) : Agrees root .nowhere .nowhere where
  settled := fun _ => rfl
  pending := fun _ => rfl

theorem Agrees.base? (hagrees : Agrees root places ways) (parent : Option Nat) :
    Leads root (places.base? parent) (ways.base? parent) := by
  cases parent with
  | none => rfl
  | some anchor => exact hagrees.settled anchor

/-- Trails that are kept go on agreeing. -/
theorem Agrees.kept (hagrees : Agrees root places ways)
    (hkept : ∀ path trail, Level.trailOf? path root = some trail →
      Level.trailOf? path later = some trail) : Agrees later places ways where
  settled := fun anchor => Leads.kept (hagrees.settled anchor) hkept
  pending := fun anchor => Leads.kept (hagrees.pending anchor) hkept

theorem Agrees.settle (hagrees : Agrees root places ways) {anchor : Nat} {path? : Option Path}
    {trail? : Option Trail} (hleads : Leads root path? trail?) :
    Agrees root (places.settle anchor path?) (ways.settle anchor trail?) where
  settled := by
    intro other
    simp only [Places.settle, Ways.settle]
    split
    · exact hleads
    · exact hagrees.settled other
  pending := hagrees.pending

theorem Agrees.suspend (hagrees : Agrees root places ways) {anchor : Nat} {path? : Option Path}
    {trail? : Option Trail} (hleads : Leads root path? trail?) :
    Agrees root (places.suspend anchor path?) (ways.suspend anchor trail?) where
  settled := hagrees.settled
  pending := by
    intro other
    simp only [Places.suspend, Ways.suspend]
    split
    · exact hleads
    · exact hagrees.pending other

/-- Going on from a stop. -/
theorem Agrees.advance (hagrees : Agrees root places ways) (anchor : Nat)
    (lastLeg : Option Bool) {outcome : Option Path} {onward : Option Trail}
    (houtcome : Leads root outcome onward) :
    Agrees root (Forest.advance places anchor lastLeg outcome)
      (ways.advance anchor lastLeg onward) := by
  unfold Forest.advance Ways.advance
  cases outcome with
  | none =>
      obtain rfl := leads_none_iff.mp houtcome
      dsimp only
      split
      · exact (hagrees.settle (hagrees.pending anchor)).suspend rfl
      · exact hagrees
  | some path =>
      obtain ⟨trail, rfl, -⟩ := leads_some_iff.mp houtcome
      dsimp only
      split
      · exact hagrees.suspend houtcome
      · exact hagrees.settle houtcome

/-- What a response and the trails of a row are after some stops. -/
structure Moved (forest : Forest) (root : Level) (stops : List Stop) (ways : Ways)
    (state : Places × Level) : Prop where
  hosts : forest.Hosts state.2
  agrees : Agrees state.2 state.1 ways
  gains : root.Gains state.2 stops

/-- A node places a row at the end of a path, in the frame of what is there or created. -/
theorem IsLaidOut.exists_framed (h : forest.IsLaidOut) (hhosts : forest.Hosts root) {j : Nat}
    {node : Node} (hj : forest[j]? = some node) (hshown : node.isShown = true) {base : Path}
    (hparent : forest.parentAt? none base = some node.parent)
    (hlevel : (Level.levelAt? base root).isSome = true) (countColumn : String)
    (metricName : Option String) (source : Row) :
    ∃ step after output, Level.atPath (node.place countColumn metricName source) base root =
        some (step, after) ∧ Level.IsWrite root after base node.name output ∧
      node.Placed countColumn source (root.outputAt? base node.name) output step ∧
      node.Suits output ∧
      ((root.outputAt? base node.name).getD (node.initial metricName)).Frames output := by
  obtain ⟨level, hat⟩ := Option.isSome_iff_exists.mp hlevel
  have hmem := List.mem_of_getElem? hj
  have hquery := Node.isQuery_of_isShown hshown
  have houtput : root.outputAt? base node.name = level.get? node.name := by
    rw [Level.outputAt?, hat, Option.bind_some]
  have hsuits (found : Output) (hfound : level.get? node.name = some found) : node.Suits found :=
    hhosts.suits base node found hmem hquery hparent (houtput.trans hfound)
  have hstart : node.Suits ((level.get? node.name).getD (node.initial metricName)) := by
    cases hfound : level.get? node.name with
    | none => exact Node.suits_initial hquery metricName
    | some found => exact hsuits found hfound
  obtain ⟨output, hget, hplaced⟩ := Node.place_spec hquery (h.labelled node hmem) countColumn source
    metricName level fun found hfound => (hsuits found hfound).fits
  obtain ⟨after, hact, hwrite⟩ := Level.atPath_isWrite _ base root hat hget hplaced.inner
  have hframes := Node.place_frames hquery metricName ((hget node.name).trans (if_pos rfl)) hstart
  rw [houtput]
  exact ⟨_, after, output, hact, hwrite, hplaced, hstart.of_frames hplaced.fits hframes, hframes⟩

/-- Where a row goes on, along a path and along its trail. -/
theorem leads_outcomeOf {base : Path} {trail : Trail} {node : Node} {output : Output}
    {after : Level} {source : Row} {before : Option Output} {step : Step}
    (hat : Level.trailOf? base after = some trail)
    (houtput : after.outputAt? base node.name = some output) (hsuits : node.Suits output)
    (hplaced : node.Placed countColumn source before output step) :
    Leads after (outcomeOf base step)
      ((node.goesTo? source).map fun mark => trail ++ [⟨node.name, mark⟩]) := by
  obtain ⟨hdescend, hnone⟩ := hplaced.goesTo?_eq hsuits
  cases step with
  | descend segment =>
      obtain ⟨hname, b, hb, hgoes⟩ := hdescend segment rfl
      refine leads_some_iff.mpr ⟨_, by rw [hgoes]; rfl, ?_⟩
      rw [Level.trailOf?_concat, hat, Option.bind_some, hname, houtput, Option.bind_some, hb]
      rfl
  | stay => rw [hnone (by simp)]; rfl
  | skip => rw [hnone (by simp)]; rfl

/-- A node that places a row does what the stop at it brings. -/
theorem IsLaidOut.moved_visit (h : forest.IsLaidOut) (countColumn : String) (row : Row)
    (hhosts : forest.Hosts root) (hguides : forest.Guides ways)
    (hagrees : Agrees root places ways) {j : Nat} {node : Node} (hj : forest[j]? = some node) :
    forest.Moved root (forest.stopAt? countColumn row ways (node, j)).toList
      (forest.moveOn countColumn row ways (node, j))
      (forest.visit forest.concurrentRuns countColumn row (places, root) (node, j)) := by
  have hpass (hnone : forest.stopAt? countColumn row ways (node, j) = none) :
      forest.Moved root (forest.stopAt? countColumn row ways (node, j)).toList
        (forest.moveOn countColumn row ways (node, j)) (places, root) := by
    rw [moveOn, hnone]
    exact ⟨hhosts, hagrees, Level.Gains.refl root⟩
  unfold Forest.visit
  dsimp only
  split
  · rename_i hhidden
    exact hpass (by simp [stopAt?, show node.isShown = false by simpa using hhidden])
  · rename_i hshown
    replace hshown : node.isShown = true := by simpa using hshown
    have hleads := hagrees.base? node.parent
    cases hbase : places.base? node.parent with
    | none =>
        rw [hbase] at hleads
        exact hpass (by simp [stopAt?, leads_none_iff.mp hleads])
    | some base =>
        rw [hbase] at hleads
        obtain ⟨trail, htrail, hat⟩ := leads_some_iff.mp hleads
        have hparent : forest.parentAt? none base = some node.parent :=
          (forest.parentAt?_eq_parentOn? hat).trans (hguides.base? htrail)
        have hlevel : (Level.levelAt? base root).isSome = true := by
          rw [← Level.isSome_trailOf?, hat]
          rfl
        have hquery := Node.isQuery_of_isShown hshown
        have hmem := List.mem_of_getElem? hj
        have hbefore (earlier : Output) (hearlier : root.outputAt? base node.name = some earlier) :
            node.Suits earlier := hhosts.suits base node earlier hmem hquery hparent hearlier
        obtain ⟨step, after, output, hact, hwrite, hplaced, hsuits, hframes⟩ := h.exists_framed
          hhosts hj hshown hparent hlevel countColumn (forest.orderMetricName? node)
          (forest.sourceAt countColumn row j)
        have hkept (path : Path) (trail : Trail) :
            Level.trailOf? path root = some trail → Level.trailOf? path after = some trail :=
          hwrite.trailOf?_eq hplaced.ids fun earlier hearlier => by
            rw [hsuits.ordered, (hbefore earlier hearlier).ordered]
        have hhostsAfter := h.hosts_of_write hhosts hj hshown hparent hwrite hsuits
        have hchange := hwrite.isChange hat hhosts.distinct hhostsAfter.distinct hkept
        have houtput := Level.outputOn?_of_trailOf? hhosts.distinct hat node.name
        let stop : Stop := ⟨trail, node, forest.orderMetricName? node, countColumn,
          forest.sourceAt countColumn row j⟩
        have hstop : forest.stopAt? countColumn row ways (node, j) = some stop := by
          simp [stopAt?, hshown, htrail, stop]
        have hvisit : Level.atPath (node.place countColumn (forest.orderMetricName? node)
            (if forest.isSilenced row j then row.muted countColumn else row)) base root =
            some (step, after) := hact
        dsimp only
        rw [hvisit, moveOn, hstop]
        refine ⟨hhostsAfter, ?_, ?_⟩
        · dsimp only
          rw [remember_eq_advance hj hplaced]
          exact (hagrees.kept hkept).advance _ _
            (leads_outcomeOf (hkept base trail hat) hwrite.at_path hsuits hplaced)
        · exact Level.IsChange.gains stop hchange (houtput ▸ hplaced)
            (fun earlier hearlier => hbefore earlier (houtput ▸ hearlier)) hsuits
            (h.labelled node hmem) (houtput ▸ hframes)

/-- What some nodes do to a response is what the stops at them bring. -/
theorem IsLaidOut.moved_foldl (h : forest.IsLaidOut) {entries : List (Node × Nat)}
    (hentries : ∀ entry ∈ entries, forest[entry.2]? = some entry.1) (hhosts : forest.Hosts root)
    (hguides : forest.Guides ways) (hagrees : Agrees root places ways) :
    forest.Hosts (entries.foldl (forest.visit forest.concurrentRuns countColumn row)
        (places, root)).2 ∧
      root.Gains (entries.foldl (forest.visit forest.concurrentRuns countColumn row)
        (places, root)).2 (forest.stopsFrom countColumn row ways entries) := by
  induction entries generalizing root places ways with
  | nil => exact ⟨hhosts, Level.Gains.refl root⟩
  | cons entry rest ih =>
      obtain ⟨node, j⟩ := entry
      have hat := hentries (node, j) (by simp)
      have hmoved := h.moved_visit countColumn row hhosts hguides hagrees hat
      obtain ⟨hhostsLater, hgains⟩ := ih (fun other hother => hentries other (by simp [hother]))
        hmoved.hosts (hguides.moveOn h hat) hmoved.agrees
      exact ⟨hhostsLater, hmoved.gains.trans hgains⟩

/-- A row brings its stops. -/
theorem IsLaidOut.gains_foldRow (h : forest.IsLaidOut) (countColumn : String) (row : Row)
    (hhosts : forest.Hosts root) :
    forest.Hosts (forest.foldRow forest.concurrentRuns countColumn root row) ∧
      root.Gains (forest.foldRow forest.concurrentRuns countColumn root row)
        (forest.stops countColumn row) :=
  h.moved_foldl (fun _ hentry => List.mem_zipIdx_iff_getElem?.mp hentry) hhosts
    (guides_nowhere forest) (agrees_nowhere root)

/-- Rows bring their stops, one row after the other. -/
theorem IsLaidOut.gains_foldRows (h : forest.IsLaidOut) (countColumn : String) (rows : List Row)
    (hhosts : forest.Hosts root) :
    forest.Hosts (forest.foldRows countColumn root rows) ∧
      root.Gains (forest.foldRows countColumn root rows)
        (rows.flatMap (forest.stops countColumn)) := by
  unfold foldRows
  dsimp only
  induction rows generalizing root with
  | nil => exact ⟨hhosts, Level.Gains.refl root⟩
  | cons row rest ih =>
      obtain ⟨hmiddle, hgains⟩ := h.gains_foldRow countColumn row hhosts
      obtain ⟨hafter, hgainsRest⟩ := ih hmiddle
      exact ⟨hafter, hgains.trans hgainsRest⟩

end

end Forest

namespace Part

/-- The stops of the rows of one table. -/
def stops (part : Part) : List Stop := part.rows.flatMap (part.forest.stops part.countColumn)

variable {base : Forest}

/-- The rows of several tables bring their stops, one table after the other. -/
theorem gains_foldl (h : base.IsLaidOut) {parts : List Part}
    (hparts : ∀ part ∈ parts, base.IsRevision part.forest) {root : Level}
    (hhosts : base.Hosts root) :
    base.Hosts (parts.foldl fold root) ∧
      root.Gains (parts.foldl fold root) (parts.flatMap stops) := by
  induction parts generalizing root with
  | nil => exact ⟨hhosts, Level.Gains.refl root⟩
  | cons part rest ih =>
      have hrevision := hparts part (by simp)
      obtain ⟨hmiddle, hgains⟩ := (hrevision.isLaidOut h).gains_foldRows part.countColumn part.rows
        ((hrevision.hosts_iff root).mpr hhosts)
      obtain ⟨hafter, hgainsRest⟩ := ih (fun other hother => hparts other (by simp [hother]))
        ((hrevision.hosts_iff _).mp hmiddle)
      exact ⟨hafter, hgains.trans hgainsRest⟩

end Part
end Rollup
