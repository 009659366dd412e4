/-
# Contiguous intervals

The empty intervals of a histogram are filled in table by table and group by group, while the lists
of the response only tell the buckets above the histogram apart. So a list has an interval exactly
when some group of some table that comes to the list spans it. The list is contiguous when these
spans join up, which is sure for one group and not for several.
-/

import Rollup.Proofs.Response.Answered
import Rollup.Proofs.Response.Closed
import Rollup.Proofs.Response.Points
import Rollup.Proofs.Rows.Filled

namespace Rollup

namespace Rows

/-- Whether a row is the one of a group at an index of the grid: one that the group has there, or
else the one that is filled in. -/
def GapTarget.HasRow (target : GapTarget) (outer : List String) (countColumn : String)
    (group : List Row) (k : Int) (row : Row) : Prop :=
  (row ∈ group ∧ ∃ raw, row.number? target.column = some raw ∧ target.grid.indexOf raw = k) ∨
    (k ∉ presentIndices target group ∧ ∃ template rest, group = template :: rest ∧
      row = gapRow target outer countColumn template k)

/-- The value of a filled in row is that of its index. -/
theorem number?_gapRow {target : GapTarget} {outer : List String} {countColumn : String}
    {template : Row} {k : Int} (hcount : target.column ≠ countColumn) :
    (gapRow target outer countColumn template k).number? target.column =
      Cell.number? (target.grid.valueAt k) := by
  unfold gapRow Row.number? Row.get? Row.ofCells
  dsimp only
  rw [Fields.get?_insert_of_ne _ hcount, Fields.get?_insert_self]
  cases target.grid.valueAt k <;> rfl

end Rows

namespace AnsweredSearch

open Rows

variable (search : AnsweredSearch)

/-- The rows of a source before the empty intervals are filled in. -/
def unfilled (source : TablePlan × List Row) : List Row :=
  Rows.unfilled source.1.forest (source.1.rowContext search.settings) source.2

/-- The groups of a source in which the intervals of a node are filled in. -/
def groupsAt (index : Nat) (source : TablePlan × List Row) : List (List Row) :=
  (groups (source.1.forest.groupColumnsBefore index) (search.unfilled source)).map Prod.snd

/-- Whether a histogram is the one that is filled in for every table, and nowhere more intervals are
missing than may be filled in. -/
structure Fills (index : Nat) (h : Node) : Prop where
  node : search.forest[index]? = some h
  answered : search.answers ≠ []
  target : ∀ answer ∈ search.answers, ∃ target ∈ gapTarget? answer.1.forest,
    target.index = index
  uncapped : ∀ source ∈ search.sources, ∀ target ∈ gapTarget? source.1.forest,
    ∀ group ∈ search.groupsAt index source,
      (missingIndices target search.settings.maxGapBuckets group).length <
        search.settings.maxGapBuckets

/-- Whether the values of a histogram that come back, and its declared bounds, lie on its grid. -/
structure IsOnGrid (h : Node) (low high : Int) : Prop where
  exact : h.aggregation.IsExactBetween low high
  rows : ∀ answer ∈ search.answers, ∀ target ∈ gapTarget? answer.1.forest,
    ∀ cells ∈ answer.2.rows, ∀ raw ∈ (Row.ofCells cells .engine).number? target.column,
    low ≤ target.grid.indexOf raw ∧ target.grid.indexOf raw ≤ high ∧
      h.aggregation.pointValue? (target.grid.indexOf raw) = some raw
  bounds : ∀ grid first last, h.aggregation.grid? = some (grid, some (first, last)) →
    low ≤ first ∧ last ≤ high

/-- Whether an interval is covered at a place of the response: it lies in the span of a group, and
the row of the group there comes to the place. -/
def CoversAt (index : Nat) (h : Node) (path : Path) (k : Int) : Prop :=
  ∃ source ∈ search.sources, ∃ target ∈ gapTarget? source.1.forest,
    ∃ group ∈ search.groupsAt index source, target.Spans group k ∧
    ∃ row, target.HasRow (source.1.forest.groupColumnsBefore index) source.1.countColumn group k
      row ∧ source.1.forest.follow? row none search.response.root path = some h.parent

/-- Whether the spans that come to a place of the response join up. -/
def JoinsAt (index : Nat) (h : Node) (path : Path) : Prop :=
  ∀ i k j, i ≤ k → k ≤ j → search.CoversAt index h path i → search.CoversAt index h path j →
    search.CoversAt index h path k

/-- The histogram that is filled in, in the plan of a source. -/
structure IsTarget (index : Nat) (h : Node) (source : TablePlan × List Row) (target : GapTarget)
    (n : Node) : Prop where
  isSource : source ∈ search.sources
  isChosen : gapTarget? source.1.forest = some target
  index_eq : target.index = index
  node : source.1.forest[index]? = some n
  revision : h.IsRevision n
  showsEmpty : n.aggregation.showsEmpty = true
  isShown : n.isShown = true
  column : n.decisions.column = some target.column
  grid : h.aggregation.grid? = some (target.grid, target.bounds)
  notCount : target.column ≠ source.1.countColumn
  notBlanked : target.column ∉ blankedColumns source.1.forest

variable {search} {index : Nat} {h n : Node} {low high : Int} {source : TablePlan × List Row}
  {target : GapTarget} {group : List Row}

/-! ## The histogram in the plan of a source -/

theorem Fills.exists_isTarget (hfills : search.Fills index h) (hapart : search.ReadsApart)
    (hsource : source ∈ search.sources) : ∃ target n, search.IsTarget index h source target n := by
  obtain ⟨answer, hanswer, heq, -⟩ := exists_answer_of_mem_sources hfills.answered hsource
  obtain ⟨target, htarget, hindex⟩ := hfills.target answer hanswer
  rw [← heq] at htarget
  obtain ⟨n, hn, hactive, hempty, -, hcolumn, hgrid⟩ := gapTarget_spec htarget
  rw [hindex] at hn
  obtain ⟨before, hbefore, hrevision⟩ := (source_spec hfills.answered hsource).1.node hn
  obtain rfl : before = h := Option.some.inj (hbefore.symm.trans hfills.node)
  have hreads := hapart.source hfills.answered hsource
  obtain ⟨hread, hshown, -⟩ := readColumn?_of_gapTarget hactive hempty hcolumn
  have hmem := List.mem_of_getElem? hn
  refine ⟨target, n, ⟨hsource, htarget, hindex, hn, hrevision, hempty, hshown, hcolumn,
    hrevision.aggregation ▸ hgrid, ?_, not_mem_blankedColumns hreads hmem hactive hread⟩⟩
  intro hsame
  exact hreads.count n hmem hshown (hsame ▸ hread)

theorem IsTarget.eq_of_isChosen (htarget : search.IsTarget index h source target n)
    {other : GapTarget} (hother : gapTarget? source.1.forest = some other) : other = target :=
  Option.some.inj (hother.symm.trans htarget.isChosen)

theorem mem_unfilled_of_mem_groupsAt (hgroup : group ∈ search.groupsAt index source) {row : Row}
    (hrow : row ∈ group) : row ∈ search.unfilled source := by
  obtain ⟨entry, hentry, rfl⟩ := List.mem_map.mp hgroup
  exact mem_of_mem_groups hentry row hrow

/-! ## Points of the grid -/

/-- The values of the rows before the empty intervals are filled in lie on the grid. -/
theorem IsOnGrid.of_mem_unfilled (hgrid : search.IsOnGrid h low high)
    (hfills : search.Fills index h) (hapart : search.ReadsApart)
    (htarget : search.IsTarget index h source target n) {row : Row}
    (hrow : row ∈ search.unfilled source) {raw : Binary64}
    (hraw : row.number? target.column = some raw) :
    low ≤ target.grid.indexOf raw ∧ target.grid.indexOf raw ≤ high ∧
      h.aggregation.pointValue? (target.grid.indexOf raw) = some raw := by
  have hreads : source.1.forest.ReadsApart (source.1.rowContext search.settings).countColumn :=
    hapart.source hfills.answered htarget.isSource
  obtain ⟨-, -, hmarked⟩ := source_spec hfills.answered htarget.isSource
  obtain ⟨before, hbefore, hget⟩ := exists_of_mem_unfilled hmarked hreads htarget.isChosen hrow
  rw [Row.number?_congr hget] at hraw
  obtain ⟨answer, hanswer, heq, hrows⟩ :=
    exists_answer_of_mem_sources hfills.answered htarget.isSource
  rcases hrows with hempty | hrows
  · rw [hempty] at hbefore
    obtain rfl := List.mem_singleton.mp hbefore
    cases hraw
  · rw [hrows] at hbefore
    obtain ⟨cells, hcells, rfl⟩ := List.mem_map.mp hbefore
    exact hgrid.rows answer hanswer target (heq ▸ htarget.isChosen) cells hcells raw hraw

/-- What a group spans lies on the grid. -/
theorem IsOnGrid.of_spans (hgrid : search.IsOnGrid h low high) (hfills : search.Fills index h)
    (hapart : search.ReadsApart) (htarget : search.IsTarget index h source target n)
    (hgroup : group ∈ search.groupsAt index source) {k : Int} (hspans : target.Spans group k) :
    low ≤ k ∧ k ≤ high := by
  have hpresent {i : Int} (hi : i ∈ presentIndices target group) : low ≤ i ∧ i ≤ high := by
    obtain ⟨row, hrow, raw, hraw, rfl⟩ := mem_presentIndices.mp hi
    have hon := hgrid.of_mem_unfilled hfills hapart htarget
      (mem_unfilled_of_mem_groupsAt hgroup hrow) hraw
    exact ⟨hon.1, hon.2.1⟩
  have hbounds {first last : Int} (hdeclared : target.bounds = some (first, last)) :
      low ≤ first ∧ last ≤ high :=
    hgrid.bounds target.grid first last (hdeclared ▸ htarget.grid)
  obtain ⟨⟨least, hleast, hle⟩, greatest, hgreatest, hge⟩ := hspans
  constructor
  · rcases List.mem_append.mp hleast with hin | hdeclared
    · exact Int.le_trans (hpresent hin).1 hle
    · simp only [Option.mem_toList, Option.map_eq_some_iff] at hdeclared
      obtain ⟨⟨first, last⟩, hdeclared, rfl⟩ := hdeclared
      exact Int.le_trans (hbounds hdeclared).1 hle
  · rcases List.mem_append.mp hgreatest with hin | hdeclared
    · exact Int.le_trans hge (hpresent hin).2
    · simp only [Option.mem_toList, Option.map_eq_some_iff] at hdeclared
      obtain ⟨⟨first, last⟩, hdeclared, rfl⟩ := hdeclared
      exact Int.le_trans hge (hbounds hdeclared).2

/-- The row of a group at an index has the value of the index. -/
theorem IsOnGrid.number?_of_hasRow (hgrid : search.IsOnGrid h low high)
    (hfills : search.Fills index h) (hapart : search.ReadsApart)
    (htarget : search.IsTarget index h source target n)
    (hgroup : group ∈ search.groupsAt index source) {k : Int} {row : Row}
    (hrow : target.HasRow (source.1.forest.groupColumnsBefore index) source.1.countColumn group k
      row) :
    row.number? target.column = h.aggregation.pointValue? k := by
  rcases hrow with ⟨hpresent, raw, hraw, rfl⟩ | ⟨-, template, rest, -, rfl⟩
  · rw [(hgrid.of_mem_unfilled hfills hapart htarget
      (mem_unfilled_of_mem_groupsAt hgroup hpresent) hraw).2.2, hraw]
  · rw [number?_gapRow htarget.notCount, Aggregation.pointValue?, htarget.grid]
    rfl

/-! ## Settled rows -/

/-- A row without the cells of blanked metrics. -/
def blankedRow (source : TablePlan × List Row) (row : Row) : Row :=
  (blankedColumns source.1.forest).foldl (fun row column => row.set column .null) row

theorem IsTarget.number?_blankedRow (htarget : search.IsTarget index h source target n)
    (row : Row) :
    (blankedRow source row).number? target.column = row.number? target.column :=
  Row.number?_congr (get?_blank htarget.notBlanked row)

/-- A settled row with a value is the row of some group at an index that the group spans. -/
theorem IsTarget.exists_hasRow (htarget : search.IsTarget index h source target n) {settled : Row}
    (hsettled : settled ∈ source.1.settleRows search.settings source.2) {raw : Binary64}
    (hraw : settled.number? target.column = some raw) :
    ∃ group ∈ search.groupsAt index source, ∃ k row, target.Spans group k ∧
      target.HasRow (source.1.forest.groupColumnsBefore index) source.1.countColumn group k row ∧
      settled = blankedRow source row := by
  obtain ⟨entry, hentry, template, rest, heq, row, hrow, rfl⟩ :=
    (mem_run_iff htarget.isChosen).mp hsettled
  rw [htarget.index_eq] at hentry hrow
  refine ⟨entry.2, List.mem_map_of_mem hentry, ?_⟩
  rcases hrow with hpresent | ⟨k, hk, rfl⟩
  · rw [← blankedRow, htarget.number?_blankedRow] at hraw
    exact ⟨target.grid.indexOf raw, row,
      spans_of_mem_presentIndices (mem_presentIndices.mpr ⟨row, hpresent, raw, hraw, rfl⟩),
      Or.inl ⟨hpresent, raw, hraw, rfl⟩, rfl⟩
  · obtain ⟨hspans, hnot⟩ := spans_of_mem_missingIndices hk
    exact ⟨k, _, hspans, Or.inr ⟨hnot, template, rest, heq, rfl⟩, rfl⟩

/-- The row of a group at an index that the group spans is there in the end. -/
theorem IsTarget.blankedRow_mem (htarget : search.IsTarget index h source target n)
    (hfills : search.Fills index h) (hgroup : group ∈ search.groupsAt index source) {k : Int}
    (hspans : target.Spans group k) {row : Row}
    (hrow : target.HasRow (source.1.forest.groupColumnsBefore index) source.1.countColumn group k
      row) :
    blankedRow source row ∈ source.1.settleRows search.settings source.2 := by
  have hlimit := hfills.uncapped source htarget.isSource target htarget.isChosen group hgroup
  obtain ⟨entry, hentry, rfl⟩ := List.mem_map.mp hgroup
  refine (mem_run_iff htarget.isChosen).mpr ⟨entry, ?_⟩
  rw [htarget.index_eq]
  refine ⟨hentry, ?_⟩
  rcases hrow with ⟨hpresent, -⟩ | ⟨hnot, template, rest, heq, rfl⟩
  · cases heq : entry.2 with
    | nil => simp [heq] at hpresent
    | cons template rest => exact ⟨template, rest, rfl, row, Or.inl (heq ▸ hpresent), rfl⟩
  · exact ⟨template, rest, heq, _, Or.inr ⟨k, mem_missingIndices hlimit hspans hnot, rfl⟩, rfl⟩

/-- The bucket that a histogram makes for a settled row. -/
theorem IsTarget.valueBucket?_blankedRow (htarget : search.IsTarget index h source target n)
    (row : Row) :
    n.valueBucket? (blankedRow source row) =
      (row.number? target.column).bind h.aggregation.intervalBucket? := by
  rw [Node.valueBucket?_of_showsEmpty htarget.showsEmpty, htarget.column, Option.getD_some,
    htarget.number?_blankedRow, htarget.revision.aggregation]

/-! ## Intervals of a list -/

section

variable {path : Path} {list : BucketList Output}

theorem Fills.showsEmpty (hfills : search.Fills index h) : h.aggregation.showsEmpty = true := by
  obtain ⟨answer, hanswer⟩ := List.exists_mem_of_ne_nil _ hfills.answered
  obtain ⟨target, htarget, rfl⟩ := hfills.target answer hanswer
  obtain ⟨n, hn, -, hempty, -⟩ := gapTarget_spec htarget
  obtain ⟨hplan, -⟩ := mem_plans_of_mem_answers hanswer
  obtain ⟨before, hbefore, hrevision⟩ :=
    (TablePlan.isRevision_of_mem_forTables hplan).node hn
  obtain rfl : before = h := Option.some.inj (hbefore.symm.trans hfills.node)
  exact hrevision.aggregation ▸ hempty

/-- A bucket of the list is that of an index that is covered. -/
theorem IsOnGrid.exists_coversAt (hgrid : search.IsOnGrid h low high)
    (hfills : search.Fills index h) (hapart : search.ReadsApart)
    (hparent : search.forest.parentAt? none path = some h.parent)
    (hlist : search.response.root.outputAt? path h.name = some (.buckets list))
    {b : Bucket Output} (hb : b ∈ list.entries) :
    ∃ k fresh, search.CoversAt index h path k ∧ low ≤ k ∧ k ≤ high ∧
      h.aggregation.pointBucket? k = some fresh ∧ fresh.id = b.id ∧
      h.aggregation.indexOf? b = some k := by
  have hgathered := gathered_root hfills.answered hapart
  obtain ⟨i, hi⟩ := List.getElem?_of_mem hb
  have hbucket : search.response.root.bucketIn? path (.bucket h.name i) = some b := by
    rw [Level.bucketIn?_eq, Segment.name, hlist]
    exact hi
  have hshown : ∀ part ∈ search.parts, ∀ n, part.forest[index]? = some n → n.isShown = true := by
    intro part hpart n hn
    obtain ⟨source, hsource, rfl⟩ := List.mem_map.mp hpart
    obtain ⟨target, n', htarget⟩ := hfills.exists_isTarget hapart hsource
    obtain rfl : n' = n := Option.some.inj (htarget.node.symm.trans hn)
    exact htarget.isShown
  rcases hgathered.origin _ (.refl _) hgathered.fits index h path i b hfills.node
    (Aggregation.isValueGroup_of_showsEmpty hfills.showsEmpty) hshown hparent hbucket with
    ⟨b', hempty, -⟩ | ⟨part, hpart, n, hn, settled, hsettled, hfollow, fresh, hfresh, hid, hkey⟩
  · rw [Level.bucketIn?_eq, Level.outputAt?_empty] at hempty
    cases hempty
  · obtain ⟨source, hsource, rfl⟩ := List.mem_map.mp hpart
    obtain ⟨target, n', htarget⟩ := hfills.exists_isTarget hapart hsource
    obtain rfl : n' = n := Option.some.inj (htarget.node.symm.trans hn)
    have hread := hfresh
    rw [Node.valueBucket?_of_showsEmpty htarget.showsEmpty, htarget.column] at hread
    obtain ⟨raw, hraw, -⟩ := Option.bind_eq_some_iff.mp hread
    obtain ⟨group, hgroup, k, row, hspans, hrow, rfl⟩ := htarget.exists_hasRow hsettled hraw
    obtain ⟨hlow, hhigh⟩ := hgrid.of_spans hfills hapart htarget hgroup hspans
    obtain ⟨-, -, hmarked⟩ := source_spec hfills.answered hsource
    rw [htarget.valueBucket?_blankedRow,
      hgrid.number?_of_hasRow hfills hapart htarget hgroup hrow] at hfresh
    obtain ⟨value, made, hvalue, -, hmade, hstands⟩ := hgrid.exact.reads k hlow hhigh
    rw [hvalue, Option.bind_some, hmade] at hfresh
    obtain rfl := Option.some.inj hfresh
    refine ⟨k, made,
      ⟨source, hsource, target, htarget.isChosen, group, hgroup, hspans, row, hrow, ?_⟩,
      hlow, hhigh, ?_, hid, ?_⟩
    · rw [← hmarked.follow?_blanked (hapart.source hfills.answered hsource)]
      exact hfollow
    · rw [Aggregation.pointBucket?, hvalue, Option.bind_some, hmade]
    · rw [← Aggregation.indexOf?_congr hkey, hstands]

/-- An index that is covered has a bucket in the list. -/
theorem IsOnGrid.exists_bucket (hgrid : search.IsOnGrid h low high)
    (hfills : search.Fills index h) (hapart : search.ReadsApart)
    (hlist : search.response.root.outputAt? path h.name = some (.buckets list)) {k : Int}
    (hcovers : search.CoversAt index h path k) :
    low ≤ k ∧ k ≤ high ∧ ∃ b ∈ list.entries, ∃ fresh,
      h.aggregation.pointBucket? k = some fresh ∧ fresh.id = b.id := by
  have hgathered := gathered_root hfills.answered hapart
  obtain ⟨source, hsource, chosen, hchosen, group, hgroup, hspans, row, hrow, hfollow⟩ := hcovers
  obtain ⟨target, n, htarget⟩ := hfills.exists_isTarget hapart hsource
  obtain rfl := htarget.eq_of_isChosen hchosen
  obtain ⟨hlow, hhigh⟩ := hgrid.of_spans hfills hapart htarget hgroup hspans
  obtain ⟨-, -, hmarked⟩ := source_spec hfills.answered hsource
  obtain ⟨value, made, hvalue, -, hmade, -⟩ := hgrid.exact.reads k hlow hhigh
  have hmakes : n.valueBucket? (blankedRow source row) = some made := by
    rw [htarget.valueBucket?_blankedRow,
      hgrid.number?_of_hasRow hfills hapart htarget hgroup hrow, hvalue, Option.bind_some, hmade]
  have hvalueGroup := Aggregation.isValueGroup_of_showsEmpty htarget.showsEmpty
  have hhits (name : String) (i : Nat) (id : String) :
      n.hits (blankedRow source row) (.bucket name i) id = (made.id == id) := by
    rw [Node.hits_value hvalueGroup, hmakes]
    rfl
  have hblanked := hmarked.follow?_blanked (hapart.source hfills.answered hsource)
    search.response.root path row
  obtain ⟨next, b, hname, hb, henters⟩ := hgathered.entered _ (.refl _) hgathered.fits
    (partOf search.settings source) (List.mem_map_of_mem hsource) _
    (htarget.blankedRow_mem hfills hgroup hspans hrow) index n path htarget.node htarget.isShown
    (hblanked.trans (htarget.revision.parent ▸ hfollow)) (.bucket h.name 0) made.id
    (by rw [hhits]; exact beq_self_eq_true made.id)
  rw [Level.bucketIn?_eq, hname, htarget.revision.name, hlist] at hb
  rw [Node.enters_value hvalueGroup] at henters
  cases next with
  | single name => cases hb
  | bucket name i =>
      rw [hhits, beq_iff_eq] at henters
      refine ⟨hlow, hhigh, b, List.mem_of_getElem? hb, made, ?_, henters⟩
      rw [Aggregation.pointBucket?, hvalue, Option.bind_some, hmade]

/-- A list has an interval exactly when some group that comes to the list spans it. -/
theorem IsOnGrid.hasIndex_iff_coversAt (hgrid : search.IsOnGrid h low high)
    (hfills : search.Fills index h) (hapart : search.ReadsApart)
    (hparent : search.forest.parentAt? none path = some h.parent)
    (hlist : search.response.root.outputAt? path h.name = some (.buckets list)) {k : Int} :
    h.aggregation.HasIndex list.entries k ↔ search.CoversAt index h path k := by
  constructor
  · rintro ⟨b, hb, hindex⟩
    obtain ⟨i, fresh, hcovers, -, -, -, -, hstands⟩ :=
      hgrid.exists_coversAt hfills hapart hparent hlist hb
    obtain rfl : i = k := Option.some.inj (hstands.symm.trans hindex)
    exact hcovers
  · intro hcovers
    obtain ⟨hlow, hhigh, b, hb, made, hmade, hid⟩ := hgrid.exists_bucket hfills hapart hlist hcovers
    obtain ⟨i, fresh, -, hlow', hhigh', hfresh, hid', hstands⟩ :=
      hgrid.exists_coversAt hfills hapart hparent hlist hb
    -- the bucket was made for an index with the same identity
    obtain rfl : i = k := hgrid.exact.apart i k fresh made hlow' hhigh' hlow hhigh hfresh hmade
      (hid'.trans hid.symm)
    exact ⟨b, hb, hstands⟩

/-- Finishing a list of intervals that shows the empty ones changes no index that it has. -/
theorem hasIndex_finished {a : Aggregation} {before after : BucketList Output}
    (hfinish : before.finish = intervalFinish 0)
    (hafter : Output.buckets after = (Output.buckets before).finished) {k : Int} :
    a.HasIndex after.entries k ↔ a.HasIndex before.entries k := by
  obtain ⟨shape, finish, other, entries⟩ := before
  rw [Output.finished, Output.buckets.injEq] at hafter
  subst hafter
  have hclosed : (BucketList.mk shape finish other (finishedBuckets entries)).finish =
      intervalFinish 0 := hfinish
  have hmem {b : Bucket Output} := BucketList.mem_close_iff hclosed (b := b)
  constructor
  · rintro ⟨b, hb, hindex⟩
    rw [hmem, finishedBuckets_eq_map] at hb
    obtain ⟨open', hopen, rfl⟩ := List.mem_map.mp hb
    exact ⟨open', hopen, hindex⟩
  · rintro ⟨b, hb, hindex⟩
    refine ⟨b.finished, hmem.mpr ?_, hindex⟩
    rw [finishedBuckets_eq_map]
    exact List.mem_map_of_mem hb

/-! ## Spans that join up -/

/-- Whether a group comes to a place as a whole: its first row does. -/
def ComesTo (search : AnsweredSearch) (h : Node) (path : Path) (source : TablePlan × List Row)
    (group : List Row) : Prop :=
  ∃ first, group.head? = some first ∧
    source.1.forest.follow? first none search.response.root path = some h.parent

/-- Whether the rows of every group go one way, those that are filled in as well: the rows of a
group agree about what they are grouped by, and no node before the histogram reads its column. -/
structure GoesTogether (search : AnsweredSearch) (index : Nat) : Prop where
  agree : ∀ source ∈ search.sources, ∀ group ∈ search.groupsAt index source, ∀ first ∈ group,
    ∀ second ∈ group, ∀ c ∈ source.1.forest.groupColumnsBefore index,
    first.get? c = second.get? c
  alone : ∀ source ∈ search.sources, ∀ target ∈ gapTarget? source.1.forest,
    ∀ i x, i < index → source.1.forest[i]? = some x → x.isShown = true →
    x.readColumn? ≠ some target.column

/-- The row of a group at an index goes where the group goes. -/
theorem GoesTogether.follow?_of_hasRow (htogether : search.GoesTogether index)
    (hfills : search.Fills index h) (hapart : search.ReadsApart)
    (hparent : search.forest.parentAt? none path = some h.parent)
    (htarget : search.IsTarget index h source target n)
    (hgroup : group ∈ search.groupsAt index source) {k : Int} {row : Row}
    (hrow : target.HasRow (source.1.forest.groupColumnsBefore index) source.1.countColumn group k
      row) :
    source.1.forest.follow? row none search.response.root path = some h.parent ↔
      search.ComesTo h path source group := by
  obtain ⟨hrevision, hlaid, hmarked⟩ := source_spec hfills.answered htarget.isSource
  have hpath : source.1.forest.parentAt? none path = some n.parent := by
    rw [hrevision.parentAt?_eq, hparent, htarget.revision.parent]
  have hfirst {first : Row} (hhead : group.head? = some first) :
      source.1.forest.follow? row none search.response.root path =
        source.1.forest.follow? first none search.response.root path := by
    rcases hrow with ⟨hpresent, -⟩ | ⟨-, template, rest, rfl, rfl⟩
    · exact hlaid.follow?_of_group hmarked htarget.node hpath _ fun c hc =>
        htogether.agree source htarget.isSource group hgroup row hpresent first
          (List.mem_of_mem_head? hhead) c hc
    · obtain rfl : template = first := Option.some.inj hhead
      have hindex := htarget.index_eq
      subst hindex
      exact hlaid.follow?_gapRow hmarked (hapart.source hfills.answered htarget.isSource)
        (htogether.alone source htarget.isSource target htarget.isChosen) htarget.node hpath _
        template k
  constructor
  · intro hfollow
    cases hhead : group.head? with
    | some first => exact ⟨first, hhead, (hfirst hhead).symm.trans hfollow⟩
    | none =>
        rw [List.head?_eq_none_iff] at hhead
        subst hhead
        rcases hrow with ⟨hpresent, -⟩ | ⟨-, template, rest, hcons, -⟩
        · cases hpresent
        · cases hcons
  · rintro ⟨first, hhead, hfollow⟩
    exact (hfirst hhead).trans hfollow

/-- An interval is covered when it lies in the span of a group that comes to the place. -/
theorem GoesTogether.coversAt_iff (htogether : search.GoesTogether index)
    (hfills : search.Fills index h) (hapart : search.ReadsApart)
    (hparent : search.forest.parentAt? none path = some h.parent) {k : Int} :
    search.CoversAt index h path k ↔
      ∃ source ∈ search.sources, ∃ target ∈ gapTarget? source.1.forest,
        ∃ group ∈ search.groupsAt index source, search.ComesTo h path source group ∧
          target.Spans group k := by
  constructor
  · rintro ⟨source, hsource, chosen, hchosen, group, hgroup, hspans, row, hrow, hfollow⟩
    obtain ⟨target, n, htarget⟩ := hfills.exists_isTarget hapart hsource
    obtain rfl := htarget.eq_of_isChosen hchosen
    exact ⟨source, hsource, _, hchosen, group, hgroup,
      (htogether.follow?_of_hasRow hfills hapart hparent htarget hgroup hrow).mp hfollow, hspans⟩
  · rintro ⟨source, hsource, chosen, hchosen, group, hgroup, hcomes, hspans⟩
    obtain ⟨target, n, htarget⟩ := hfills.exists_isTarget hapart hsource
    obtain rfl := htarget.eq_of_isChosen hchosen
    have hexists : ∃ row, chosen.HasRow (source.1.forest.groupColumnsBefore index)
        source.1.countColumn group k row := by
      by_cases hpresent : k ∈ presentIndices chosen group
      · obtain ⟨row, hmem, hraw⟩ := mem_presentIndices.mp hpresent
        exact ⟨row, Or.inl ⟨hmem, hraw⟩⟩
      · obtain ⟨first, hhead, -⟩ := hcomes
        obtain ⟨rest, hcons⟩ := List.head?_eq_some_iff.mp hhead
        exact ⟨_, Or.inr ⟨hpresent, first, rest, hcons, rfl⟩⟩
    obtain ⟨row, hrow⟩ := hexists
    exact ⟨source, hsource, chosen, hchosen, group, hgroup, hspans, row, hrow,
      (htogether.follow?_of_hasRow hfills hapart hparent htarget hgroup hrow).mpr hcomes⟩

/-- The spans join up where only one group comes. -/
theorem GoesTogether.joinsAt_of_one (htogether : search.GoesTogether index)
    (hfills : search.Fills index h) (hapart : search.ReadsApart)
    (hparent : search.forest.parentAt? none path = some h.parent)
    (hone : ∀ source ∈ search.sources, ∀ group ∈ search.groupsAt index source,
      search.ComesTo h path source group → ∀ other ∈ search.sources,
      ∀ others ∈ search.groupsAt index other, search.ComesTo h path other others →
      source = other ∧ group = others) :
    search.JoinsAt index h path := by
  intro i k j hik hkj hi hj
  rw [htogether.coversAt_iff hfills hapart hparent] at hi hj ⊢
  obtain ⟨source, hsource, target, htarget, group, hgroup, hcomes, hspans⟩ := hi
  obtain ⟨other, hother, target', htarget', others, hothers, hcomes', hspans'⟩ := hj
  obtain ⟨rfl, rfl⟩ := hone source hsource group hgroup hcomes other hother others hothers hcomes'
  obtain rfl : target = target' := Option.some.inj (htarget.symm.trans htarget')
  exact ⟨source, hsource, target, htarget, group, hgroup, hcomes, hspans.between hspans' hik hkj⟩

/-- Every list of the histogram that is filled in, wherever it stands in the finished response, is
contiguous exactly when the spans that come to it join up. -/
theorem isContiguous_iff_joinsAt (hfills : search.Fills index h)
    (hgrid : search.IsOnGrid h low high) (hapart : search.ReadsApart)
    (hparent : search.forest.parentAt? none path = some h.parent)
    (hlist : Level.outputAt? (finishedLevel search.response.root) path h.name =
      some (.buckets list)) :
    ∃ before unfinished, before.map Segment.name = path.map Segment.name ∧
      search.response.root.outputAt? before h.name = some (.buckets unfinished) ∧
      Output.buckets list = (Output.buckets unfinished).finished ∧
      (h.aggregation.IsContiguous list.entries ↔ search.JoinsAt index h before) := by
  have hgathered := gathered_root hfills.answered hapart
  obtain ⟨before, output, hnames, houtput, hfinished⟩ := Level.outputAt?_finished hlist
  have hbefore : search.forest.parentAt? none before = some h.parent :=
    (search.forest.parentAt?_congr hnames none).trans hparent
  cases output with
  | single b => cases hfinished
  | metric tally => cases hfinished
  | buckets unfinished =>
      have hfits := hgathered.fits before h _ (List.mem_of_getElem? hfills.node)
        (Node.isQuery_of_showsEmpty hfills.showsEmpty) hbefore houtput
      have hindex {k : Int} : h.aggregation.HasIndex list.entries k ↔
          search.CoversAt index h before k :=
        (hasIndex_finished (Node.finish_of_fits hfills.showsEmpty hfits) hfinished).trans
          (hgrid.hasIndex_iff_coversAt hfills hapart hbefore houtput)
      refine ⟨before, unfinished, hnames, houtput, hfinished, ?_⟩
      unfold Aggregation.IsContiguous JoinsAt
      simp only [hindex]

end

/-! ## Two tables with one histogram -/

def bytesBody : Json := .object [("field", .string "bytes"), ("interval", .ofInt 10)]

/-- A request for a histogram, and for nothing else. -/
def bytesRequest : Json :=
  .object [("aggs", .object [("h", .object [("histogram", bytesBody)])])]

def bytesHistogram : Histogram := ⟨"bytes", 10, 0, 0, none⟩

/-- The histogram as it is read. -/
def bytesNode : Node := Node.new "h" none 0 false (.histogram bytesHistogram)

theorem ofJson_bytesBody : Histogram.ofJson "h" bytesBody = .ok bytesHistogram := by
  have hfield : bytesBody.stringField? "field" = some "bytes" := rfl
  have hinterval : bytesBody.field? "interval" = some (.ofInt 10) := rfl
  have hpositive : (Cell.number? (.ofInt 10)).filter (Binary64.less 0) = some 10 := by
    decide +kernel
  have hoffset : bytesBody.field? "offset" = none := rfl
  have hbounds : bytesBody.present? "extended_bounds" = none := rfl
  have hleast : minDocCountOfJson bytesBody = 0 := rfl
  unfold Histogram.ofJson
  rw [hfield, hinterval, hoffset, hbounds, hleast]
  simp only [Except.bind, bind, hpositive]
  rfl

theorem ofJson_bytesRequest : Forest.ofJson default bytesRequest = .ok [bytesNode] :=
  ofJson_histogramRequest ofJson_bytesBody

def bytesTable (name : String) : Table := ⟨name, [("bytes", true)]⟩

/-- The plan for one of two tables. -/
def bytesPlan (name : String) : TablePlan :=
  TablePlan.ofForest [bytesNode] (bytesTable name) true ["bytes", "bytes"] .standard

/-- An answer of five documents for each of some values. -/
def bytesResult (values : List Int) : ResultSet :=
  ⟨values.map fun value => [("al1", .ofInt value), ("cnt", .ofInt 5)], values.length⟩

/-- The search of two tables, with the values that each of them has. -/
def bytesSearch (first second : List Int) : AnsweredSearch where
  now := default
  request := bytesRequest
  tables := [bytesTable "t", bytesTable "u"]
  settings := .standard
  forest := [bytesNode]
  answers := [(bytesPlan "t", bytesResult first), (bytesPlan "u", bytesResult second)]
  isAccepted := ofJson_bytesRequest
  hasDistinctKeys := by decide +kernel
  isComplete := rfl

theorem readsApart_bytesSearch (first second : List Int) :
    (bytesSearch first second).ReadsApart := by
  have hone : (bytesPlan "t").forest.ReadsApart (bytesPlan "t").countColumn :=
    Forest.readsApart_of_checksApart (by decide +kernel)
  have hother : (bytesPlan "u").forest.ReadsApart (bytesPlan "u").countColumn :=
    Forest.readsApart_of_checksApart (by decide +kernel)
  intro answer hanswer
  rcases List.mem_cons.mp hanswer with rfl | hrest
  · exact hone
  · obtain rfl := List.mem_singleton.mp hrest
    exact hother

/-- The list of the histogram in the finished response. -/
def bytesList (first second : List Int) : List (Bucket Output) :=
  Output.entriesOf
    (Level.outputAt? (finishedLevel (bytesSearch first second).response.root) [] "h")

/-- The spans of two tables overlap, and nothing is missing. -/
theorem bytesList_overlapping_isContiguous :
    (bytesList [0, 20] [10, 30]).length = 4 ∧
      bytesNode.aggregation.IsContiguous (bytesList [0, 20] [10, 30]) := by
  have hlength : (bytesList [0, 20] [10, 30]).length = 4 := by decide +kernel
  have hapart := readsApart_bytesSearch [0, 20] [10, 30]
  have hfills : (bytesSearch [0, 20] [10, 30]).Fills 0 bytesNode :=
    ⟨rfl, by decide +kernel, by decide +kernel, by decide +kernel⟩
  have hgrid : (bytesSearch [0, 20] [10, 30]).IsOnGrid bytesNode 0 3 :=
    ⟨Aggregation.isExactBetween_of_checksExact (by decide +kernel), by decide +kernel,
      fun _ _ _ hbounds => nomatch hbounds⟩
  have htogether : (bytesSearch [0, 20] [10, 30]).GoesTogether 0 :=
    ⟨fun _ _ _ _ _ _ _ _ _ hc => (nomatch hc), fun _ _ _ _ _ _ hi => absurd hi (by simp)⟩
  have hspanned : ∀ k ∈ ([0, 1, 2, 3] : List Int),
      ∃ source ∈ (bytesSearch [0, 20] [10, 30]).sources, ∃ target ∈ gapTarget? source.1.forest,
        ∃ group ∈ (bytesSearch [0, 20] [10, 30]).groupsAt 0 source,
          group.head?.isSome = true ∧ target.Spans group k := by
    decide +kernel
  have hparent : (bytesSearch [0, 20] [10, 30]).forest.parentAt? none [] = some bytesNode.parent :=
    rfl
  refine ⟨hlength, ?_⟩
  unfold bytesList at hlength ⊢
  cases houtput : Level.outputAt? (finishedLevel (bytesSearch [0, 20] [10, 30]).response.root) []
      "h" with
  | none => simp [houtput, Output.entriesOf] at hlength
  | some output =>
      cases output with
      | single b => simp [houtput, Output.entriesOf] at hlength
      | metric tally => simp [houtput, Output.entriesOf] at hlength
      | buckets list =>
          obtain ⟨before, unfinished, hnames, hbefore, -, hiff⟩ :=
            isContiguous_iff_joinsAt hfills hgrid hapart hparent houtput
          obtain rfl : before = [] := List.map_eq_nil_iff.mp hnames
          refine hiff.mpr fun i k j hik hkj hi hj => ?_
          have hlow := (hgrid.exists_bucket hfills hapart hbefore hi).1
          have hhigh := (hgrid.exists_bucket hfills hapart hbefore hj).2.1
          obtain ⟨source, hsource, target, htarget, group, hgroup, hsome, hspans⟩ :=
            hspanned k (by simp; omega)
          obtain ⟨first, hhead⟩ := Option.isSome_iff_exists.mp hsome
          exact (htogether.coversAt_iff hfills hapart hparent).mpr
            ⟨source, hsource, target, htarget, group, hgroup, ⟨first, hhead, rfl⟩, hspans⟩

/-- The spans of two tables lie apart, and nothing is filled in between them. -/
theorem bytesList_apart_isNotContiguous :
    (bytesSearch [0] [30]).Fills 0 bytesNode ∧ (bytesSearch [0] [30]).IsOnGrid bytesNode 0 3 ∧
      (bytesSearch [0] [30]).ReadsApart ∧
      ¬ bytesNode.aggregation.IsContiguous (bytesList [0] [30]) := by
  refine ⟨⟨rfl, by decide +kernel, by decide +kernel, by decide +kernel⟩,
    ⟨Aggregation.isExactBetween_of_checksExact (by decide +kernel), by decide +kernel,
      fun _ _ _ hbounds => nomatch hbounds⟩, readsApart_bytesSearch [0] [30], ?_⟩
  intro hcontiguous
  have hfirst : ∃ b ∈ bytesList [0] [30], bytesNode.aggregation.indexOf? b = some 0 := by
    decide +kernel
  have hlast : ∃ b ∈ bytesList [0] [30], bytesNode.aggregation.indexOf? b = some 3 := by
    decide +kernel
  have hmissing : ¬ ∃ b ∈ bytesList [0] [30], bytesNode.aggregation.indexOf? b = some 1 := by
    decide +kernel
  exact hmissing (hcontiguous 0 1 3 (by decide) (by decide) hfirst hlast)

end AnsweredSearch
end Rollup
