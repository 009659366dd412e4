/-
# A row at one node

A response fits a forest when every output is one that the nodes of its aggregation make. A node
that places a row keeps that so, keeps all buckets, counts the documents in those buckets of its
own that the columns of the row tell, and changes nothing else. Whether a bucket belongs to the
row can be told in any later response, by then with more buckets.
-/

import Rollup.Proofs.Response.Follow
import Rollup.Proofs.Rows.Sight
import Rollup.Response.Fold

namespace Rollup

/-! ## Outputs that look the same -/

namespace Output

/-- Where a step goes does not depend on the name in it. -/
theorem bucketAt?_rename (segment : Segment) (name : String) :
    ∃ renamed : Segment, renamed.name = name ∧
      ∀ output : Output, output.bucketAt? renamed = output.bucketAt? segment := by
  cases segment with
  | bucket other i => exact ⟨.bucket name i, rfl, fun o => by cases o <;> rfl⟩
  | single other => exact ⟨.single name, rfl, fun o => by cases o <;> rfl⟩

theorem bucketAt?_bare (output : Output) (segment : Segment) :
    output.bare.bucketAt? segment = (output.bucketAt? segment).map Bucket.bare := by
  cases output <;> cases segment <;> simp [bare, bucketAt?]

end Output

namespace Node

theorem fits_bare (n : Node) (output : Output) : n.Fits output.bare ↔ n.Fits output := by
  unfold Fits
  cases n.aggregation <;> cases output <;>
    simp [Output.bare, Function.comp_def, Bucket.bare]

theorem fits_congr {n : Node} {first second : Output} (h : first.bare = second.bare) :
    n.Fits first ↔ n.Fits second := by
  rw [← fits_bare n first, h, fits_bare]

/-- The legs of one aggregation make the same outputs. -/
theorem SharesLegs.fits_iff {first second : Node} (h : first.SharesLegs second)
    (output : Output) : first.Fits output ↔ second.Fits output := by
  obtain ⟨l, l', hl, hl', hshape, hlabels, -, -⟩ := h
  unfold Fits
  rw [hl, hl']
  cases output <;> simp [hshape, hlabels]

end Node

namespace Level

variable {root after : Level} {path : Path} {name : String} {output : Output}

/-- The buckets of other outputs are as before. -/
theorem IsWrite.bucketIn?_elsewhere (h : IsWrite root after path name output) {other : Path}
    {segment : Segment} (hne : ¬(other = path ∧ segment.name = name)) :
    (after.bucketIn? other segment).map Bucket.bare =
      (root.bucketIn? other segment).map Bucket.bare := by
  have hbare := h.elsewhere other segment.name hne
  have hmap (found : Option Output) :
      (found.bind fun output => output.bucketAt? segment).map Bucket.bare =
        (found.map Output.bare).bind fun output => output.bucketAt? segment := by
    cases found with
    | none => rfl
    | some o => simp [Output.bucketAt?_bare]
  rw [bucketIn?_eq, bucketIn?_eq, hmap, hmap, hbare]

theorem IsWrite.bucketIn?_at (h : IsWrite root after path name output) {segment : Segment}
    (hname : segment.name = name) :
    after.bucketIn? path segment = output.bucketAt? segment := by
  rw [bucketIn?_eq, hname, h.at_path, Option.bind_some]

theorem IsWrite.docsIn_elsewhere (h : IsWrite root after path name output) {other : Path}
    {segment : Segment} (hne : ¬(other = path ∧ segment.name = name)) :
    after.docsIn other segment = root.docsIn other segment := by
  have hbare := congrArg (Option.map Bucket.docCount) (h.bucketIn?_elsewhere hne)
  rw [Option.map_map, Option.map_map] at hbare
  exact congrArg (fun docs => docs.getD 0) hbare

/-- A write that keeps the buckets of its output keeps all buckets. -/
theorem IsWrite.extends_of_keepsIds (h : IsWrite root after path name output)
    (hids : Output.KeepsIds (root.outputAt? path name) output) : root.Extends after := by
  intro other segment b hb
  by_cases hat : other = path ∧ segment.name = name
  · obtain ⟨rfl, hname⟩ := hat
    rw [bucketIn?_eq, hname] at hb
    rw [h.bucketIn?_at hname]
    exact hids segment b hb
  · have hbare := h.bucketIn?_elsewhere hat
    rw [hb] at hbare
    obtain ⟨b', hb', heq⟩ := Option.map_eq_some_iff.mp hbare
    exact ⟨b', hb', by simpa [Bucket.bare] using congrArg Bucket.id heq⟩

end Level

namespace Forest

/-- Whether every output of a response is one that the nodes of its aggregation make. -/
def Fits (forest : Forest) (root : Level) : Prop :=
  ∀ path n output, n ∈ forest → n.isQuery = false →
    forest.parentAt? none path = some n.parent → root.outputAt? path n.name = some output →
    n.Fits output

theorem fits_empty (forest : Forest) : forest.Fits [] := by
  intro path n output _ _ _ houtput
  rw [Level.outputAt?_empty] at houtput
  cases houtput

/-- The row that a node gets to place. -/
def sourceAt (forest : Forest) (countColumn : String) (row : Row) (index : Nat) : Row :=
  if forest.isSilenced row index then row.muted countColumn else row

/-- Whether the documents of a row belong into a bucket because of one node: the row follows the
path to the node, is not silenced there, and the node puts the documents into the bucket. -/
def Counts (forest : Forest) (row : Row) (root : Level) (index : Nat) (node : Node) (path : Path)
    (segment : Segment) : Prop :=
  node.isShown = true ∧ forest.isSilenced row index = false ∧ segment.name = node.name ∧
    forest.follow? row none root path = some node.parent ∧
    ∃ b, root.bucketIn? path segment = some b ∧ node.hits row segment b.id = true

section

variable {forest : Forest} {countColumn : String} {row : Row} {j : Nat} {node : Node}
  {root after : Level} {base : Path} {output : Output}

theorem count_sourceAt :
    (forest.sourceAt countColumn row j).count countColumn =
      if forest.isSilenced row j then 0 else row.count countColumn := by
  unfold sourceAt
  split
  · exact Row.count_muted row countColumn
  · rfl

theorem seesAlike_sourceAt (forest : Forest) (row : Row) (j : Nat)
    (hcount : node.readColumn? ≠ some countColumn) :
    node.SeesAlike (forest.sourceAt countColumn row j) row := by
  unfold sourceAt
  split
  · exact Node.seesAlike_muted hcount row
  · exact Node.seesAlike_of_get? fun _ _ => rfl

/-- A node places a row at the end of a path that leads to its parent. -/
theorem IsLaidOut.exists_placed (countColumn : String) (h : forest.IsLaidOut)
    (hj : forest[j]? = some node)
    (hshown : node.isShown = true) (hfits : forest.Fits root)
    (hparent : forest.parentAt? none base = some node.parent)
    (hlevel : (Level.levelAt? base root).isSome = true) (metricName : Option String)
    (source : Row) :
    ∃ step after output, Level.atPath (node.place countColumn metricName source) base root =
        some (step, after) ∧ Level.IsWrite root after base node.name output ∧
      node.Placed countColumn source (root.outputAt? base node.name) output step := by
  obtain ⟨level, hat⟩ := Option.isSome_iff_exists.mp hlevel
  have hmem := List.mem_of_getElem? hj
  have houtput (name : String) : root.outputAt? base name = level.get? name := by
    rw [Level.outputAt?, hat, Option.bind_some]
  obtain ⟨output, hget, hplaced⟩ := Node.place_spec
    (Node.isQuery_of_isShown hshown) (h.labelled node hmem) countColumn source metricName level
    (fun found hfound => hfits base node found hmem (Node.isQuery_of_isShown hshown) hparent
      ((houtput node.name).trans hfound))
  obtain ⟨after, hact, hwrite⟩ := Level.atPath_isWrite _ base root hat hget hplaced.inner
  exact ⟨_, after, output, hact, hwrite, houtput node.name ▸ hplaced⟩

/-- What every node says of its output still holds after one has written another output, if it does
not depend on what is inside and legs of one aggregation say the same. -/
theorem IsLaidOut.outputs_of_write (h : forest.IsLaidOut) (hj : forest[j]? = some node)
    (hshown : node.isShown = true) (hparent : forest.parentAt? none base = some node.parent)
    (hwrite : Level.IsWrite root after base node.name output) {p : Node → Output → Prop}
    (hcongr : ∀ n first second, first.bare = second.bare → p n first → p n second)
    (hlegs : ∀ n, node.SharesLegs n → p node output → p n output)
    (hbefore : ∀ path n found, n ∈ forest → n.isQuery = false →
      forest.parentAt? none path = some n.parent → root.outputAt? path n.name = some found →
      p n found)
    (houtput : p node output) {path : Path} {n : Node} {found : Output} (hn : n ∈ forest)
    (hnquery : n.isQuery = false) (hnparent : forest.parentAt? none path = some n.parent)
    (hfound : after.outputAt? path n.name = some found) : p n found := by
  by_cases hat : path = base ∧ n.name = node.name
  · obtain ⟨rfl, hname⟩ := hat
    rw [hname, hwrite.at_path] at hfound
    obtain rfl := Option.some.inj hfound
    have hakin : n.IsAkin node := ⟨hnquery, Node.isQuery_of_isShown hshown, hname,
      Option.some.inj (hnparent.symm.trans hparent)⟩
    obtain ⟨i, hi⟩ := List.getElem?_of_mem hn
    by_cases hij : i = j
    · subst hij
      obtain rfl : n = node := Option.some.inj (hi.symm.trans hj)
      exact houtput
    · exact hlegs n (h.sharesLegs (Ne.symm hij) hj hi hakin.symm) houtput
  · have hbare := hwrite.elsewhere path n.name hat
    rw [hfound] at hbare
    obtain ⟨earlier, hearlier, heq⟩ := Option.map_eq_some_iff.mp hbare.symm
    exact hcongr n earlier found heq (hbefore path n earlier hn hnquery hnparent hearlier)

/-- A response still fits after a node has placed a row. -/
theorem IsLaidOut.fits_of_write (h : forest.IsLaidOut) (hj : forest[j]? = some node)
    (hshown : node.isShown = true) (hfits : forest.Fits root)
    (hparent : forest.parentAt? none base = some node.parent)
    (hwrite : Level.IsWrite root after base node.name output) (houtput : node.Fits output) :
    forest.Fits after :=
  fun _ _ _ hn hnquery hnparent hfound =>
    h.outputs_of_write (p := Node.Fits) hj hshown hparent hwrite
      (fun _ _ _ heq => (Node.fits_congr heq).mp)
      (fun _ hshares => (hshares.fits_iff output).mp) hfits houtput hn hnquery hnparent hfound

/-- The output of a later response at the place where a node has placed a row. -/
theorem keepsIds_of_extends {later : Level} {found : Output}
    (hwrite : Level.IsWrite root after base node.name output) (hext : after.Extends later)
    (hfound : later.outputAt? base node.name = some found) :
    Output.KeepsIds (some output) found := by
  intro segment b hb
  obtain ⟨renamed, hname, hsame⟩ := Output.bucketAt?_rename segment node.name
  rw [Option.bind_some, ← hsame] at hb
  obtain ⟨b', hb', hid⟩ := hext base renamed b ((hwrite.bucketIn?_at hname).trans hb)
  rw [Level.bucketIn?_eq, hname, hfound, Option.bind_some, hsame] at hb'
  exact ⟨b', hb', hid⟩

/-- Any bucket of a later response into which the documents of the row belong is there already. -/
theorem exists_of_hits (hj : forest[j]? = some node)
    (hshown : node.isShown = true) (hparent : forest.parentAt? none base = some node.parent)
    (hwrite : Level.IsWrite root after base node.name output) {source : Row} {step : Step}
    (hplaced : node.Placed countColumn source (root.outputAt? base node.name) output step)
    {later : Level} (hext : after.Extends later) (hlater : forest.Fits later) {segment : Segment}
    (hname : segment.name = node.name) {b : Bucket Output}
    (hb : later.bucketIn? base segment = some b) (hhits : node.hits source segment b.id = true) :
    ∃ b', output.bucketAt? segment = some b' ∧ b'.id = b.id := by
  rw [Level.bucketIn?_eq, hname] at hb
  obtain ⟨found, hfound, hat⟩ := Option.bind_eq_some_iff.mp hb
  exact hplaced.complete found (hlater base node found (List.mem_of_getElem? hj)
    (Node.isQuery_of_isShown hshown) hparent hfound) (keepsIds_of_extends hwrite hext hfound)
    segment b hat hhits

/-- Where a step from a path leads. -/
def outcomeOf (base : Path) : Step → Option Path
  | .descend segment => some (base ++ [segment])
  | _ => none

/-- Where a node has taken a row can be told in any later response. -/
theorem reaches_iff_outcomeOf (hj : forest[j]? = some node) (hshown : node.isShown = true)
    (hcount : node.readColumn? ≠ some countColumn)
    (hwrite : Level.IsWrite root after base node.name output) {step : Step}
    (hplaced : node.Placed countColumn (forest.sourceAt countColumn row j)
      (root.outputAt? base node.name) output step)
    {later : Level} (hext : after.Extends later) (hlater : forest.Fits later)
    (hbase : ∀ path, forest.follow? row none later path = some node.parent ↔ path = base)
    (path : Path) : forest.Reaches row later node path ↔ outcomeOf base step = some path := by
  have halike := seesAlike_sourceAt forest row j hcount
  have hparent := parentAt?_of_follow? ((hbase base).mpr rfl)
  have houtcome : outcomeOf base step = some path ↔
      ∃ segment, path = base ++ [segment] ∧ step = .descend segment := by
    cases step with
    | descend segment =>
        simp only [outcomeOf, Option.some.injEq, Step.descend.injEq]
        exact ⟨fun h => ⟨segment, h.symm, rfl⟩, fun ⟨_, hpath, hsame⟩ => by rw [hpath, hsame]⟩
    | stay => simp [outcomeOf]
    | skip => simp [outcomeOf]
  rw [houtcome]
  constructor
  · rintro ⟨-, base', segment, b, rfl, hname, hfollow, hb, henters⟩
    obtain rfl := (hbase base').mp hfollow
    rw [← halike.enters] at henters
    obtain ⟨b', hb', hid⟩ := exists_of_hits hj hshown hparent hwrite hplaced hext hlater
      hname hb (Node.hits_of_enters henters)
    exact ⟨segment, rfl, (hplaced.step segment).mpr ⟨hname, b', hb', hid ▸ henters⟩⟩
  · rintro ⟨segment, rfl, hstep⟩
    obtain ⟨hname, b, hb, henters⟩ := (hplaced.step segment).mp hstep
    obtain ⟨b', hb', hid⟩ := hext base segment b ((hwrite.bucketIn?_at hname).trans hb)
    rw [halike.enters, ← hid] at henters
    exact ⟨hshown, base, segment, b', rfl, hname, (hbase base).mpr rfl, hb', henters⟩

/-- A row that a node has a bucket for goes on in a bucket. -/
theorem entered_of_write (hcount : node.readColumn? ≠ some countColumn)
    (hwrite : Level.IsWrite root after base node.name output) {step : Step}
    (hplaced : node.Placed countColumn (forest.sourceAt countColumn row j)
      (root.outputAt? base node.name) output step) {segment : Segment} {id : String}
    (hhits : node.hits row segment id = true) : ∃ next b, next.name = node.name ∧
      after.bucketIn? base next = some b ∧ node.enters row next b.id = true := by
  have halike := seesAlike_sourceAt forest row j hcount
  rw [← halike.hits] at hhits
  obtain ⟨next, hnext⟩ := hplaced.goesOn segment id hhits
  obtain ⟨hname, b, hb, henters⟩ := (hplaced.step next).mp hnext
  rw [halike.enters] at henters
  exact ⟨next, b, hname, (hwrite.bucketIn?_at hname).trans hb, henters⟩

/-- A bucket of values or intervals was there before, or a node has made it for the row. -/
theorem IsLaidOut.origin_of_write (h : forest.IsLaidOut) (hj : forest[j]? = some node)
    (hshown : node.isShown = true) (hcount : node.readColumn? ≠ some countColumn)
    (hparent : forest.parentAt? none base = some node.parent)
    (hwrite : Level.IsWrite root after base node.name output) {step : Step}
    (hplaced : node.Placed countColumn (forest.sourceAt countColumn row j)
      (root.outputAt? base node.name) output step) {i : Nat} {x : Node}
    (hi : forest[i]? = some x) (hxshown : x.isShown = true)
    (hvalue : x.aggregation.isValueGroup = true) {path : Path}
    (hpath : forest.parentAt? none path = some x.parent) {position : Nat} {b : Bucket Output}
    (hb : after.bucketIn? path (.bucket x.name position) = some b) :
    (∃ b', root.bucketIn? path (.bucket x.name position) = some b' ∧ b'.id = b.id ∧
      b'.key = b.key) ∨ path = base ∧ node.parent = x.parent ∧ x.Makes row b := by
  by_cases hat : path = base ∧ x.name = node.name
  · obtain ⟨rfl, hname⟩ := hat
    have hsame : node.parent = x.parent := Option.some.inj (hparent.symm.trans hpath)
    have hakin : x.IsAkin node := ⟨Node.isQuery_of_isShown hxshown,
      Node.isQuery_of_isShown hshown, hname, hsame.symm⟩
    obtain rfl : i = j := by
      by_contra hne
      obtain ⟨l, -, hl, -⟩ := h.sharesLegs hne hi hj hakin
      simp [hl, Aggregation.isValueGroup, Aggregation.terms?, Aggregation.isHistogram] at hvalue
    obtain rfl : x = node := Option.some.inj (hi.symm.trans hj)
    rw [hwrite.bucketIn?_at rfl] at hb
    rcases hplaced.origin hvalue _ b hb with ⟨b', hb', hid, hkey⟩ | hmakes
    · exact Or.inl ⟨b', (Level.bucketIn?_eq root path _).trans hb', hid, hkey⟩
    · have halike := seesAlike_sourceAt forest row i hcount
      exact Or.inr ⟨rfl, rfl, halike.makes hmakes⟩
  · have hbare : (after.bucketIn? path (.bucket x.name position)).map Bucket.bare = _ :=
      hwrite.bucketIn?_elsewhere hat
    rw [hb] at hbare
    obtain ⟨b', hb', heq⟩ := Option.map_eq_some_iff.mp hbare.symm
    exact Or.inl ⟨b', hb', by simpa [Bucket.bare] using congrArg Bucket.id heq,
      by simpa [Bucket.bare] using congrArg Bucket.key heq⟩

/-- A node counts the documents of a row in the buckets that the columns of the row tell. -/
theorem docsIn_of_write (hj : forest[j]? = some node) (hshown : node.isShown = true)
    (hcount : node.readColumn? ≠ some countColumn)
    (hwrite : Level.IsWrite root after base node.name output) {step : Step}
    (hplaced : node.Placed countColumn (forest.sourceAt countColumn row j)
      (root.outputAt? base node.name) output step)
    {later : Level} (hext : after.Extends later) (hlater : forest.Fits later)
    (hbase : ∀ path, forest.follow? row none later path = some node.parent ↔ path = base)
    (path : Path) (segment : Segment) :
    (forest.Counts row later j node path segment →
        after.docsIn path segment = root.docsIn path segment + row.count countColumn) ∧
      (¬ forest.Counts row later j node path segment →
        after.docsIn path segment = root.docsIn path segment) := by
  have halike := seesAlike_sourceAt forest row j hcount
  have hparent := parentAt?_of_follow? ((hbase base).mpr rfl)
  by_cases hat : path = base ∧ segment.name = node.name
  · obtain ⟨rfl, hname⟩ := hat
    have hdocs : root.docsIn path segment =
        Output.docsAt (root.outputAt? path node.name) segment := by
      rw [Level.docsIn, Level.bucketIn?_eq, hname]
      rfl
    have hafter : after.docsIn path segment =
        ((output.bucketAt? segment).map Bucket.docCount).getD 0 := by
      rw [Level.docsIn, hwrite.bucketIn?_at hname]
    cases hb : output.bucketAt? segment with
    | some b =>
        obtain ⟨b', hb', hid⟩ := hext path segment b ((hwrite.bucketIn?_at hname).trans hb)
        have hcounted := hplaced.docs segment b hname hb
        rw [count_sourceAt, halike.hits] at hcounted
        have hiff : forest.Counts row later j node path segment ↔
            forest.isSilenced row j = false ∧ node.hits row segment b.id = true := by
          constructor
          · rintro ⟨-, hsilent, -, -, b'', hb'', hhits⟩
            obtain rfl : b' = b'' := Option.some.inj (hb'.symm.trans hb'')
            exact ⟨hsilent, hid ▸ hhits⟩
          · rintro ⟨hsilent, hhits⟩
            exact ⟨hshown, hsilent, hname, (hbase path).mpr rfl, b', hb', hid.symm ▸ hhits⟩
        rw [hiff, hafter, hb, hdocs, Option.map_some, Option.getD_some, hcounted]
        constructor
        · rintro ⟨hsilent, hhits⟩
          rw [if_pos hhits, hsilent]
          rfl
        · intro hnot
          by_cases hhits : node.hits row segment b.id = true
          · have hsilent : forest.isSilenced row j = true := by
              by_contra hloud
              exact hnot ⟨Bool.eq_false_iff.mpr hloud, hhits⟩
            rw [if_pos hhits, if_pos hsilent, Nat.add_zero]
          · rw [if_neg hhits, Nat.add_zero]
    | none =>
        have hbefore : root.docsIn path segment = 0 := by
          rw [hdocs, Output.docsAt]
          cases hearlier : (root.outputAt? path node.name).bind fun o => o.bucketAt? segment with
          | none => rfl
          | some b =>
              obtain ⟨b', hb', -⟩ := hplaced.ids segment b hearlier
              rw [hb] at hb'
              cases hb'
        have hnot : ¬ forest.Counts row later j node path segment := by
          rintro ⟨-, -, -, -, b, hlaterBucket, hhits⟩
          rw [← halike.hits] at hhits
          obtain ⟨b', hb', -⟩ := exists_of_hits hj hshown hparent hwrite hplaced hext
            hlater hname hlaterBucket hhits
          rw [hb] at hb'
          cases hb'
        rw [hafter, hb, hbefore]
        exact ⟨fun hcounts => absurd hcounts hnot, fun _ => rfl⟩
  · rw [hwrite.docsIn_elsewhere hat]
    refine ⟨?_, fun _ => rfl⟩
    rintro ⟨-, -, hname, hfollow, -⟩
    exact absurd ⟨(hbase path).mp hfollow, hname⟩ hat

end

end Forest
end Rollup
