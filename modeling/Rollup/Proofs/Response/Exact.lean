/-
# What a response says of its rows

A response that is made of the settled rows of one table says of the rows as they came back: every
bucket counts the documents of exactly those rows whose own columns lead to it, once each, every
metric has taken exactly the values of those that lead to it, and no row that has documents goes
astray. All this as long as the nodes of the plan read apart.
-/

import Mathlib.Data.List.Perm.Basic
import Rollup.Engine.Search
import Rollup.Proofs.Response.Folded
import Rollup.Proofs.Rows.Settled

namespace Rollup

namespace Forest

/-- Whether a response says exactly what some rows tell. -/
structure IsExact (forest : Forest) (countColumn : String) (rows : List Row) (root : Level) :
    Prop where
  /-- A bucket counts the documents of the rows that belong into it. -/
  docs : ∀ path segment b, root.bucketIn? path segment = some b →
    b.docCount = Rows.documents countColumn
      (rows.filter fun row => forest.isCounted row root path segment)
  /-- A row with documents that belongs into some bucket of a node goes on in one. -/
  entered : ∀ row ∈ rows, 0 < row.count countColumn → ∀ node ∈ forest, node.isShown = true →
    ∀ path, forest.follow? row none root path = some node.parent →
    ∀ segment id, segment.name = node.name → node.hits row segment id = true →
    ∃ next b, next.name = node.name ∧ root.bucketIn? path next = some b ∧
      node.enters row next b.id = true
  /-- A metric takes the values of the rows with documents that come to it, in some order. -/
  values : ∀ node ∈ forest, node.isActive = true → ∀ m, node.aggregation = .metric m →
    ∀ path, forest.parentAt? none path = some node.parent →
    ∃ received : List Row,
      received.Perm (rows.filter fun row => decide (0 < row.count countColumn) &&
        forest.follow? row none root path == some node.parent) ∧
      Node.tallyOf m (root.outputAt? path node.name) =
        received.foldl
          (fun tally row => tally.addRow (node.decisions.column.getD "") countColumn row)
          (Tally.empty m.function)
  /-- A metric that is shown without a value takes none. -/
  blanked : ∀ node ∈ forest, Rows.isBlanked node = true → ∀ m, node.aggregation = .metric m →
    ∀ c, node.decisions.column = some c → ∀ path,
    forest.parentAt? none path = some node.parent →
    Node.tallyOf m (root.outputAt? path node.name) = Tally.empty m.function

variable {forest : Forest} {countColumn : String}

/-! ## Nodes of one aggregation -/

/-- Nodes of one aggregation lie within the same aggregations. -/
theorem IsLaidOut.isWithin_of_akin (h : forest.IsLaidOut) {i j : Nat} {x y : Node}
    (hi : forest[i]? = some x) (hj : forest[j]? = some y) (hakin : x.IsAkin y) (a : Nat) :
    forest.isWithin i a = forest.isWithin j a := by
  have hanchor := (h.anchor_eq_iff hi hj hakin.1 hakin.2.1).mpr hakin
  have hancestors (fuel : Nat) : forest.ancestorsFrom fuel i = forest.ancestorsFrom fuel j := by
    cases fuel with
    | zero => rfl
    | succ fuel => rw [ancestorsFrom, ancestorsFrom, hi, hj, Option.bind_some, Option.bind_some,
        hakin.2.2.2]
  rw [isWithin, isWithin, isBelow, isBelow, ancestors, ancestors, hanchor, hancestors]

/-- A row is silenced at all nodes of an aggregation or at none. -/
theorem IsLaidOut.isSilenced_of_akin (h : forest.IsLaidOut) {i j : Nat} {x y : Node}
    (hi : forest[i]? = some x) (hj : forest[j]? = some y) (hakin : x.IsAkin y) (row : Row) :
    forest.isSilenced row i = forest.isSilenced row j := by
  rw [isSilenced, isSilenced]
  simp only [h.isWithin_of_akin hi hj hakin]

/-- A row as it comes back is silenced nowhere. -/
theorem isSilenced_ofCells (cells : Fields) (origin : Origin) (index : Nat) :
    forest.isSilenced (Row.ofCells cells origin) index = false := rfl

/-! ## Questions about one place -/

section

variable {path : Path} {j : Nat} {y : Node}

/-- Whether a row goes at a node where another one goes. -/
def GoesLike (node : Node) (row other : Row) : Prop :=
  ∀ segment id, node.hits other segment id = node.hits row segment id ∧
    node.enters other segment id = node.enters row segment id

/-- Whether a row comes to a node and goes on where another one goes is decided on the way. -/
theorem IsLaidOut.asks_goesLike (h : forest.IsLaidOut) {segment : Segment}
    (hj : forest[j]? = some y) (hshown : y.isShown = true)
    (hparent : forest.parentAt? none path = some y.parent) (hname : segment.name = y.name)
    {row : Row} {id : String} (hhits : y.hits row segment id = true) (root : Level)
    {asks : Row → Bool}
    (hasks : ∀ other, asks other = true ↔
      forest.follow? other none root path = some y.parent ∧ GoesLike y row other) :
    forest.Asks (path ++ [segment]) j asks where
  alike := by
    have hway : forest.OnWay (path ++ [segment]) j y :=
      ⟨hj, hshown, path, segment, [], rfl, hparent, hname, row, id, hhits⟩
    have hstep {first second : Row}
        (halike : ∀ i y, forest.OnWay (path ++ [segment]) i y → y.SeesAlike first second)
        (hfirst : asks first = true) : asks second = true := by
      rw [hasks] at hfirst ⊢
      rw [← follow?_congr fun i y hy => halike i y (hy.append _)]
      refine ⟨hfirst.1, fun segment id => ?_⟩
      rw [← (halike j y hway).hits, ← (halike j y hway).enters]
      exact hfirst.2 segment id
    intro first second halike
    exact Bool.eq_iff_iff.mpr ⟨hstep halike, hstep fun i y hy => (halike i y hy).symm⟩
  within := (h.asks_isCounted hj hshown hparent hname root).within
  enters := by
    intro other a hother ha hwithin hlegs
    obtain ⟨hfollow, hlike⟩ := (hasks other).mp hother
    rcases (h.isWithin_iff hj ha hparent).mp hwithin with hanchor | ⟨base, step, rest, rfl, hat⟩
    · obtain ⟨l, hl⟩ := h.exists_leg_of_anchor hj (Node.isQuery_of_isShown hshown)
        (by rwa [hanchor])
      refine ⟨j, y, ⟨hj, hshown, path, segment, [], rfl, hparent, hname, row, id, hhits⟩,
        hanchor, ?_⟩
      exact Node.matchesLeg_of_hits hl ((hlike segment id).1.trans hhits)
    · obtain ⟨i, x, hway, hanchor, hmatches⟩ := h.exists_leg_of_follow? hfollow hat hlegs
      exact ⟨i, x, hway.append _, hanchor, hmatches⟩

/-- The question of a bucket: the documents. -/
def bucketQuestion (h : forest.IsLaidOut) (hj : forest[j]? = some y) (hshown : y.isShown = true)
    (hparent : forest.parentAt? none path = some y.parent) {segment : Segment}
    (hname : segment.name = y.name) (root : Level) :
    Rows.Question forest countColumn Nat where
  steps := path ++ [segment]
  index := j
  asks := fun row => forest.isCounted row root path segment
  read := fun row => row.count countColumn
  columns := []
  exists_shown := ⟨y, hj, hshown⟩
  isAsked := h.asks_isCounted hj hshown hparent hname root
  read_congr := fun _ _ hget => Row.count_congr (hget countColumn (by simp))
  readers := fun _ hc => nomatch hc

/-- The question of a metric: the value and the documents. -/
def metricQuestion (h : forest.IsLaidOut) (hj : forest[j]? = some y) (hactive : y.isActive = true)
    {m : Metric} (hm : y.aggregation = .metric m)
    (hparent : forest.parentAt? none path = some y.parent) (root : Level) :
    Rows.Question forest countColumn (Option Binary64 × Nat) where
  steps := path
  index := j
  asks := fun row => forest.follow? row none root path == some y.parent
  read := fun row => (row.number? (y.decisions.column.getD ""), row.count countColumn)
  columns := [y.decisions.column.getD ""]
  exists_shown := ⟨y, hj, Node.isShown_of_metric hm hactive⟩
  isAsked := h.asks_follow? hj (Node.isLeg_of_metric hm) (Node.isQuery_of_metric hm) hparent root
  read_congr := fun _ _ hget => Prod.ext (Row.number?_congr (hget _ (by simp)))
    (Row.count_congr (hget _ (by simp)))
  readers := by
    intro c hc
    obtain rfl := List.mem_singleton.mp hc
    exact ⟨j, y, hj, hactive, Node.isShown_of_metric hm hactive, Node.isLeg_of_metric hm,
      by simp [Node.readColumn?, hm]⟩

/-- Whether the documents of a row are counted in a bucket because of any node: they belong there,
and the row is not silenced. -/
theorem IsLaidOut.countsBefore_iff (h : forest.IsLaidOut) (hj : forest[j]? = some y)
    (hshown : y.isShown = true) (hparent : forest.parentAt? none path = some y.parent)
    {segment : Segment} (hname : segment.name = y.name) (row : Row) (root : Level) :
    forest.CountsBefore row root forest.length path segment ↔
      forest.isCounted row root path segment = true ∧ forest.isSilenced row j = false := by
  have hakin {x : Node} (hxshown : x.isShown = true) (hxparent : y.parent = x.parent)
      (hxname : segment.name = x.name) : x.IsAkin y :=
    ⟨Node.isQuery_of_isShown hxshown, Node.isQuery_of_isShown hshown, hxname.symm.trans hname,
      hxparent.symm⟩
  constructor
  · rintro ⟨i, x, -, hi, hxshown, hsilent, hxname, hfollow, b, hb, hhits⟩
    have hsame : y.parent = x.parent :=
      Option.some.inj (hparent.symm.trans (parentAt?_of_follow? hfollow))
    rw [h.isSilenced_of_akin hi hj (hakin hxshown hsame hxname)] at hsilent
    exact ⟨isCounted_iff.mpr ⟨x, List.mem_of_getElem? hi, hxshown, hxname.symm, hfollow, b, hb,
      hhits⟩, hsilent⟩
  · rintro ⟨hcounted, hsilent⟩
    obtain ⟨x, hx, hxshown, hxname, hfollow, b, hb, hhits⟩ := isCounted_iff.mp hcounted
    obtain ⟨i, hi⟩ := List.getElem?_of_mem hx
    have hsame : y.parent = x.parent :=
      Option.some.inj (hparent.symm.trans (parentAt?_of_follow? hfollow))
    rw [← h.isSilenced_of_akin hi hj (hakin hxshown hsame hxname.symm)] at hsilent
    exact ⟨i, x, (List.getElem?_eq_some_iff.mp hi).1, hi, hxshown, hsilent, hxname.symm, hfollow,
      b, hb, hhits⟩

/-- Rows without documents do not add any. -/
theorem documents_filter_pos (p : Row → Bool) (rows : List Row) :
    Rows.documents countColumn (rows.filter p) =
      ((rows.filter fun row => p row && decide (0 < row.count countColumn)).map
        fun row => row.count countColumn).sum := by
  rw [Rows.documents_eq_sum]
  induction rows with
  | nil => rfl
  | cons row rest ih =>
      rw [List.filter_cons, List.filter_cons]
      cases hp : p row with
      | false => simpa using ih
      | true =>
          by_cases hcount : 0 < row.count countColumn
          · simp [hcount, ih]
          · have hzero : row.count countColumn = 0 := Nat.eq_zero_of_not_pos hcount
            simp [hzero, ih]

/-- The answers of a bucket add up to the documents of its rows. -/
theorem sum_answers_bucketQuestion (h : forest.IsLaidOut) (hj : forest[j]? = some y)
    (hshown : y.isShown = true) (hparent : forest.parentAt? none path = some y.parent)
    {segment : Segment} (hname : segment.name = y.name) (root : Level) (rows : List Row) :
    ((bucketQuestion h hj hshown hparent hname root :
      Rows.Question forest countColumn Nat).answers rows).sum =
      Rows.documents countColumn (rows.filter fun row =>
        forest.isCounted row root path segment && !forest.isSilenced row j) := by
  rw [documents_filter_pos]
  rfl

/-- What a row adds to a tally, told by its answer. -/
def addAnswer (tally : Tally) (answer : Option Binary64 × Nat) : Tally :=
  match answer.1 with
  | some value => tally.add value answer.2
  | none => tally

/-- A metric that takes rows takes the answers of those with documents. -/
theorem foldl_addRow_eq (column : String) (p : Row → Bool) (rows : List Row) (tally : Tally) :
    (rows.filter p).foldl (fun tally row => tally.addRow column countColumn row) tally =
      ((rows.filter fun row => p row && decide (0 < row.count countColumn)).map
        fun row => (row.number? column, row.count countColumn)).foldl addAnswer tally := by
  induction rows generalizing tally with
  | nil => rfl
  | cons row rest ih =>
      rw [List.filter_cons, List.filter_cons]
      cases hp : p row with
      | false => simpa using ih tally
      | true =>
          by_cases hcount : 0 < row.count countColumn
          · have hstep : tally.addRow column countColumn row =
                addAnswer tally (row.number? column, row.count countColumn) := by
              rw [Tally.addRow, Row.measure?, if_neg (Nat.ne_of_gt hcount)]
              rfl
            simp [hcount, ih, hstep]
          · have hzero : row.count countColumn = 0 := Nat.eq_zero_of_not_pos hcount
            have hstep : tally.addRow column countColumn row = tally := by
              rw [Tally.addRow, Row.measure?, if_pos hzero]
            simp [hzero, ih, hstep]

/-- A rearranged image is the image of a rearrangement. -/
theorem exists_perm_of_perm_map {α β : Type} {f : α → β} {images : List β} {items : List α}
    (h : images.Perm (items.map f)) : ∃ rearranged : List α, rearranged.Perm items ∧
      images = rearranged.map f := by
  have himage : List.Forall₂ (fun image item => image = f item) (items.map f) items := by
    rw [List.forall₂_map_left_iff]
    exact List.forall₂_same.mpr fun _ _ => rfl
  obtain ⟨rearranged, himages, hperm⟩ := List.perm_comp_forall₂ h himage
  refine ⟨rearranged, hperm, ?_⟩
  rw [← List.forall₂_eq_eq_eq, List.forall₂_map_right_iff]
  exact himages

end

/-! ## All places -/

section

variable {context : RowContext} {rows : List Row}

/-- A response that is made of settled rows. -/
def settledRoot (forest : Forest) (context : RowContext) (rows : List Row) : Level :=
  forest.foldRows context.countColumn [] (RowPass.run forest context rows)

theorem IsLaidOut.folded_settledRoot (h : forest.IsLaidOut) (hmarked : forest.IsMarked)
    (hapart : forest.ReadsApart context.countColumn) (rows : List Row) :
    forest.Folded context.countColumn (RowPass.run forest context rows) []
      (forest.settledRoot context rows) :=
  h.folded_foldRows hmarked hapart.count (matchesOne_of_mem_run h hmarked hapart)
    (fits_empty forest)

/-- Every bucket counts the documents of its rows. -/
theorem IsLaidOut.docCount_settledRoot (h : forest.IsLaidOut) (hmarked : forest.IsMarked)
    (hapart : forest.ReadsApart context.countColumn)
    (hloud : ∀ row ∈ rows, ∀ index, forest.isSilenced row index = false)
    {path : Path} {segment : Segment} {b : Bucket Output}
    (hb : (forest.settledRoot context rows).bucketIn? path segment = some b) :
    b.docCount = Rows.documents context.countColumn (rows.filter fun row =>
      forest.isCounted row (forest.settledRoot context rows) path segment) := by
  have hfolded := h.folded_settledRoot hmarked hapart rows
  generalize forest.settledRoot context rows = root at hb hfolded ⊢
  have hdocs : b.docCount = root.docsIn path segment := by rw [Level.docsIn, hb]; rfl
  have hempty : Level.docsIn [] path segment = 0 := by
    rw [Level.docsIn, Level.bucketIn?_eq, Level.outputAt?_empty]
    rfl
  have hfold := hfolded.docs root (.refl root) hfolded.fits path segment
  simp only [hempty, Nat.zero_add, ← hdocs] at hfold
  by_cases hnode : ∃ (j : Nat) (y : Node), forest[j]? = some y ∧ y.isShown = true ∧
      forest.parentAt? none path = some y.parent ∧ segment.name = y.name
  · obtain ⟨j, y, hj, hshown, hparent, hname⟩ := hnode
    rw [hfold (fun row => forest.isCounted row root path segment && !forest.isSilenced row j)
      fun row _ => by
        rw [h.countsBefore_iff hj hshown hparent hname, Bool.and_eq_true, Bool.not_eq_true']]
    rw [← sum_answers_bucketQuestion h hj hshown hparent hname,
      ((bucketQuestion h hj hshown hparent hname root).answers_run h hmarked hapart rows).sum_nat,
      sum_answers_bucketQuestion h hj hshown hparent hname]
    congr 1
    apply List.filter_congr
    intro row hrow
    rw [hloud row hrow]
    simp
  · -- where no node is shown, no row counts
    rw [hfold (fun _ => false)]
    · rw [List.filter_false, List.filter_eq_nil_iff.mpr]
      intro row _ hcounted
      obtain ⟨x, hx, hxshown, hxname, hfollow, -⟩ := isCounted_iff.mp hcounted
      obtain ⟨i, hi⟩ := List.getElem?_of_mem hx
      exact hnode ⟨i, x, hi, hxshown, parentAt?_of_follow? hfollow, hxname.symm⟩
    · intro row _
      simp only [Bool.false_eq_true, false_iff]
      rintro ⟨i, x, -, hi, hxshown, -, hxname, hfollow, -⟩
      exact hnode ⟨i, x, hi, hxshown, parentAt?_of_follow? hfollow, hxname⟩

/-- A row with documents that a node has a bucket for goes on in a bucket. -/
theorem IsLaidOut.entered_settledRoot (h : forest.IsLaidOut) (hmarked : forest.IsMarked)
    (hapart : forest.ReadsApart context.countColumn)
    (hloud : ∀ row ∈ rows, ∀ index, forest.isSilenced row index = false) {row : Row}
    (hrow : row ∈ rows) (hcount : 0 < row.count context.countColumn) {node : Node}
    (hnode : node ∈ forest) (hshown : node.isShown = true) {path : Path}
    (hfollow : forest.follow? row none (forest.settledRoot context rows) path = some node.parent)
    {segment : Segment} {id : String} (hname : segment.name = node.name)
    (hhits : node.hits row segment id = true) :
    ∃ next b, next.name = node.name ∧
      (forest.settledRoot context rows).bucketIn? path next = some b ∧
      node.enters row next b.id = true := by
  classical
  have hfolded := h.folded_settledRoot hmarked hapart rows
  generalize forest.settledRoot context rows = root at hfollow hfolded ⊢
  obtain ⟨j, hj⟩ := List.getElem?_of_mem hnode
  have hparent := parentAt?_of_follow? hfollow
  let asks (other : Row) : Bool := decide
    (forest.follow? other none root path = some node.parent ∧ GoesLike node row other)
  -- the question whether a row takes the same way as this one, which some settled row does
  let q : Rows.Question forest context.countColumn Unit :=
    { steps := path ++ [segment]
      index := j
      asks := asks
      read := fun _ => ()
      columns := []
      exists_shown := ⟨node, hj, hshown⟩
      isAsked := h.asks_goesLike hj hshown hparent hname hhits root
        fun other => by simp [asks]
      read_congr := fun _ _ _ => rfl
      readers := fun _ hc => nomatch hc }
  have hasked : q.isAnsweredBy row = true := by
    have hself : asks row = true := by
      simp only [asks, decide_eq_true_iff]
      exact ⟨hfollow, fun _ _ => ⟨rfl, rfl⟩⟩
    simp [Rows.Question.isAnsweredBy, q, hself, hloud row hrow, hcount]
  have hanswer : () ∈ q.answers rows :=
    List.mem_map.mpr ⟨row, List.mem_filter.mpr ⟨hrow, hasked⟩, rfl⟩
  rw [← (q.answers_run h hmarked hapart rows).mem_iff] at hanswer
  obtain ⟨settled, hsettled, -⟩ := List.mem_map.mp hanswer
  obtain ⟨hmem, hanswered⟩ := List.mem_filter.mp hsettled
  simp only [Rows.Question.isAnsweredBy, Bool.and_eq_true] at hanswered
  obtain ⟨hgoes, hlike⟩ := of_decide_eq_true hanswered.1.1
  obtain ⟨next, b, hnext, hb, henters⟩ :=
    hfolded.entered root (.refl root) hfolded.fits settled hmem
    j node path hj hshown hgoes segment id ((hlike segment id).1.trans hhits)
  exact ⟨next, b, hnext, hb, (hlike next b.id).2 ▸ henters⟩

/-- A metric takes the values of the rows that come to it. -/
theorem IsLaidOut.values_settledRoot (h : forest.IsLaidOut) (hmarked : forest.IsMarked)
    (hapart : forest.ReadsApart context.countColumn)
    (hloud : ∀ row ∈ rows, ∀ index, forest.isSilenced row index = false) {node : Node}
    (hnode : node ∈ forest) (hactive : node.isActive = true) {m : Metric}
    (hm : node.aggregation = .metric m) {path : Path}
    (hparent : forest.parentAt? none path = some node.parent) :
    ∃ received : List Row,
      received.Perm (rows.filter fun row => decide (0 < row.count context.countColumn) &&
        forest.follow? row none (forest.settledRoot context rows) path == some node.parent) ∧
      Node.tallyOf m ((forest.settledRoot context rows).outputAt? path node.name) =
        received.foldl
          (fun tally row => tally.addRow (node.decisions.column.getD "") context.countColumn row)
          (Tally.empty m.function) := by
  have hfolded := h.folded_settledRoot hmarked hapart rows
  generalize forest.settledRoot context rows = root at hfolded ⊢
  obtain ⟨j, hj⟩ := List.getElem?_of_mem hnode
  let column := node.decisions.column.getD ""
  have hfold := hfolded.tally root (.refl root) hfolded.fits j node m path hj
    (Node.isShown_of_metric hm hactive) hm hparent
    (fun row => forest.follow? row none root path == some node.parent &&
      !forest.isSilenced row j)
    (fun row _ => by simp [Receives, and_comm])
  rw [Level.outputAt?_empty, foldl_addRow_eq] at hfold
  let q : Rows.Question forest context.countColumn (Option Binary64 × Nat) :=
    metricQuestion h hj hactive hm hparent root
  have hperm := q.answers_run h hmarked hapart rows
  obtain ⟨received, hreceived, hanswers⟩ := exists_perm_of_perm_map hperm
  have hloudRows : (rows.filter q.isAnsweredBy) = rows.filter fun row =>
        decide (0 < row.count context.countColumn) &&
          forest.follow? row none root path == some node.parent := by
    apply List.filter_congr
    intro row hrow
    simp [q, Rows.Question.isAnsweredBy, metricQuestion, hloud row hrow, Bool.and_comm]
  rw [hloudRows] at hreceived
  refine ⟨received, hreceived, ?_⟩
  have hkept : received.filter (fun _ => true) = received := List.filter_true received
  have hpositive : received.filter (fun row => true &&
      decide (0 < row.count context.countColumn)) = received := by
    rw [List.filter_eq_self]
    intro row hrow
    have hmem := (List.mem_filter.mp (hreceived.mem_iff.mp hrow)).2
    simp only [Bool.and_eq_true] at hmem
    simpa using hmem.1
  rw [← hkept, foldl_addRow_eq, hpositive]
  exact hfold.trans (congrArg (List.foldl addAnswer _) hanswers)

/-- A metric without a value takes none. -/
theorem IsLaidOut.blanked_settledRoot (h : forest.IsLaidOut) (hmarked : forest.IsMarked)
    (hapart : forest.ReadsApart context.countColumn) {node : Node} (hnode : node ∈ forest)
    (hblanked : Rows.isBlanked node = true) {m : Metric} (hm : node.aggregation = .metric m)
    {c : String} (hcolumn : node.decisions.column = some c) {path : Path}
    (hparent : forest.parentAt? none path = some node.parent) :
    Node.tallyOf m ((forest.settledRoot context rows).outputAt? path node.name) =
      Tally.empty m.function := by
  have hfolded := h.folded_settledRoot hmarked hapart rows
  generalize forest.settledRoot context rows = root at hfolded ⊢
  obtain ⟨j, hj⟩ := List.getElem?_of_mem hnode
  have hshown : node.isShown = true := by
    simp only [Rows.isBlanked, Bool.and_eq_true] at hblanked
    simp [Node.isShown, hblanked.2, Node.isQuery_of_metric hm]
  have hfold := hfolded.tally root (.refl root) hfolded.fits j node m path hj hshown hm hparent
    (fun row => forest.follow? row none root path == some node.parent && !forest.isSilenced row j)
    (fun row _ => by simp [Receives, and_comm])
  rw [hfold, Level.outputAt?_empty, hcolumn, Option.getD_some]
  have hnone : ∀ row ∈ (RowPass.run forest context rows).filter fun row =>
      forest.follow? row none root path == some node.parent && !forest.isSilenced row j,
      row.number? c = none := by
    intro row hrow
    rw [Row.number?, get?_of_mem_run hnode hblanked hcolumn row (List.mem_filter.mp hrow).1]
    rfl
  generalize (RowPass.run forest context rows).filter _ = settled at hnone
  induction settled with
  | nil => rfl
  | cons row rest ih =>
      have hstep (tally : Tally) : tally.addRow c context.countColumn row = tally := by
        rw [Tally.addRow, Row.measure?, hnone row (by simp)]
        split <;> simp_all
      rw [List.foldl_cons, hstep]
      exact ih fun other hother => hnone other (by simp [hother])

/-- A response that is made of settled rows says exactly what the rows told before. -/
theorem IsLaidOut.isExact_settledRoot (h : forest.IsLaidOut) (hmarked : forest.IsMarked)
    (hapart : forest.ReadsApart context.countColumn)
    (hloud : ∀ row ∈ rows, ∀ index, forest.isSilenced row index = false) :
    forest.IsExact context.countColumn rows (forest.settledRoot context rows) where
  docs := fun _ _ _ hb => h.docCount_settledRoot hmarked hapart hloud hb
  entered := fun _ hrow hcount _ hnode hshown _ hfollow _ _ hname hhits =>
    h.entered_settledRoot hmarked hapart hloud hrow hcount hnode hshown hfollow hname hhits
  values := fun _ hnode hactive _ hm _ hparent =>
    h.values_settledRoot hmarked hapart hloud hnode hactive hm hparent
  blanked := fun _ hnode hblanked _ hm _ hcolumn _ hparent =>
    h.blanked_settledRoot hmarked hapart hnode hblanked hm hcolumn hparent

end

end Forest

namespace TablePlan

/-- The response to the rows of one table. -/
def respond (plan : TablePlan) (settings : Settings) (results : List Fields) : Level :=
  (Response.empty.addRows plan.forest plan.countColumn
    (plan.settleRows settings (results.map fun cells => Row.ofCells cells .engine))).root

/-- The response to the rows of one table says exactly what the rows tell, whatever rows come back
and however many filters they match, if the nodes of the plan read apart. -/
theorem isExact_respond {now : Calendar.Instant} {json : Json} {forest : Forest}
    {tables : List Table} {settings : Settings} {plan : TablePlan}
    (hforest : Forest.ofJson now json = .ok forest) (hkeys : json.hasDistinctKeys = true)
    (hplan : plan ∈ forTables forest tables settings) (hskipped : plan.isSkipped = false)
    (hapart : plan.forest.ReadsApart plan.countColumn) (results : List Fields) :
    plan.forest.IsExact plan.countColumn (results.map fun cells => Row.ofCells cells .engine)
      (plan.respond settings results) := by
  obtain ⟨hlaid, hmarked⟩ := isLaidOut_of_mem_forTables hforest hkeys hplan hskipped
  have hloud : ∀ row ∈ results.map fun cells => Row.ofCells cells .engine,
      ∀ index, plan.forest.isSilenced row index = false := by
    intro row hrow index
    obtain ⟨cells, -, rfl⟩ := List.mem_map.mp hrow
    exact Forest.isSilenced_ofCells cells .engine index
  have hapartContext : plan.forest.ReadsApart (plan.rowContext settings).countColumn := hapart
  exact hlaid.isExact_settledRoot hmarked hapartContext hloud

/-! ## Two filters side by side -/

/-- The filter for one value of an attribute. -/
def flagFilter (field : String) : Json := .object [("term", .object [(field, .ofInt 1)])]

/-- A request for the documents with one attribute or another, side by side. -/
def sideRequest (first second : String) : Json :=
  .object [("aggs", .object [("a", .object [("filters", .object [("filters",
    .object [("x", flagFilter first), ("y", flagFilter second)])])])])]

/-- One of the two filters as it is read. -/
def sideLeg (index : Nat) (field : String) : Aggregation :=
  .leg ⟨.named, index, ["x", "y"], .ok (some
    ⟨.atom (.equals field (.number (.integer 1))), [.equals field (.number (.integer 1))]⟩)⟩

/-- The forest of the request for two filters. -/
def sideForest (first second : String) : Forest :=
  [Node.new "a" none 0 false (sideLeg 0 first), Node.new "a" none 0 false (sideLeg 1 second)]

/-- The plan of that request for a table with some attributes. -/
def sidePlan (first second : String) (fields : List (String × Bool)) : TablePlan :=
  ofForest (sideForest first second) ⟨"t", fields⟩ false (fields.map Prod.fst) .standard

/-- Five documents that match both filters count five times in each bucket. -/
theorem respond_ownFilters_counts_five :
    (((sidePlan "s" "u" [("s", true), ("u", true)]).respond .standard
        [[("al1", .ofInt 1), ("al2", .ofInt 1), ("cnt", .ofInt 5)]]).bucketIn? []
          (.bucket "a" 1)).map Bucket.docCount = some 5 := by
  have hforest : Forest.ofJson default (sideRequest "s" "u") = .ok (sideForest "s" "u") := rfl
  have hplan : sidePlan "s" "u" [("s", true), ("u", true)] ∈ forTables (sideForest "s" "u")
      [⟨"t", [("s", true), ("u", true)]⟩] .standard := List.mem_singleton.mpr rfl
  have hexact := isExact_respond hforest (by decide +kernel) hplan rfl
    (Forest.readsApart_of_checksApart (by decide +kernel))
    [[("al1", .ofInt 1), ("al2", .ofInt 1), ("cnt", .ofInt 5)]]
  cases hb : ((sidePlan "s" "u" [("s", true), ("u", true)]).respond .standard
      [[("al1", .ofInt 1), ("al2", .ofInt 1), ("cnt", .ofInt 5)]]).bucketIn? [] (.bucket "a" 1) with
  | none => exact absurd (congrArg Option.isSome hb) (by decide +kernel)
  | some b =>
      rw [Option.map_some, hexact.docs [] _ b hb]
      decide +kernel

/-- Two filters with one expression share a column, and count the documents twice. -/
theorem respond_sameFilter_counts_twice :
    Forest.ofJson default (sideRequest "s" "s") = .ok (sideForest "s" "s") ∧
      sidePlan "s" "s" [("s", true)] ∈
        forTables (sideForest "s" "s") [⟨"t", [("s", true)]⟩] .standard ∧
      (sidePlan "s" "s" [("s", true)]).isSkipped = false ∧
      ¬ (sidePlan "s" "s" [("s", true)]).forest.IsExact
        (sidePlan "s" "s" [("s", true)]).countColumn
        [Row.ofCells [("al1", .ofInt 1), ("cnt", .ofInt 5)] .engine]
        ((sidePlan "s" "s" [("s", true)]).respond .standard
          [[("al1", .ofInt 1), ("cnt", .ofInt 5)]]) := by
  refine ⟨rfl, List.mem_singleton.mpr rfl, rfl, ?_⟩
  intro hexact
  cases hb : ((sidePlan "s" "s" [("s", true)]).respond .standard
      [[("al1", .ofInt 1), ("cnt", .ofInt 5)]]).bucketIn? [] (.bucket "a" 0) with
  | none => exact absurd (congrArg Option.isSome hb) (by decide +kernel)
  | some b =>
      have hten : (((sidePlan "s" "s" [("s", true)]).respond .standard
          [[("al1", .ofInt 1), ("cnt", .ofInt 5)]]).bucketIn? [] (.bucket "a" 0)).map
            Bucket.docCount = some 10 := by decide +kernel
      rw [hb, Option.map_some, hexact.docs [] _ b hb] at hten
      exact absurd hten (by decide +kernel)

end TablePlan
end Rollup
