/-
# Buckets and counts in any order of the rows

The buckets at a path of aggregation names and bucket identities, and how many documents they have,
do not depend on the order of the rows, nor on whether the rows are sorted. What the passes take
from the first row of a group is alike in all its rows, and rows that are dropped or kept as others
come later have nothing to say.
-/

import Rollup.Proofs.Response.Exact
import Rollup.Proofs.Response.Idle

namespace Rollup

/-! ## Buckets by name and identity -/

namespace Output

/-- The buckets of an output with an identity. -/
def bucketsWith (output : Output) (id : String) : List (Bucket Output) :=
  match output with
  | buckets list => list.entries.filter fun b => b.id == id
  | single b => [b].filter fun b => b.id == id
  | metric _ => []

/-- The marks of buckets that an output may have under an identity, its lists having up to some
length. -/
def marksFor (id : String) (length : Nat) : List Mark :=
  .only :: .named id :: (List.range length).map Mark.placed

theorem filterMap_getElem?_range {α : Type} {items : List α} {length : Nat}
    (h : items.length ≤ length) : (List.range length).filterMap (fun i => items[i]?) = items := by
  induction items generalizing length with
  | nil => simp
  | cons item rest ih =>
      obtain ⟨length, rfl⟩ : ∃ l, length = l + 1 := ⟨length - 1, by simp at h; omega⟩
      rw [List.range_succ_eq_map, List.filterMap_cons, List.filterMap_map]
      simpa [Function.comp_def] using ih (by simpa using h)

/-- The buckets of a list with one identity, when there is one at most. -/
theorem filter_id_eq {entries : List (Bucket Output)} (hnodup : (entries.map Bucket.id).Nodup)
    (id : String) : (entries.filter fun b => b.id == id) =
      (entries.find? fun b => b.id == id).toList := by
  induction entries with
  | nil => rfl
  | cons b rest ih =>
      rw [List.map_cons, List.nodup_cons] at hnodup
      rw [List.filter_cons, List.find?_cons]
      cases hid : b.id == id with
      | true =>
          have hothers : rest.filter (fun b => b.id == id) = [] := by
            refine List.filter_eq_nil_iff.mpr fun c hc hsame => hnodup.1 ?_
            rw [beq_iff_eq.mp hid, ← beq_iff_eq.mp hsame]
            exact List.mem_map_of_mem hc
          rw [if_pos rfl, hothers]
          rfl
      | false =>
          rw [if_neg Bool.false_ne_true]
          exact ih hnodup.2

/-- The buckets with an identity are found by their marks. -/
theorem exists_bucketsWith_eq {output : Output} (h : output.HasDistinctIds) (id : String) :
    ∃ least, ∀ length, least ≤ length → output.bucketsWith id =
      ((marksFor id length).filterMap output.bucketOf?).filter fun b => b.id == id := by
  unfold marksFor
  cases output with
  | metric tally =>
      refine ⟨0, fun length _ => ?_⟩
      simp [bucketOf?, bucketsWith]
  | single b =>
      refine ⟨0, fun length _ => ?_⟩
      simp only [List.filterMap_cons, List.filterMap_map, bucketOf?, bucketsWith,
        Function.comp_def]
      simp
  | buckets list =>
      refine ⟨list.entries.length, fun length hlength => ?_⟩
      simp only [List.filterMap_cons, List.filterMap_map, bucketOf?, bucketsWith,
        Function.comp_def]
      cases hordered : list.finish.order.isSome with
      | true =>
          rw [filter_id_eq (h hordered)]
          cases hfound : list.entries.find? fun b => b.id == id with
          | none => simp
          | some b =>
              have hid : b.id = id := by simpa using List.find?_some hfound
              simp [hid]
      | false => simp [filterMap_getElem?_range hlength]

end Output

namespace Level

/-- The buckets of the output with a name that have an identity. -/
def bucketsIn (level : Level) (name id : String) : List (Bucket Output) :=
  match level.get? name with
  | some output => output.bucketsWith id
  | none => []

/-- The buckets at the end of a path of aggregation names and bucket identities. -/
def bucketsAt : List (String × String) → Level → List (Bucket Output)
  | [], _ => []
  | [(name, id)], level => level.bucketsIn name id
  | (name, id) :: path, level => (level.bucketsIn name id).flatMap fun b => bucketsAt path b.inner

/-- The buckets with an identity are those that turns go into. -/
theorem exists_bucketsIn_eq {level : Level} (h : level.HasDistinctIds) (name id : String) :
    ∃ least, ∀ length, least ≤ length → level.bucketsIn name id =
      ((Output.marksFor id length).filterMap fun mark => level.turnTo? ⟨name, mark⟩).filter
        fun b => b.id == id := by
  unfold bucketsIn turnTo?
  cases hget : level.get? name with
  | none => exact ⟨0, fun _ _ => by simp [hget]⟩
  | some output =>
      obtain ⟨least, heq⟩ := Output.exists_bucketsWith_eq (h.output hget) id
      exact ⟨least, fun length hlength => by simpa [hget] using heq length hlength⟩

/-! ## Levels that show the same -/

section

variable {level other : Level}

/-- Whether the same turns go into buckets of the same identities with the same documents, along
all trails. -/
def ShowsSame (level other : Level) : Prop :=
  ∀ trail turn, (level.bucketOn? trail turn).map (fun b => (b.id, b.docCount)) =
    (other.bucketOn? trail turn).map fun b => (b.id, b.docCount)

/-- Responses with the same buckets, identities and documents show the same. -/
theorem showsSame_of_docsOn
    (hsome : ∀ trail turn,
      (level.bucketOn? trail turn).isSome = (other.bucketOn? trail turn).isSome)
    (hdocs : ∀ trail turn, level.docsOn trail turn = other.docsOn trail turn)
    (hids : ∀ trail turn b b', level.bucketOn? trail turn = some b →
      other.bucketOn? trail turn = some b' → b.id = b'.id) : ShowsSame level other := by
  intro trail turn
  have hsome := hsome trail turn
  have hdocs := hdocs trail turn
  unfold docsOn at hdocs
  cases hb : level.bucketOn? trail turn with
  | none =>
      rw [hb] at hsome
      have hnone : other.bucketOn? trail turn = none := by simpa using hsome.symm
      rw [hnone]
  | some b =>
      rw [hb] at hsome
      obtain ⟨b', hb'⟩ := Option.isSome_iff_exists.mp hsome.symm
      rw [hb, hb'] at hdocs
      have hcounts : b.docCount = b'.docCount := hdocs
      rw [hb', Option.map_some, Option.map_some, hids trail turn b b' hb hb', hcounts]

theorem ShowsSame.inner (h : ShowsSame level other) {turn : Turn} {b b' : Bucket Output}
    (hb : level.turnTo? turn = some b) (hb' : other.turnTo? turn = some b') :
    ShowsSame b.inner b'.inner := by
  intro trail next
  have hnext := h (turn :: trail) next
  simp only [bucketOn?, outputOn?, levelOn?, hb, hb', Option.bind_some] at hnext
  exact hnext

theorem HasDistinctIds.turnTo? (h : level.HasDistinctIds) {turn : Turn} {b : Bucket Output}
    (hb : level.turnTo? turn = some b) : HasDistinctIds b.inner := by
  obtain ⟨output, houtput, hmark⟩ := Option.bind_eq_some_iff.mp hb
  obtain ⟨segment, hname, hsegment, -⟩ :=
    (Output.bucketOf?_eq_some_iff (h.output houtput) turn.aggregation).mp hmark
  have hstep : level.bucketAt? segment = some b := by
    rw [bucketAt?, hname, houtput]
    exact hsegment
  exact h.inner hstep

/-- Whether two buckets have the same documents, and show the same inside. -/
structure Corresponds (b b' : Bucket Output) : Prop where
  docCount : b.docCount = b'.docCount
  distinct : HasDistinctIds b.inner
  distinct' : HasDistinctIds b'.inner
  inner : ShowsSame b.inner b'.inner

theorem ShowsSame.bucketsIn (hsame : ShowsSame level other) (h : level.HasDistinctIds)
    (h' : other.HasDistinctIds) (name id : String) :
    List.Forall₂ Corresponds (level.bucketsIn name id) (other.bucketsIn name id) := by
  obtain ⟨least, heq⟩ := exists_bucketsIn_eq h name id
  obtain ⟨least', heq'⟩ := exists_bucketsIn_eq h' name id
  rw [heq _ (Nat.le_max_left least least'), heq' _ (Nat.le_max_right least least')]
  induction Output.marksFor id (max least least') with
  | nil => exact .nil
  | cons mark rest ih =>
      have hturn : (level.turnTo? ⟨name, mark⟩).map (fun b => (b.id, b.docCount)) =
          (other.turnTo? ⟨name, mark⟩).map fun b => (b.id, b.docCount) := hsame [] ⟨name, mark⟩
      rw [List.filterMap_cons, List.filterMap_cons]
      cases hb : level.turnTo? ⟨name, mark⟩ with
      | none =>
          cases hb' : other.turnTo? ⟨name, mark⟩ with
          | none => exact ih
          | some b' => rw [hb, hb'] at hturn; cases hturn
      | some b =>
          cases hb' : other.turnTo? ⟨name, mark⟩ with
          | none => rw [hb, hb'] at hturn; cases hturn
          | some b' =>
              rw [hb, hb', Option.map_some, Option.map_some, Option.some.injEq,
                Prod.mk.injEq] at hturn
              dsimp only
              rw [List.filter_cons, List.filter_cons, hturn.1]
              split
              · exact .cons ⟨hturn.2, h.turnTo? hb, h'.turnTo? hb', hsame.inner hb hb'⟩ ih
              · exact ih

/-- Levels that show the same have the same buckets with the same documents at every path. -/
theorem ShowsSame.docCounts_bucketsAt (hsame : ShowsSame level other) (h : level.HasDistinctIds)
    (h' : other.HasDistinctIds) (path : List (String × String)) :
    (bucketsAt path level).map Bucket.docCount = (bucketsAt path other).map Bucket.docCount := by
  induction path generalizing level other with
  | nil => rfl
  | cons step rest ih =>
      obtain ⟨name, id⟩ := step
      have hbuckets := hsame.bucketsIn h h' name id
      cases rest with
      | nil =>
          unfold bucketsAt
          generalize level.bucketsIn name id = first, other.bucketsIn name id = second at hbuckets
          induction hbuckets with
          | nil => rfl
          | cons hboth _ ih => rw [List.map_cons, List.map_cons, hboth.docCount, ih]
      | cons next rest =>
          unfold bucketsAt
          generalize level.bucketsIn name id = first, other.bucketsIn name id = second at hbuckets
          induction hbuckets with
          | nil => rfl
          | cons hboth _ ihBuckets =>
              rw [List.flatMap_cons, List.flatMap_cons, List.map_append, List.map_append,
                ihBuckets, ih hboth.inner hboth.distinct hboth.distinct']

end

end Level

/-! ## Rows that tell the same -/

/-- Nodes that start alike make buckets of one identity under one mark. -/
theorem Stop.id_eq_of_opens? {stop other : Stop}
    (hinitial : stop.node.initial none = other.node.initial none) {trail : Trail} {turn : Turn}
    {b b' : Bucket Output} (hb : stop.opens? trail turn = some b)
    (hb' : other.opens? trail turn = some b') : b.id = b'.id := by
  obtain ⟨-, hfresh⟩ := Option.ite_none_right_eq_some.mp hb
  obtain ⟨-, hfresh'⟩ := Option.ite_none_right_eq_some.mp hb'
  have hpreset (hmark : ∀ id, turn.mark ≠ .named id) : b.id = b'.id := by
    rw [Node.freshAt?_preset hmark] at hfresh hfresh'
    rw [hinitial, hfresh'] at hfresh
    rw [Option.some.inj hfresh]
  cases hmark : turn.mark with
  | named id =>
      rw [hmark, Node.freshAt?, Option.filter_eq_some_iff] at hfresh hfresh'
      rw [beq_iff_eq.mp hfresh.2, beq_iff_eq.mp hfresh'.2]
  | placed index => exact hpreset (by simp [hmark])
  | only => exact hpreset (by simp [hmark])

namespace Forest

variable {forest : Forest} {countColumn : String} {rows others : List Row}

/-- The documents of a bucket are those that the rows bring. -/
theorem IsLaidOut.docsOn_foldRows (h : forest.IsLaidOut) (countColumn : String) (rows : List Row)
    (trail : Trail) (turn : Turn) : (forest.foldRows countColumn [] rows).docsOn trail turn =
      (rows.map fun row => forest.docsOf countColumn row trail turn).sum := by
  obtain ⟨-, hgains⟩ := h.gains_foldRows countColumn rows (hosts_nil forest)
  rw [hgains.docs, Level.docsOn, Level.bucketOn?_empty, Option.map_none, Option.getD_none,
    Nat.zero_add]
  clear hgains
  induction rows with
  | nil => rfl
  | cons row rest ih =>
      rw [List.flatMap_cons, List.map_append, List.sum_append, ih, List.map_cons, List.sum_cons]
      rfl

/-- There is a bucket where some row makes one. -/
theorem IsLaidOut.isSome_bucketOn?_foldRows (h : forest.IsLaidOut) (countColumn : String)
    (rows : List Row) (trail : Trail) (turn : Turn) :
    ((forest.foldRows countColumn [] rows).bucketOn? trail turn).isSome = true ↔
      ∃ row ∈ rows, forest.makesBucket countColumn row trail turn = true := by
  obtain ⟨-, hgains⟩ := h.gains_foldRows countColumn rows (hosts_nil forest)
  rw [hgains.bucket, Level.bucketOn?_empty]
  simp only [Option.isSome_none, Bool.false_eq_true, false_or, List.mem_flatMap, makesBucket,
    List.any_eq_true]
  exact ⟨fun ⟨stop, ⟨row, hrow, hstop⟩, hopens⟩ => ⟨row, hrow, stop, hstop, hopens⟩,
    fun ⟨row, hrow, stop, hstop, hopens⟩ => ⟨stop, ⟨row, hrow, hstop⟩, hopens⟩⟩

/-- Stops that make a bucket at the same place make one of the same identity. -/
theorem IsLaidOut.id_eq_of_opens? (h : forest.IsLaidOut) {row other : Row} {stop stop' : Stop}
    (hstop : stop ∈ forest.stops countColumn row) (hstop' : stop' ∈ forest.stops countColumn other)
    {trail : Trail} {turn : Turn} {b b' : Bucket Output} (hb : stop.opens? trail turn = some b)
    (hb' : stop'.opens? trail turn = some b') : b.id = b'.id := by
  obtain ⟨hat, -⟩ := Option.ite_none_right_eq_some.mp hb
  obtain ⟨hat', -⟩ := Option.ite_none_right_eq_some.mp hb'
  -- the nodes belong to one aggregation, so they start with the same buckets
  have hinitial : stop.node.initial none = stop'.node.initial none := by
    obtain ⟨i, hi, hshown, -⟩ := mem_stops hstop
    obtain ⟨j, hj, hshown', -⟩ := mem_stops hstop'
    have hparent := h.parentOn?_of_mem_stops hstop
    have hparent' := h.parentOn?_of_mem_stops hstop'
    rw [hat.1] at hparent
    rw [hat'.1, hparent] at hparent'
    have hakin : stop.node.IsAkin stop'.node := ⟨Node.isQuery_of_isShown hshown,
      Node.isQuery_of_isShown hshown', hat.2.trans hat'.2.symm, Option.some.inj hparent'⟩
    by_cases hij : i = j
    · subst hij
      rw [Option.some.inj (hi.symm.trans hj)]
    · exact (h.sharesLegs hij hi hj hakin).initial_eq.symm
  exact Stop.id_eq_of_opens? hinitial hb hb'

/-- A bucket that some row makes, some row makes that tells the same. -/
theorem IsLaidOut.exists_makesBucket (h : forest.IsLaidOut) (hmarked : forest.IsMarked)
    (htell : Rows.TellSame forest.soleColumns rows others) {trail : Trail} {turn : Turn}
    (hmakes : ∃ row ∈ rows, forest.makesBucket countColumn row trail turn = true) :
    ∃ row ∈ others, forest.makesBucket countColumn row trail turn = true := by
  obtain ⟨row, hrow, hmakes⟩ := hmakes
  cases hkept : Rows.isKept forest.soleColumns row with
  | true =>
      exact htell.exists_kept (fun row other halike =>
        forest.makesBucket_of_alike countColumn halike trail turn) hrow hkept hmakes
  | false =>
      have hsome : others ≠ [] := fun hnil =>
        List.ne_nil_of_mem hrow (htell.nil_iff.mpr hnil)
      obtain ⟨other, hother⟩ := List.exists_mem_of_ne_nil others hsome
      exact ⟨other, hother, h.makesBucket_of_idle hmarked hkept hmakes other⟩

/-- Rows that tell the same make responses that show the same. -/
theorem IsLaidOut.showsSame_of_tellSame (h : forest.IsLaidOut) (hmarked : forest.IsMarked)
    (htell : Rows.TellSame forest.soleColumns rows others) :
    (forest.foldRows countColumn [] rows).ShowsSame (forest.foldRows countColumn [] others) := by
  have horigin {list : List Row} {trail : Trail} {turn : Turn} {b : Bucket Output}
      (hb : (forest.foldRows countColumn [] list).bucketOn? trail turn = some b) :
      ∃ row, ∃ stop ∈ forest.stops countColumn row, ∃ fresh,
        stop.opens? trail turn = some fresh ∧ fresh.id = b.id := by
    obtain ⟨-, hgains⟩ := h.gains_foldRows countColumn list (hosts_nil forest)
    obtain ⟨stop, hstop, fresh, hopens, hid, -⟩ := hgains.exists_opens hb
    obtain ⟨row, -, hrow⟩ := List.mem_flatMap.mp hstop
    exact ⟨row, stop, hrow, fresh, hopens, hid⟩
  refine Level.showsSame_of_docsOn ?_ ?_ ?_
  · intro trail turn
    rw [Bool.eq_iff_iff, h.isSome_bucketOn?_foldRows, h.isSome_bucketOn?_foldRows]
    exact ⟨h.exists_makesBucket hmarked htell, h.exists_makesBucket hmarked htell.symm⟩
  · intro trail turn
    rw [h.docsOn_foldRows, h.docsOn_foldRows]
    exact htell.sum _ (fun row other halike => forest.docsOf_of_alike countColumn halike trail turn)
      fun row hidle => h.docsOf_of_idle hmarked hidle trail turn
  · intro trail turn b b' hb hb'
    obtain ⟨row, stop, hstop, fresh, hopens, hid⟩ := horigin hb
    obtain ⟨row', stop', hstop', fresh', hopens', hid'⟩ := horigin hb'
    rw [← hid, ← hid', h.id_eq_of_opens? hstop hstop' hopens hopens']

end Forest

/-! ## Plans for one table -/

namespace TablePlan

/-- The response to the rows of one table, which are sorted first or left as they came. -/
def respondSorted (plan : TablePlan) (settings : Settings) (sorted : Bool)
    (results : List Fields) : Level :=
  plan.forest.foldRows plan.countColumn []
    (RowPass.run plan.forest { plan.rowContext settings with complexOrder := sorted }
      (results.map fun cells => Row.ofCells cells .engine))

/-- A plan sorts the rows when the statement could not. -/
theorem respond_eq_respondSorted (plan : TablePlan) (settings : Settings)
    (results : List Fields) : plan.respond settings results =
      plan.respondSorted settings plan.draft.context.complexOrder results := rfl

/-- In every order of the rows, sorted or not, there are the same buckets with the same documents at
every path, and the sorting itself keeps all rows. -/
theorem docCounts_respondSorted {now : Calendar.Instant} {json : Json} {forest : Forest}
    {table : Table} {settings : Settings} {plan : TablePlan}
    (hforest : Forest.ofJson now json = .ok forest) (hkeys : json.hasDistinctKeys = true)
    (hplan : plan ∈ forTables forest [table] settings) {results others : List Fields}
    (hperm : results.Perm others)
    (hclean : ∀ cells ∈ results,
      (Row.ofCells cells .engine).IsClean plan.forest.groupColumns) :
    (∀ rows, (Rows.sort plan.forest plan.countColumn rows).Perm rows) ∧
      ∀ (sorted sorted' : Bool) (path : List (String × String)),
        ((plan.respondSorted settings sorted results).bucketsAt path).map Bucket.docCount =
          ((plan.respondSorted settings sorted' others).bucketsAt path).map Bucket.docCount := by
  refine ⟨Rows.sort_perm plan.forest plan.countColumn, fun sorted sorted' path => ?_⟩
  obtain ⟨hlaid, hmarked⟩ := isLaidOut_of_mem_forTables hforest hkeys hplan
    (forest_of_mem_forTables hplan).1
  have hrows : ∀ row ∈ results.map fun cells => Row.ofCells cells .engine,
      row.origin ≠ .empty ∧ row.IsClean plan.forest.groupColumns := by
    intro row hrow
    obtain ⟨cells, hcells, rfl⟩ := List.mem_map.mp hrow
    exact ⟨by simp [Row.ofCells], hclean cells hcells⟩
  have htell : Rows.TellSame plan.forest.soleColumns
      (RowPass.run plan.forest { plan.rowContext settings with complexOrder := sorted }
        (results.map fun cells => Row.ofCells cells .engine))
      (RowPass.run plan.forest { plan.rowContext settings with complexOrder := sorted' }
        (others.map fun cells => Row.ofCells cells .engine)) :=
    Rows.tellSame_run (hperm.map _) (fun row hrow => (hrows row hrow).1)
      (fun row hrow => (hrows row hrow).2)
      (fun _ hunit houtside => hlaid.columns_eq_soleColumns hunit houtside)
      (fun _ htarget _ hc => of_mem_soleColumns hforest hkeys hplan htarget hc) sorted sorted'
  obtain ⟨hhosts, -⟩ := hlaid.gains_foldRows plan.countColumn
    (RowPass.run plan.forest { plan.rowContext settings with complexOrder := sorted }
      (results.map fun cells => Row.ofCells cells .engine)) (Forest.hosts_nil plan.forest)
  obtain ⟨hhosts', -⟩ := hlaid.gains_foldRows plan.countColumn
    (RowPass.run plan.forest { plan.rowContext settings with complexOrder := sorted' }
      (others.map fun cells => Row.ofCells cells .engine)) (Forest.hosts_nil plan.forest)
  exact (hlaid.showsSame_of_tellSame hmarked htell).docCounts_bucketsAt hhosts.distinct
    hhosts'.distinct path

/-! ### A row that is dropped or kept -/

/-- Two documents that match one of two filters, and three that match none. -/
def matchedRow : Fields := [("al1", .ofInt 1), ("al2", .ofInt 0), ("cnt", .ofInt 2)]

def missedRow : Fields := [("al1", .ofInt 0), ("al2", .ofInt 0), ("cnt", .ofInt 3)]

/-- The row that matches no filter is dropped behind the other row, and kept before it. -/
theorem docCounts_missedRow_first :
    (((sidePlan "s" "u" [("s", true), ("u", true)]).respondSorted .standard false
      [missedRow, matchedRow]).bucketsAt [("a", "x")]).map Bucket.docCount = [2] := by
  have hforest : Forest.ofJson default (sideRequest "s" "u") = .ok (sideForest "s" "u") := rfl
  have hplan : sidePlan "s" "u" [("s", true), ("u", true)] ∈ forTables (sideForest "s" "u")
      [⟨"t", [("s", true), ("u", true)]⟩] .standard := List.mem_singleton.mpr rfl
  have hclean : ∀ cells ∈ [missedRow, matchedRow], (Row.ofCells cells .engine).IsClean
      (sidePlan "s" "u" [("s", true), ("u", true)]).forest.groupColumns := by
    have hcolumns : (sidePlan "s" "u" [("s", true), ("u", true)]).forest.groupColumns =
        ["al1", "al2"] := by decide +kernel
    rw [hcolumns]
    intro cells hcells column hcolumn
    simp only [List.mem_cons, List.not_mem_nil, or_false] at hcells hcolumn
    rcases hcells with rfl | rfl <;> rcases hcolumn with rfl | rfl <;>
      exact Cell.isClean_ofInt (by decide)
  rw [(docCounts_respondSorted hforest (by decide +kernel) hplan (.swap matchedRow missedRow [])
    hclean).2 false true]
  decide +kernel

end TablePlan
end Rollup
