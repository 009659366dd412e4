/-
# Direct filters and indirect ones

A leg is direct when all that is shown lies below it, so that the statement may filter by it and let
no other row through. Its indirect form lets every row through and tells them apart by a column.
A row that does not match makes the outputs of the request's own level and goes no further, and a
row that matches makes them as well; so both forms give the same response, as long as the others do
not get between the rows that match when these are put in order.
-/

import Rollup.Proofs.Response.Exact
import Rollup.Proofs.Response.Update
import Rollup.Proofs.Rows.Sorted

namespace Rollup

/-! ## Rows that match -/

namespace Forest

variable {forest : Forest} {index : Nat} {leg : Node} {c countColumn : String}
  {row other : Row}

theorem isSilenced_congr (hagree : row.AgreesOff c other) (i : Nat) :
    forest.isSilenced row i = forest.isSilenced other i := by
  unfold isSilenced
  rw [hagree.countScopes, hagree.mutedScopes]

theorem agreesOff_sourceAt (hagree : row.AgreesOff c other) (i : Nat) :
    (forest.sourceAt countColumn row i).AgreesOff c (forest.sourceAt countColumn other i) := by
  unfold sourceAt
  rw [isSilenced_congr hagree]
  split
  · exact hagree.set countColumn _
  · exact hagree

theorem flag_sourceAt (hcount : c ≠ countColumn) (i : Nat) :
    (forest.sourceAt countColumn row i).flag c = row.flag c := by
  unfold sourceAt
  split
  · exact Row.flag_congr (Row.get?_set_of_ne row hcount _)
  · rfl

theorem sourceAt_indirectAt (forest : Forest) (index : Nat) (countColumn : String) (row : Row)
    (i : Nat) : (forest.indirectAt index).sourceAt countColumn row i =
      forest.sourceAt countColumn row i := by
  rw [sourceAt, sourceAt, isSilenced_indirectAt]

/-- A node places a row that matches as it does in the direct form. -/
theorem placeAt_indirectAt (henc : forest.Encloses index leg c) (hcount : c ≠ countColumn)
    (hagree : row.AgreesOff c other) (hflag : other.flag c = true) {i : Nat} {n : Node}
    (hn : forest[i]? = some n) (hshown : n.isShown = true) :
    (forest.indirectAt index).placeAt countColumn other
        (if i = index then n.indirect else n, i) =
      forest.placeAt countColumn row (n, i) := by
  have hsource : (forest.sourceAt countColumn row i).AgreesOff c
      (forest.sourceAt countColumn other i) := agreesOff_sourceAt hagree i
  have hdocs : (forest.sourceAt countColumn row i).count countColumn =
      (forest.sourceAt countColumn other i).count countColumn :=
    Row.count_congr (hsource.cells countColumn hcount.symm)
  unfold placeAt
  dsimp only
  rw [sourceAt_indirectAt, orderMetricName?_indirectAt]
  by_cases hindex : i = index
  · subst hindex
    obtain rfl := Option.some.inj (hn.symm.trans henc.at_index)
    obtain ⟨l, hl⟩ := Node.exists_leg henc.isLeg
    have hmatch : (forest.sourceAt countColumn other i).flag c = true :=
      (flag_sourceAt hcount i).trans hflag
    funext level
    simp only [if_true, Node.place, Node.aggregation_indirect, hl, Node.name_indirect,
      Node.column_indirect, henc.column, henc.direct, Leg.isMatchedBy, hmatch, hdocs, Bool.true_or,
      Bool.or_true]
  · rw [if_neg hindex]
    refine (Node.place_congr (fun column hread => hsource.cells column ?_) hdocs).symm
    rintro rfl
    exact henc.apart i n hindex hn hshown hread

/-- Nodes that do the same with two rows take them the same way. -/
theorem visit_congr {forest' : Forest} {runs : List (List Nat)} {n n' : Node} {i : Nat}
    (hshown : n'.isShown = n.isShown) (hparent : n'.parent = n.parent)
    (hanchor : forest'.anchor i = forest.anchor i)
    (hplace : n.isShown = true →
      forest'.placeAt countColumn other (n', i) = forest.placeAt countColumn row (n, i))
    (state : Places × Level) :
    forest'.visit runs countColumn other state (n', i) =
      forest.visit runs countColumn row state (n, i) := by
  obtain ⟨places, root⟩ := state
  unfold placeAt sourceAt at hplace
  unfold visit
  dsimp only at hplace ⊢
  rw [hshown, hparent, hanchor]
  cases hn : n.isShown with
  | false => rfl
  | true => rw [hplace hn]

/-- A row that matches leaves what it leaves in the direct form. -/
theorem foldRow_indirectAt (henc : forest.Encloses index leg c) (hcount : c ≠ countColumn)
    (hagree : row.AgreesOff c other) (hflag : other.flag c = true) (runs : List (List Nat))
    (root : Level) :
    (forest.indirectAt index).foldRow runs countColumn root other =
      forest.foldRow runs countColumn root row := by
  unfold foldRow
  rw [zipIdx_indirectAt, List.foldl_map]
  refine congrArg Prod.snd (List.foldl_ext _ _ _ fun state entry hentry => ?_)
  have hn := List.mem_zipIdx_iff_getElem?.mp hentry
  refine visit_congr ?_ ?_ ?_ (fun hshown => ?_) state
  · split <;> rfl
  · split <;> rfl
  · exact anchor_indirectAt forest index entry.2
  · exact placeAt_indirectAt henc hcount hagree hflag hn hshown

/-! ## Rows that do not match -/

/-- What is shown at the request's own level is the leg, or a metric without a value. -/
theorem isBlanked_of_root (henc : forest.Encloses index leg c) (hmarked : forest.IsMarked) {i : Nat}
    {n : Node} (hne : i ≠ index) (hn : forest[i]? = some n) (hshown : n.isShown = true)
    (hparent : n.parent = none) : Rows.isBlanked n = true := by
  rw [Node.isShown, Bool.and_eq_true, Bool.or_eq_true, Bool.not_eq_true'] at hshown
  rcases hshown.2 with hactive | hblanked
  · have hbelow := henc.below i n hne hn hactive hshown.1
    rw [isBelow_of_root hn hparent] at hbelow
    cases hbelow
  · rw [Rows.isBlanked, hmarked.blanked n (List.mem_of_getElem? hn) hblanked, hblanked]
    rfl

/-- A row that goes nowhere at a node has gone nowhere. -/
theorem remember_nowhere (anchor : Nat) (lastLeg : Option Bool) (base : Path) {step : Step}
    (hstep : ∀ segment, step ≠ .descend segment) :
    remember .nowhere anchor lastLeg base step = .nowhere := by
  have hnone : (fun i => if i = anchor then none else none : Nat → Option Path) = fun _ => none :=
    funext fun i => ite_self none
  unfold remember
  cases step with
  | descend segment => exact absurd rfl (hstep segment)
  | stay => rfl
  | skip =>
      dsimp only
      split
      · simp only [Places.settle, Places.suspend, Places.nowhere, hnone]
      · rfl

/-- At the request's own level a row that does not match makes an output and stays outside. -/
theorem placeAt_of_not_flag (henc : forest.Encloses index leg c) (hcount : c ≠ countColumn)
    (hmarked : forest.IsMarked) (hflag : row.flag c = false)
    (hblanked : ∀ column ∈ Rows.blankedColumns forest, row.get? column = none) {i : Nat} {n : Node}
    (hn : (forest.indirectAt index)[i]? = some n) (hshown : n.isShown = true)
    (hparent : n.parent = none) :
    ∃ initial, (forest.indirectAt index).opening? n = some (n.name, initial) ∧
      ∀ level, ∃ step, (∀ segment, step ≠ .descend segment) ∧
        (forest.indirectAt index).placeAt countColumn row (n, i) level =
          (step, level.ensure n.name initial) := by
  rw [getElem?_indirectAt] at hn
  obtain ⟨m, hm, rfl⟩ := Option.map_eq_some_iff.mp hn
  refine ⟨_, opening?_of_root hshown hparent, fun level => ?_⟩
  unfold placeAt
  by_cases hindex : i = index
  · subst hindex
    obtain rfl := Option.some.inj (hm.symm.trans henc.at_index)
    obtain ⟨l, hl⟩ := Node.exists_leg henc.isLeg
    have hmiss : ((forest.indirectAt i).sourceAt countColumn row i).flag c = false :=
      (flag_sourceAt hcount i).trans hflag
    have hmatch : l.isMatchedBy false (some c)
        ((forest.indirectAt i).sourceAt countColumn row i) = false := hmiss
    refine ⟨.skip, fun _ => Step.noConfusion, ?_⟩
    simp only [if_true, Node.place, Node.aggregation_indirect, hl, Node.name_indirect,
      Node.column_indirect, Node.direct_indirect, henc.column, hmatch]
    exact Node.place_leg_of_missed (n := m.indirect) hl _ _ level
  · rw [if_neg hindex] at hshown hparent ⊢
    have hmem := List.mem_of_getElem? hm
    have hblank := isBlanked_of_root henc hmarked hindex hm hshown hparent
    obtain ⟨f, hf⟩ := Node.exists_metric (Bool.and_eq_true_iff.mp hblank).1
    obtain ⟨column, hcolumn⟩ := Option.ne_none_iff_exists'.mp
      (hmarked.column m hmem (by rw [hf]; rfl) (by rw [hf]; exact Option.some_ne_none _))
    have hmemBlanked : column ∈ Rows.blankedColumns forest :=
      Rows.mem_blankedColumns.mpr ⟨m, hmem, hblank, hcolumn⟩
    have hnone : ((forest.indirectAt index).sourceAt countColumn row i).measure? column
        countColumn = none := by
      unfold sourceAt Row.measure?
      split
      · rw [if_pos (Row.count_muted row countColumn)]
      · rw [Row.number?, hblanked column hmemBlanked]
        exact ite_self none
    refine ⟨.stay, fun _ => Step.noConfusion, ?_⟩
    simp only [Node.place, hf, hcolumn, Option.getD_some]
    exact Node.place_metric_of_none hf _ hnone level

/-- A row that goes nowhere at the request's own level makes the outputs there and nothing else. -/
theorem foldRow_of_root
    (hroot : ∀ i n, forest[i]? = some n → n.isShown = true → n.parent = none →
      ∃ initial, forest.opening? n = some (n.name, initial) ∧
        ∀ level, ∃ step, (∀ segment, step ≠ .descend segment) ∧
          forest.placeAt countColumn row (n, i) level = (step, level.ensure n.name initial))
    (runs : List (List Nat)) (root : Level) :
    forest.foldRow runs countColumn root row =
      root.ensureAll (forest.openings forest.zipIdx) := by
  have hvisit : ∀ entry ∈ forest.zipIdx, ∀ level : Level,
      forest.visit runs countColumn row (.nowhere, level) entry =
        (.nowhere, level.ensureAll (forest.opening? entry.1).toList) := by
    rintro ⟨n, i⟩ hentry level
    have hn := List.mem_zipIdx_iff_getElem?.mp hentry
    cases hshown : n.isShown with
    | false => simp [visit, opening?, hshown, Level.ensureAll]
    | true =>
        cases hparent : n.parent with
        | some parent =>
            simp [visit, opening?, hshown, hparent, Places.base?, Places.nowhere, Level.ensureAll]
        | none =>
            obtain ⟨initial, hopening, hplace⟩ := hroot i n hn hshown hparent
            obtain ⟨step, hstep, hplace⟩ := hplace level
            have hvisit : forest.visit runs countColumn row (.nowhere, level) (n, i) =
                (remember .nowhere (forest.anchor i) (lastLeg? runs i) []
                  (forest.placeAt countColumn row (n, i) level).1,
                  (forest.placeAt countColumn row (n, i) level).2) := by
              unfold visit
              dsimp only
              rw [hshown, hparent]
              rfl
            rw [hvisit, hplace, hopening, remember_nowhere _ _ _ hstep]
            rfl
  unfold foldRow openings
  generalize forest.zipIdx = entries at hvisit
  suffices hfold : entries.foldl (forest.visit runs countColumn row) (.nowhere, root) =
      (.nowhere, root.ensureAll (entries.filterMap fun entry => forest.opening? entry.1)) by
    rw [hfold]
  induction entries generalizing root with
  | nil => rfl
  | cons entry rest ih =>
      rw [List.foldl_cons, hvisit entry List.mem_cons_self,
        ih _ (fun other hother => hvisit other (List.mem_cons_of_mem _ hother)),
        List.filterMap_cons]
      cases forest.opening? entry.1 <;> rfl

/-! ## All rows -/

section

variable {α σ : Type} {f : σ → α → σ} {g : σ → σ} {keep : α → Bool} {items : List α}

/-- Items that do nothing but what was done before may be left out. -/
theorem foldl_filter_of_fixed
    (hdrop : ∀ item ∈ items, keep item = false → ∀ state, f state item = g state)
    (hafter : ∀ item ∈ items, keep item = true → ∀ state, g (f state item) = f state item)
    {state : σ} (hfixed : g state = state) :
    items.foldl f state = (items.filter keep).foldl f state := by
  induction items generalizing state with
  | nil => rfl
  | cons item rest ih =>
      have hrest {state : σ} (hfixed : g state = state) :
          rest.foldl f state = (rest.filter keep).foldl f state :=
        ih (fun other hother => hdrop other (List.mem_cons_of_mem _ hother))
          (fun other hother => hafter other (List.mem_cons_of_mem _ hother)) hfixed
      rw [List.foldl_cons, List.filter_cons]
      cases hitem : keep item with
      | true => exact hrest (hafter item List.mem_cons_self hitem state)
      | false =>
          rw [hdrop item List.mem_cons_self hitem, hfixed]
          exact hrest hfixed

/-- Items that do nothing but what the others do as well may be left out, if there are others. -/
theorem foldl_filter_of_absorbed
    (hdrop : ∀ item ∈ items, keep item = false → ∀ state, f state item = g state)
    (hkeep : ∀ item ∈ items, keep item = true → ∀ state,
      f (g state) item = f state item ∧ g (f state item) = f state item)
    (hsome : items.filter keep ≠ []) (state : σ) :
    items.foldl f state = (items.filter keep).foldl f state := by
  induction items generalizing state with
  | nil => rfl
  | cons item rest ih =>
      have hmem {other : α} (hother : other ∈ rest) : other ∈ item :: rest :=
        List.mem_cons_of_mem _ hother
      rw [List.filter_cons] at hsome ⊢
      rw [List.foldl_cons]
      cases hitem : keep item with
      | true =>
          exact foldl_filter_of_fixed (fun other hother => hdrop other (hmem hother))
            (fun other hother hkept state => (hkeep other (hmem hother) hkept state).2)
            (hkeep item List.mem_cons_self hitem state).2
      | false =>
          rw [hitem, if_neg Bool.false_ne_true] at hsome
          rw [if_neg Bool.false_ne_true, hdrop item List.mem_cons_self hitem,
            ih (fun other hother => hdrop other (hmem hother))
              (fun other hother => hkeep other (hmem hother)) hsome]
          obtain ⟨first, others, hfilter⟩ := List.exists_cons_of_ne_nil hsome
          obtain ⟨hfirst, hflag⟩ := List.mem_filter.mp (hfilter ▸ List.mem_cons_self)
          rw [hfilter, List.foldl_cons, List.foldl_cons, (hkeep first (hmem hfirst) hflag state).1]

end

/-- The rows that do not match leave nothing that those that match do not leave. -/
theorem foldRows_indirectAt (henc : forest.Encloses index leg c) (hcount : c ≠ countColumn)
    (hmarked : forest.IsMarked) {part all : List Row} (hpart : Rows.IsPart c part all)
    (hblanked : ∀ row ∈ all, ∀ column ∈ Rows.blankedColumns forest, row.get? column = none)
    (root : Level) :
    (forest.indirectAt index).foldRows countColumn root all =
      forest.foldRows countColumn root part := by
  have hsome : all.filter (fun row => row.flag c) ≠ [] := by
    intro hnil
    have hagrees := hpart.agrees
    rw [hnil, List.forall₂_nil_right_iff] at hagrees
    exact hpart.nonempty hagrees
  unfold foldRows
  dsimp only
  rw [concurrentRuns_indirectAt, foldl_filter_of_absorbed (fun row hrow hflag root =>
    foldRow_of_root (fun _ _ => placeAt_of_not_flag henc hcount hmarked hflag (hblanked row hrow))
      _ root)
    (fun row _ _ root => foldRow_ensureAll (forest.indirectAt index) _ countColumn root row) hsome]
  have hflagged : ∀ row ∈ all.filter (fun row => row.flag c), row.flag c = true := fun row hrow =>
    (List.mem_filter.mp hrow).2
  have hagrees := hpart.agrees
  clear hpart hsome
  generalize all.filter (fun row => row.flag c) = others at hagrees hflagged
  induction hagrees generalizing root with
  | nil => rfl
  | cons hrow _ ih =>
      rw [List.foldl_cons, List.foldl_cons,
        foldRow_indirectAt henc hcount hrow (hflagged _ List.mem_cons_self)]
      exact ih _ fun row hmem => hflagged row (List.mem_cons_of_mem _ hmem)

/-- Whether no other node that is shown reads a column. -/
def IsReadAloneAt (forest : Forest) (index : Nat) (c : String) : Prop :=
  ∀ entry ∈ forest.zipIdx, entry.2 ≠ index → entry.1.isShown = true →
    entry.1.readColumn? ≠ some c

instance (forest : Forest) (index : Nat) (c : String) : Decidable (forest.IsReadAloneAt index c) :=
  inferInstanceAs (Decidable (∀ entry ∈ forest.zipIdx, _))

end Forest

namespace TablePlan

/-- The plan with the leg at an index as an indirect filter. -/
def indirectAt (plan : TablePlan) (settings : Settings) (index : Nat) : TablePlan :=
  let draft := { plan.draft with forest := plan.forest.indirectAt index }
  ⟨draft, .ok (statementOf draft settings)⟩

/-- A direct filter gives what its indirect form gives, whatever other rows come back for that one,
unless rows are put in order by a cell that reads as a number that compares with no other. -/
theorem respond_indirectAt {now : Calendar.Instant} {json : Json} {forest : Forest}
    {tables : List Table} {settings : Settings} {plan : TablePlan}
    (hforest : Forest.ofJson now json = .ok forest) (hkeys : json.hasDistinctKeys = true)
    (hplan : plan ∈ forTables forest tables settings) (hskipped : plan.isSkipped = false)
    {index : Nat} {leg : Node} {c : String} (hat : plan.forest[index]? = some leg)
    (hleg : leg.isLeg = true) (hdirect : leg.decisions.direct = true)
    (hcolumn : leg.decisions.column = some c) (halone : plan.forest.IsReadAloneAt index c)
    {results : List Fields}
    (hflagged : ∀ cells ∈ results, (Row.ofCells cells .engine).IsFlagged c)
    (hsome : ∃ cells ∈ results, (Row.ofCells cells .engine).flag c = true)
    (hcomparable : plan.draft.context.complexOrder = true →
      Rows.OrdersComparable plan.forest (results.map fun cells => Row.ofCells cells .engine)) :
    (plan.indirectAt settings index).respond settings results =
      plan.respond settings (results.filter fun cells => (Row.ofCells cells .engine).flag c) := by
  obtain ⟨henc, hcount⟩ := encloses_of_direct hforest hkeys hplan hskipped hat hleg hdirect hcolumn
    fun i n hne hn => halone (n, i) (List.mem_zipIdx_iff_getElem?.mpr hn) hne
  obtain ⟨hlaid, hmarked⟩ := isLaidOut_of_mem_forTables hforest hkeys hplan hskipped
  let rows := results.map fun cells => Row.ofCells cells .engine
  have hrows : (results.filter fun cells => (Row.ofCells cells .engine).flag c).map
      (fun cells => Row.ofCells cells .engine) = rows.filter fun row => row.flag c := by
    rw [List.filter_map]
    rfl
  have hpart : Rows.IsPart c
      (RowPass.run plan.forest (plan.rowContext settings) (rows.filter fun row => row.flag c))
      (RowPass.run (plan.forest.indirectAt index) (plan.rowContext settings) rows) := by
    refine Rows.isPart_run henc hlaid hcount ?_ ?_ hcomparable
    · intro row hrow
      obtain ⟨cells, hcells, rfl⟩ := List.mem_map.mp hrow
      exact hflagged cells hcells
    · obtain ⟨cells, hcells, hflag⟩ := hsome
      exact ⟨_, List.mem_map_of_mem hcells, hflag⟩
  have hblanked : ∀ row ∈
      RowPass.run (plan.forest.indirectAt index) (plan.rowContext settings) rows,
      ∀ column ∈ Rows.blankedColumns plan.forest, row.get? column = none := by
    intro row hrow column hmem
    rw [← Rows.blankedColumns_indirectAt plan.forest index] at hmem
    obtain ⟨n, hn, hblanked, hcolumn⟩ := Rows.mem_blankedColumns.mp hmem
    exact get?_of_mem_run hn hblanked hcolumn row hrow
  unfold respond settleRows
  rw [hrows]
  exact Forest.foldRows_indirectAt henc hcount hmarked hpart hblanked []

/-! ## Slow requests by host and size -/

/-- The request for the sizes of the slow requests of each host. -/
def slowRequest : Json :=
  .object [("aggs", .object [("slow", .object [("filter", flagFilter "s"),
    ("aggs", .object [("hosts", .object [("terms", .object [("field", .string "x")]),
      ("aggs", .object [("sizes", .object [("terms", .object [("field", .string "y"),
        ("order", .object [("_key", .string "asc")])])])])])])])])]

def slowForest : Forest :=
  [Node.new "slow" none 0 true (Aggregation.legOf default .single 0 ["slow"] (flagFilter "s")),
    Node.new "hosts" (some 0) 1 true (.terms ⟨"x", 10, 1, Terms.defaultOrder⟩),
    Node.new "sizes" (some 1) 2 false (.terms ⟨"y", 10, 1, ⟨.key, .ascending, true⟩⟩)]

def slowTable : Table := ⟨"t", [("s", true), ("x", true), ("y", true)]⟩

def slowPlan : TablePlan := ofForest slowForest slowTable false ["s", "x", "y"] .standard

/-- A document of a host, with a size. -/
def slowRow (isSlow : Int) (host : String) (size : Json) : Fields :=
  [("al1", .ofInt isSlow), ("x", .string host), ("y", size), ("cnt", .ofInt 1)]

/-- Two slow requests, and between them one that is not slow. -/
def slowRows (size : Json) : List Fields :=
  [slowRow 1 "1" (.ofInt 3), slowRow 0 "q" size, slowRow 1 "1.0" (.ofInt 1)]

/-- Where all sizes compare, both forms of the filter give the same. -/
theorem slowPlan_respond_indirectAt :
    (slowPlan.indirectAt .standard 0).respond .standard (slowRows (.ofInt 2)) =
      slowPlan.respond .standard ((slowRows (.ofInt 2)).filter fun cells =>
        (Row.ofCells cells .engine).flag "al1") := by
  have hforest : Forest.ofJson default slowRequest = .ok slowForest := rfl
  have hplan : slowPlan ∈ forTables slowForest [slowTable] .standard := List.mem_singleton.mpr rfl
  exact respond_indirectAt hforest (by decide +kernel) hplan rfl rfl rfl rfl rfl (by decide +kernel)
    (by decide +kernel) (by decide +kernel) fun _ => by decide +kernel

/-- A size that is no number gets between two slow requests, and changes their order. -/
theorem slowPlan_respond_indirectAt_ne :
    Forest.ofJson default slowRequest = .ok slowForest ∧
      slowPlan ∈ forTables slowForest [slowTable] .standard ∧ slowPlan.isSkipped = false ∧
      (∃ leg, slowPlan.forest[0]? = some leg ∧ leg.isLeg = true ∧ leg.decisions.direct = true ∧
        leg.decisions.column = some "al1") ∧
      slowPlan.forest.IsReadAloneAt 0 "al1" ∧
      (∀ cells ∈ slowRows (.string "nan"), (Row.ofCells cells .engine).IsFlagged "al1") ∧
      (∃ cells ∈ slowRows (.string "nan"), (Row.ofCells cells .engine).flag "al1" = true) ∧
      (slowPlan.indirectAt .standard 0).respond .standard (slowRows (.string "nan")) ≠
        slowPlan.respond .standard ((slowRows (.string "nan")).filter fun cells =>
          (Row.ofCells cells .engine).flag "al1") := by
  refine ⟨rfl, List.mem_singleton.mpr rfl, rfl, ⟨_, rfl, rfl, rfl, rfl⟩, by decide +kernel,
    by decide +kernel, by decide +kernel, fun heq => ?_⟩
  have hfirst := congrArg (fun root : Level =>
    (root.bucketIn? [.single "slow"] (.bucket "hosts" 0)).map Bucket.id) heq
  revert hfirst
  decide +kernel

end TablePlan
end Rollup
