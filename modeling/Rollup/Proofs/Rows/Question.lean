/-
# Questions to the rows

A place of the response asks of every row whether it comes there, and adds up what the rows that do
tell. A question looks at the columns on the way to the place, and no pass changes the answer when
the nodes read apart: when no node reads the document count, no other node the column of a leg that
has others beside it, and none that of a metric shown without a value.
-/

import Rollup.Proofs.Response.Way
import Rollup.Rows.Pass

namespace Rollup

/-- Whether the nodes of a forest read apart. -/
structure Forest.ReadsApart (forest : Forest) (countColumn : String) : Prop where
  /-- No node reads the document count. -/
  count : ∀ n ∈ forest, n.isShown = true → n.readColumn? ≠ some countColumn
  /-- No other node reads the column of a leg that has others beside it. -/
  legs : ∀ (i j : Nat) (x y : Node), i ≠ j → forest[i]? = some x → forest[j]? = some y →
    x.isLeg = true → x.isActive = true → x.decisions.concurrent = true → y.isShown = true →
    ∀ c, x.decisions.column = some c → y.readColumn? ≠ some c
  /-- No active node reads the column of a metric that is shown without a value. -/
  blanked : ∀ x ∈ forest, Rows.isBlanked x = true → ∀ y ∈ forest, y.isActive = true →
    ∀ c, x.decisions.column = some c → y.readColumn? ≠ some c

/-- The same, node by node. -/
def Forest.checksApart (forest : Forest) (countColumn : String) : Bool :=
  (forest.all fun n => !n.isShown || n.readColumn? != some countColumn) &&
    (forest.zipIdx.all fun first => forest.zipIdx.all fun second =>
      first.2 == second.2 ||
        !(first.1.isLeg && first.1.isActive && first.1.decisions.concurrent &&
          second.1.isShown) ||
        first.1.decisions.column.isNone ||
        second.1.readColumn? != first.1.decisions.column) &&
    forest.all fun x => !Rows.isBlanked x || forest.all fun y =>
      !y.isActive || x.decisions.column.isNone || y.readColumn? != x.decisions.column

theorem Forest.readsApart_of_checksApart {forest : Forest} {countColumn : String}
    (h : forest.checksApart countColumn = true) : forest.ReadsApart countColumn := by
  simp only [checksApart, Bool.and_eq_true, List.all_eq_true, Bool.or_eq_true, Bool.not_eq_true',
    bne_iff_ne, beq_iff_eq] at h
  obtain ⟨⟨hcount, hlegs⟩, hblanked⟩ := h
  exact
    { count := by
        intro n hn hshown
        exact (hcount n hn).resolve_left (by simp [hshown])
      legs := by
        intro i j x y hne hx hy hleg hactive hconcurrent hshown c hcolumn
        have hpair := hlegs (x, i) (List.mem_zipIdx_iff_getElem?.mpr hx) (y, j)
          (List.mem_zipIdx_iff_getElem?.mpr hy)
        simpa [hne, hleg, hactive, hconcurrent, hshown, hcolumn] using hpair
      blanked := by
        intro x hx hsome y hy hactive c hcolumn
        have hpair := ((hblanked x hx).resolve_left (by simp [hsome])) y hy
        simpa [hactive, hcolumn] using hpair }

namespace Rows

/-- What a place of the response wants to know of the rows: which rows come there, as is decided on
the way to a node, and what each of them tells by its document count and the columns of other
nodes. -/
structure Question (forest : Forest) (countColumn : String) (α : Type) where
  steps : Path
  index : Nat
  asks : Row → Bool
  read : Row → α
  columns : List String
  exists_shown : ∃ y, forest[index]? = some y ∧ y.isShown = true
  isAsked : forest.Asks steps index asks
  read_congr : ∀ row row', (∀ c ∈ countColumn :: columns, row.get? c = row'.get? c) →
    read row = read row'
  readers : ∀ c ∈ columns, ∃ (j : Nat) (y : Node), forest[j]? = some y ∧ y.isActive = true ∧
    y.isShown = true ∧ y.isLeg = false ∧ y.readColumn? = some c

namespace Question

variable {forest : Forest} {countColumn : String} {α : Type}

/-- Whether a row comes to the place, with documents that count there. -/
def isAnsweredBy (q : Question forest countColumn α) (row : Row) : Bool :=
  q.asks row && !forest.isSilenced row q.index && decide (0 < row.count countColumn)

/-- What the rows tell. -/
def answers (q : Question forest countColumn α) (rows : List Row) : List α :=
  (rows.filter q.isAnsweredBy).map q.read

variable (q : Question forest countColumn α)

@[simp] theorem answers_nil : q.answers [] = [] := rfl

theorem answers_cons (row : Row) (rows : List Row) :
    q.answers (row :: rows) = q.answers [row] ++ q.answers rows := by
  unfold answers
  rw [← List.map_append, ← List.filter_append, List.singleton_append]

theorem answers_append (rows rows' : List Row) :
    q.answers (rows ++ rows') = q.answers rows ++ q.answers rows' := by
  simp [answers]

theorem answers_singleton (row : Row) :
    q.answers [row] = if q.isAnsweredBy row then [q.read row] else [] := by
  unfold answers
  by_cases h : q.isAnsweredBy row = true <;> simp [h]

theorem answers_perm {rows rows' : List Row} (h : rows.Perm rows') :
    (q.answers rows).Perm (q.answers rows') := (h.filter _).map _

/-- Rows that are replaced one by one tell the same if each tells the same. -/
theorem answers_flatMap {f : Row → List Row} {rows : List Row}
    (h : ∀ row ∈ rows, q.answers (f row) = q.answers [row]) :
    q.answers (rows.flatMap f) = q.answers rows := by
  induction rows with
  | nil => rfl
  | cons row rest ih =>
      rw [List.flatMap_cons, answers_append, q.answers_cons row rest, h row (by simp),
        ih fun other hother => h other (by simp [hother])]

theorem answers_map {f : Row → Row} {rows : List Row}
    (h : ∀ row ∈ rows, q.answers [f row] = q.answers [row]) :
    q.answers (rows.map f) = q.answers rows := by
  rw [List.map_eq_flatMap]
  exact q.answers_flatMap h

theorem answers_eq_nil {rows : List Row} (h : ∀ row ∈ rows, q.answers [row] = []) :
    q.answers rows = [] := by
  induction rows with
  | nil => rfl
  | cons row rest ih =>
      rw [q.answers_cons, h row (by simp), ih fun other hother => h other (by simp [hother])]
      rfl

theorem answers_eq_nil_of_count {row : Row} (h : row.count countColumn = 0) :
    q.answers [row] = [] := by
  rw [answers_singleton, if_neg]
  simp [isAnsweredBy, h]

theorem answers_eq_nil_of_isSilenced {row : Row} (h : forest.isSilenced row q.index = true) :
    q.answers [row] = [] := by
  rw [answers_singleton, if_neg]
  simp [isAnsweredBy, h]

theorem answers_eq_nil_of_asks {row : Row} (h : q.asks row = false) : q.answers [row] = [] := by
  rw [answers_singleton, if_neg]
  simp [isAnsweredBy, h]

/-- Rows tell the same when they are silenced alike, look alike on the way, and have the same
document count and the same cells in the columns that are read. -/
theorem answers_congr {row row' : Row}
    (hsilent : forest.isSilenced row q.index = forest.isSilenced row' q.index)
    (halike : ∀ i y, forest.OnWay q.steps i y → y.SeesAlike row row')
    (hget : ∀ c ∈ countColumn :: q.columns, row.get? c = row'.get? c) :
    q.answers [row] = q.answers [row'] := by
  have hasks := q.isAsked.alike row row' halike
  have hcount := Row.count_congr (hget countColumn (by simp))
  rw [answers_singleton, answers_singleton, q.read_congr row row' hget]
  simp [isAnsweredBy, hasks, hsilent, hcount]

/-- A change of cells that are not read leaves the answers alone. -/
theorem answers_of_get? {row row' : Row} (changed : String → Prop)
    (hget : ∀ c, ¬ changed c → row'.get? c = row.get? c)
    (hcount : ¬ changed countColumn)
    (hread : ∀ (j : Nat) (y : Node), forest[j]? = some y → y.isShown = true →
      (forest.OnWay q.steps j y ∨ y.isActive = true ∧ y.isLeg = false) →
      ∀ c, y.readColumn? = some c → ¬ changed c)
    (hsilent : forest.isSilenced row' q.index = forest.isSilenced row q.index) :
    q.answers [row'] = q.answers [row] := by
  apply q.answers_congr hsilent
  · intro i y hy
    apply Node.seesAlike_of_get?
    intro c hc
    exact hget c (hread i y hy.1 hy.2.1 (Or.inl hy) c hc)
  · intro c hc
    rcases List.mem_cons.mp hc with rfl | hcolumn
    · exact hget c hcount
    · obtain ⟨j, y, hj, hactive, hshown, hleg, hread'⟩ := q.readers c hcolumn
      exact hget c (hread j y hj hshown (Or.inr ⟨hactive, hleg⟩) c hread')

end Question

end Rows
end Rollup
