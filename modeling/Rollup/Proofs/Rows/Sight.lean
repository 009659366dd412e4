/-
# What a node sees of a row

A node reads one column of a row, and of a leg's column only whether it reports a match. Two rows
that look alike to a node go the same way there, so a change of other columns makes no difference;
muting a row makes none to a node that does not read the document count.
-/

import Rollup.Proofs.Response.Deposit

namespace Rollup

namespace Row

theorem get?_set_self (row : Row) (column : String) (value : Json) :
    (row.set column value).get? column = (some value).filter fun v => !v.isNull := by
  rw [get?, set, Fields.get?_insert_self]

theorem get?_set_of_ne (row : Row) {column other : String} (h : other ≠ column) (value : Json) :
    (row.set column value).get? other = row.get? other := by
  rw [get?, set, Fields.get?_insert_of_ne _ h, get?]

theorem number?_congr {row row' : Row} {column : String}
    (h : row.get? column = row'.get? column) : row.number? column = row'.number? column := by
  rw [number?, number?, h]

theorem count_congr {row row' : Row} {column : String}
    (h : row.get? column = row'.get? column) : row.count column = row'.count column := by
  rw [count, count, number?_congr h]

theorem flag_congr {row row' : Row} {column : String}
    (h : row.get? column = row'.get? column) : row.flag column = row'.flag column := by
  rw [flag, flag, number?_congr h]

theorem number?_set_ofInt (row : Row) (column : String) (n : Int) :
    (row.set column (.ofInt n)).number? column = some (Json.Number.integer n).toBinary64 := by
  rw [number?, get?_set_self]
  rfl

theorem flag_set_zero (row : Row) (column : String) :
    (row.set column (.ofInt 0)).flag column = false := by
  rw [flag, number?_set_ofInt]
  decide +kernel

theorem flag_set_one (row : Row) (column : String) :
    (row.set column (.ofInt 1)).flag column = true := by
  rw [flag, number?_set_ofInt]
  decide +kernel

theorem count_set_zero (row : Row) (column : String) :
    (row.set column (.ofInt 0)).count column = 0 := by
  rw [count, number?_set_ofInt]
  decide +kernel

theorem count_muted (row : Row) (countColumn : String) :
    (row.muted countColumn).count countColumn = 0 := count_set_zero row countColumn

end Row

namespace Node

/-- The column that a node reads from a row that is placed. -/
def readColumn? (n : Node) : Option String :=
  match n.aggregation with
  | .terms t => some t.field
  | .leg _ => if n.decisions.direct then none else n.decisions.column
  | .query _ => none
  | _ => some (n.decisions.column.getD "")

/-- Whether two rows look alike to a node. -/
def SeesAlike (n : Node) (row row' : Row) : Prop :=
  n.matchesLeg row = n.matchesLeg row' ∧
    (n.isLeg = false → ∀ c, n.readColumn? = some c → row.get? c = row'.get? c)

variable {n : Node} {row row' : Row}

theorem matchesLeg_congr (h : ∀ c, n.readColumn? = some c → row.get? c = row'.get? c) :
    n.matchesLeg row = n.matchesLeg row' := by
  unfold matchesLeg
  cases haggregation : n.aggregation with
  | leg l =>
      cases hdirect : n.decisions.direct with
      | true => simp [Leg.isMatchedBy]
      | false =>
          cases hcolumn : n.decisions.column with
          | none => simp [Leg.isMatchedBy]
          | some c =>
              have hflag := Row.flag_congr (h c (by simp [readColumn?, haggregation, hdirect,
                hcolumn]))
              simp [Leg.isMatchedBy, hflag]
  | metric m => rfl
  | terms t => rfl
  | histogram g => rfl
  | dateHistogram g => rfl
  | ranges r => rfl
  | query q => rfl

/-- Rows with the same cell in the column that a node reads look alike. -/
theorem seesAlike_of_get? (h : ∀ c, n.readColumn? = some c → row.get? c = row'.get? c) :
    n.SeesAlike row row' := ⟨matchesLeg_congr h, fun _ => h⟩

theorem SeesAlike.symm (h : n.SeesAlike row row') : n.SeesAlike row' row :=
  ⟨h.1.symm, fun hleg c hc => (h.2 hleg c hc).symm⟩

theorem SeesAlike.trans {row'' : Row} (h : n.SeesAlike row row') (h' : n.SeesAlike row' row'') :
    n.SeesAlike row row'' :=
  ⟨h.1.trans h'.1, fun hleg c hc => (h.2 hleg c hc).trans (h'.2 hleg c hc)⟩

theorem SeesAlike.valueBucket? (h : n.SeesAlike row row') :
    n.valueBucket? row = n.valueBucket? row' := by
  unfold Node.valueBucket?
  cases haggregation : n.aggregation with
  | terms t =>
      have hget := h.2 (by simp [isLeg, Aggregation.isLeg, Aggregation.leg?, haggregation])
        t.field (by simp [readColumn?, haggregation])
      simp [Terms.bucket?, hget]
  | histogram g =>
      have hget := h.2 (by simp [isLeg, Aggregation.isLeg, Aggregation.leg?, haggregation])
        (n.decisions.column.getD "") (by simp [readColumn?, haggregation])
      simp [Histogram.bucket?, Row.number?_congr hget]
  | dateHistogram g =>
      have hget := h.2 (by simp [isLeg, Aggregation.isLeg, Aggregation.leg?, haggregation])
        (n.decisions.column.getD "") (by simp [readColumn?, haggregation])
      simp [DateHistogram.bucket?, Row.number?_congr hget]
  | metric m => rfl
  | ranges r => rfl
  | leg l => rfl
  | query q => rfl

/-- Rows that look alike make the same buckets. -/
theorem SeesAlike.makes (h : n.SeesAlike row row') {b : Bucket Output} (hmakes : n.Makes row b) :
    n.Makes row' b := by
  unfold Makes at hmakes ⊢
  rwa [← h.valueBucket?]

theorem SeesAlike.rangesOf (h : n.SeesAlike row row') : n.rangesOf row = n.rangesOf row' := by
  unfold Node.rangesOf
  cases haggregation : n.aggregation with
  | ranges r =>
      have hget := h.2 (by simp [isLeg, Aggregation.isLeg, Aggregation.leg?, haggregation])
        (n.decisions.column.getD "") (by simp [readColumn?, haggregation])
      simp [Ranges.segment?, Row.number?_congr hget]
  | metric m => rfl
  | terms t => rfl
  | histogram g => rfl
  | dateHistogram g => rfl
  | leg l => rfl
  | query q => rfl

/-- Rows that look alike belong into the same buckets. -/
theorem SeesAlike.hits (h : n.SeesAlike row row') (segment : Segment) (id : String) :
    n.hits row segment id = n.hits row' segment id := by
  unfold Node.hits
  rw [h.valueBucket?, h.rangesOf, h.1]

/-- Rows that look alike go on inside the same buckets. -/
theorem SeesAlike.enters (h : n.SeesAlike row row') (segment : Segment) (id : String) :
    n.enters row segment id = n.enters row' segment id := by
  unfold Node.enters
  rw [h.rangesOf, h.hits]

theorem seesAlike_muted {countColumn : String} (hcount : n.readColumn? ≠ some countColumn)
    (row : Row) : n.SeesAlike (row.muted countColumn) row := by
  apply seesAlike_of_get?
  intro c hc
  apply Row.get?_set_of_ne
  rintro rfl
  exact hcount hc

/-! ## Steps of a node -/

/-- A row that goes on inside a bucket has its documents there. -/
theorem hits_of_enters {segment : Segment} {id : String} (h : n.enters row segment id = true) :
    n.hits row segment id = true := by
  unfold Node.enters at h
  split at h
  · rename_i r name i haggregation
    have hmem := List.mem_of_head? (beq_iff_eq.mp h)
    simpa [Node.hits, haggregation] using hmem
  · exact h

/-- What is in a bucket of a leg matches the leg. -/
theorem matchesLeg_of_hits {l : Leg} (hleg : n.aggregation = .leg l) {segment : Segment}
    {id : String} (h : n.hits row segment id = true) : n.matchesLeg row = true := by
  cases segment <;> simp_all [Node.hits]

/-- Different legs of one aggregation do not share a bucket. -/
theorem SharesLegs.not_hits {other : Node} (h : n.SharesLegs other) {segment : Segment}
    {id : String} (hhits : n.hits row segment id = true) (row' : Row) (id' : String) :
    other.hits row' segment id' = false := by
  obtain ⟨l, l', hl, hl', hshape, -, hsingle, hindex⟩ := h
  cases segment with
  | bucket name i =>
      have hi : i = l.index := by
        simp only [Node.hits, hl, Bool.and_eq_true, beq_iff_eq] at hhits
        exact hhits.2
      have hne : (i == l'.index) = false := by
        rw [hi, beq_eq_false_iff_ne]
        exact hindex
      simp [Node.hits, hl', hne]
  | single name =>
      simp only [Node.hits, hl, Bool.and_eq_true, beq_iff_eq] at hhits
      exact absurd hhits.1 hsingle

end Node
end Rollup
