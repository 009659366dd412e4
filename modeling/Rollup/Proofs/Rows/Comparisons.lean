/-
# Comparisons that are orders

Cells, buckets and rows compare the other way when they are exchanged. Whether they compare
consistently depends on the numbers among them. A number that compares with no other ties with all
of them, so it may not stand beside two numbers that differ. Otherwise every comparison is
transitive, for every order of buckets and all levels of rows.
-/

import Mathlib.Data.Set.Operations
import Rollup.Proofs.Rows.Sorted

namespace Rollup

/-! ## Items of a set -/

namespace Order

variable {α β : Type} {compare : α → α → Ordering} {items : Set α}

/-- Whether the items of a set compare as in an order: the other way when they are exchanged, and
through any third item. -/
def IsOrderOn (compare : α → α → Ordering) (items : Set α) : Prop :=
  Std.TransCmp fun a b : items => compare a b

/-- Items that compare as their ranks do are in the order of the ranks. -/
theorem IsOrderOn.of_rank (order : β → β → Ordering) [Std.TransCmp order] (rank : α → β)
    (h : ∀ a ∈ items, ∀ b ∈ items, compare a b = order (rank a) (rank b)) :
    IsOrderOn compare items := by
  have hcompare : (fun a b : items => compare a b) =
      fun a b : items => order (rank a) (rank b) := by
    funext a b
    exact h a a.2 b b.2
  unfold IsOrderOn
  rw [hcompare]
  exact transCmp_comap fun a : items => rank a

/-- What ties with one item ties. -/
theorem IsOrderOn.eq_of_ties (h : IsOrderOn compare items) {given a b : items}
    (ha : compare given a = .eq) (hb : compare given b = .eq) : compare a b = .eq :=
  @order_eq_trans _ _ h a given b (@order_eq_symm _ _ h given a ha) hb

instance (descending : Bool) (compare : α → α → Ordering) [Std.OrientedCmp compare] :
    Std.OrientedCmp fun a b => directed descending (compare a b) where
  eq_swap := by
    intro a b
    have hswap : compare a b = (compare b a).swap := Std.OrientedCmp.eq_swap
    rw [hswap]
    cases descending <;> rfl

theorem directed_eq_eq {descending : Bool} {o : Ordering} :
    directed descending o = .eq ↔ o = .eq := by
  cases descending <;> cases o <;> decide

end Order

/-! ## Numbers -/

namespace Binary64

/-- Compare numbers, equal where they do not compare. -/
def compareTied (x y : Binary64) : Ordering := (compare? x y).getD .eq

/-- Whether all numbers compare, or none of them is less than another. -/
def IsOrderable (numbers : Set Binary64) : Prop :=
  (∀ x ∈ numbers, x.isNaN = false) ∨ ∀ x ∈ numbers, ∀ y ∈ numbers, x.less y = false

theorem compareTied_eq_rank {x y : Binary64} (hx : x.isNaN = false) (hy : y.isNaN = false) :
    compareTied x y = compare x.rank y.rank := by
  rw [compareTied, compare?_eq_rank hx hy, Option.getD_some]

theorem compareTied_of_isNaN {x : Binary64} (hx : x.isNaN = true) (y : Binary64) :
    compareTied x y = .eq ∧ compareTied y x = .eq := by
  cases x with
  | nan negative => cases y <;> exact ⟨rfl, rfl⟩
  | _ => cases hx

theorem compareTied_swap (x y : Binary64) : compareTied x y = (compareTied y x).swap := by
  cases hx : x.isNaN with
  | true =>
      obtain ⟨hleft, hright⟩ := compareTied_of_isNaN hx y
      rw [hleft, hright]
      rfl
  | false =>
      cases hy : y.isNaN with
      | true =>
          obtain ⟨hleft, hright⟩ := compareTied_of_isNaN hy x
          rw [hleft, hright]
          rfl
      | false =>
          rw [compareTied_eq_rank hx hy, compareTied_eq_rank hy hx]
          exact Std.OrientedCmp.eq_swap

/-- Numbers tie where neither is less. -/
theorem compareTied_eq_iff (x y : Binary64) :
    compareTied x y = .eq ↔ x.less y = false ∧ y.less x = false := by
  have hless (x y : Binary64) : x.less y = true ↔ compareTied x y = .lt := by
    rw [less, compareTied]
    cases compare? x y with
    | none => simp
    | some o => cases o <;> simp
  rw [← Bool.not_eq_true, ← Bool.not_eq_true, hless, hless, compareTied_swap y x]
  cases compareTied x y <;> simp

/-- What stands for numbers in an order tells that they can be ordered. -/
theorem IsOrderable.of_isOrderOn {α : Type} {order : α → α → Ordering} {items : Set α}
    (horder : Order.IsOrderOn order items) {numbers : Set Binary64} (item : numbers → items)
    (hitem : ∀ x y, order (item x) (item y) = .eq ↔ compareTied x y = .eq) :
    IsOrderable numbers := by
  by_cases hdefined : ∀ x ∈ numbers, x.isNaN = false
  · exact Or.inl hdefined
  · push Not at hdefined
    obtain ⟨n, hn, hnan⟩ := hdefined
    right
    intro x hx y hy
    have htie (z : numbers) : order (item ⟨n, hn⟩) (item z) = .eq :=
      (hitem _ z).mpr (compareTied_of_isNaN (by simpa using hnan) z).1
    have hxy : order (item ⟨x, hx⟩) (item ⟨y, hy⟩) = .eq :=
      horder.eq_of_ties (htie ⟨x, hx⟩) (htie ⟨y, hy⟩)
    exact ((compareTied_eq_iff x y).mp ((hitem _ _).mp hxy)).1

/-- Numbers that can be ordered compare as numbers that all compare. -/
theorem IsOrderable.exists_comparable {numbers : Set Binary64} (h : IsOrderable numbers) :
    ∃ f : Binary64 → Binary64, (∀ x ∈ numbers, (f x).isNaN = false) ∧
      ∀ x ∈ numbers, ∀ y ∈ numbers, compareTied x y = compareTied (f x) (f y) := by
  rcases h with hdefined | hties
  · exact ⟨id, hdefined, fun _ _ _ _ => rfl⟩
  · refine ⟨fun _ => 0, fun _ _ => isNaN_ofInt 0, fun x hx y hy => ?_⟩
    rw [(compareTied_eq_iff x y).mpr ⟨hties x hx y hy, hties y hy x hx⟩]
    exact (compare_eq_iff_eq.mpr rfl).symm.trans
      (compareTied_eq_rank (isNaN_ofInt 0) (isNaN_ofInt 0)).symm

end Binary64

/-! ## Cells -/

namespace Cell

/-- The numbers that the cells of a set are read as. -/
def numbersOf (cells : Set Json) : Set Binary64 := {x | ∃ a ∈ cells, number? a = some x}

instance : Std.OrientedCmp compare where
  eq_swap := by
    intro a b
    unfold compare
    cases a.isNull with
    | true => cases b.isNull <;> rfl
    | false =>
        cases b.isNull with
        | true => rfl
        | false =>
            cases number? a with
            | none =>
                cases number? b with
                | none =>
                    dsimp only
                    exact Std.OrientedCmp.eq_swap
                | some y => rfl
            | some x =>
                cases number? b with
                | none => rfl
                | some y => exact Binary64.compareTied_swap x y

theorem compare_swap (a b : Json) : compare a b = (compare b a).swap := Std.OrientedCmp.eq_swap

theorem isNull_eq_of_number? {a : Json} {x : Binary64} (h : number? a = some x) :
    a.isNull = false := by
  cases a with
  | null => cases h
  | _ => rfl

/-- Cells that are numbers compare as the numbers do. -/
theorem compare_eq_compareTied {a b : Json} {x y : Binary64} (ha : number? a = some x)
    (hb : number? b = some y) : compare a b = Binary64.compareTied x y := by
  unfold compare
  rw [isNull_eq_of_number? ha, isNull_eq_of_number? hb, ha, hb]
  rfl

/-- The order of cells that compare. -/
def order : Json → Json → Ordering :=
  compareLex (compareOn Json.isNull) fun a b => CellRank.order (rank a) (rank b)

instance : Std.TransCmp order :=
  have : Std.TransCmp fun a b => CellRank.order (rank a) (rank b) := Order.transCmp_comap rank
  inferInstanceAs (Std.TransCmp (compareLex (compareOn Json.isNull) _))

theorem compare_eq_order_of_isComparable {a b : Json} (ha : IsComparable a)
    (hb : IsComparable b) : compare a b = order a b :=
  @Rows.compareCell_eq_order ⟨.column "", .ascending⟩ a b ha hb

/-- Whether cells of a set compare as other cells do, and these all compare. -/
structure IsComparedAs (cells : Set Json) (f : Json → Json) : Prop where
  comparable : ∀ a ∈ cells, IsComparable (f a)
  isNull : ∀ a ∈ cells, (f a).isNull = a.isNull
  compare : ∀ a ∈ cells, ∀ b ∈ cells, compare a b = compare (f a) (f b)

theorem IsComparedAs.compare_eq_order {cells : Set Json} {f : Json → Json}
    (hf : IsComparedAs cells f) {a b : Json} (ha : a ∈ cells) (hb : b ∈ cells) :
    Cell.compare a b = order (f a) (f b) := by
  rw [hf.compare a ha b hb, compare_eq_order_of_isComparable (hf.comparable a ha)
    (hf.comparable b hb)]

/-- A cell with the same number as all others. -/
def blunt (a : Json) : Json := if (number? a).isSome then .ofNat 0 else a

theorem number?_blunt {a : Json} {x : Binary64} (h : number? a = some x) :
    blunt a = .ofNat 0 := by
  rw [blunt, h]
  rfl

theorem blunt_eq {a : Json} (h : number? a = none) : blunt a = a := by
  rw [blunt, h]
  rfl

/-- A number comes before all that is none. -/
theorem compare_of_number? {a b : Json} {x : Binary64} (ha : number? a = some x)
    (hb : number? b = none) : compare a b = .lt := by
  unfold compare
  rw [isNull_eq_of_number? ha, ha, hb]
  cases b.isNull <;> rfl

theorem compare_blunt {a b : Json}
    (hties : ∀ x ∈ number? a, ∀ y ∈ number? b, x.less y = false ∧ y.less x = false) :
    compare a b = compare (blunt a) (blunt b) := by
  have hzero : number? (.ofNat 0) = some (Binary64.ofInt 0) := rfl
  cases ha : number? a with
  | none =>
      rw [blunt_eq ha]
      cases hb : number? b with
      | none => rw [blunt_eq hb]
      | some y =>
          rw [number?_blunt hb, compare_swap, compare_of_number? hb ha, compare_swap a,
            compare_of_number? hzero ha]
  | some x =>
      rw [number?_blunt ha]
      cases hb : number? b with
      | none => rw [blunt_eq hb, compare_of_number? ha hb, compare_of_number? hzero hb]
      | some y =>
          rw [number?_blunt hb, compare_eq_compareTied ha hb,
            (Binary64.compareTied_eq_iff x y).mpr (hties x ha y hb)]
          exact Std.ReflCmp.compare_self.symm

/-- Cells whose numbers can be ordered compare as cells that all compare. -/
theorem exists_isComparedAs {cells : Set Json} (h : Binary64.IsOrderable (numbersOf cells)) :
    ∃ f, IsComparedAs cells f := by
  rcases h with hdefined | hties
  · exact ⟨id, fun a ha x hx => hdefined x ⟨a, ha, hx⟩, fun _ _ => rfl, fun _ _ _ _ => rfl⟩
  · refine ⟨blunt, fun a ha x hx => ?_, fun a ha => ?_, fun a ha b hb => compare_blunt ?_⟩
    · cases hnumber : number? a with
      | none => rw [blunt_eq hnumber, hnumber] at hx; cases hx
      | some y => rw [number?_blunt hnumber] at hx; exact isComparable_ofInt 0 x hx
    · cases hnumber : number? a with
      | none => rw [blunt_eq hnumber]
      | some y => rw [number?_blunt hnumber, isNull_eq_of_number? hnumber]; rfl
    · intro x hx y hy
      exact ⟨hties x ⟨a, ha, hx⟩ y ⟨b, hb, hy⟩, hties y ⟨b, hb, hy⟩ x ⟨a, ha, hx⟩⟩

/-- Cells are in order just when their numbers can be. -/
theorem isOrderOn_compare_iff (cells : Set Json) :
    Order.IsOrderOn compare cells ↔ Binary64.IsOrderable (numbersOf cells) := by
  constructor
  · intro h
    apply Binary64.IsOrderable.of_isOrderOn h fun x => ⟨x.2.choose, x.2.choose_spec.1⟩
    intro x y
    rw [compare_eq_compareTied x.2.choose_spec.2 y.2.choose_spec.2]
  · intro h
    obtain ⟨f, hf⟩ := exists_isComparedAs h
    exact Order.IsOrderOn.of_rank order f fun a ha b hb => hf.compare_eq_order ha hb

end Cell

/-! ## Rows -/

namespace Rows

instance (direction : Direction) : Std.OrientedCmp (compareCell direction) where
  eq_swap := by
    intro a b
    unfold compareCell
    cases direction.isDescending with
    | false => exact Cell.compare_swap a b
    | true => cases a.isNull <;> cases b.isNull <;> exact Cell.compare_swap _ _

theorem compareCells_swap (levels : List SortLevel) (a b : List Json) :
    compareCells levels a b = (compareCells levels b a).swap := by
  induction levels generalizing a b with
  | nil => rfl
  | cons level levels ih =>
      cases a with
      | nil => cases b <;> rfl
      | cons x a =>
          cases b with
          | nil => rfl
          | cons y b =>
              have hfirst : compareCell level.direction x y =
                  (compareCell level.direction y x).swap := Std.OrientedCmp.eq_swap
              rw [compareCells, compareCells, Ordering.swap_then, hfirst, ih a b]

instance (levels : List SortLevel) : Std.OrientedCmp (compareCells levels) where
  eq_swap := compareCells_swap levels _ _

/-- The lists with a cell of a set for every level. -/
def cellsOver (levels : List SortLevel) (cells : Set Json) : Set (List Json) :=
  {list | list.length = levels.length ∧ ∀ a ∈ list, a ∈ cells}

theorem compareCell_eq_of_isComparedAs {direction : Direction} {cells : Set Json}
    {f : Json → Json} (hf : Cell.IsComparedAs cells f) {a b : Json} (ha : a ∈ cells)
    (hb : b ∈ cells) : compareCell direction a b = compareCell direction (f a) (f b) := by
  unfold compareCell
  rw [hf.isNull a ha, hf.isNull b hb, hf.compare a ha b hb, hf.compare b hb a ha]

theorem compareCells_eq_orderCells {cells : Set Json} {f : Json → Json}
    (hf : Cell.IsComparedAs cells f) {levels : List SortLevel} {a b : List Json}
    (ha : a ∈ cellsOver levels cells) (hb : b ∈ cellsOver levels cells) :
    compareCells levels a b = orderCells levels (a.map f) (b.map f) := by
  induction levels generalizing a b with
  | nil => rfl
  | cons level levels ih =>
      obtain ⟨hlength, hcells⟩ := ha
      obtain ⟨hlength', hcells'⟩ := hb
      cases a with
      | nil => cases hlength
      | cons x a =>
          cases b with
          | nil => cases hlength'
          | cons y b =>
              rw [List.forall_mem_cons] at hcells hcells'
              rw [compareCells, compareCell_eq_of_isComparedAs hf hcells.1 hcells'.1,
                compareCell_eq_order (hf.comparable x hcells.1) (hf.comparable y hcells'.1),
                ih ⟨Nat.succ.inj hlength, hcells.2⟩ ⟨Nat.succ.inj hlength', hcells'.2⟩]
              rfl

/-- Rows with one cell for all levels compare as the cells do. -/
theorem compareCells_replicate_eq {levels : List SortLevel} (hlevels : levels ≠ [])
    (a b : Json) : compareCells levels (List.replicate levels.length a)
      (List.replicate levels.length b) = .eq ↔ Cell.compare a b = .eq := by
  have hcell (direction : Direction) :
      compareCell direction a b = .eq ↔ Cell.compare a b = .eq := by
    unfold compareCell
    split
    · rw [Cell.compare_swap a b, Ordering.swap_eq_eq]
    · rfl
  induction levels with
  | nil => exact absurd rfl hlevels
  | cons level levels ih =>
      rw [List.length_cons, List.replicate_succ, List.replicate_succ, compareCells,
        Ordering.then_eq_eq, hcell]
      cases levels with
      | nil => exact and_iff_left rfl
      | cons next levels =>
          exact (and_congr_right fun _ => ih (List.cons_ne_nil _ _)).trans and_self_iff

/-- Rows are in order just when the numbers of their cells can be. -/
theorem isOrderOn_compareCells_iff (levels : List SortLevel) (cells : Set Json) :
    Order.IsOrderOn (compareCells levels) (cellsOver levels cells) ↔
      (levels ≠ [] → Binary64.IsOrderable (Cell.numbersOf cells)) := by
  constructor
  · intro h hlevels
    apply Binary64.IsOrderable.of_isOrderOn h fun x =>
      ⟨List.replicate levels.length x.2.choose, List.length_replicate, fun a ha =>
        List.eq_of_mem_replicate ha ▸ x.2.choose_spec.1⟩
    intro x y
    rw [compareCells_replicate_eq hlevels, Cell.compare_eq_compareTied x.2.choose_spec.2
      y.2.choose_spec.2]
  · intro h
    cases levels with
    | nil => exact Order.IsOrderOn.of_rank (orderCells []) id fun _ _ _ _ => rfl
    | cons level levels =>
        obtain ⟨f, hf⟩ := Cell.exists_isComparedAs (h (List.cons_ne_nil _ _))
        exact Order.IsOrderOn.of_rank (orderCells _) (List.map f) fun a ha b hb =>
          compareCells_eq_orderCells hf ha hb

end Rows

/-! ## Buckets -/

namespace BucketOrder

/-- Compare the values of a metric in two buckets, none last. -/
def compareValues (name : String) (direction : Direction) (a b : Bucket Output) : Ordering :=
  match a.metric? name, b.metric? name with
  | some x, some y => Order.directed direction.isDescending (Binary64.compareTied x y)
  | some _, none => .lt
  | none, some _ => .gt
  | none, none => .eq

theorem compare_metric (name : String) (direction : Direction) (a b : Bucket Output) :
    (metric name direction).compare a b =
      (compareValues name direction a b).then (Cell.compare a.keyCell b.keyCell) := by
  unfold compare compareValues
  dsimp only
  cases a.metric? name <;> cases b.metric? name <;> rfl

instance (name : String) (direction : Direction) :
    Std.OrientedCmp (compareValues name direction) where
  eq_swap := by
    intro a b
    unfold compareValues
    cases a.metric? name with
    | none => cases b.metric? name <;> rfl
    | some x =>
        cases b.metric? name with
        | none => rfl
        | some y =>
            dsimp only
            rw [Binary64.compareTied_swap x y]
            cases direction.isDescending <;> rfl

instance (order : BucketOrder) : Std.OrientedCmp order.compare :=
  have _ : Std.OrientedCmp fun a b : Bucket Output => Cell.compare a.keyCell b.keyCell :=
    ⟨Cell.compare_swap _ _⟩
  match order with
  | key direction => inferInstanceAs (Std.OrientedCmp fun a b : Bucket Output =>
      Order.directed direction.isDescending (Cell.compare a.keyCell b.keyCell))
  | count direction => inferInstanceAs (Std.OrientedCmp (compareLex
      (fun a b : Bucket Output => Order.directed direction.isDescending
        (compareOn Bucket.docCount a b)) fun a b => Cell.compare a.keyCell b.keyCell))
  | metric name direction =>
      have hcompare : (metric name direction).compare =
          compareLex (compareValues name direction)
            fun a b => Cell.compare a.keyCell b.keyCell :=
        funext₂ (compare_metric name direction)
      hcompare ▸ inferInstance

/-- The buckets with keys of a set, and with values of another for the metric of an order. -/
def bucketsOver (order : BucketOrder) (cells : Set Json) (values : Set Binary64) :
    Set (Bucket Output) :=
  {b | b.keyCell ∈ cells ∧ ∀ x ∈ order.metricName?.bind b.metric?, x ∈ values}

/-- The order of buckets over cells and values that compare. -/
theorem isOrderOn_bucketsOver (order : BucketOrder) {cells : Set Json} {values : Set Binary64}
    (hcells : Binary64.IsOrderable (Cell.numbersOf cells))
    (hvalues : order.metricName?.isSome → Binary64.IsOrderable values) :
    Order.IsOrderOn order.compare (order.bucketsOver cells values) := by
  obtain ⟨f, hf⟩ := Cell.exists_isComparedAs hcells
  have hcell : Std.TransCmp fun a b : Bucket Output => Cell.order (f a.keyCell) (f b.keyCell) :=
    Order.transCmp_comap fun b : Bucket Output => f b.keyCell
  cases order with
  | key direction =>
      apply Order.IsOrderOn.of_rank (fun a b : Bucket Output =>
        Order.directed direction.isDescending (Cell.order (f a.keyCell) (f b.keyCell))) id
      intro a ha b hb
      exact congrArg (Order.directed _) (hf.compare_eq_order ha.1 hb.1)
  | count direction =>
      apply Order.IsOrderOn.of_rank (compareLex
        (fun a b : Bucket Output => Order.directed direction.isDescending
          (compareOn Bucket.docCount a b))
        fun a b => Cell.order (f a.keyCell) (f b.keyCell)) id
      intro a ha b hb
      exact congrArg (Ordering.then _) (hf.compare_eq_order ha.1 hb.1)
  | metric name direction =>
      obtain ⟨g, hg, hcompare⟩ := (hvalues rfl).exists_comparable
      let place (b : Bucket Output) : WithBot (WithTop ℚ) :=
        ((b.metric? name).map fun x => (g x).rank).getD ⊥
      apply Order.IsOrderOn.of_rank (compareLex (compareLex
        (compareOn fun b : Bucket Output => (b.metric? name).isNone)
        fun a b => Order.directed direction.isDescending (compareOn place a b))
        fun a b => Cell.order (f a.keyCell) (f b.keyCell)) id
      intro a ha b hb
      rw [compare_metric, hf.compare_eq_order ha.1 hb.1]
      apply congrArg (Ordering.then · _)
      have hax : ∀ x ∈ a.metric? name, x ∈ values := ha.2
      have hby : ∀ x ∈ b.metric? name, x ∈ values := hb.2
      simp only [compareValues, compareLex, compareOn, place, id]
      cases hx : a.metric? name with
      | none =>
          cases hy : b.metric? name with
          | none => cases direction <;> rfl
          | some y => rfl
      | some x =>
          cases hy : b.metric? name with
          | none => rfl
          | some y =>
              dsimp only
              rw [hcompare x (hax x hx) y (hby y hy), Binary64.compareTied_eq_rank
                (hg x (hax x hx)) (hg y (hby y hy))]
              rfl

/-- A bucket with a key and nothing inside. -/
def bucketOf (cell : Json) : Bucket Output := ⟨"", some cell, [], 0, []⟩

theorem compare_bucketOf (order : BucketOrder) (a b : Json) :
    order.compare (bucketOf a) (bucketOf b) = .eq ↔ Cell.compare a b = .eq := by
  cases order with
  | key direction => exact Order.directed_eq_eq
  | count direction => cases direction <;> rfl
  | metric name direction => rfl

/-- A bucket with a key and one sum inside. -/
def bucketWith (cell : Json) (name : String) (x : Binary64) : Bucket Output :=
  ⟨"", some cell, [], 0, [(name, .metric ⟨.sum, x, 0, none, true⟩)]⟩

theorem metric?_bucketWith (cell : Json) (name : String) (x : Binary64) :
    (bucketWith cell name x).metric? name = some x := by
  simp [bucketWith, Bucket.metric?, Level.get?, Tally.result?]

theorem compare_bucketWith (cell : Json) (name : String) (direction : Direction)
    (x y : Binary64) :
    (metric name direction).compare (bucketWith cell name x) (bucketWith cell name y) = .eq ↔
      Binary64.compareTied x y = .eq := by
  rw [compare_metric, Ordering.then_eq_eq, compareValues, metric?_bucketWith, metric?_bucketWith]
  exact (and_iff_left Std.ReflCmp.compare_self).trans Order.directed_eq_eq

/-- Buckets are in order just when the numbers of their keys can be, and the values they are
ordered by. -/
theorem isOrderOn_compare_iff (order : BucketOrder) (cells : Set Json)
    (values : Set Binary64) :
    Order.IsOrderOn order.compare (order.bucketsOver cells values) ↔
      Binary64.IsOrderable (Cell.numbersOf cells) ∧
        (order.metricName?.isSome → cells.Nonempty → Binary64.IsOrderable values) := by
  constructor
  · intro h
    refine ⟨?_, fun hmetric hcells => ?_⟩
    · apply Binary64.IsOrderable.of_isOrderOn h fun x =>
        ⟨bucketOf x.2.choose, x.2.choose_spec.1, ?_⟩
      · intro x y
        rw [compare_bucketOf, Cell.compare_eq_compareTied x.2.choose_spec.2 y.2.choose_spec.2]
      · cases order <;> rintro _ ⟨⟩
    · obtain ⟨cell, hcell⟩ := hcells
      cases order with
      | key direction => cases hmetric
      | count direction => cases hmetric
      | metric name direction =>
          apply Binary64.IsOrderable.of_isOrderOn h fun x => ⟨bucketWith cell name x, hcell, ?_⟩
          · intro x y
            exact compare_bucketWith cell name direction x y
          · intro y hy
            obtain rfl : x.1 = y :=
              Option.some.inj ((metric?_bucketWith cell name x).symm.trans hy)
            exact x.2
  · rintro ⟨hcells, hvalues⟩
    rcases cells.eq_empty_or_nonempty with rfl | hnonempty
    · exact Order.IsOrderOn.of_rank order.compareRanks order.rank fun a ha => absurd ha.1 id
    · exact isOrderOn_bucketsOver order hcells fun hmetric => hvalues hmetric hnonempty

end BucketOrder

/-! ## All comparisons -/

/-- Cells, buckets and rows always compare the other way when they are exchanged. They are in order
just when the numbers of the cells can be ordered, and so the values of a metric that buckets are
ordered by. -/
theorem comparisons_isOrderOn_iff (order : BucketOrder) (levels : List Rows.SortLevel)
    (cells : Set Json) (values : Set Binary64) :
    (Std.OrientedCmp Cell.compare ∧ Std.OrientedCmp order.compare ∧
      Std.OrientedCmp (Rows.compareCells levels)) ∧
    (Order.IsOrderOn Cell.compare cells ↔ Binary64.IsOrderable (Cell.numbersOf cells)) ∧
    (Order.IsOrderOn order.compare (order.bucketsOver cells values) ↔
      Binary64.IsOrderable (Cell.numbersOf cells) ∧
        (order.metricName?.isSome → cells.Nonempty → Binary64.IsOrderable values)) ∧
    (Order.IsOrderOn (Rows.compareCells levels) (Rows.cellsOver levels cells) ↔
      (levels ≠ [] → Binary64.IsOrderable (Cell.numbersOf cells))) :=
  ⟨⟨inferInstance, inferInstance, inferInstance⟩, Cell.isOrderOn_compare_iff cells,
    order.isOrderOn_compare_iff cells values, Rows.isOrderOn_compareCells_iff levels cells⟩

/-- The text `nan` ties with two numbers that do not tie, and a list with it between them is
left as it is. -/
theorem nan_ties_apart :
    Cell.compare (.string "nan") (.ofNat 3) = .eq ∧ Cell.compare (.string "nan") (.ofNat 1) = .eq ∧
      Cell.compare (.ofNat 1) (.ofNat 3) = .lt ∧
      ¬ Order.IsOrderOn Cell.compare {.ofNat 3, .string "nan", .ofNat 1} ∧
      Order.sortBy Cell.compare [.ofNat 3, .string "nan", .ofNat 1] =
        [.ofNat 3, .string "nan", .ofNat 1] := by
  have hthree : Cell.compare (.string "nan") (.ofNat 3) = .eq := by decide +kernel
  have hone : Cell.compare (.string "nan") (.ofNat 1) = .eq := by decide +kernel
  have hless : Cell.compare (.ofNat 1) (.ofNat 3) = .lt := by decide +kernel
  refine ⟨hthree, hone, hless, fun h => ?_, ?_⟩
  · have htie : Cell.compare (.ofNat 1) (.ofNat 3) = .eq :=
      @Order.IsOrderOn.eq_of_ties _ _ _ h ⟨.string "nan", by simp⟩ ⟨.ofNat 1, by simp⟩
        ⟨.ofNat 3, by simp⟩ hone hthree
    rw [hless] at htie
    cases htie
  · have hone' : Cell.compare (.ofNat 1) (.string "nan") = .eq := by
      rw [Cell.compare_swap, hone]
      rfl
    simp [Order.sortBy, Order.sortReversed, Order.insertReversed, Order.insertionLimit, hthree,
      hone']

end Rollup
