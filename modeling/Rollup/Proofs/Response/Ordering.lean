/-
# The order of buckets

Buckets are put in order by their documents or a metric, and then by their keys. Where keys are
numbers, and texts that are no numbers or the plain text of one, this compares ranks, and different
keys do not tie. So the order in which buckets were created makes no difference to their final
order, nor to which of them are dropped.
-/

import Mathlib.Algebra.Order.Field.Rat
import Mathlib.Data.List.Nodup
import Mathlib.Order.WithBot
import Rollup.Proofs.Number.ReadBack
import Rollup.Proofs.Sorting
import Rollup.Response.Finished

namespace Rollup

/-! ## Numbers -/

namespace Binary64

/-- The place of a number on the line of the rationals with both infinities. -/
def rank : Binary64 → WithBot (WithTop ℚ)
  | finite q => ((q : WithTop ℚ) : WithBot (WithTop ℚ))
  | negativeZero => ((0 : ℚ) : WithTop ℚ)
  | infinite negative => if negative then ⊥ else ((⊤ : WithTop ℚ) : WithBot (WithTop ℚ))
  | nan _ => ⊥

theorem compareRat_eq (p q : ℚ) : compareRat p q = compare (finite p).rank (finite q).rank := by
  unfold compareRat rank
  rw [LinearOrder.compare_eq_compareOfLessAndEq, compareOfLessAndEq]
  simp only [WithBot.coe_lt_coe, WithTop.coe_lt_coe, WithBot.coe_inj, WithTop.coe_inj]

theorem rank_infinite_lt (q : ℚ) : (infinite true).rank < (finite q).rank := WithBot.bot_lt_coe _

theorem rank_lt_infinite (q : ℚ) : (finite q).rank < (infinite false).rank :=
  WithBot.coe_lt_coe.mpr (WithTop.coe_lt_top q)

/-- Numbers compare as their places do. -/
theorem compare?_eq_rank {x y : Binary64} (hx : x.isNaN = false) (hy : y.isNaN = false) :
    compare? x y = some (compare x.rank y.rank) := by
  have hfinite (q : ℚ) (negative : Bool) :
      some (if negative then Ordering.gt else .lt) =
        some (compare (finite q).rank (infinite negative).rank) := by
    cases negative with
    | true => rw [compare_gt_iff_gt.mpr (rank_infinite_lt q)]; rfl
    | false => rw [compare_lt_iff_lt.mpr (rank_lt_infinite q)]; rfl
  have hinfinite (q : ℚ) (negative : Bool) :
      some (if negative then Ordering.lt else .gt) =
        some (compare (infinite negative).rank (finite q).rank) := by
    cases negative with
    | true => rw [compare_lt_iff_lt.mpr (rank_infinite_lt q)]; rfl
    | false => rw [compare_gt_iff_gt.mpr (rank_lt_infinite q)]; rfl
  cases x with
  | nan negative => cases hx
  | finite p =>
      cases y with
      | nan negative => cases hy
      | finite q => exact congrArg some (compareRat_eq p q)
      | negativeZero => exact congrArg some (compareRat_eq p 0)
      | infinite negative => exact hfinite p negative
  | negativeZero =>
      cases y with
      | nan negative => cases hy
      | finite q => exact congrArg some (compareRat_eq 0 q)
      | negativeZero => exact congrArg some (compare_eq_iff_eq.mpr rfl).symm
      | infinite negative => exact hfinite 0 negative
  | infinite sign =>
      cases y with
      | nan negative => cases hy
      | finite q => exact hinfinite q sign
      | negativeZero => exact hinfinite 0 sign
      | infinite negative =>
          have hlt := (rank_infinite_lt 0).trans (rank_lt_infinite 0)
          cases sign <;> cases negative
          · exact congrArg some (compare_eq_iff_eq.mpr rfl).symm
          · exact congrArg some (compare_gt_iff_gt.mpr hlt).symm
          · exact congrArg some (compare_lt_iff_lt.mpr hlt).symm
          · exact congrArg some (compare_eq_iff_eq.mpr rfl).symm

theorem IsNumber.isNaN_eq {x : Binary64} (h : x.IsNumber) : x.isNaN = false := by
  cases x with
  | nan negative => cases h
  | _ => rfl

/-- Numbers have one place just when they have one text. -/
theorem IsNumber.rank_eq_iff {x y : Binary64} (hx : x.IsNumber) (hy : y.IsNumber) :
    x.rank = y.rank ↔ x.text = y.text := by
  have hrat : x.rank = y.rank ↔ x.toRat? = y.toRat? := by
    cases x <;> cases y <;>
      simp_all [IsNumber, rank, toRat?, WithBot.coe_inj, WithTop.coe_inj, eq_comm]
  rw [hrat]
  constructor
  · intro h
    have hzero : negativeZero.text = (finite 0).text := by decide +kernel
    cases x <;> cases y <;> simp_all [IsNumber, toRat?]
  · exact hx.toRat?_eq_of_text hy

end Binary64

/-! ## Cells -/

/-- The rank of a cell: numbers by their places, and then texts. -/
structure CellRank where
  isText : Bool
  number : WithBot (WithTop ℚ)
  text : String

/-- The order of ranks of cells. -/
def CellRank.order : CellRank → CellRank → Ordering :=
  compareLex (compareOn isText) (compareLex (compareOn number) (compareOn text))

namespace CellRank

instance : Std.TransCmp CellRank.order :=
  inferInstanceAs (Std.TransCmp (compareLex (compareOn isText)
    (compareLex (compareOn number) (compareOn CellRank.text))))

/-- Different ranks do not tie. -/
theorem eq_of_order_eq {a b : CellRank} (h : order a b = .eq) : a = b := by
  simp only [order, compareLex, compareOn, Ordering.then_eq_eq, compare_eq_iff_eq] at h
  obtain ⟨hkind, hnumber, htext⟩ := h
  cases a
  cases b
  simp_all

end CellRank

namespace Cell

def rank (a : Json) : CellRank :=
  match number? a with
  | some x => ⟨false, x.rank, ""⟩
  | none => ⟨true, ⊥, text a⟩

/-- Whether a cell is a number, or a text that is no number or the plain text of one. -/
def IsOrderly : Json → Prop
  | .number n => n.toBinary64.IsNumber
  | .string s => ∀ x, Binary64.readTrimmed? s = some x → x.IsNumber ∧ x.text = s
  | _ => False

instance (a : Json) : Decidable (IsOrderly a) :=
  match a with
  | .number n => inferInstanceAs (Decidable n.toBinary64.IsNumber)
  | .string s => inferInstanceAs
      (Decidable (∀ x ∈ Binary64.readTrimmed? s, x.IsNumber ∧ x.text = s))
  | .null => isFalse id
  | .bool _ => isFalse id
  | .array _ => isFalse id
  | .object _ => isFalse id

theorem IsOrderly.number {a : Json} (h : IsOrderly a) {x : Binary64} (hx : number? a = some x) :
    x.IsNumber ∧ key a = x.text := by
  cases a with
  | number n =>
      obtain rfl := Option.some.inj hx
      exact ⟨h, rfl⟩
  | string s => exact ⟨(h x hx).1, (h x hx).2.symm⟩
  | _ => cases h

theorem IsOrderly.isNull_eq {a : Json} (h : IsOrderly a) : a.isNull = false := by
  cases a with
  | null => cases h
  | _ => rfl

/-- A cell that is no number is its own identity. -/
theorem IsOrderly.text {a : Json} (h : IsOrderly a) (hnone : number? a = none) :
    a = .string (key a) := by
  cases a with
  | number n => cases hnone
  | string s => rfl
  | _ => cases h

/-- Whether a cell is not read as a number that compares with no other. -/
def IsComparable (a : Json) : Prop := ∀ x ∈ number? a, x.isNaN = false

instance (a : Json) : Decidable (IsComparable a) := inferInstanceAs (Decidable (∀ x ∈ number? a, _))

theorem IsOrderly.isComparable {a : Json} (h : IsOrderly a) : IsComparable a :=
  fun _ hx => (h.number hx).1.isNaN_eq

/-- Cells that compare do so as their ranks. -/
theorem compare_eq_order {a b : Json} (ha : IsComparable a) (hb : IsComparable b)
    (haNull : a.isNull = false) (hbNull : b.isNull = false) :
    compare a b = CellRank.order (rank a) (rank b) := by
  unfold compare rank
  rw [haNull, hbNull]
  dsimp only
  cases hx : number? a with
  | none =>
      cases hy : number? b with
      | none => simp [CellRank.order, compareLex, compareOn]
      | some y => rfl
  | some x =>
      cases hy : number? b with
      | none => rfl
      | some y =>
          dsimp only
          rw [Binary64.compare?_eq_rank (ha x hx) (hb y hy)]
          simp [CellRank.order, compareLex, compareOn]

/-- A text that is no number is not the plain text of one. -/
theorem IsOrderly.key_ne {a b : Json} (ha : IsOrderly a) (hb : IsOrderly b) {x : Binary64}
    (hx : number? a = some x) (hnone : number? b = none) : key a ≠ key b := by
  intro hkey
  obtain ⟨hnumber, htext⟩ := ha.number hx
  obtain ⟨y, hy, -⟩ := hnumber.readTrimmed?_text
  rw [hb.text hnone, ← hkey, htext, number?, hy] at hnone
  cases hnone

/-- Orderly cells have one rank just when they have one identity. -/
theorem rank_eq_iff {a b : Json} (ha : IsOrderly a) (hb : IsOrderly b) :
    rank a = rank b ↔ key a = key b := by
  unfold rank
  cases hx : number? a with
  | none =>
      cases hy : number? b with
      | none =>
          have hatext := ha.text hx
          have hbtext := hb.text hy
          rw [hatext, hbtext]
          simp [Cell.text, key]
      | some y => simp [(hb.key_ne ha hy hx).symm]
  | some x =>
      cases hy : number? b with
      | none => simp [ha.key_ne hb hx hy]
      | some y =>
          obtain ⟨hxnumber, hxtext⟩ := ha.number hx
          obtain ⟨hynumber, hytext⟩ := hb.number hy
          rw [hxtext, hytext, ← hxnumber.rank_eq_iff hynumber]
          simp

end Cell

/-! ## Buckets -/

/-- A comparison in some direction. -/
instance (descending : Bool) {α : Type} (compare : α → α → Ordering) [Std.TransCmp compare] :
    Std.TransCmp fun a b => Order.directed descending (compare a b) := by
  cases descending with
  | false => exact inferInstanceAs (Std.TransCmp compare)
  | true =>
      have hswap : (fun a b => Order.directed true (compare a b)) = fun a b => compare b a := by
        funext a b
        exact Std.OrientedCmp.eq_swap.symm
      rw [hswap]
      exact Std.TransCmp.opposite

/-- The rank of a bucket: what tells it from others, and all that buckets are ordered by. -/
structure BucketRank where
  id : String
  docCount : Nat
  key : CellRank
  lacksValue : Bool
  value : WithBot (WithTop ℚ)

namespace BucketOrder

/-- The name of the metric that buckets are ordered by. -/
def metricName? : BucketOrder → Option String
  | metric name _ => some name
  | _ => none

def direction : BucketOrder → Direction
  | key direction => direction
  | count direction => direction
  | metric _ direction => direction

/-- The rank of a bucket in an order. -/
def rank (order : BucketOrder) (b : Bucket Output) : BucketRank :=
  let value? := order.metricName?.bind b.metric?
  ⟨b.id, b.docCount, Cell.rank b.keyCell, value?.isNone, (value?.map Binary64.rank).getD ⊥⟩

/-- Compare ranks by keys. -/
def compareKeys (a b : BucketRank) : Ordering := CellRank.order a.key b.key

instance : Std.TransCmp compareKeys where
  eq_swap := by
    intro a b
    show CellRank.order a.key b.key = (CellRank.order b.key a.key).swap
    exact Std.OrientedCmp.eq_swap
  isLE_trans := by
    intro a b c
    show (CellRank.order a.key b.key).isLE = true → (CellRank.order b.key c.key).isLE = true →
      (CellRank.order a.key c.key).isLE = true
    exact Std.TransCmp.isLE_trans

/-- Compare ranks. -/
def compareRanks (order : BucketOrder) : BucketRank → BucketRank → Ordering :=
  let descending := order.direction.isDescending
  match order with
  | key _ => fun a b => Order.directed descending (compareKeys a b)
  | count _ => compareLex
      (fun a b => Order.directed descending (compareOn BucketRank.docCount a b)) compareKeys
  | metric _ _ => compareLex (compareOn BucketRank.lacksValue) (compareLex
      (fun a b => Order.directed descending (compareOn BucketRank.value a b)) compareKeys)

instance (order : BucketOrder) : Std.TransCmp order.compareRanks := by
  cases order with
  | key direction =>
      exact inferInstanceAs (Std.TransCmp fun a b => Order.directed _ (compareKeys a b))
  | count direction => exact inferInstanceAs (Std.TransCmp (compareLex _ compareKeys))
  | metric name direction => exact inferInstanceAs (Std.TransCmp (compareLex _ (compareLex _ _)))

/-- Whether a bucket has a key of its identity, and a number for a value where it is ordered by
one. -/
structure IsSound (order : BucketOrder) (b : Bucket Output) : Prop where
  orderly : Cell.IsOrderly b.keyCell
  id : b.id = Cell.key b.keyCell
  value : ∀ x ∈ order.metricName?.bind b.metric?, x.isNaN = false

/-- Buckets compare as their ranks do. -/
theorem compare_eq_compareRanks {order : BucketOrder} {a b : Bucket Output}
    (ha : order.IsSound a) (hb : order.IsSound b) :
    order.compare a b = order.compareRanks (order.rank a) (order.rank b) := by
  have hkeys : Cell.compare a.keyCell b.keyCell = compareKeys (order.rank a) (order.rank b) :=
    Cell.compare_eq_order ha.orderly.isComparable hb.orderly.isComparable ha.orderly.isNull_eq
      hb.orderly.isNull_eq
  unfold compare
  dsimp only
  rw [hkeys]
  cases order with
  | key direction => rfl
  | count direction => rfl
  | metric name direction =>
      have hvalue := ha.value
      have hvalue' := hb.value
      simp only [metricName?, Option.bind_some] at hvalue hvalue'
      simp only [compareRanks, compareLex, compareOn, rank, metricName?, Option.bind_some]
      cases hx : a.metric? name with
      | none =>
          cases hy : b.metric? name with
          | none => cases direction <;> rfl
          | some y => rfl
      | some x =>
          cases hy : b.metric? name with
          | none => rfl
          | some y =>
              dsimp only
              rw [Binary64.compare?_eq_rank (hvalue x hx) (hvalue' y hy)]
              rfl

/-- Ranks that tie have one key. -/
theorem key_eq_of_compareRanks {order : BucketOrder} {a b : BucketRank}
    (h : order.compareRanks a b = .eq) : a.key = b.key := by
  have hdirected {descending : Bool} {o : Ordering} (ho : Order.directed descending o = .eq) :
      o = .eq := by
    cases descending <;> cases o <;> simp_all [Order.directed]
  apply CellRank.eq_of_order_eq
  cases order with
  | key direction => exact hdirected h
  | count direction =>
      simp only [compareRanks, compareLex, Ordering.then_eq_eq] at h
      exact h.2
  | metric name direction =>
      simp only [compareRanks, compareLex, Ordering.then_eq_eq] at h
      exact h.2.2

/-- Buckets with the same ranks are put in the same order. -/
theorem map_rank_sortBy {order : BucketOrder} {entries others : List (Bucket Output)}
    (hperm : (entries.map order.rank).Perm (others.map order.rank))
    (hsound : ∀ b ∈ entries, order.IsSound b) (hsound' : ∀ b ∈ others, order.IsSound b)
    (hnodup : (entries.map Bucket.id).Nodup) :
    (Order.sortBy order.compare entries).map order.rank =
      (Order.sortBy order.compare others).map order.rank := by
  have hranks {list : List (Bucket Output)} (hlist : ∀ b ∈ list, order.IsSound b) :
      (Order.sortBy order.compare list).map order.rank =
        Order.sortBy order.compareRanks (list.map order.rank) :=
    Order.map_sortBy fun a ha b hb => compare_eq_compareRanks (hlist a ha) (hlist b hb)
  rw [hranks hsound, hranks hsound']
  apply Order.sortBy_eq_of_perm hperm
  intro first hfirst second hsecond htie
  obtain ⟨a, ha, rfl⟩ := List.mem_map.mp hfirst
  obtain ⟨b, hb, rfl⟩ := List.mem_map.mp hsecond
  have hkey : Cell.rank a.keyCell = Cell.rank b.keyCell := key_eq_of_compareRanks htie
  rw [Cell.rank_eq_iff (hsound a ha).orderly (hsound b hb).orderly, ← (hsound a ha).id,
    ← (hsound b hb).id] at hkey
  rw [List.inj_on_of_nodup_map hnodup ha hb hkey]

end BucketOrder
end Rollup
