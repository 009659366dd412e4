/-
# Segments and ranges

The boundaries of a range aggregation cut the line of numbers into segments. The statement tells
of each row how many boundaries are not above its number, and this count alone decides which of the
declared ranges the number lies in, however the ranges overlap, touch or run backward. So a row is
counted in exactly the ranges of its number, and goes on in the first of them.
-/

import Mathlib.Data.EReal.Basic
import Mathlib.Data.Set.Card
import Rollup.Proofs.Response.Deposit
import Rollup.Proofs.Response.Ordering

namespace Rollup

/-! ## Places on the line -/

namespace Binary64

/-- The place of a number on the extended real line. -/
noncomputable def place (x : Binary64) : EReal :=
  WithBot.map (WithTop.map ((↑) : ℚ → ℝ)) x.rank

theorem strictMono_place :
    StrictMono (WithBot.map (WithTop.map ((↑) : ℚ → ℝ)) : WithBot (WithTop ℚ) → EReal) :=
  (WithTop.strictMono_map_iff.mpr Rat.cast_strictMono).withBot_map

theorem place_le_iff (x y : Binary64) : x.place ≤ y.place ↔ x.rank ≤ y.rank :=
  strictMono_place.le_iff_le

theorem atMost_iff {x y : Binary64} (hx : x.isNaN = false) (hy : y.isNaN = false) :
    x.atMost y = true ↔ x.place ≤ y.place := by
  rw [place_le_iff, atMost, compare?_eq_rank hx hy, ← compare_le_iff_le]
  cases compare x.rank y.rank <;> simp

theorem same_iff {x y : Binary64} (hx : x.isNaN = false) (hy : y.isNaN = false) :
    x.same y = true ↔ x.place = y.place := by
  have hplace : x.place = y.place ↔ x.rank = y.rank := strictMono_place.injective.eq_iff
  rw [same, compare?_eq_rank hx hy, hplace, ← compare_eq_iff_eq]
  simp

theorem compareRat_eq_eq_iff {p q : ℚ} : compareRat p q = .eq ↔ p = q := by
  rw [compareRat_eq, compare_eq_iff_eq]
  simp [rank, WithBot.coe_inj, WithTop.coe_inj]

/-- The order of numbers in which the negative zero is below zero. -/
def orderSigned : (WithBot (WithTop ℚ) × Bool) → (WithBot (WithTop ℚ) × Bool) → Ordering :=
  compareLex (compareOn Prod.fst) (compareOn Prod.snd)

instance : Std.TransCmp orderSigned :=
  inferInstanceAs (Std.TransCmp (compareLex (compareOn Prod.fst) (compareOn Prod.snd)))

theorem le_of_orderSigned {a b : WithBot (WithTop ℚ) × Bool}
    (h : (orderSigned a b).isLE = true) : a.1 ≤ b.1 := by
  rw [← compare_le_iff_le]
  simp only [orderSigned, compareLex, compareOn] at h
  cases hcase : compare a.1 b.1 <;> simp_all

/-- The place of a number, and whether it is other than the negative zero. -/
def signedRank (x : Binary64) : WithBot (WithTop ℚ) × Bool := (x.rank, x != negativeZero)

theorem totalCompare_eq_orderSigned {x y : Binary64} (hx : x.isNaN = false)
    (hy : y.isNaN = false) : totalCompare x y = orderSigned x.signedRank y.signedRank := by
  have hranks : (compare? x y).getD .eq = compare x.rank y.rank := by
    rw [compare?_eq_rank hx hy, Option.getD_some]
  unfold orderSigned compareLex compareOn signedRank
  dsimp only
  rw [← hranks]
  -- Only beside the negative zero does the second part say anything, and only of a zero.
  cases x with
  | nan negative => cases hx
  | negativeZero =>
      cases y with
      | nan negative => cases hy
      | finite q =>
          show (if q = 0 then .lt else compareRat 0 q) = (compareRat 0 q).then .lt
          split
          · rename_i hzero
            rw [hzero]
            rfl
          · rename_i hzero
            have hne : compareRat 0 q ≠ .eq := mt compareRat_eq_eq_iff.mp (Ne.symm hzero)
            cases hcase : compareRat 0 q <;> simp_all
      | negativeZero => rfl
      | infinite negative => cases negative <;> rfl
  | finite p =>
      cases y with
      | nan negative => cases hy
      | negativeZero =>
          show (if p = 0 then .gt else compareRat p 0) = (compareRat p 0).then .gt
          split
          · rename_i hzero
            rw [hzero]
            rfl
          · rename_i hzero
            have hne : compareRat p 0 ≠ .eq := mt compareRat_eq_eq_iff.mp hzero
            cases hcase : compareRat p 0 <;> simp_all
      | finite q => exact Ordering.then_eq.symm
      | infinite negative => cases negative <;> rfl
  | infinite sign =>
      cases y with
      | nan negative => cases hy
      | infinite negative => cases sign <;> cases negative <;> rfl
      | _ => cases sign <;> rfl

end Binary64

/-! ## Boundaries -/

namespace Ranges

/-- Whether places run strictly upward. -/
abbrev IsAscending (places : List EReal) : Prop := places.Pairwise (· < ·)

theorem dropRepeatsAfter_sublist (last : Binary64) (rest : List Binary64) :
    (dropRepeatsAfter last rest).Sublist rest := by
  induction rest generalizing last with
  | nil => exact List.Sublist.refl _
  | cons x rest ih =>
      unfold dropRepeatsAfter
      split
      · exact (ih last).cons x
      · exact (ih x).cons_cons x

/-- What is kept of an ascending list runs strictly upward and has the same places. -/
theorem dropRepeatsAfter_spec {last : Binary64} (hlast : last.isNaN = false)
    {rest : List Binary64} (hrest : ∀ x ∈ rest, x.isNaN = false)
    (hsorted : (last :: rest).Pairwise fun x y => x.place ≤ y.place) :
    IsAscending ((last :: dropRepeatsAfter last rest).map Binary64.place) ∧
      ∀ v, v ∈ (last :: dropRepeatsAfter last rest).map Binary64.place ↔
        v ∈ (last :: rest).map Binary64.place := by
  induction rest generalizing last with
  | nil => exact ⟨List.pairwise_singleton _ _, fun _ => Iff.rfl⟩
  | cons x rest ih =>
      obtain ⟨hx, hrest⟩ := List.forall_mem_cons.mp hrest
      obtain ⟨hfirst, hlater⟩ := List.pairwise_cons.mp hsorted
      obtain ⟨hle, hfirst⟩ := List.forall_mem_cons.mp hfirst
      unfold dropRepeatsAfter
      split
      · rename_i hsame
        rw [Binary64.same_iff hlast hx] at hsame
        obtain ⟨hascending, hmem⟩ := ih hlast hrest
          (List.pairwise_cons.mpr ⟨hfirst, (List.pairwise_cons.mp hlater).2⟩)
        refine ⟨hascending, fun v => (hmem v).trans ?_⟩
        simp [hsame]
      · rename_i hsame
        rw [Binary64.same_iff hlast hx] at hsame
        obtain ⟨hascending, hmem⟩ := ih hx hrest hlater
        refine ⟨?_, fun v => ?_⟩
        · rw [List.map_cons, IsAscending, List.pairwise_cons]
          refine ⟨fun v hv => ?_, hascending⟩
          obtain ⟨y, hy, rfl⟩ := List.mem_map.mp ((hmem v).mp hv)
          have hxy : x.place ≤ y.place := by
            rcases List.mem_cons.mp hy with rfl | hmem
            · exact le_rfl
            · exact (List.pairwise_cons.mp hlater).1 y hmem
          exact (lt_of_le_of_ne hle hsame).trans_le hxy
        · rw [List.map_cons, List.mem_cons, hmem v, List.map_cons, List.mem_cons]
          simp only [List.map_cons, List.mem_cons]

/-- Whether a number is a bound of some declared range. -/
def IsBound (r : Ranges) (b : Binary64) : Prop :=
  ∃ spec ∈ r.specs, b ∈ spec.low ∨ b ∈ spec.high

theorem dropRepeats_spec {numbers : List Binary64} (hnumbers : ∀ x ∈ numbers, x.isNaN = false)
    (hsorted : numbers.Pairwise fun x y => x.place ≤ y.place) :
    IsAscending ((dropRepeats numbers).map Binary64.place) ∧
      (∀ x ∈ dropRepeats numbers, x ∈ numbers) ∧
      ∀ v, v ∈ (dropRepeats numbers).map Binary64.place ↔ v ∈ numbers.map Binary64.place := by
  cases numbers with
  | nil => exact ⟨List.Pairwise.nil, fun _ => id, fun _ => Iff.rfl⟩
  | cons x rest =>
      obtain ⟨hx, hrest⟩ := List.forall_mem_cons.mp hnumbers
      obtain ⟨hascending, hmem⟩ := dropRepeatsAfter_spec hx hrest hsorted
      exact ⟨hascending, ((dropRepeatsAfter_sublist x rest).cons_cons x).subset, hmem⟩

/-- Sorted numbers run upward. -/
theorem pairwise_place_sortBy {numbers : List Binary64}
    (hnumbers : ∀ x ∈ numbers, x.isNaN = false) :
    (Order.sortBy Binary64.totalCompare numbers).Pairwise fun x y => x.place ≤ y.place := by
  have hmap : (Order.sortBy Binary64.totalCompare numbers).map Binary64.signedRank =
      Order.sortBy Binary64.orderSigned (numbers.map Binary64.signedRank) :=
    Order.map_sortBy fun x hx y hy =>
      Binary64.totalCompare_eq_orderSigned (hnumbers x hx) (hnumbers y hy)
  have hsorted : (Order.sortBy Binary64.orderSigned (numbers.map Binary64.signedRank)).Pairwise
      fun a b => (Binary64.orderSigned a b).isLE = true :=
    Order.pairwise_sortBy _
  rw [← hmap, List.pairwise_map] at hsorted
  apply hsorted.imp
  intro x y h
  exact (Binary64.place_le_iff x y).mpr (Binary64.le_of_orderSigned h)

/-- The boundaries run strictly upward, and their places are those of the bounds. -/
theorem boundaries_spec {r : Ranges} (hbounds : ∀ b, r.IsBound b → b.isNaN = false) :
    IsAscending (r.boundaries.map Binary64.place) ∧
      (∀ b ∈ r.boundaries, b.isNaN = false) ∧
      ∀ v, v ∈ r.boundaries.map Binary64.place ↔ ∃ b, r.IsBound b ∧ b.place = v := by
  let bounds := r.specs.flatMap fun spec => spec.low.toList ++ spec.high.toList
  have hmem (b : Binary64) : b ∈ bounds ↔ r.IsBound b := by
    simp [bounds, IsBound, List.mem_flatMap]
  have hsorted (b : Binary64) : b ∈ Order.sortBy Binary64.totalCompare bounds ↔ r.IsBound b :=
    (Order.sortBy_perm _ bounds).mem_iff.trans (hmem b)
  obtain ⟨hascending, hsubset, hplaces⟩ := dropRepeats_spec
    (fun b hb => hbounds b ((hsorted b).mp hb))
    (pairwise_place_sortBy fun b hb => hbounds b ((hmem b).mp hb))
  refine ⟨hascending, fun b hb => hbounds b ((hsorted b).mp (hsubset b hb)), fun v => ?_⟩
  exact (hplaces v).trans (by simp only [List.mem_map, hsorted])

/-! ## Counting places -/

section

variable {places : List EReal}

/-- No place is up to a point when the first is above it. -/
theorem countP_eq_zero_of_lt {first : EReal} (h : IsAscending (first :: places)) {x : EReal}
    (hlt : x < first) : places.countP (· ≤ x) = 0 := by
  rw [List.countP_eq_zero]
  intro v hv
  have hv : x < v := hlt.trans ((List.pairwise_cons.mp h).1 v hv)
  simpa using hv

/-- The places up to a point are the first ones. -/
theorem getElem_le_iff (h : IsAscending places) (x : EReal) {i : Nat} (hi : i < places.length) :
    places[i] ≤ x ↔ i < places.countP (· ≤ x) := by
  induction places generalizing i with
  | nil => cases hi
  | cons first rest ih =>
      have hrest : IsAscending rest := (List.pairwise_cons.mp h).2
      by_cases hfirst : first ≤ x
      · rw [List.countP_cons_of_pos (by simpa using hfirst)]
        cases i with
        | zero => simp [hfirst]
        | succ i => simpa using ih hrest (Nat.lt_of_succ_lt_succ hi)
      · have hnone := countP_eq_zero_of_lt h (not_le.mp hfirst)
        rw [List.countP_cons_of_neg (by simpa using hfirst), hnone]
        cases i with
        | zero => simp [hfirst]
        | succ i =>
            have hi := ih hrest (Nat.lt_of_succ_lt_succ hi)
            rw [hnone] at hi
            simpa using hi

theorem getElem_le_getElem_iff (h : IsAscending places) {i j : Nat} (hi : i < places.length)
    (hj : j < places.length) : places[i] ≤ places[j] ↔ i ≤ j := by
  have hlt := List.pairwise_iff_getElem.mp h
  constructor
  · intro hle
    by_contra hij
    exact absurd (hlt j i hj hi (not_le.mp hij)) (not_lt.mpr hle)
  · intro hij
    rcases hij.eq_or_lt with rfl | hij
    · exact le_rfl
    · exact (hlt i j hi hj hij).le

/-- A place is up to a point just when it is up to the last place that is. -/
theorem le_iff_le_start (h : IsAscending places) (x : EReal) {v : EReal} (hv : v ∈ places) :
    v ≤ x ↔ ∃ i, places.countP (· ≤ x) = i + 1 ∧ ∃ start, places[i]? = some start ∧ v ≤ start := by
  obtain ⟨j, hj, rfl⟩ := List.getElem_of_mem hv
  rw [getElem_le_iff h x hj]
  have hcount : places.countP (· ≤ x) ≤ places.length := List.countP_le_length
  constructor
  · intro hlt
    obtain ⟨i, hi⟩ := Nat.exists_eq_succ_of_ne_zero (Nat.ne_of_gt (Nat.zero_lt_of_lt hlt))
    have hlength : i < places.length := by omega
    exact ⟨i, hi, _, List.getElem?_eq_getElem hlength,
      (getElem_le_getElem_iff h hj hlength).mpr (by omega)⟩
  · rintro ⟨i, hi, start, hstart, hle⟩
    obtain ⟨hlength, rfl⟩ := List.getElem?_eq_some_iff.mp hstart
    have hji := (getElem_le_getElem_iff h hj hlength).mp hle
    omega

/-- A place is above a point just when the first place that is above the point is up to it. -/
theorem lt_iff_stop_le (h : IsAscending places) (x : EReal) {v : EReal} (hv : v ∈ places) :
    x < v ↔ ∃ stop, places[places.countP (· ≤ x)]? = some stop ∧ stop ≤ v := by
  obtain ⟨j, hj, rfl⟩ := List.getElem_of_mem hv
  rw [← not_le, getElem_le_iff h x hj, not_lt]
  constructor
  · intro hle
    exact ⟨_, List.getElem?_eq_getElem (hle.trans_lt hj),
      (getElem_le_getElem_iff h _ hj).mpr hle⟩
  · rintro ⟨stop, hstop, hle⟩
    obtain ⟨hlength, rfl⟩ := List.getElem?_eq_some_iff.mp hstop
    exact (getElem_le_getElem_iff h hlength hj).mp hle

/-- The places of an ascending list up to a point, counted as a set. -/
theorem ncard_le_eq_countP (h : IsAscending places) (x : EReal) :
    {v | v ∈ places ∧ v ≤ x}.ncard = places.countP (· ≤ x) := by
  have hset : {v | v ∈ places ∧ v ≤ x} = ((places.filter (· ≤ x)).toFinset : Set EReal) := by
    ext v
    simp
  have hnodup : (places.filter (· ≤ x)).Nodup := h.nodup.filter _
  rw [hset, Set.ncard_coe_finset, List.toFinset_card_of_nodup hnodup, List.countP_eq_length_filter]

end

end Ranges

/-! ## Segments -/

/-- Whether a number lies in a range; an absent bound leaves its side open. -/
def RangeSpec.Covers (spec : RangeSpec) (x : EReal) : Prop :=
  (∀ low ∈ spec.low, low.place ≤ x) ∧ ∀ high ∈ spec.high, x < high.place

namespace Ranges

/-- The segment of a number: how many different declared bounds are not above it. -/
noncomputable def segmentAt (r : Ranges) (x : EReal) : Nat :=
  {v : EReal | (∃ b, r.IsBound b ∧ b.place = v) ∧ v ≤ x}.ncard

theorem segmentAt_eq_countP {r : Ranges} (hbounds : ∀ b, r.IsBound b → b.isNaN = false)
    (x : EReal) : r.segmentAt x = (r.boundaries.map Binary64.place).countP (· ≤ x) := by
  obtain ⟨hascending, -, hplaces⟩ := boundaries_spec hbounds
  rw [← ncard_le_eq_countP hascending x, segmentAt]
  simp only [hplaces]

/-- The segment of a number is inside a range just when the number is. -/
theorem contains_segmentAt_iff {r : Ranges} (hbounds : ∀ b, r.IsBound b → b.isNaN = false)
    (x : EReal) {spec : RangeSpec} (hspec : spec ∈ r.specs) :
    r.contains spec (r.segmentAt x) = true ↔ spec.Covers x := by
  obtain ⟨hascending, hnumbers, hplaces⟩ := boundaries_spec hbounds
  rw [segmentAt_eq_countP hbounds, contains, isInside, Bool.and_eq_true, RangeSpec.Covers]
  apply and_congr
  · cases hlow : spec.low with
    | none => simp
    | some low =>
        have hbound : r.IsBound low := ⟨spec, hspec, Or.inl hlow⟩
        have hle := le_iff_le_start hascending x ((hplaces low.place).mpr ⟨low, hbound, rfl⟩)
        simp only [Option.mem_def, Option.some.injEq, forall_eq', hle]
        cases hcount : (r.boundaries.map Binary64.place).countP (· ≤ x) with
        | zero => simp
        | succ i =>
            simp only [List.getElem?_map, Nat.succ_ne_zero, if_false, Nat.add_sub_cancel]
            cases hstart : r.boundaries[i]? with
            | none => simp [hstart]
            | some start =>
                have hatMost := Binary64.atMost_iff (hbounds low hbound)
                  (hnumbers start (List.mem_of_getElem? hstart))
                simp [hstart, hatMost]
  · cases hhigh : spec.high with
    | none => simp
    | some high =>
        have hbound : r.IsBound high := ⟨spec, hspec, Or.inr hhigh⟩
        have hlt := lt_iff_stop_le hascending x ((hplaces high.place).mpr ⟨high, hbound, rfl⟩)
        simp only [Option.mem_def, Option.some.injEq, forall_eq', hlt, List.getElem?_map]
        cases hstop : r.boundaries[(r.boundaries.map Binary64.place).countP (· ≤ x)]? with
        | none => simp
        | some stop =>
            have hatMost := Binary64.atMost_iff (hnumbers stop (List.mem_of_getElem? hstop))
              (hbounds high hbound)
            simp [hatMost]

/-! ## Rows -/

/-- Whether a number lies in the range at a position. -/
def CoversAt (r : Ranges) (x : EReal) (i : Nat) : Prop :=
  ∃ spec, r.specs[i]? = some spec ∧ spec.Covers x

/-- The list that the buckets of the ranges start as. -/
def presetList (r : Ranges) : BucketList Output :=
  .preset (if r.keyed then .keyed else .array) r.buckets

theorem mem_containing_segmentAt {r : Ranges} (hbounds : ∀ b, r.IsBound b → b.isNaN = false)
    (x : EReal) (i : Nat) : i ∈ r.containing (r.segmentAt x) ↔ r.CoversAt x i := by
  unfold containing CoversAt
  simp only [List.mem_map, List.mem_filter, Prod.exists, exists_eq_right]
  apply exists_congr
  intro spec
  rw [List.mem_zipIdx_iff_getElem?]
  apply and_congr_right
  intro hspec
  exact contains_segmentAt_iff hbounds x (List.mem_of_getElem? hspec)

/-- The positions of the ranges around a segment run upward. -/
theorem pairwise_containing (r : Ranges) (segment : Nat) :
    (r.containing segment).Pairwise (· < ·) := by
  unfold containing
  apply List.Pairwise.sublist (List.filter_sublist.map Prod.snd)
  rw [List.zipIdx_map_snd]
  exact List.pairwise_lt_range'

theorem getElem?_foldl_modify {α : Type} (f : α → α) {positions : List Nat}
    (hnodup : positions.Nodup) (entries : List α) (i : Nat) :
    (positions.foldl (fun entries index => entries.modify index f) entries)[i]? =
      if i ∈ positions then entries[i]?.map f else entries[i]? := by
  induction positions generalizing entries with
  | nil => rfl
  | cons index rest ih =>
      rw [List.nodup_cons] at hnodup
      rw [List.foldl_cons, ih hnodup.2, List.getElem?_modify]
      by_cases hindex : index = i
      · subst hindex
        simp [hnodup.1]
      · simp [hindex, Ne.symm hindex]

/-- Counting changes nothing but the entries. -/
theorem countAt_list (name : String) (positions : List Nat) (docs : Nat)
    (list : BucketList Output) :
    (Node.countAt name positions docs list).2 =
      { list with entries := (Node.countAt name positions docs list).2.entries } := by
  unfold Node.countAt
  dsimp only
  induction positions generalizing list with
  | nil => rfl
  | cons index rest ih => exact ih _

/-- The ranges count a row by its segment. -/
theorem place_eq_countAt {r : Ranges} {column : String} {row : Row} {segment : Nat}
    (hsegment : segment? column row = some segment) (name countColumn : String) {level : Level}
    {list : BucketList Output}
    (hlist : (level.get? name).getD (.buckets r.presetList) = .buckets list) :
    r.place name column countColumn row level =
      let counted := Node.countAt name (r.containing segment) (row.count countColumn) list
      (counted.1, (level.ensure name (.buckets r.presetList)).set name (.buckets counted.2)) := by
  have hensured : (level.ensure name (.buckets r.presetList)).get? name =
      some (.buckets list) := by
    rw [Level.get?_ensure, if_pos rfl, hlist]
  unfold place Level.onBuckets
  rw [hsegment]
  dsimp only
  rw [presetList] at hensured
  rw [hensured]
  dsimp only [presetList]
  cases hcontaining : r.containing segment <;> rfl

/-- The segment of a number tells its ranges, whatever the ranges are. So a row in the segment of a
number is counted in every range that the number lies in and in no other, nothing else changes, and
the row goes on in the first of them. -/
theorem place_segmentAt {r : Ranges} (hbounds : ∀ b, r.IsBound b → b.isNaN = false) (x : EReal) :
    (∀ spec ∈ r.specs, r.contains spec (r.segmentAt x) = true ↔ spec.Covers x) ∧
    ∀ {column : String} {row : Row}, segment? column row = some (r.segmentAt x) →
      ∀ (name countColumn : String) {level : Level} {list : BucketList Output},
        (level.get? name).getD (.buckets r.presetList) = .buckets list →
        let placed := r.place name column countColumn row level
        (placed.1 = .skip ↔ ∀ i, ¬ r.CoversAt x i) ∧
        (∀ i, placed.1 = .descend (.bucket name i) ↔
          r.CoversAt x i ∧ ∀ j < i, ¬ r.CoversAt x j) ∧
        ∃ entries,
          placed.2 = (level.ensure name (.buckets r.presetList)).set name
            (.buckets { list with entries := entries }) ∧
          (∀ i, r.CoversAt x i →
            entries[i]? = list.entries[i]?.map fun b => b.addDocs (row.count countColumn)) ∧
          ∀ i, ¬ r.CoversAt x i → entries[i]? = list.entries[i]? := by
  refine ⟨fun spec hspec => contains_segmentAt_iff hbounds x hspec, ?_⟩
  intro column row hsegment name countColumn level list hlist
  have hmem := mem_containing_segmentAt hbounds x
  have hascending := pairwise_containing r (r.segmentAt x)
  rw [place_eq_countAt hsegment name countColumn hlist]
  refine ⟨?_, fun i => ?_, (Node.countAt name (r.containing (r.segmentAt x))
    (row.count countColumn) list).2.entries, ?_, fun i hi => ?_, fun i hi => ?_⟩
  · simp only [← hmem]
    cases hcontaining : r.containing (r.segmentAt x) with
    | nil => simp [Node.countAt]
    | cons first rest =>
        simp only [Node.countAt, reduceCtorEq, false_iff, not_forall, not_not]
        exact ⟨first, List.mem_cons_self⟩
  · simp only [← hmem]
    cases hcontaining : r.containing (r.segmentAt x) with
    | nil => simp [Node.countAt]
    | cons first rest =>
        rw [hcontaining, List.pairwise_cons] at hascending
        simp only [Node.countAt, Step.descend.injEq, Segment.bucket.injEq, true_and]
        constructor
        · rintro rfl
          refine ⟨List.mem_cons_self, fun j hj hin => ?_⟩
          rcases List.mem_cons.mp hin with rfl | hin
          · exact lt_irrefl _ hj
          · exact lt_asymm hj (hascending.1 j hin)
        · rintro ⟨hin, hfirst⟩
          rcases List.mem_cons.mp hin with rfl | hin
          · rfl
          · exact absurd List.mem_cons_self (hfirst first (hascending.1 i hin))
  · dsimp only
    rw [← countAt_list]
  · rw [Node.entries_countAt, getElem?_foldl_modify _ hascending.nodup,
      if_pos ((hmem i).mpr hi)]
  · rw [Node.entries_countAt, getElem?_foldl_modify _ hascending.nodup,
      if_neg (mt (hmem i).mp hi)]

/-- Ranges that overlap, share a bound and run backward. -/
def tangled : Ranges where
  field := "bytes"
  specs := [⟨"low", none, some 10⟩, ⟨"middle", some 5, some 20⟩, ⟨"high", some 10, none⟩,
    ⟨"backward", some 20, some 10⟩]
  keyed := false
  dates := false

theorem isNaN_of_isBound_tangled (b : Binary64) (hb : tangled.IsBound b) : b.isNaN = false := by
  have hall : ∀ spec ∈ tangled.specs, (∀ b ∈ spec.low, b.isNaN = false) ∧
      ∀ b ∈ spec.high, b.isNaN = false := by decide +kernel
  obtain ⟨spec, hspec, hb⟩ := hb
  rcases hb with hb | hb
  · exact (hall spec hspec).1 b hb
  · exact (hall spec hspec).2 b hb

theorem segmentAt_tangled : tangled.segmentAt (12 : ℝ) = 2 := by
  have hboundaries : tangled.boundaries = [.finite 5, .finite 10, .finite 20] := by decide +kernel
  have hplace (q : ℚ) : (Binary64.finite q).place = ((q : ℝ) : EReal) := rfl
  rw [segmentAt_eq_countP isNaN_of_isBound_tangled, hboundaries]
  simp only [List.map_cons, List.map_nil, hplace, List.countP_cons, List.countP_nil,
    EReal.coe_le_coe_iff]
  norm_num

/-- A row with twelve bytes goes on in the second of the ranges, and is not counted in the first. -/
theorem place_tangled_twelve :
    let placed := tangled.place "r" "al1" "cnt"
      (Row.ofCells [("al1", .ofNat 2), ("cnt", .ofNat 7)] .engine) []
    placed.1 = .descend (.bucket "r" 1) ∧
      ∃ entries, placed.2 =
          Level.set (Level.ensure [] "r" (.buckets tangled.presetList)) "r"
            (.buckets { tangled.presetList with entries := entries }) ∧
        entries[0]? = tangled.presetList.entries[0]? ∧
        entries[2]? = tangled.presetList.entries[2]?.map fun b => b.addDocs 7 := by
  have hcovers (i : Nat) : tangled.CoversAt (12 : ℝ) i ↔ i ∈ [1, 2] := by
    have hcontaining : tangled.containing 2 = [1, 2] := by decide +kernel
    rw [← mem_containing_segmentAt isNaN_of_isBound_tangled, segmentAt_tangled, hcontaining]
  have hsegment : segment? "al1" (Row.ofCells [("al1", .ofNat 2), ("cnt", .ofNat 7)] .engine) =
      some (tangled.segmentAt (12 : ℝ)) := by
    rw [segmentAt_tangled]
    decide +kernel
  have hcount : (Row.ofCells [("al1", .ofNat 2), ("cnt", .ofNat 7)] .engine).count "cnt" = 7 := by
    decide +kernel
  have hlist : (Level.get? [] "r").getD (.buckets tangled.presetList) =
      .buckets tangled.presetList := rfl
  obtain ⟨-, hstep, entries, hlevel, hcounted, hkept⟩ :=
    (place_segmentAt isNaN_of_isBound_tangled (12 : ℝ)).2 hsegment "r" "cnt" hlist
  refine ⟨(hstep 1).mpr ⟨(hcovers 1).mpr (by decide), fun j hj => ?_⟩, entries, hlevel,
    hkept 0 (mt (hcovers 0).mp (by decide)), ?_⟩
  · rw [Nat.lt_one_iff.mp hj]
    exact mt (hcovers 0).mp (by decide)
  · rw [hcounted 2 ((hcovers 2).mpr (by decide)), hcount]

end Ranges
end Rollup
