/-
# Items in order

Items that are compared by their ranks come out in the order of the ranks. Where the order of ranks
is transitive, items that tie keep the order they had, so leaving items out before the sort or after
it makes no difference. Where different ranks do not compare as equal, the order is the only one,
whatever order the items had before.
-/

import Mathlib.Data.List.Induction
import Mathlib.Order.Defs.LinearOrder
import Rollup.Order

namespace Rollup.Order

variable {α β : Type} {compare : α → α → Ordering} {rank : α → β} {order : β → β → Ordering}

/-! ## Ranks -/

theorem map_insertReversed {item : α} {sorted : List α}
    (h : ∀ other ∈ sorted, compare item other = order (rank item) (rank other)) :
    (insertReversed compare item sorted).map rank =
      insertReversed order (rank item) (sorted.map rank) := by
  induction sorted with
  | nil => rfl
  | cons last before ih =>
      rw [insertReversed, List.map_cons, insertReversed, ← h last (by simp)]
      split
      · rw [List.map_cons, ih fun other hother => h other (by simp [hother])]
      · rfl

theorem map_sortReversed {items : List α}
    (h : ∀ a ∈ items, ∀ b ∈ items, compare a b = order (rank a) (rank b)) :
    (sortReversed compare items).map rank = sortReversed order (items.map rank) := by
  induction items using List.reverseRecOn with
  | nil => rfl
  | append_singleton before item ih =>
      have hbefore : (sortReversed compare before).map rank =
          sortReversed order (before.map rank) :=
        ih fun a ha b hb => h a (by simp [ha]) b (by simp [hb])
      unfold sortReversed at hbefore ⊢
      rw [List.foldl_append, List.map_append, List.foldl_append, ← hbefore]
      apply map_insertReversed
      intro other hother
      exact h item (by simp) other (by simp [(sortReversed_perm compare before).mem_iff.mp hother])

/-- Items are ordered as their ranks are. -/
theorem map_sortBy {items : List α}
    (h : ∀ a ∈ items, ∀ b ∈ items, compare a b = order (rank a) (rank b)) :
    (sortBy compare items).map rank = sortBy order (items.map rank) := by
  unfold sortBy
  rw [List.length_map]
  split
  · rw [List.map_reverse, map_sortReversed h]
  · apply List.map_mergeSort
    intro a ha b hb
    rw [h a ha b hb]

/-- Items are sorted by what compares them as they are compared. -/
theorem sortBy_congr {compare other : α → α → Ordering} {items : List α}
    (h : ∀ a ∈ items, ∀ b ∈ items, compare a b = other a b) :
    sortBy compare items = sortBy other items := by
  have hmap := @map_sortBy α α compare id other items h
  rwa [List.map_id, List.map_id] at hmap

/-! ## Sorted lists -/

section

variable [Std.TransCmp order]

theorem pairwise_insertReversed {item : β} {sorted : List β}
    (h : sorted.Pairwise fun a b => (order b a).isLE = true) :
    (insertReversed order item sorted).Pairwise fun a b => (order b a).isLE = true := by
  induction h with
  | nil => exact List.pairwise_singleton _ item
  | @cons last before hlast hbefore ih =>
      unfold insertReversed
      split
      · rename_i hlt
        refine List.pairwise_cons.mpr ⟨fun other hother => ?_, ih⟩
        rcases List.mem_cons.mp ((insertReversed_perm order item before).mem_iff.mp hother) with
          rfl | hmem
        · rw [hlt]
          rfl
        · exact hlast other hmem
      · rename_i hnot
        have hle : (order last item).isLE = true := by
          have hswap : order last item = (order item last).swap := Std.OrientedCmp.eq_swap
          rw [hswap]
          cases hcase : order item last <;> simp_all
        refine List.pairwise_cons.mpr ⟨fun other hother => ?_, List.pairwise_cons.mpr
          ⟨hlast, hbefore⟩⟩
        rcases List.mem_cons.mp hother with rfl | hmem
        · exact hle
        · exact Std.TransCmp.isLE_trans (hlast other hmem) hle

theorem pairwise_sortReversed (items : List β) :
    (sortReversed order items).Pairwise fun a b => (order b a).isLE = true := by
  induction items using List.reverseRecOn with
  | nil => exact List.Pairwise.nil
  | append_singleton before item ih =>
      unfold sortReversed at ih ⊢
      rw [List.foldl_append]
      exact pairwise_insertReversed ih

/-- What is sorted runs upward. -/
theorem pairwise_sortBy (items : List β) :
    (sortBy order items).Pairwise fun a b => (order a b).isLE = true := by
  unfold sortBy
  split
  · rw [List.pairwise_reverse]
    exact pairwise_sortReversed items
  · have hle (a b : β) : (order a b != .gt) = (order a b).isLE := by cases order a b <;> rfl
    simp only [hle]
    apply List.pairwise_mergeSort
    · exact fun a b c hab hbc => Std.TransCmp.isLE_trans hab hbc
    · intro a b
      have hswap : order b a = (order a b).swap := Std.OrientedCmp.eq_swap
      rw [hswap]
      cases order a b <;> rfl

/-- Without ties there is one order. -/
theorem sortBy_eq_of_perm {items others : List β} (hperm : items.Perm others)
    (hties : ∀ a ∈ items, ∀ b ∈ items, order a b = .eq → a = b) :
    sortBy order items = sortBy order others := by
  have hboth := (sortBy_perm order items).trans (hperm.trans (sortBy_perm order others).symm)
  refine hboth.eq_of_pairwise ?_ (pairwise_sortBy items) (pairwise_sortBy others)
  intro a b ha hb hab hba
  refine hties a ((sortBy_perm order items).mem_iff.mp ha) b ?_ ?_
  · exact hperm.mem_iff.mpr ((sortBy_perm order others).mem_iff.mp hb)
  · have hswap : order b a = (order a b).swap := Std.OrientedCmp.eq_swap
    rw [hswap] at hba
    cases hcase : order a b <;> simp_all

/-! ## Ties -/

theorem order_eq_symm {a b : β} (h : order a b = .eq) : order b a = .eq := by
  have hswap : order b a = (order a b).swap := Std.OrientedCmp.eq_swap
  rw [hswap, h]
  rfl

theorem order_eq_trans {a b c : β} (hab : order a b = .eq) (hbc : order b c = .eq) :
    order a c = .eq := by
  rw [← hbc]
  exact Std.TransCmp.congr_left hab

/-- Of the items that tie with a given one, the later stay behind the earlier. -/
theorem filter_insertReversed_ties (given item : β) (sorted : List β)
    (h : sorted.Pairwise fun a b => (order b a).isLE = true) :
    (insertReversed order item sorted).filter (order given · = .eq) =
      (item :: sorted).filter (order given · = .eq) := by
  induction h with
  | nil => rfl
  | @cons last before hlast hbefore ih =>
      unfold insertReversed
      split
      · rename_i hlt
        by_cases hgiven : order given item = .eq
        · have hapart : order given last ≠ .eq := by
            intro htie
            rw [order_eq_trans (order_eq_symm hgiven) htie] at hlt
            cases hlt
          rw [List.filter_cons_of_neg (by simpa using hapart), ih,
            List.filter_cons_of_pos (by simpa using hgiven),
            List.filter_cons_of_pos (by simpa using hgiven),
            List.filter_cons_of_neg (by simpa using hapart)]
        · rw [List.filter_cons, ih, List.filter_cons_of_neg (by simpa using hgiven),
            List.filter_cons_of_neg (by simpa using hgiven), List.filter_cons]
      · rfl

theorem filter_sortReversed_ties (given : β) (items : List β) :
    (sortReversed order items).filter (order given · = .eq) =
      (items.filter (order given · = .eq)).reverse := by
  induction items using List.reverseRecOn with
  | nil => rfl
  | append_singleton before item ih =>
      have hsorted : (sortReversed order before).Pairwise fun a b => (order b a).isLE = true :=
        pairwise_sortReversed before
      unfold sortReversed at ih hsorted ⊢
      rw [List.foldl_append, List.foldl_cons, List.foldl_nil,
        filter_insertReversed_ties given item _ hsorted, List.filter_cons, ih, List.filter_append,
        List.reverse_append, List.filter_cons, List.filter_nil]
      split <;> rfl

/-- Items that tie keep their order. -/
theorem filter_sortBy_ties (given : β) (items : List β) :
    (sortBy order items).filter (order given · = .eq) = items.filter (order given · = .eq) := by
  unfold sortBy
  split
  · rw [List.filter_reverse, filter_sortReversed_ties, List.reverse_reverse]
  · have hle (a b : β) : (order a b != .gt) = (order a b).isLE := by cases order a b <;> rfl
    simp only [hle]
    have htied : (items.filter (order given · = .eq)).Pairwise fun a b =>
        (order a b).isLE = true := by
      refine List.pairwise_of_forall_mem_list fun a ha b hb => ?_
      have hga : order given a = .eq := by simpa using (List.mem_filter.mp ha).2
      have hgb : order given b = .eq := by simpa using (List.mem_filter.mp hb).2
      rw [order_eq_trans (order_eq_symm hga) hgb]
      rfl
    have htrans (a b c : β) (hab : (order a b).isLE = true) (hbc : (order b c).isLE = true) :
        (order a c).isLE = true := Std.TransCmp.isLE_trans hab hbc
    have htotal (a b : β) : ((order a b).isLE || (order b a).isLE) = true := by
      have hswap : order b a = (order a b).swap := Std.OrientedCmp.eq_swap
      rw [hswap]
      cases order a b <;> rfl
    have hsublist :=
      (List.sublist_mergeSort htrans htotal htied List.filter_sublist).filter (order given · = .eq)
    rw [List.filter_filter] at hsublist
    simp only [Bool.and_self] at hsublist
    refine (hsublist.eq_of_length ?_).symm
    exact ((List.mergeSort_perm items _).symm.filter _).length_eq

/-- What is sorted and keeps its ties in order is settled. -/
theorem eq_of_ties {items others : List β} (hperm : items.Perm others)
    (hitems : items.Pairwise fun a b => (order a b).isLE = true)
    (hothers : others.Pairwise fun a b => (order a b).isLE = true)
    (hties : ∀ given, items.filter (order given · = .eq) = others.filter (order given · = .eq)) :
    items = others := by
  induction items generalizing others with
  | nil => exact hperm.nil_eq
  | cons first rest ih =>
      cases others with
      | nil => exact absurd hperm.eq_nil (by simp)
      | cons other others =>
          obtain ⟨hfirst, hrest⟩ := List.pairwise_cons.mp hitems
          obtain ⟨hother, hlater⟩ := List.pairwise_cons.mp hothers
          have hself (a : β) : order a a = .eq := Std.ReflCmp.compare_self
          have htie : order first other = .eq := by
            have hle : (order first other).isLE = true := by
              rcases List.mem_cons.mp (hperm.mem_iff.mpr (List.mem_cons_self)) with rfl | hmem
              · rw [hself]; rfl
              · exact hfirst other hmem
            have hge : (order other first).isLE = true := by
              rcases List.mem_cons.mp (hperm.mem_iff.mp (List.mem_cons_self)) with rfl | hmem
              · rw [hself]; rfl
              · exact hother first hmem
            have hswap : order other first = (order first other).swap := Std.OrientedCmp.eq_swap
            rw [hswap] at hge
            cases hcase : order first other <;> simp_all
          obtain rfl : first = other := by
            have hboth := hties first
            rw [List.filter_cons_of_pos (by simpa using hself first),
              List.filter_cons_of_pos (by simpa using htie)] at hboth
            exact (List.cons.inj hboth).1
          congr 1
          refine ih ((List.perm_cons first).mp hperm) hrest hlater fun given => ?_
          have hboth := hties given
          rw [List.filter_cons, List.filter_cons] at hboth
          split at hboth
          · exact (List.cons.inj hboth).2
          · exact hboth

/-- Items may be left out before they are sorted or after. -/
theorem filter_sortBy (keep : β → Bool) (items : List β) :
    (sortBy order items).filter keep = sortBy order (items.filter keep) := by
  have hkept : ((sortBy order items).filter keep).Pairwise fun a b => (order a b).isLE = true :=
    (pairwise_sortBy items).filter keep
  refine eq_of_ties ?_ hkept (pairwise_sortBy (items.filter keep)) fun given => ?_
  · exact ((sortBy_perm order items).filter keep).trans
      (sortBy_perm order (items.filter keep)).symm
  · rw [filter_sortBy_ties, List.filter_filter, List.filter_filter]
    simp only [Bool.and_comm]
    rw [← List.filter_filter, filter_sortBy_ties, List.filter_filter]

/-- A comparison of what belongs to the items. -/
theorem transCmp_comap (rank : α → β) : Std.TransCmp fun a b => order (rank a) (rank b) where
  eq_swap := Std.OrientedCmp.eq_swap
  isLE_trans := Std.TransCmp.isLE_trans

/-- Items that are compared by what belongs to them may be left out before they are sorted or
after. -/
theorem filter_sortBy_of_rank {items : List α}
    (h : ∀ a ∈ items, ∀ b ∈ items, compare a b = order (rank a) (rank b)) (keep : α → Bool) :
    (sortBy compare items).filter keep = sortBy compare (items.filter keep) := by
  have htrans : Std.TransCmp fun a b => order (rank a) (rank b) := transCmp_comap rank
  rw [sortBy_congr h, filter_sortBy]
  exact (sortBy_congr fun a ha b hb =>
    h a (List.mem_filter.mp ha).1 b (List.mem_filter.mp hb).1).symm

end

end Rollup.Order
