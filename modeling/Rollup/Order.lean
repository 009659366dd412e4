/-
# Stable order

A short list is sorted by insertion: each item goes in behind all items that it does not precede.
A long list is halved and merged. Items that compare as equal keep their order, and a comparison
that is no order at all still gives a rearrangement of the items.
-/

namespace Rollup.Order

variable {α : Type}

/-- Insert an item into a list that runs from the last item to the first. -/
def insertReversed (compare : α → α → Ordering) (item : α) : List α → List α
  | [] => [item]
  | last :: before =>
      if compare item last = .lt then last :: insertReversed compare item before
      else item :: last :: before

/-- The items in order, from the last to the first. -/
def sortReversed (compare : α → α → Ordering) (items : List α) : List α :=
  items.foldl (fun sorted item => insertReversed compare item sorted) []

/-- The length up to which a list is sorted by insertion. -/
def insertionLimit : Nat := 20

/-- The items in order. -/
def sortBy (compare : α → α → Ordering) (items : List α) : List α :=
  if items.length ≤ insertionLimit then (sortReversed compare items).reverse
  else items.mergeSort fun a b => compare a b != .gt

/-- Turn an order around for a descending direction. -/
def directed (descending : Bool) (o : Ordering) : Ordering :=
  if descending then o.swap else o

theorem insertReversed_perm (compare : α → α → Ordering) (item : α) (sorted : List α) :
    (insertReversed compare item sorted).Perm (item :: sorted) := by
  induction sorted with
  | nil => exact List.Perm.refl _
  | cons last before ih =>
      unfold insertReversed
      split
      · exact (List.Perm.cons last ih).trans (List.Perm.swap item last before)
      · exact List.Perm.refl _

theorem sortReversed_perm (compare : α → α → Ordering) (items : List α) :
    (sortReversed compare items).Perm items := by
  suffices h : ∀ (items sorted : List α),
      (items.foldl (fun sorted item => insertReversed compare item sorted) sorted).Perm
        (sorted ++ items) by
    simpa [sortReversed] using h items []
  intro items
  induction items with
  | nil => intro sorted; simp
  | cons item rest ih =>
      intro sorted
      refine (ih _).trans ?_
      refine ((insertReversed_perm compare item sorted).append_right rest).trans ?_
      simpa using (@List.perm_middle _ item sorted rest).symm

/-- Sorting rearranges the items, whatever the comparison. -/
theorem sortBy_perm (compare : α → α → Ordering) (items : List α) :
    (sortBy compare items).Perm items := by
  unfold sortBy
  split
  · exact (List.reverse_perm _).trans (sortReversed_perm compare items)
  · exact List.mergeSort_perm items _

end Rollup.Order
