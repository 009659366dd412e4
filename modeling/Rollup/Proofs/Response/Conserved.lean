/-
# Documents of finished lists

A list of buckets is finished inside its buckets first. Of those with enough documents it then
keeps the first in its order, as many as its size allows, and the documents of all others are
accounted for: those of the buckets beyond the size are counted as other documents, those of the
buckets with too few are not counted anywhere. The same is said of every list inside the buckets
that stay. Where the buckets compare consistently nothing else can come out of a list.
-/

import Mathlib.Data.List.Forall2
import Rollup.Proofs.Response.Listing
import Rollup.Proofs.Rows.Comparisons

namespace Rollup

/-! ## Stable order -/

namespace Order

variable {α : Type} {compare : α → α → Ordering} {items sorted : List α}

/-- Whether items are the given ones in ascending order, and those that tie stand as they stood. -/
structure IsStableSort (compare : α → α → Ordering) (items sorted : List α) : Prop where
  perm : sorted.Perm items
  ascending : sorted.Pairwise fun a b => (compare a b).isLE = true
  ties : ∀ given ∈ items,
    sorted.filter (compare given · = .eq) = items.filter (compare given · = .eq)

/-- Items that compare consistently are sorted, and stably. -/
theorem IsStableSort.sortBy (h : IsOrderOn compare {a | a ∈ items}) :
    IsStableSort compare items (sortBy compare items) := by
  -- The comparison is an order on the items only, so they are sorted as members of the list.
  let inside (a b : {a // a ∈ items}) : Ordering := compare a b
  have horder : Std.TransCmp inside := h
  have hitems : items.attach.map Subtype.val = items := List.attach_map_subtype_val items
  have hsorted : (Order.sortBy inside items.attach).map Subtype.val =
      Order.sortBy compare items := by
    have hmap : (Order.sortBy inside items.attach).map Subtype.val =
        Order.sortBy compare (items.attach.map Subtype.val) :=
      map_sortBy fun _ _ _ _ => rfl
    rw [hmap, hitems]
  refine ⟨sortBy_perm compare items, ?_, fun given hgiven => ?_⟩
  · rw [← hsorted, List.pairwise_map]
    exact pairwise_sortBy items.attach
  · have hmembers : (Order.sortBy inside items.attach).filter (inside ⟨given, hgiven⟩ · = .eq) =
        items.attach.filter (inside ⟨given, hgiven⟩ · = .eq) :=
      filter_sortBy_ties ⟨given, hgiven⟩ items.attach
    have hties := congrArg (List.map Subtype.val) hmembers
    rw [← hsorted]
    conv_rhs => rw [← hitems]
    rw [List.filter_map, List.filter_map]
    exact hties

/-- Items may be left out after the sort. -/
theorem IsStableSort.filter (h : IsStableSort compare items sorted) (keep : α → Bool) :
    IsStableSort compare (items.filter keep) (sorted.filter keep) where
  perm := h.perm.filter keep
  ascending := h.ascending.filter keep
  ties given hgiven := by
    rw [List.filter_comm, h.ties given (List.mem_of_mem_filter hgiven), List.filter_comm]

/-- What compares as the items do is sorted as they are. -/
theorem IsStableSort.map (h : IsStableSort compare items sorted) {f : α → α}
    (hf : ∀ a b, compare (f a) (f b) = compare a b) :
    IsStableSort compare (items.map f) (sorted.map f) where
  perm := h.perm.map f
  ascending := List.pairwise_map.mpr (h.ascending.imp fun hle => by rwa [hf])
  ties given hgiven := by
    obtain ⟨a, ha, rfl⟩ := List.mem_map.mp hgiven
    have hties := congrArg (List.map f) (h.ties a ha)
    rw [List.filter_map, List.filter_map]
    simpa only [Function.comp_def, hf] using hties

/-- Some of the items compare consistently if all do. -/
theorem IsOrderOn.mono {given larger : Set α} (h : IsOrderOn compare larger)
    (hsubset : ∀ a ∈ given, a ∈ larger) : IsOrderOn compare given :=
  @transCmp_comap _ _ _ h fun a : given => (⟨a, hsubset a a.2⟩ : larger)

/-- What compares as the items do compares as consistently. -/
theorem IsOrderOn.map (h : IsOrderOn compare {a | a ∈ items}) {f : α → α}
    (hf : ∀ a b, compare (f a) (f b) = compare a b) : IsOrderOn compare {a | a ∈ items.map f} := by
  have hchoice (b : {b | b ∈ items.map f}) : ∃ a : {a | a ∈ items}, f a = b := by
    obtain ⟨a, ha, hfa⟩ := List.mem_map.mp b.2
    exact ⟨⟨a, ha⟩, hfa⟩
  choose before hbefore using hchoice
  have hcompare : (fun a b : {b | b ∈ items.map f} => compare a b) =
      fun a b => compare (before a) (before b) := by
    funext a b
    rw [← hbefore a, ← hbefore b, hf]
  unfold IsOrderOn
  rw [hcompare]
  exact @transCmp_comap _ _ _ h before

/-- There is one stable order. -/
theorem IsStableSort.unique (h : IsStableSort compare items sorted) {others : List α}
    (hothers : IsStableSort compare items others) (horder : IsOrderOn compare {a | a ∈ items}) :
    sorted = others := by
  have hinside {list : List α} (hlist : IsStableSort compare items list) :
      ∃ members : List {a // a ∈ items}, members.map Subtype.val = list :=
    ⟨_, List.attachWith_map_subtype_val fun a ha => hlist.perm.mem_iff.mp ha⟩
  obtain ⟨sorted, rfl⟩ := hinside h
  obtain ⟨others, rfl⟩ := hinside hothers
  let inside (a b : {a // a ∈ items}) : Ordering := compare a b
  have _ : Std.TransCmp inside := horder
  congr 1
  refine @eq_of_ties _ inside _ _ _ ?_ ?_ ?_ fun given => ?_
  · exact (List.map_perm_map_iff Subtype.val_injective).mp (h.perm.trans hothers.perm.symm)
  · exact List.pairwise_map.mp h.ascending
  · exact List.pairwise_map.mp hothers.ascending
  · have hties := (h.ties given given.2).trans (hothers.ties given given.2).symm
    rw [List.filter_map, List.filter_map] at hties
    exact List.map_injective_iff.mpr Subtype.val_injective hties

end Order

/-! ## The law of one list -/

namespace BucketList

theorem docCountOf_eq_sum {α : Type} (entries : List (Bucket α)) :
    docCountOf entries = (entries.map Bucket.docCount).sum := by
  rw [docCountOf, List.sum_eq_foldl]

theorem docCountOf_append {α : Type} (first second : List (Bucket α)) :
    docCountOf (first ++ second) = docCountOf first + docCountOf second := by
  simp only [docCountOf_eq_sum, List.map_append, List.sum_append]

theorem docCountOf_perm {α : Type} {first second : List (Bucket α)} (h : first.Perm second) :
    docCountOf first = docCountOf second := by
  simp only [docCountOf_eq_sum]
  exact (h.map _).sum_eq

/-- The documents of the buckets that are kept, and those of the buckets that are not. -/
theorem docCountOf_filter {α : Type} (entries : List (Bucket α)) (keep : Bucket α → Bool) :
    docCountOf (entries.filter keep) + docCountOf (entries.filter (!keep ·)) =
      docCountOf entries := by
  rw [← docCountOf_append]
  exact docCountOf_perm (List.filter_append_perm keep entries)

theorem docCountOf_finished (entries : List (Bucket Output)) :
    docCountOf (entries.map Bucket.finished) = docCountOf entries := by
  rw [docCountOf, List.map_map]
  rfl

/-- The buckets with too few documents. -/
def rare (finish : Finish) (entries : List (Bucket Output)) : List (Bucket Output) :=
  entries.filter fun b => b.docCount < finish.minDocCount

theorem docCountOf_frequent_add_rare (finish : Finish) (entries : List (Bucket Output)) :
    docCountOf (frequent finish entries) + docCountOf (rare finish entries) =
      docCountOf entries := by
  have hrare : rare finish entries =
      entries.filter fun b => !decide (finish.minDocCount ≤ b.docCount) := by
    simp only [rare, ← decide_not, not_le]
  rw [hrare]
  exact docCountOf_filter entries _

/-- As many items as a size allows. -/
def upTo {α : Type} (size : Option Nat) (items : List α) : List α :=
  match size with
  | some size => items.take size
  | none => items

/-- Whether buckets are ranked as a list says: put in its order where they compare consistently,
and as they stood where it has none. -/
structure IsRankedFor (list : BucketList Output) (entries ranked : List (Bucket Output)) :
    Prop where
  perm : ranked.Perm entries
  unordered : list.finish.order = none → ranked = entries
  ordered : ∀ order, list.finish.order = some order →
    Order.IsOrderOn order.compare {b | b ∈ list.entries} →
    Order.IsStableSort order.compare entries ranked

/-- What a list is cut to, given its buckets as they are finished inside: the first of those with
enough documents, the documents of all others being accounted for. -/
structure IsCutTo (list : BucketList Output) (closed : List (Bucket Output))
    (after : BucketList Output) : Prop where
  shape : after.shape = list.shape
  finish : after.finish = list.finish
  kept : ∃ ranked, list.IsRankedFor (frequent list.finish closed) ranked ∧
    after.entries = upTo list.finish.size ranked
  others : list.otherDocCount ≤ after.otherDocCount
  documents : docCountOf after.entries + (after.otherDocCount - list.otherDocCount) +
    docCountOf (rare list.finish list.entries) = docCountOf list.entries

variable {list : BucketList Output}

/-- The order of a list with its buckets finished inside is that of the list. -/
theorem isRankedFor_ordered (list : BucketList Output) :
    list.IsRankedFor (frequent list.finish (list.entries.map Bucket.finished))
      (frequent list.finish (ordered list.finish (list.entries.map Bucket.finished))) where
  perm := (ordered_perm _ _).filter _
  unordered hnone := by rw [ordered, hnone]
  ordered order hsome horder := by
    have hsorted := (Order.IsStableSort.sortBy horder).map BucketOrder.compare_finished
    rw [ordered_map_finished, ordered, hsome]
    exact hsorted.filter _

theorem entries_close (list : BucketList Output) : list.close.entries =
    upTo list.finish.size (frequent list.finish (ordered list.finish list.entries)) := by
  unfold close upTo
  cases list.finish.size <;> rfl

/-- No document with enough company is lost: it is in a bucket that is kept, or is counted. -/
theorem docCountOf_close (list : BucketList Output) :
    docCountOf list.close.entries + list.close.otherDocCount =
      list.otherDocCount + docCountOf (frequent list.finish list.entries) := by
  have hperm : docCountOf (frequent list.finish (ordered list.finish list.entries)) =
      docCountOf (frequent list.finish list.entries) :=
    docCountOf_perm ((ordered_perm list.finish list.entries).filter _)
  rw [← hperm]
  unfold close
  dsimp only
  split
  · rename_i size _
    conv_rhs => rw [← List.take_append_drop size (frequent _ _), docCountOf_append]
    exact Nat.add_left_comm _ _ _
  · exact Nat.add_comm _ _

theorem otherDocCount_le_close (list : BucketList Output) :
    list.otherDocCount ≤ list.close.otherDocCount := by
  unfold close
  dsimp only
  split
  · exact Nat.le_add_right _ _
  · exact Nat.le_refl _

/-- Closing a list cuts it. -/
theorem isCutTo_close (list : BucketList Output) :
    list.IsCutTo (list.entries.map Bucket.finished)
      (close { list with entries := list.entries.map Bucket.finished }) where
  shape := by
    unfold close
    dsimp only
    split <;> rfl
  finish := finish_close _
  kept := ⟨_, isRankedFor_ordered list, entries_close _⟩
  others := otherDocCount_le_close { list with entries := list.entries.map Bucket.finished }
  documents := by
    have hclose := docCountOf_close { list with entries := list.entries.map Bucket.finished }
    have hothers := otherDocCount_le_close { list with entries := list.entries.map Bucket.finished }
    have hparts := docCountOf_frequent_add_rare list.finish list.entries
    have hfrequent : docCountOf (frequent list.finish (list.entries.map Bucket.finished)) =
        docCountOf (frequent list.finish list.entries) := by
      rw [frequent, List.filter_map]
      exact docCountOf_finished _
    dsimp only at hclose hothers
    omega

theorem IsCutTo.eq_of_entries {closed : List (Bucket Output)} {after other : BucketList Output}
    (h : list.IsCutTo closed after) (hother : list.IsCutTo closed other)
    (hentries : after.entries = other.entries) : after = other := by
  have hshape : after.shape = other.shape := h.shape.trans hother.shape.symm
  have hfinish : after.finish = other.finish := h.finish.trans hother.finish.symm
  have hcount : after.otherDocCount = other.otherDocCount := by
    have hdocuments := h.documents.trans hother.documents.symm
    have hle := h.others
    have hle' := hother.others
    rw [hentries] at hdocuments
    omega
  clear h hother
  cases after
  cases other
  simp_all

/-- A list whose buckets compare consistently is cut in one way. -/
theorem IsCutTo.eq_close {after : BucketList Output}
    (h : list.IsCutTo (list.entries.map Bucket.finished) after)
    (hconsistent : ∀ order, list.finish.order = some order →
      Order.IsOrderOn order.compare {b | b ∈ list.entries}) :
    after = close { list with entries := list.entries.map Bucket.finished } := by
  have hclose := isCutTo_close list
  obtain ⟨ranked, hranked, hentries⟩ := h.kept
  obtain ⟨ranked', hranked', hentries'⟩ := hclose.kept
  have hsame : ranked = ranked' := by
    cases hfinish : list.finish.order with
    | none => rw [hranked.unordered hfinish, hranked'.unordered hfinish]
    | some order =>
        have horder := hconsistent order hfinish
        refine (hranked.ordered order hfinish horder).unique
          (hranked'.ordered order hfinish horder) ?_
        exact (horder.map BucketOrder.compare_finished).mono fun b hb => List.mem_of_mem_filter hb
  exact h.eq_of_entries hclose (by rw [hentries, hentries', hsame])

end BucketList

/-! ## The law of a tree -/

mutual

/-- What an output becomes when all rows are in: a list is cut, all that is inside of its buckets
having become what it becomes. -/
inductive Output.ClosesTo : Output → Output → Prop
  | buckets {list after : BucketList Output} {closed : List (Bucket Output)}
      (inside : List.Forall₂ Bucket.ClosesTo list.entries closed)
      (cut : list.IsCutTo closed after) : Output.ClosesTo (.buckets list) (.buckets after)
  | single {bucket after : Bucket Output} (inside : Bucket.ClosesTo bucket after) :
      Output.ClosesTo (.single bucket) (.single after)
  | metric (tally : Tally) : Output.ClosesTo (.metric tally) (.metric tally)

/-- What a bucket becomes: its identity, its key, its attributes and its documents stay. -/
inductive Bucket.ClosesTo : Bucket Output → Bucket Output → Prop
  | inner {bucket : Bucket Output} {level : Level}
      (outputs : List.Forall₂ Level.EntryClosesTo bucket.inner level) :
      Bucket.ClosesTo bucket { bucket with inner := level }

/-- What an output of a level becomes under its name. -/
inductive Level.EntryClosesTo : String × Output → String × Output → Prop
  | named {name : String} {output after : Output} (closes : Output.ClosesTo output after) :
      Level.EntryClosesTo (name, output) (name, after)

end

mutual

/-- Every output is finished by the law, however deep it is. -/
theorem Output.closesTo_finished (output : Output) : output.ClosesTo output.finished := by
  cases output with
  | buckets list =>
      obtain ⟨shape, finish, other, entries⟩ := list
      rw [Output.finished_buckets]
      exact .buckets (forall₂_finishedBuckets entries) (BucketList.isCutTo_close _)
  | single bucket =>
      obtain ⟨id, key, attributes, docCount, inner⟩ := bucket
      exact .single (.inner (forall₂_finishedLevel inner))
  | metric tally => exact .metric tally

theorem forall₂_finishedBuckets (entries : List (Bucket Output)) :
    List.Forall₂ Bucket.ClosesTo entries (entries.map Bucket.finished) := by
  cases entries with
  | nil => exact .nil
  | cons bucket rest =>
      obtain ⟨id, key, attributes, docCount, inner⟩ := bucket
      exact .cons (.inner (forall₂_finishedLevel inner)) (forall₂_finishedBuckets rest)

theorem forall₂_finishedLevel (level : Level) :
    List.Forall₂ Level.EntryClosesTo level (finishedLevel level) := by
  cases level with
  | nil => exact .nil
  | cons entry rest =>
      obtain ⟨name, output⟩ := entry
      exact .cons (.named (Output.closesTo_finished output)) (forall₂_finishedLevel rest)

end

/-- Of four buckets the two with the most documents stay, one is counted, and one is empty. -/
example :
    (Output.buckets ⟨.array, ⟨some (.count .descending), some 2, 1, true⟩, 0,
      [("a", 1), ("b", 5), ("c", 3), ("d", 0)].map fun entry =>
        ⟨entry.1, some (.string entry.1), [], entry.2, []⟩⟩).finished.listing =
      ⟨1, [("b", 5), ("c", 3)]⟩ := by
  decide +kernel

end Rollup
