/-
# Rows one after the other

Folding rows in adds up what the single rows do: a bucket counts the documents of the rows that
belong into it, and a tally takes the values of the rows that come to it, in their order. Which rows
these are is told in the response as it is in the end.
-/

import Mathlib.Algebra.GroupWithZero.Nat
import Rollup.Proofs.Response.Walk

namespace Rollup

theorem Rows.documents_eq_sum (countColumn : String) (rows : List Row) :
    documents countColumn rows = (rows.map fun row => row.count countColumn).sum :=
  List.sum_eq_foldl.symm

theorem Rows.documents_filter (countColumn : String) (p : Row → Bool) (rows : List Row) :
    documents countColumn (rows.filter p) =
      (rows.map fun row => if p row = true then row.count countColumn else 0).sum := by
  rw [documents_eq_sum]
  induction rows with
  | nil => rfl
  | cons row rest ih =>
      rw [List.filter_cons, List.map_cons, List.sum_cons, ← ih]
      split <;> simp

namespace Forest

/-- A response after some rows were folded in. -/
structure Folded (forest : Forest) (countColumn : String) (rows : List Row)
    (before after : Level) : Prop where
  fits : forest.Fits after
  grown : before.Extends after
  entered : ∀ later, after.Extends later → forest.Fits later → ∀ row ∈ rows,
    ∀ (j : Nat) (node : Node) path, forest[j]? = some node → node.isShown = true →
    forest.follow? row none later path = some node.parent → ∀ segment id,
    node.hits row segment id = true → ∃ next b, next.name = node.name ∧
      after.bucketIn? path next = some b ∧ node.enters row next b.id = true
  origin : ∀ later, after.Extends later → forest.Fits later →
    ∀ (j : Nat) (node : Node) path i b,
    forest[j]? = some node → node.isShown = true → node.aggregation.isValueGroup = true →
    forest.parentAt? none path = some node.parent →
    after.bucketIn? path (.bucket node.name i) = some b →
    (∃ b', before.bucketIn? path (.bucket node.name i) = some b' ∧ b'.id = b.id ∧
      b'.key = b.key) ∨
      ∃ row ∈ rows, forest.follow? row none later path = some node.parent ∧ node.Makes row b
  docs : ∀ later, after.Extends later → forest.Fits later → ∀ path segment,
    ∀ isCounted : Row → Bool,
    (∀ row ∈ rows, isCounted row = true ↔
      forest.CountsBefore row later forest.length path segment) →
    after.docsIn path segment =
      before.docsIn path segment + Rows.documents countColumn (rows.filter isCounted)
  tally : ∀ later, after.Extends later → forest.Fits later → ∀ j node m path,
    forest[j]? = some node → node.isShown = true → node.aggregation = .metric m →
    forest.parentAt? none path = some node.parent → ∀ isReceived : Row → Bool,
    (∀ row ∈ rows, isReceived row = true ↔ forest.Receives row later j node path) →
    Node.tallyOf m (after.outputAt? path node.name) =
      (rows.filter isReceived).foldl
        (fun tally row => tally.addRow (node.decisions.column.getD "") countColumn row)
        (Node.tallyOf m (before.outputAt? path node.name))

variable {forest : Forest} {countColumn : String} {root : Level}

theorem folded_nil (hfits : forest.Fits root) : forest.Folded countColumn [] root root where
  fits := hfits
  grown := .refl root
  entered := fun _ _ _ _ hrow => nomatch hrow
  origin := fun _ _ _ _ _ _ _ b _ _ _ _ hb => Or.inl ⟨b, hb, rfl, rfl⟩
  docs := fun _ _ _ _ _ _ _ => rfl
  tally := fun _ _ _ _ _ _ _ _ _ _ _ _ _ => rfl

/-- One row before the others. -/
theorem Walked.folded_cons {row : Row} {rows : List Row} {middle after : Level} {places : Places}
    (hwalked : forest.Walked countColumn row root forest.length (places, middle))
    (hfolded : forest.Folded countColumn rows middle after) :
    forest.Folded countColumn (row :: rows) root after where
  fits := hfolded.fits
  grown := hwalked.grown.trans hfolded.grown
  entered := by
    intro later hext hlater other hother j node path hj hshown hfollow segment id hhits
    rcases List.mem_cons.mp hother with rfl | hrest
    · obtain ⟨next, b, hname, hb, henters⟩ := hwalked.entered later (hfolded.grown.trans hext)
        hlater j node path (List.getElem?_eq_some_iff.mp hj).1 hj hshown hfollow segment id hhits
      obtain ⟨b', hb', hid⟩ := hfolded.grown path next b hb
      exact ⟨next, b', hname, hb', hid ▸ henters⟩
    · exact hfolded.entered later hext hlater other hrest j node path hj hshown hfollow segment id
        hhits
  origin := by
    intro later hext hlater j node path i b hj hshown hvalue hparent hb
    rcases hfolded.origin later hext hlater j node path i b hj hshown hvalue hparent hb with
      ⟨b', hb', hid, hkey⟩ | ⟨other, hother, hmade⟩
    · rcases hwalked.origin later (hfolded.grown.trans hext) hlater j node path i b' hj hshown
        hvalue hparent hb' with ⟨b'', hb'', hid', hkey'⟩ | ⟨hfollow, fresh, hfresh, hid', hkey'⟩
      · exact Or.inl ⟨b'', hb'', hid'.trans hid, hkey'.trans hkey⟩
      · exact Or.inr ⟨row, by simp, hfollow, fresh, hfresh, hid'.trans hid, hkey'.trans hkey⟩
    · exact Or.inr ⟨other, by simp [hother], hmade⟩
  docs := by
    intro later hext hlater path segment isCounted hcounted
    rw [hfolded.docs later hext hlater path segment isCounted
      fun other hother => hcounted other (by simp [hother])]
    obtain ⟨hcounts, hnot⟩ := hwalked.docs later (hfolded.grown.trans hext) hlater path segment
    have hiff := hcounted row (by simp)
    dsimp only at hcounts hnot
    cases hrow : isCounted row with
    | true =>
        rw [hcounts (hiff.mp hrow), List.filter_cons, if_pos hrow]
        simp [Rows.documents_eq_sum, Nat.add_assoc]
    | false =>
        have hfalse : ¬ isCounted row = true := by simp [hrow]
        rw [hnot fun h => hfalse (hiff.mpr h), List.filter_cons, if_neg hfalse]
  tally := by
    intro later hext hlater j node m path hj hshown hm hparent isReceived hreceived
    rw [hfolded.tally later hext hlater j node m path hj hshown hm hparent isReceived
      fun other hother => hreceived other (by simp [hother])]
    obtain ⟨hreceives, hnot⟩ := hwalked.tally later (hfolded.grown.trans hext) hlater j node m path
      hj hshown hm hparent
    have hiff := hreceived row (by simp)
    have hlt := (List.getElem?_eq_some_iff.mp hj).1
    dsimp only at hreceives hnot
    cases hrow : isReceived row with
    | true =>
        rw [hreceives ⟨hlt, hiff.mp hrow⟩, List.filter_cons, if_pos hrow]
        rfl
    | false =>
        have hfalse : ¬ isReceived row = true := by simp [hrow]
        rw [hnot fun h => hfalse (hiff.mpr h.2), List.filter_cons, if_neg hfalse]

/-- What folding rows makes of a response. -/
theorem IsLaidOut.folded_foldRows (h : forest.IsLaidOut) (hmarked : forest.IsMarked)
    (hcount : ∀ n ∈ forest, n.isShown = true → n.readColumn? ≠ some countColumn)
    {rows : List Row} (hone : ∀ row ∈ rows, forest.MatchesOne row) (hfits : forest.Fits root) :
    forest.Folded countColumn rows root (forest.foldRows countColumn root rows) := by
  unfold foldRows
  dsimp only
  induction rows generalizing root with
  | nil => exact folded_nil hfits
  | cons row rest ih =>
      obtain ⟨places, hwalked⟩ := walked_foldRow h hmarked (hone row (by simp)) hcount hfits
      exact hwalked.folded_cons (ih (fun other hother => hone other (by simp [hother]))
        hwalked.fits)

end Forest
end Rollup
