/-
# Rows of several tables

One response is made of the rows of several tables, each with a plan of its own for the one
request. The plans decide differently about the nodes, and yet agree about the paths of the response
and about what the nodes make there. So what folding the rows of one table does is done by each
table in turn: a row goes on in buckets, and every bucket of values or intervals is one that a row
of some table has made.
-/

import Rollup.Proofs.Response.Folded

namespace Rollup

namespace Forest

variable {before after : Forest}

/-! ## Paths of revised forests -/

theorem IsRevision.first?_eq (hrevision : before.IsRevision after) (parent : Option Nat)
    (name : String) : after.first? parent name = before.first? parent name := by
  unfold first?
  induction hrevision with
  | nil => rfl
  | cons hnode _ ih =>
      rw [List.findIdx?_cons, List.findIdx?_cons, ih, hnode.isQuery, hnode.parent, hnode.name]

theorem IsRevision.parentAt?_eq (hrevision : before.IsRevision after) (parent : Option Nat)
    (path : Path) : after.parentAt? parent path = before.parentAt? parent path := by
  induction path generalizing parent with
  | nil => rfl
  | cons segment path ih =>
      rw [parentAt?, parentAt?, hrevision.first?_eq]
      congr 1
      funext first
      exact ih (some first)

/-- Plans for one request agree about what fits. -/
theorem IsRevision.fits_iff (hrevision : before.IsRevision after) (root : Level) :
    after.Fits root ↔ before.Fits root := by
  have hfits {first second : Node} (h : first.IsRevision second) (output : Output) :
      second.Fits output ↔ first.Fits output := by
    unfold Node.Fits
    rw [h.aggregation]
  constructor
  · intro h path n output hn hquery hparent houtput
    obtain ⟨i, hi⟩ := List.getElem?_of_mem hn
    obtain ⟨m, hm, hnode⟩ := hrevision.node_after hi
    rw [← hfits hnode]
    refine h path m output (List.mem_of_getElem? hm) (hnode.isQuery.trans hquery) ?_ ?_
    · rw [hrevision.parentAt?_eq, hnode.parent, hparent]
    · rw [hnode.name, houtput]
  · intro h path n output hn hquery hparent houtput
    obtain ⟨i, hi⟩ := List.getElem?_of_mem hn
    obtain ⟨m, hm, hnode⟩ := hrevision.node hi
    rw [hfits hnode]
    refine h path m output (List.mem_of_getElem? hm) (hnode.isQuery.symm.trans hquery) ?_ ?_
    · rw [← hrevision.parentAt?_eq, ← hnode.parent, hparent]
    · rw [← hnode.name, houtput]

end Forest

/-- The settled rows of one table. -/
structure Part where
  forest : Forest
  countColumn : String
  rows : List Row

namespace Part

/-- Fold the rows of one table in. -/
def fold (root : Level) (part : Part) : Level :=
  part.forest.foldRows part.countColumn root part.rows

/-- What is shown of the settled rows of a table. -/
structure IsSound (base : Forest) (part : Part) : Prop where
  revision : base.IsRevision part.forest
  marked : part.forest.IsMarked
  count : ∀ n ∈ part.forest, n.isShown = true → n.readColumn? ≠ some part.countColumn
  one : ∀ row ∈ part.rows, part.forest.MatchesOne row

/-- A response after the rows of some tables were folded in. -/
structure Gathered (base : Forest) (parts : List Part) (before after : Level) : Prop where
  fits : base.Fits after
  grown : before.Extends after
  entered : ∀ later, after.Extends later → base.Fits later → ∀ part ∈ parts, ∀ row ∈ part.rows,
    ∀ (j : Nat) (node : Node) path, part.forest[j]? = some node → node.isShown = true →
    part.forest.follow? row none later path = some node.parent → ∀ segment id,
    node.hits row segment id = true → ∃ next b, next.name = node.name ∧
      after.bucketIn? path next = some b ∧ node.enters row next b.id = true
  origin : ∀ later, after.Extends later → base.Fits later → ∀ (j : Nat) (node : Node) path i b,
    base[j]? = some node → node.aggregation.isValueGroup = true →
    (∀ part ∈ parts, ∀ n, part.forest[j]? = some n → n.isShown = true) →
    base.parentAt? none path = some node.parent →
    after.bucketIn? path (.bucket node.name i) = some b →
    (∃ b', before.bucketIn? path (.bucket node.name i) = some b' ∧ b'.id = b.id ∧
      b'.key = b.key) ∨
      ∃ part ∈ parts, ∃ n, part.forest[j]? = some n ∧ ∃ row ∈ part.rows,
        part.forest.follow? row none later path = some node.parent ∧ n.Makes row b

variable {base : Forest} {root : Level}

theorem gathered_nil (hfits : base.Fits root) : Gathered base [] root root where
  fits := hfits
  grown := .refl root
  entered := fun _ _ _ _ hpart => nomatch hpart
  origin := fun _ _ _ _ _ _ _ b _ _ _ _ hb => Or.inl ⟨b, hb, rfl, rfl⟩

/-- The rows of one table before those of the others. -/
theorem gathered_cons {part : Part} {parts : List Part} {middle after : Level}
    (hsound : part.IsSound base)
    (hfolded : part.forest.Folded part.countColumn part.rows root middle)
    (hgathered : Gathered base parts middle after) :
    Gathered base (part :: parts) root after where
  fits := hgathered.fits
  grown := hfolded.grown.trans hgathered.grown
  entered := by
    intro later hext hlater other hother row hrow j node path hj hshown hfollow segment id hhits
    rcases List.mem_cons.mp hother with rfl | hrest
    · obtain ⟨next, b, hname, hb, henters⟩ := hfolded.entered later (hgathered.grown.trans hext)
        ((hsound.revision.fits_iff later).mpr hlater) row hrow j node path hj hshown hfollow
        segment id hhits
      obtain ⟨b', hb', hid⟩ := hgathered.grown path next b hb
      exact ⟨next, b', hname, hb', hid ▸ henters⟩
    · exact hgathered.entered later hext hlater other hrest row hrow j node path hj hshown hfollow
        segment id hhits
  origin := by
    intro later hext hlater j node path i b hj hvalue hshown hparent hb
    rcases hgathered.origin later hext hlater j node path i b hj hvalue
      (fun other hother => hshown other (by simp [hother])) hparent hb with
      ⟨b', hb', hid, hkey⟩ | ⟨other, hother, hmade⟩
    · obtain ⟨n, hn, hnode⟩ := hsound.revision.node_after hj
      rw [← hnode.name] at hb'
      rcases hfolded.origin later (hgathered.grown.trans hext)
        ((hsound.revision.fits_iff later).mpr hlater) j n path i b' hn
        (hshown part (by simp) n hn) (hnode.aggregation ▸ hvalue)
        (by rw [hsound.revision.parentAt?_eq, hparent, hnode.parent]) hb' with
        ⟨b'', hb'', hid', hkey'⟩ | ⟨row, hrow, hfollow, fresh, hfresh, hid', hkey'⟩
      · rw [hnode.name] at hb''
        exact Or.inl ⟨b'', hb'', hid'.trans hid, hkey'.trans hkey⟩
      · exact Or.inr ⟨part, by simp, n, hn, row, hrow, hnode.parent ▸ hfollow, fresh, hfresh,
          hid'.trans hid, hkey'.trans hkey⟩
    · exact Or.inr ⟨other, by simp [hother], hmade⟩

/-- What folding the rows of several tables makes of a response. -/
theorem gathered_foldl (h : base.IsLaidOut) {parts : List Part}
    (hsound : ∀ part ∈ parts, part.IsSound base) (hfits : base.Fits root) :
    Gathered base parts root (parts.foldl fold root) := by
  induction parts generalizing root with
  | nil => exact gathered_nil hfits
  | cons part rest ih =>
      have hpart := hsound part (by simp)
      have hfolded := (hpart.revision.isLaidOut h).folded_foldRows hpart.marked hpart.count
        hpart.one ((hpart.revision.fits_iff root).mpr hfits)
      exact gathered_cons hpart hfolded (ih (fun other hother => hsound other (by simp [hother]))
        ((hpart.revision.fits_iff _).mp hfolded.fits))

end Part
end Rollup
