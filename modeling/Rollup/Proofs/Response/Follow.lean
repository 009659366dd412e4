/-
# Rows along a path

A path goes from aggregation to aggregation, and a row follows it when at every step its own columns
put it into the bucket that the step goes into. The aggregations on a path are the ancestors of the
nodes inside its last bucket.
-/

import Mathlib.Data.List.Induction
import Rollup.Proofs.Forest.Anchors
import Rollup.Proofs.Response.Deposit

namespace Rollup

namespace Level

/-- The bucket that a step goes into at the end of a path. -/
def bucketIn? (root : Level) (path : Path) (segment : Segment) : Option (Bucket Output) :=
  (levelAt? path root).bind fun level => level.bucketAt? segment

theorem bucketIn?_nil (root : Level) (segment : Segment) :
    root.bucketIn? [] segment = root.bucketAt? segment := rfl

theorem bucketIn?_cons (root : Level) (first : Segment) (path : Path) (segment : Segment) :
    root.bucketIn? (first :: path) segment =
      (root.bucketAt? first).bind fun b => Level.bucketIn? b.inner path segment := by
  simp only [bucketIn?, levelAt?, Option.bind_assoc]

theorem bucketIn?_eq (root : Level) (path : Path) (segment : Segment) :
    root.bucketIn? path segment =
      (root.outputAt? path segment.name).bind fun output => output.bucketAt? segment := by
  simp only [bucketIn?, outputAt?, bucketAt?, Option.bind_assoc]

/-- A bucket is there with the level inside it. -/
theorem isSome_levelAt?_concat {root : Level} {path : Path} {segment : Segment}
    {b : Bucket Output} (h : root.bucketIn? path segment = some b) :
    (levelAt? (path ++ [segment]) root).isSome = true := by
  rw [levelAt?_concat, ← bucketIn?_eq, h]
  rfl

/-- The documents of the bucket that a step goes into at the end of a path. -/
def docsIn (root : Level) (path : Path) (segment : Segment) : Nat :=
  ((root.bucketIn? path segment).map Bucket.docCount).getD 0

/-- Every bucket is still there, under its identity. -/
def Extends (root later : Level) : Prop :=
  ∀ path segment b, root.bucketIn? path segment = some b →
    ∃ b', later.bucketIn? path segment = some b' ∧ b'.id = b.id

theorem Extends.refl (root : Level) : root.Extends root :=
  fun _ _ b hb => ⟨b, hb, rfl⟩

theorem Extends.trans {root later last : Level} (h : root.Extends later)
    (h' : later.Extends last) : root.Extends last := by
  intro path segment b hb
  obtain ⟨b', hb', hid⟩ := h path segment b hb
  obtain ⟨b'', hb'', hid'⟩ := h' path segment b' hb'
  exact ⟨b'', hb'', hid'.trans hid⟩

end Level

theorem Node.isQuery_of_isShown {n : Node} (h : n.isShown = true) : n.isQuery = false := by
  simp only [Node.isShown, Bool.and_eq_true, Bool.not_eq_true'] at h
  exact h.1

namespace Forest

/-! ## Paths of aggregations -/

/-- The parent of the nodes inside the bucket at the end of a path that starts below a parent. -/
def parentAt? (forest : Forest) : Option Nat → Path → Option (Option Nat)
  | parent, [] => some parent
  | parent, segment :: path =>
      (forest.first? parent segment.name).bind fun first => forest.parentAt? (some first) path

/-- Whether some shown node of an aggregation takes a row into the bucket that a step goes into. -/
def isEntered (forest : Forest) (row : Row) (parent : Option Nat) (segment : Segment)
    (id : String) : Bool :=
  forest.any fun n =>
    n.isShown && n.parent == parent && n.name == segment.name && n.enters row segment id

/-- The parent of the nodes inside the bucket at the end of a path, if the columns of a row put the
row into all buckets on the path. -/
def follow? (forest : Forest) (row : Row) : Option Nat → Level → Path → Option (Option Nat)
  | parent, _, [] => some parent
  | parent, level, segment :: path =>
      (level.bucketAt? segment).bind fun b =>
        if forest.isEntered row parent segment b.id then
          (forest.first? parent segment.name).bind fun first =>
            forest.follow? row (some first) b.inner path
        else none

/-- Whether the documents of a row belong into a bucket: the row follows the path to it, and some
shown node there puts the documents into the bucket. -/
def isCounted (forest : Forest) (row : Row) (root : Level) (path : Path) (segment : Segment) :
    Bool :=
  match forest.follow? row none root path, root.bucketIn? path segment with
  | some parent, some b => forest.any fun n =>
      n.isShown && n.parent == parent && n.name == segment.name && n.hits row segment b.id
  | _, _ => false

variable {forest : Forest} {row : Row}

theorem isCounted_iff {root : Level} {path : Path} {segment : Segment} :
    forest.isCounted row root path segment = true ↔
      ∃ n ∈ forest, n.isShown = true ∧ n.name = segment.name ∧
        forest.follow? row none root path = some n.parent ∧
        ∃ b, root.bucketIn? path segment = some b ∧ n.hits row segment b.id = true := by
  unfold isCounted
  cases hfollow : forest.follow? row none root path with
  | none => simp
  | some parent =>
      cases hb : root.bucketIn? path segment with
      | none => simp
      | some b =>
          simp only [List.any_eq_true, Bool.and_eq_true, beq_iff_eq, Option.some.injEq,
            exists_eq_left']
          constructor
          · rintro ⟨n, hn, ⟨⟨hshown, hparent⟩, hname⟩, hhits⟩
            exact ⟨n, hn, hshown, hname, hparent.symm, hhits⟩
          · rintro ⟨n, hn, hshown, hname, hparent, hhits⟩
            exact ⟨n, hn, ⟨⟨hshown, hparent.symm⟩, hname⟩, hhits⟩

theorem parentAt?_concat (forest : Forest) (parent : Option Nat) (path : Path)
    (segment : Segment) :
    forest.parentAt? parent (path ++ [segment]) =
      (forest.parentAt? parent path).bind fun last =>
        (forest.first? last segment.name).map some := by
  induction path generalizing parent with
  | nil =>
      simp only [List.nil_append, parentAt?, Option.bind_some]
      cases forest.first? parent segment.name <;> rfl
  | cons first path ih =>
      rw [List.cons_append, parentAt?, parentAt?, Option.bind_assoc]
      congr 1
      funext a
      exact ih (some a)

theorem follow?_concat (forest : Forest) (row : Row) (parent : Option Nat) (level : Level)
    (path : Path) (segment : Segment) :
    forest.follow? row parent level (path ++ [segment]) =
      (forest.follow? row parent level path).bind fun last =>
        (level.bucketIn? path segment).bind fun b =>
          if forest.isEntered row last segment b.id then
            (forest.first? last segment.name).map some
          else none := by
  induction path generalizing parent level with
  | nil =>
      simp only [List.nil_append, follow?, Option.bind_some, Level.bucketIn?_nil]
      congr 1
      funext b
      split
      · cases forest.first? parent segment.name <;> rfl
      · rfl
  | cons first path ih =>
      rw [List.cons_append, follow?, follow?, Level.bucketIn?_cons]
      cases level.bucketAt? first with
      | none => rfl
      | some b =>
          simp only [Option.bind_some]
          split
          · rw [Option.bind_assoc]
            congr 1
            funext a
            exact ih (some a) b.inner
          · rfl

/-- A row only follows paths of aggregations. -/
theorem parentAt?_of_follow? {parent last : Option Nat} {level : Level} {path : Path}
    (h : forest.follow? row parent level path = some last) :
    forest.parentAt? parent path = some last := by
  induction path generalizing parent level with
  | nil => exact h
  | cons segment path ih =>
      rw [follow?] at h
      rw [parentAt?]
      obtain ⟨b, -, h⟩ := Option.bind_eq_some_iff.mp h
      split at h
      · obtain ⟨first, hfirst, h⟩ := Option.bind_eq_some_iff.mp h
        rw [hfirst]
        exact ih h
      · cases h

theorem parentAt?_eq_none_iff {path : Path} :
    forest.parentAt? none path = some none ↔ path = [] := by
  constructor
  · intro h
    rcases List.eq_nil_or_concat' path with rfl | ⟨base, segment, rfl⟩
    · rfl
    · rw [parentAt?_concat] at h
      obtain ⟨last, -, h⟩ := Option.bind_eq_some_iff.mp h
      obtain ⟨first, -, h⟩ := Option.map_eq_some_iff.mp h
      cases h
  · rintro rfl
    rfl

theorem follow?_eq_none_iff {root : Level} {path : Path} :
    forest.follow? row none root path = some none ↔ path = [] := by
  constructor
  · exact fun h => parentAt?_eq_none_iff.mp (parentAt?_of_follow? h)
  · rintro rfl
    rfl

/-- Whether a node takes a row to the end of a path. -/
def Reaches (forest : Forest) (row : Row) (root : Level) (node : Node) (path : Path) : Prop :=
  node.isShown = true ∧ ∃ base segment b, path = base ++ [segment] ∧ segment.name = node.name ∧
    forest.follow? row none root base = some node.parent ∧
    root.bucketIn? base segment = some b ∧ node.enters row segment b.id = true

/-- A row follows a path into an aggregation when one of its nodes takes the row there. -/
theorem IsLaidOut.follow?_eq_some_iff (h : forest.IsLaidOut) {root : Level} {path : Path}
    {a : Nat} : forest.follow? row none root path = some (some a) ↔
      ∃ j node, forest[j]? = some node ∧ forest.anchor j = a ∧
        forest.Reaches row root node path := by
  constructor
  · intro hfollow
    rcases List.eq_nil_or_concat' path with rfl | ⟨base, segment, rfl⟩
    · cases hfollow
    · rw [follow?_concat] at hfollow
      obtain ⟨last, hlast, hfollow⟩ := Option.bind_eq_some_iff.mp hfollow
      obtain ⟨b, hb, hfollow⟩ := Option.bind_eq_some_iff.mp hfollow
      split at hfollow
      · rename_i hentered
        obtain ⟨first, hfirst, heq⟩ := Option.map_eq_some_iff.mp hfollow
        obtain rfl := Option.some.inj heq
        obtain ⟨node, hmem, hnode⟩ := List.any_eq_true.mp hentered
        simp only [Bool.and_eq_true, beq_iff_eq] at hnode
        obtain ⟨⟨⟨hshown, rfl⟩, hname⟩, henters⟩ := hnode
        obtain ⟨j, hj⟩ := List.getElem?_of_mem hmem
        have hanchor := h.first?_eq hj (Node.isQuery_of_isShown hshown)
        rw [hname, hfirst] at hanchor
        exact ⟨j, node, hj, (Option.some.inj hanchor).symm, hshown, base, segment, b, rfl,
          hname.symm, hlast, hb, henters⟩
      · cases hfollow
  · rintro ⟨j, node, hj, rfl, hshown, base, segment, b, rfl, hname, hbase, hb, henters⟩
    have hentered : forest.isEntered row node.parent segment b.id = true := by
      rw [isEntered, List.any_eq_true]
      exact ⟨node, List.mem_of_getElem? hj, by simp [hshown, hname, henters]⟩
    rw [follow?_concat, hbase, Option.bind_some, hb, Option.bind_some, if_pos hentered, hname,
      h.first?_eq hj (Node.isQuery_of_isShown hshown)]
    rfl

/-! ## Ancestors -/

/-- The aggregations on the way to a node are its ancestors. -/
theorem IsLaidOut.mem_ancestorsFrom_iff (h : forest.IsLaidOut) {path : Path} {fuel j a : Nat}
    {y : Node} (hy : forest[j]? = some y) (hfuel : j ≤ fuel)
    (hpath : forest.parentAt? none path = some y.parent) :
    a ∈ forest.ancestorsFrom fuel j ↔
      ∃ base segment rest, path = base ++ segment :: rest ∧
        forest.parentAt? none (base ++ [segment]) = some (some a) := by
  induction path using List.reverseRecOn generalizing fuel j y with
  | nil =>
      have hparent : y.parent = none := (Option.some.inj hpath).symm
      have hempty : forest.ancestorsFrom fuel j = [] := by
        cases fuel with
        | zero => rfl
        | succ fuel => simp [ancestorsFrom, hy, hparent]
      simp [hempty]
  | append_singleton base segment ih =>
      have hconcat := hpath
      rw [parentAt?_concat] at hconcat
      obtain ⟨last, hlast, hmap⟩ := Option.bind_eq_some_iff.mp hconcat
      obtain ⟨first, hfirst, hparent⟩ := Option.map_eq_some_iff.mp hmap
      obtain ⟨x, hx, -, rfl, -⟩ := first?_spec hfirst
      obtain ⟨-, -, -, -, hlt, -⟩ := h.parent_spec hy hparent.symm
      obtain ⟨fuel, rfl⟩ : ∃ smaller, fuel = smaller + 1 := ⟨fuel - 1, by omega⟩
      have hstep :
          forest.ancestorsFrom (fuel + 1) j = first :: forest.ancestorsFrom fuel first := by
        simp [ancestorsFrom, hy, ← hparent]
      rw [hstep, List.mem_cons, ih hx (by omega) hlast]
      constructor
      · rintro (rfl | ⟨before, step, rest, rfl, hat⟩)
        · exact ⟨base, segment, [], rfl, hpath.trans (by rw [hparent])⟩
        · exact ⟨before, step, rest ++ [segment], by simp, hat⟩
      · rintro ⟨before, step, rest, heq, hat⟩
        rcases List.eq_nil_or_concat' rest with rfl | ⟨front, last', rfl⟩
        · obtain ⟨rfl, hsegment⟩ := List.append_inj' heq rfl
          obtain rfl : segment = step := by simpa using hsegment
          rw [hpath, ← hparent] at hat
          exact Or.inl (Option.some.inj (Option.some.inj hat)).symm
        · refine Or.inr ⟨before, step, front, ?_, hat⟩
          have hlist : base ++ [segment] = (before ++ step :: front) ++ [last'] := by
            rw [heq]
            simp
          exact (List.append_inj' hlist rfl).1

/-- A node is within an aggregation when it belongs to it or the way to the node leads through. -/
theorem IsLaidOut.isWithin_iff (h : forest.IsLaidOut) {path : Path} {j a : Nat} {y : Node}
    (hy : forest[j]? = some y) (ha : forest.anchor a = a)
    (hpath : forest.parentAt? none path = some y.parent) :
    forest.isWithin j a = true ↔ forest.anchor j = a ∨
      ∃ base segment rest, path = base ++ segment :: rest ∧
        forest.parentAt? none (base ++ [segment]) = some (some a) := by
  have hlt := (List.getElem?_eq_some_iff.mp hy).1
  rw [isWithin, Bool.or_eq_true, beq_iff_eq, isBelow, ha, List.contains_iff_mem, ancestors,
    h.mem_ancestorsFrom_iff hy (Nat.le_of_lt hlt) hpath]

end Forest
end Rollup
