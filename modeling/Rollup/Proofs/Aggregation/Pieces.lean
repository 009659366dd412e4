/-
# Pieces of expressions

The expression of a histogram, of a date histogram or of ranges is joined from fixed texts, integers
and numbers. Integers are written as decimals, and of the numbers just the finite ones are. The
numbers of ranges are their boundaries, which are finite just when all bounds are.
-/

import Rollup.Proofs.Aggregation.Segments
import Rollup.Proofs.Number.Decimals

namespace Rollup

/-- A piece of an expression: fixed text or a name, an integer, or a number. -/
inductive Piece where
  | text (chars : String)
  | integer (k : Int)
  | number (x : Binary64)
  deriving DecidableEq

namespace Piece

def render : Piece → String
  | text chars => chars
  | integer k => toString k
  | number x => x.text

/-- Whether a piece is written as a decimal, if it is a number. -/
def IsReadable : Piece → Prop
  | text _ => True
  | integer k => IsDecimal (toString k)
  | number x => IsDecimal x.text

end Piece

/-! ## Pieces of expressions -/

/-- A division into buckets of a width, one of which starts at an offset. -/
def floorPieces (field : String) (width : Piece) : Option Piece → List Piece
  | none =>
      [.text "FLOOR(", .text (Statement.quoteName field), .text "/", width, .text ")*", width]
  | some offset =>
      [.text "FLOOR((", .text (Statement.quoteName field), .text "-", offset, .text ")/", width,
        .text ")*", width, .text "+", offset]

def Histogram.pieces (h : Histogram) : List Piece :=
  floorPieces h.field (.number h.interval)
    (if h.offset.same 0 then none else some (.number h.offset))

def DateInterval.pieces (interval : DateInterval) (field : String) : List Piece :=
  let f := Piece.text (Statement.quoteName field)
  match interval with
  | seconds width offset =>
      floorPieces field (.integer width) (if offset = 0 then none else some (.integer offset))
  | months n =>
      if n = 1 then [.text "YEARMONTH(", f, .text ")"]
      else if n = 12 then [.text "YEAR(", f, .text ")*100+1"]
      else
        [.text "YEAR(", f, .text ")*100+FLOOR((MONTH(", f, .text ")-1)/", .integer n, .text ")*",
          .integer n, .text "+1"]

def Ranges.pieces (r : Ranges) : List Piece :=
  if r.boundaries.isEmpty then [.text "0"]
  else
    [.text "INTERVAL(", .text (Statement.quoteName r.field)] ++
      (r.boundaries.flatMap fun b => [.text ", ", .number b]) ++ [.text ")"]

/-- The pieces of the expression of a node. -/
def Aggregation.pieces : Aggregation → List Piece
  | histogram h => h.pieces
  | dateHistogram h => h.interval.pieces h.field
  | ranges r => r.pieces
  | other => other.expression?.toList.map .text

theorem Histogram.interval_mem_pieces (h : Histogram) : Piece.number h.interval ∈ h.pieces := by
  unfold pieces floorPieces
  split <;> simp

theorem Histogram.eq_of_mem_pieces {h : Histogram} {x : Binary64}
    (hx : Piece.number x ∈ h.pieces) : x = h.interval ∨ x = h.offset := by
  unfold pieces floorPieces at hx
  by_cases hoffset : h.offset.same 0 = true
  · exact Or.inl (by simpa [hoffset] using hx)
  · simp only [if_neg hoffset, List.mem_cons, Piece.number.injEq, reduceCtorEq, List.not_mem_nil,
      or_false, false_or] at hx
    tauto

theorem Histogram.expression_eq (h : Histogram) :
    h.expression = String.join (h.pieces.map Piece.render) := by
  unfold expression pieces
  dsimp only
  split <;> simp [floorPieces, Piece.render, String.append_assoc]

theorem DateInterval.expression_eq (interval : DateInterval) (field : String) :
    interval.expression field = String.join ((interval.pieces field).map Piece.render) := by
  cases interval with
  | seconds width offset =>
      by_cases hoffset : offset = 0 <;>
        simp [expression, pieces, floorPieces, Piece.render, hoffset, String.append_assoc]
  | months n =>
      by_cases hone : n = 1
      · simp [expression, pieces, Piece.render, hone, String.append_assoc]
      · by_cases htwelve : n = 12 <;>
          simp [expression, pieces, Piece.render, hone, htwelve, String.append_assoc]

theorem Ranges.separated_eq (bounds : List Binary64) (hbounds : bounds ≠ []) :
    ", " ++ String.intercalate ", " (bounds.map Binary64.text) = String.join
      ((bounds.flatMap fun b => [Piece.text ", ", Piece.number b]).map Piece.render) := by
  induction bounds with
  | nil => exact absurd rfl hbounds
  | cons b rest ih =>
      cases rest with
      | nil => simp [Piece.render]
      | cons b' rest =>
          rw [List.flatMap_cons, List.map_append, String.join_append, ← ih (by simp)]
          simp [Piece.render, String.append_assoc]

theorem Ranges.mem_boundaries_of_mem_pieces {r : Ranges} {x : Binary64}
    (hx : Piece.number x ∈ r.pieces) : x ∈ r.boundaries := by
  unfold pieces at hx
  split at hx
  · simp at hx
  · simpa using hx

theorem Ranges.expression_eq (r : Ranges) :
    r.expression = String.join (r.pieces.map Piece.render) := by
  unfold expression pieces
  split
  · rfl
  · rename_i hbounds
    have hseparated := separated_eq r.boundaries (by simpa using hbounds)
    rw [List.map_append, List.map_append, String.join_append, String.join_append, ← hseparated]
    simp [Piece.render, String.append_assoc]

/-- An expression is its pieces, one behind the other. -/
theorem Aggregation.expression_eq (a : Aggregation) :
    a.expression?.getD "" = String.join (a.pieces.map Piece.render) := by
  have hplain (e? : Option String) :
      e?.getD "" = String.join ((e?.toList.map Piece.text).map Piece.render) := by
    cases e? <;> simp [Piece.render]
  cases a with
  | histogram h => exact h.expression_eq
  | dateHistogram h => exact h.interval.expression_eq h.field
  | ranges r => exact r.expression_eq
  | metric m => exact hplain _
  | terms t => exact hplain _
  | leg l => exact hplain _
  | query q => exact hplain _

/-! ## Boundaries and bounds -/

namespace Ranges

/-- The bounds of the ranges in order. -/
def bounds (r : Ranges) : List Binary64 :=
  r.specs.flatMap fun spec => spec.low.toList ++ spec.high.toList

variable {r : Ranges}

theorem mem_bounds_of_mem_boundaries {b : Binary64} (hb : b ∈ r.boundaries) : b ∈ r.bounds := by
  rw [← (Order.sortBy_perm Binary64.totalCompare r.bounds).mem_iff]
  have hsubset : ∀ numbers, dropRepeats numbers ⊆ numbers := by
    intro numbers
    cases numbers with
    | nil => exact List.Subset.refl _
    | cons x rest => exact ((dropRepeatsAfter_sublist x rest).cons_cons x).subset
  exact hsubset _ hb

/-- What is dropped repeats what is kept. -/
theorem exists_same_of_mem {last : Binary64} {rest : List Binary64} {x : Binary64}
    (hx : x ∈ rest) : ∃ y ∈ last :: dropRepeatsAfter last rest, y = x ∨ y.same x = true := by
  induction rest generalizing last with
  | nil => cases hx
  | cons first rest ih =>
      unfold dropRepeatsAfter
      split
      · rename_i hsame
        rcases List.mem_cons.mp hx with rfl | hlater
        · exact ⟨last, List.mem_cons_self, Or.inr hsame⟩
        · exact ih hlater
      · rcases List.mem_cons.mp hx with rfl | hlater
        · exact ⟨x, by simp, Or.inl rfl⟩
        · obtain ⟨y, hy, hyx⟩ : ∃ y ∈ first :: dropRepeatsAfter first rest,
              y = x ∨ y.same x = true := ih hlater
          exact ⟨y, List.mem_cons_of_mem last hy, hyx⟩

theorem exists_same_of_mem_bounds {b : Binary64} (hb : b ∈ r.bounds) :
    ∃ y ∈ r.boundaries, y = b ∨ y.same b = true := by
  rw [← (Order.sortBy_perm Binary64.totalCompare r.bounds).mem_iff] at hb
  have hkept : ∀ numbers, b ∈ numbers → ∃ y ∈ dropRepeats numbers, y = b ∨ y.same b = true := by
    intro numbers hmem
    cases numbers with
    | nil => cases hmem
    | cons x rest =>
        rcases List.mem_cons.mp hmem with rfl | hlater
        · exact ⟨b, List.mem_cons_self, Or.inl rfl⟩
        · exact exists_same_of_mem hlater
  exact hkept _ hb

end Ranges

/-- Of two equal values both are finite numbers or none is. -/
theorem Binary64.toRat?_eq_none_iff_of_same {x y : Binary64} (hsame : x.same y = true) :
    x.toRat? = none ↔ y.toRat? = none := by
  cases x with
  | nan negative => cases hsame
  | infinite negative =>
      cases y with
      | infinite negative' => exact Iff.rfl
      | nan negative' => cases hsame
      | finite q => cases negative <;> cases hsame
      | negativeZero => cases negative <;> cases hsame
  | finite p =>
      cases y with
      | infinite negative => cases negative <;> cases hsame
      | nan negative => cases hsame
      | finite q => simp [toRat?]
      | negativeZero => simp [toRat?]
  | negativeZero =>
      cases y with
      | infinite negative => cases negative <;> cases hsame
      | nan negative => cases hsame
      | finite q => simp [toRat?]
      | negativeZero => exact Iff.rfl

theorem Binary64.isNumber_zero : (0 : Binary64).IsNumber := (rfl : round 0 = finite 0)

theorem Binary64.isNumber_iff_of_same {x y : Binary64} (hsame : x.same y = true)
    (hx : x.IsOfFormat) (hy : y.IsOfFormat) : x.IsNumber ↔ y.IsNumber := by
  rw [hx.isNumber_iff, hy.isNumber_iff, ne_eq, ne_eq, toRat?_eq_none_iff_of_same hsame]

/-- The boundaries are finite numbers just when the bounds are. -/
theorem Ranges.isNumber_boundaries_iff {r : Ranges} (hbounds : ∀ b ∈ r.bounds, b.IsOfFormat) :
    (∀ b ∈ r.boundaries, b.IsNumber) ↔ ∀ b ∈ r.bounds, b.IsNumber := by
  constructor
  · intro hnumbers b hb
    obtain ⟨y, hy, rfl | hsame⟩ := exists_same_of_mem_bounds hb
    · exact hnumbers y hy
    · have hformat := hbounds y (mem_bounds_of_mem_boundaries hy)
      exact (Binary64.isNumber_iff_of_same hsame hformat (hbounds b hb)).mp (hnumbers y hy)
  · exact fun hnumbers b hb => hnumbers b (mem_bounds_of_mem_boundaries hb)

/-! ## Readable expressions -/

@[simp] theorem Piece.isReadable_text (chars : String) : (text chars).IsReadable := trivial

@[simp] theorem Piece.isReadable_integer (k : Int) : (integer k).IsReadable := isDecimal_toString k

@[simp] theorem Piece.isReadable_number (x : Binary64) :
    (number x).IsReadable ↔ IsDecimal x.text := Iff.rfl

theorem Piece.isReadable_of_notMem {pieces : List Piece} (h : ∀ x, number x ∉ pieces) :
    ∀ piece ∈ pieces, piece.IsReadable := by
  intro piece hpiece
  cases piece with
  | text chars => exact isReadable_text chars
  | integer k => exact isReadable_integer k
  | number x => exact absurd hpiece (h x)

theorem forall_isReadable_floorPieces (field : String) (width : Piece) (offset : Option Piece) :
    (∀ piece ∈ floorPieces field width offset, piece.IsReadable) ↔
      width.IsReadable ∧ ∀ piece ∈ offset, piece.IsReadable := by
  cases offset with
  | none => simp [floorPieces]
  | some piece =>
      simp only [floorPieces, List.forall_mem_cons, Piece.isReadable_text, true_and,
        Option.mem_def, Option.some.injEq, forall_eq']
      tauto

/-- The numbers of a date histogram are integers. -/
theorem DateInterval.number_notMem_pieces (interval : DateInterval) (field : String)
    (x : Binary64) : Piece.number x ∉ interval.pieces field := by
  cases interval with
  | seconds width offset =>
      unfold pieces floorPieces
      by_cases hoffset : offset = 0 <;> simp [hoffset]
  | months n =>
      by_cases hone : n = 1
      · simp [pieces, hone]
      · by_cases htwelve : n = 12 <;> simp [pieces, hone, htwelve]

theorem Ranges.forall_isReadable_pieces (r : Ranges) :
    (∀ piece ∈ r.pieces, piece.IsReadable) ↔ ∀ b ∈ r.boundaries, IsDecimal b.text := by
  unfold pieces
  split
  · rename_i hempty
    simp [List.isEmpty_iff.mp hempty]
  · simp only [List.mem_append, List.mem_flatMap, List.mem_cons, List.not_mem_nil, or_false]
    constructor
    · intro hreadable b hb
      exact hreadable (.number b) (Or.inl (Or.inr ⟨b, hb, Or.inr rfl⟩))
    · rintro hnumbers piece (((rfl | rfl) | ⟨b, hb, rfl | rfl⟩) | rfl)
      · trivial
      · trivial
      · trivial
      · exact hnumbers b hb
      · trivial

end Rollup
