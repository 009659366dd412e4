/-
# Rows that cannot be told apart

The identity of a cell in a group forgets whether a number was written as a number or as its text,
and the sign of zero. None of this makes a difference to where a row counts: rows whose cells have
the same identities are in the same buckets with the same documents. A group key tells the
identities of its cells as long as no text holds the separator.
-/

import Rollup.Proofs.Number.ReadBack
import Rollup.Proofs.Rows.Sight

namespace Rollup

/-! ## Numbers up to the sign of zero -/

/-- Whether two numbers are the same but for the sign of zero. -/
def Binary64.IsSameValue (x y : Binary64) : Prop :=
  x = y ∨ x.toRat? = some 0 ∧ y.toRat? = some 0

namespace Binary64

theorem isSameValue_of_toRat? {x y : Binary64} {q : Rat} (hx : x.toRat? = some q)
    (hy : y.toRat? = some q) : x.IsSameValue y := by
  by_cases hq : q = 0
  · exact Or.inr ⟨hq ▸ hx, hq ▸ hy⟩
  · cases x <;> cases y <;> simp_all [toRat?, IsSameValue]

/-- What does not tell the zeros apart does not tell such numbers apart. -/
theorem IsSameValue.congr {α : Type} {x y : Binary64} (h : x.IsSameValue y) (f : Binary64 → α)
    (hf : f negativeZero = f (finite 0)) : f x = f y := by
  have hzero {z : Binary64} (hz : z.toRat? = some 0) : f z = f (finite 0) := by
    cases z <;> simp_all [toRat?]
  rcases h with rfl | ⟨hx, hy⟩
  · rfl
  · rw [hzero hx, hzero hy]

end Binary64

/-- Whether a JSON number is an integer of 64 bits or a binary number. -/
def Json.Number.IsProper : Json.Number → Prop
  | .integer n => n.natAbs ≤ 2 ^ 64
  | .floating x => x.IsNumber

theorem Json.Number.IsProper.isNumber {n : Json.Number} (h : n.IsProper) :
    n.toBinary64.IsNumber := by
  cases n with
  | integer n => exact Binary64.isNumber_ofInt h
  | floating x => exact h

namespace Cell

/-! ## Cells with one identity -/

/-- Whether a cell is null, a number, or a text without the two characters that group keys use. -/
def IsClean : Json → Prop
  | .null => True
  | .number n => n.IsProper
  | .string s => '\x00' ∉ s.toList ∧ '\x1f' ∉ s.toList
  | _ => False

theorem isClean_ofInt {n : Int} (h : n.natAbs ≤ 2 ^ 64) : IsClean (.ofInt n) := h

/-- Whether two cells are one, or are numbers that are written in two ways. -/
def IsAlike (a b : Json) : Prop :=
  a = b ∨ key a = key b ∧ ∃ x y, number? a = some x ∧ number? b = some y ∧ x.IsSameValue y

theorem IsAlike.refl (a : Json) : IsAlike a a := Or.inl rfl

theorem IsAlike.key_eq {a b : Json} (h : IsAlike a b) : key a = key b := by
  rcases h with rfl | ⟨hkey, -⟩
  · rfl
  · exact hkey

theorem IsAlike.number? {a b : Json} (h : IsAlike a b) :
    Option.Rel Binary64.IsSameValue (number? a) (number? b) := by
  rcases h with rfl | ⟨-, x, y, hx, hy, hsame⟩
  · cases Cell.number? a with
    | none => exact Option.Rel.none
    | some x => exact Option.Rel.some (Or.inl rfl)
  · rw [hx, hy]
    exact Option.Rel.some hsame

/-- The identity of a cell has none of the two characters, but that of null. -/
theorem IsClean.not_mem_key {a : Json} (h : IsClean a) :
    '\x1f' ∉ (key a).toList ∧ (a ≠ .null → '\x00' ∉ (key a).toList) := by
  cases a with
  | null => exact ⟨by decide, fun hne => absurd rfl hne⟩
  | number n =>
      have hchars := fun c (hc : c ∈ (key (.number n)).toList) => h.isNumber.mem_text hc
      exact ⟨fun hc => absurd (hchars _ hc) (by decide),
        fun _ hc => absurd (hchars _ hc) (by decide)⟩
  | string s => exact ⟨h.2, fun _ => h.1⟩
  | bool b => exact h.elim
  | array items => exact h.elim
  | object fields => exact h.elim

/-- How often the identity of a cell has the character that group keys put between identities. -/
def separatorCount (cell : Json) : Nat := (key cell).toList.count '\x1f'

theorem IsClean.separatorCount_eq_zero {a : Json} (h : IsClean a) : separatorCount a = 0 :=
  List.count_eq_zero.mpr h.not_mem_key.1

/-- A number and its text are alike. -/
theorem isAlike_number_text {n : Json.Number} (h : n.IsProper) {s : String}
    (hkey : key (.number n) = s) : IsAlike (.number n) (.string s) := by
  obtain ⟨y, hy, hrat⟩ := h.isNumber.readTrimmed?_text
  have htext : n.toBinary64.text = s := hkey
  rw [htext] at hy
  obtain ⟨q, hq⟩ : ∃ q, n.toBinary64.toRat? = some q := by
    have hnumber := h.isNumber
    cases hcase : n.toBinary64 with
    | finite q => exact ⟨q, rfl⟩
    | negativeZero => exact ⟨0, rfl⟩
    | infinite negative => rw [hcase] at hnumber; exact hnumber.elim
    | nan negative => rw [hcase] at hnumber; exact hnumber.elim
  exact Or.inr ⟨hkey, _, y, rfl, hy, Binary64.isSameValue_of_toRat? hq (hrat.trans hq)⟩

theorem IsAlike.symm {a b : Json} (h : IsAlike a b) : IsAlike b a := by
  rcases h with rfl | ⟨hkey, x, y, hx, hy, hsame⟩
  · exact .refl a
  · refine Or.inr ⟨hkey.symm, y, x, hy, hx, ?_⟩
    rcases hsame with rfl | ⟨hxzero, hyzero⟩
    · exact Or.inl rfl
    · exact Or.inr ⟨hyzero, hxzero⟩

/-- Cells with one identity are alike. -/
theorem IsClean.isAlike {a b : Json} (ha : IsClean a) (hb : IsClean b) (hkey : key a = key b) :
    IsAlike a b := by
  -- null has an identity of its own
  have hnull {c : Json} (hc : IsClean c) (hsame : key .null = key c) : c = .null := by
    by_contra hne
    refine hc.not_mem_key.2 hne ?_
    rw [← hsame]
    decide
  cases a with
  | null => exact Or.inl (hnull hb hkey).symm
  | number n =>
      cases b with
      | null => exact absurd (hnull ha hkey.symm) (by simp)
      | number m =>
          have hrat := ha.isNumber.toRat?_eq_of_text hb.isNumber hkey
          cases hcase : n.toBinary64.toRat? with
          | some q =>
              exact Or.inr ⟨hkey, _, _, rfl, rfl,
                Binary64.isSameValue_of_toRat? hcase (hrat ▸ hcase)⟩
          | none =>
              have hnumber := ha.isNumber
              cases hvalue : n.toBinary64 <;> rw [hvalue] at hnumber hcase <;>
                first | exact hnumber.elim | cases hcase
      | string s => exact isAlike_number_text ha hkey
      | bool b => exact hb.elim
      | array items => exact hb.elim
      | object fields => exact hb.elim
  | string s =>
      cases b with
      | null => exact absurd (hnull ha hkey.symm) (by simp)
      | number m => exact (isAlike_number_text hb hkey.symm).symm
      | string t => exact Or.inl (congrArg Json.string hkey)
      | bool b => exact hb.elim
      | array items => exact hb.elim
      | object fields => exact hb.elim
  | bool b => exact ha.elim
  | array items => exact ha.elim
  | object fields => exact ha.elim

theorem IsAlike.isNull_eq {a b : Json} (h : IsAlike a b) : a.isNull = b.isNull := by
  rcases h with rfl | ⟨-, x, y, hx, hy, -⟩
  · rfl
  · have hsome {c : Json} {z : Binary64} (hz : Cell.number? c = some z) : c.isNull = false := by
      cases c <;> first | rfl | cases hz
    rw [hsome hx, hsome hy]

end Cell

namespace Row

/-! ## Rows with cells of the same identities -/

/-- Whether two rows have like cells and count in the same places. -/
structure IsAlike (row other : Row) : Prop where
  countScopes : row.countScopes = other.countScopes
  mutedScopes : row.mutedScopes = other.mutedScopes
  cells : ∀ column, Option.Rel Cell.IsAlike (row.get? column) (other.get? column)

theorem IsAlike.refl (row : Row) : row.IsAlike row where
  countScopes := rfl
  mutedScopes := rfl
  cells := fun column => by
    cases row.get? column with
    | none => exact Option.Rel.none
    | some a => exact Option.Rel.some (.refl a)

/-- Setting a cell in both rows keeps them alike. -/
theorem IsAlike.set {row other : Row} (h : row.IsAlike other) (column : String) (value : Json) :
    (row.set column value).IsAlike (other.set column value) where
  countScopes := h.countScopes
  mutedScopes := h.mutedScopes
  cells := fun c => by
    by_cases hc : c = column
    · subst hc
      rw [get?_set_self, get?_set_self]
      cases (some value).filter fun v => !v.isNull with
      | none => exact Option.Rel.none
      | some a => exact Option.Rel.some (.refl a)
    · rw [get?_set_of_ne _ hc, get?_set_of_ne _ hc]
      exact h.cells c

section

variable {row other : Row} {column : String}

theorem number?_of_alike (h : Option.Rel Cell.IsAlike (row.get? column) (other.get? column)) :
    Option.Rel Binary64.IsSameValue (row.number? column) (other.number? column) := by
  unfold Row.number?
  generalize row.get? column = a, other.get? column = b at h
  cases h with
  | none => exact Option.Rel.none
  | some hcell => exact hcell.number?

/-- What is read from the number in a column, the signs of zeros aside, is read from both rows. -/
theorem map_number?_of_alike {α : Type}
    (h : Option.Rel Cell.IsAlike (row.get? column) (other.get? column)) (f : Binary64 → α)
    (hf : f .negativeZero = f (.finite 0)) :
    (row.number? column).map f = (other.number? column).map f := by
  have hnumber := number?_of_alike h
  generalize row.number? column = a, other.number? column = b at hnumber
  cases hnumber with
  | none => rfl
  | some hsame => exact congrArg some (hsame.congr f hf)

theorem flag_of_alike (h : Option.Rel Cell.IsAlike (row.get? column) (other.get? column)) :
    row.flag column = other.flag column := by
  have hread := map_number?_of_alike h (fun x => !x.same 0) (by decide +kernel)
  unfold Row.flag
  cases hrow : row.number? column <;> cases hother : other.number? column <;>
    simp_all

theorem IsAlike.count (h : row.IsAlike other) (column : String) :
    row.count column = other.count column := by
  have hread := map_number?_of_alike (h.cells column)
    (fun x => if Binary64.less 0 x then x.toNat64 else 0) (by decide +kernel)
  unfold Row.count
  cases hrow : row.number? column <;> cases hother : other.number? column <;>
    simp_all

end

/-! ## Group keys -/

/-- Whether the cells of a row in some columns are clean. -/
def IsClean (columns : List String) (row : Row) : Prop :=
  ∀ column ∈ columns, Cell.IsClean (row.cellOrNull column)

/-- Setting a clean cell keeps the cells clean. -/
theorem IsClean.set {columns : List String} {row : Row} (h : row.IsClean columns) (column : String)
    {value : Json} (hvalue : Cell.IsClean value) : (row.set column value).IsClean columns := by
  intro c hc
  unfold Row.cellOrNull Row.set
  by_cases heq : c = column
  · rw [heq, Fields.get?_insert_self]
    exact hvalue
  · rw [Fields.get?_insert_of_ne _ heq]
    exact h c hc

/-- Texts with as many separators are told apart by what stands before the next one. -/
theorem eq_of_append_separator {α : Type} [BEq α] [LawfulBEq α] {separator : α}
    {first second rest rest' : List α} (hcount : first.count separator = second.count separator)
    (h : first ++ separator :: rest = second ++ separator :: rest') :
    first = second ∧ rest = rest' := by
  induction first generalizing second with
  | nil =>
      cases second with
      | nil => exact ⟨rfl, (List.cons.inj h).2⟩
      | cons c second =>
          obtain rfl : separator = c := (List.cons.inj h).1
          simp at hcount
  | cons c first ih =>
      cases second with
      | nil =>
          obtain rfl : c = separator := (List.cons.inj h).1
          simp at hcount
      | cons d second =>
          obtain ⟨rfl, htail⟩ := List.cons.inj h
          rw [List.count_cons, List.count_cons, Nat.add_right_cancel_iff] at hcount
          obtain ⟨rfl, hrest⟩ := ih hcount htail
          exact ⟨rfl, hrest⟩

/-- A group key tells the identities of cells that have as many separators. -/
theorem key_eq_of_groupKey_eq {columns : List String} {row other : Row}
    (hcount : ∀ column ∈ columns,
      Cell.separatorCount (row.cellOrNull column) = Cell.separatorCount (other.cellOrNull column))
    (h : row.groupKey columns = other.groupKey columns) :
    ∀ column ∈ columns, Cell.key (row.cellOrNull column) = Cell.key (other.cellOrNull column) := by
  induction columns with
  | nil => exact fun _ hcolumn => nomatch hcolumn
  | cons column rest ih =>
      have hsplit (r : Row) : (r.groupKey (column :: rest)).toList =
          (Cell.key (r.cellOrNull column)).toList ++ '\x1f' :: (r.groupKey rest).toList := by
        simp [groupKey]
      have hlists := congrArg String.toList h
      rw [hsplit, hsplit] at hlists
      obtain ⟨hfirst, hothers⟩ := List.forall_mem_cons.mp hcount
      obtain ⟨hkey, hrest⟩ := eq_of_append_separator hfirst hlists
      exact List.forall_mem_cons.mpr
        ⟨String.toList_inj.mp hkey, ih hothers (String.toList_inj.mp hrest)⟩

/-- Rows of one group have like cells in its columns. -/
theorem isAlike_of_groupKey_eq {columns : List String} {row other : Row}
    (hrow : row.IsClean columns) (hother : other.IsClean columns)
    (h : row.groupKey columns = other.groupKey columns) {column : String}
    (hcolumn : column ∈ columns) :
    Option.Rel Cell.IsAlike (row.get? column) (other.get? column) := by
  have hcount : ∀ c ∈ columns,
      Cell.separatorCount (row.cellOrNull c) = Cell.separatorCount (other.cellOrNull c) :=
    fun c hc => (hrow c hc).separatorCount_eq_zero.trans (hother c hc).separatorCount_eq_zero.symm
  have halike := (hrow column hcolumn).isAlike (hother column hcolumn)
    (key_eq_of_groupKey_eq hcount h column hcolumn)
  have hget (r : Row) : r.get? column =
      if (r.cellOrNull column).isNull then none else some (r.cellOrNull column) := by
    unfold Row.get? cellOrNull
    cases r.cells.get? column with
    | none => rfl
    | some value => cases hnull : value.isNull <;> simp [hnull]
  rw [hget, hget, halike.isNull_eq]
  split
  · exact Option.Rel.none
  · exact Option.Rel.some halike

end Row
end Rollup
