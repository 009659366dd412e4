/-
# Numerals

A number between programs is written as a numeral: digits, a fraction behind a point and an
exponent behind an `e`, with a minus sign in front if it is negative. The numeral of a number reads
back as that number, zero with its sign. An integer is the one numeral without fraction and
exponent, so that both kinds of JSON numbers are told apart by their texts.
-/

import Rollup.Json.Basic
import Rollup.Proofs.Number.ReadBack

namespace Rollup

/-- The parts of a number that is written without a sign. -/
structure Numeral where
  whole : List Char
  fraction : List Char
  /-- Whether the exponent is negative, and its digits. -/
  power : Option (Bool × List Char)
  nonempty : whole ≠ []
  wholeDigits : ∀ c ∈ whole, c.isDigit = true
  fractionDigits : ∀ c ∈ fraction, c.isDigit = true
  powerDigits : ∀ negative digits, power = some (negative, digits) →
    digits ≠ [] ∧ ∀ c ∈ digits, c.isDigit = true

namespace Numeral

/-- A point with the fraction, if there is one. -/
def pointed (n : Numeral) : List Char := if n.fraction = [] then [] else '.' :: n.fraction

/-- The exponent with its sign. -/
def powerChars (n : Numeral) : List Char :=
  match n.power with
  | none => []
  | some (negative, digits) => 'e' :: (if negative then '-' else '+') :: digits

def chars (n : Numeral) : List Char := n.whole ++ n.pointed ++ n.powerChars

/-- The number that the exponent says. -/
def shift (n : Numeral) : Int :=
  match n.power with
  | none => 0
  | some (negative, digits) =>
      if negative then -(Text.digitsValue digits : Int) else Text.digitsValue digits

/-- The digits without the point. -/
def coefficient (n : Numeral) : Nat := Text.digitsValue (n.whole ++ n.fraction)

def exponent (n : Numeral) : Int := n.shift - n.fraction.length

/-- Whether there is a fraction or an exponent. -/
def IsFloating (n : Numeral) : Prop := n.fraction ≠ [] ∨ n.power ≠ none

variable (n : Numeral)

theorem exists_head : ∃ c rest, n.chars = c :: rest ∧ c.isDigit = true := by
  obtain ⟨c, rest, hwhole⟩ := List.exists_cons_of_ne_nil n.nonempty
  refine ⟨c, rest ++ (n.pointed ++ n.powerChars), ?_, n.wholeDigits c (by rw [hwhole]; simp)⟩
  rw [chars, List.append_assoc, hwhole, List.cons_append]

theorem mem_pointed {c : Char} (hc : c ∈ n.pointed) : c.isDigit = true ∨ c = '.' := by
  unfold pointed at hc
  split at hc
  · cases hc
  · rcases List.mem_cons.mp hc with rfl | hfraction
    · exact Or.inr rfl
    · exact Or.inl (n.fractionDigits c hfraction)

theorem mem_chars {c : Char} (hc : c ∈ n.chars) :
    c.isDigit = true ∨ c = '.' ∨ c = 'e' ∨ c = '-' ∨ c = '+' := by
  rw [chars, List.mem_append, List.mem_append] at hc
  rcases hc with (hwhole | hpointed) | hpower
  · exact Or.inl (n.wholeDigits c hwhole)
  · exact (n.mem_pointed hpointed).imp_right Or.inl
  · unfold powerChars at hpower
    split at hpower
    · cases hpower
    · rename_i negative digits hsome
      rcases List.mem_cons.mp hpower with rfl | hrest
      · exact Or.inr (Or.inr (Or.inl rfl))
      · rcases List.mem_cons.mp hrest with rfl | hdigits
        · cases negative <;> simp
        · exact Or.inl ((n.powerDigits negative digits hsome).2 c hdigits)

theorem trim_chars : Text.trim n.chars = n.chars := by
  refine Text.trim_of_not_isBlank fun c hc => ?_
  rcases n.mem_chars hc with hdigit | rfl | rfl | rfl | rfl
  · exact Text.isBlank_of_isDigit hdigit
  all_goals decide

theorem readExponent?_powerChars : Binary64.readExponent? n.powerChars = some n.shift := by
  unfold powerChars shift
  cases hpower : n.power with
  | none => rfl
  | some entry =>
      obtain ⟨negative, digits⟩ := entry
      obtain ⟨hsome, hdigits⟩ := n.powerDigits negative digits hpower
      have hread : Text.readNat? digits = some (Text.digitsValue digits) :=
        if_pos ⟨hsome, List.all_eq_true.mpr hdigits⟩
      cases negative <;> simp [Binary64.readExponent?, hread]

theorem powerChars_cases : n.powerChars = [] ∨ ∃ rest, n.powerChars = 'e' :: rest := by
  unfold powerChars
  split
  · exact Or.inl rfl
  · exact Or.inr ⟨_, rfl⟩

/-- The exponent ends the digits before it. -/
theorem isDigit_head_powerChars : ∀ c ∈ n.powerChars.head?, c.isDigit = false := by
  rcases n.powerChars_cases with hnone | ⟨rest, hsome⟩
  · simp [hnone]
  · rw [hsome]
    intro c hc
    rw [← Option.some.inj hc]
    rfl

theorem readUnsigned?_chars (negative : Bool) : Binary64.readUnsigned? negative n.chars =
    some (Binary64.ofDecimal negative n.coefficient n.exponent) := by
  have hempty : n.whole.isEmpty = false := by simpa using n.nonempty
  have hpower := n.readExponent?_powerChars
  unfold Binary64.readUnsigned? chars pointed coefficient exponent
  by_cases hfraction : n.fraction = []
  · rw [if_pos hfraction, List.append_nil,
      Text.spanDigits_eq n.wholeDigits n.isDigit_head_powerChars, hfraction]
    rcases n.powerChars_cases with hnone | ⟨rest, hsome⟩
    · rw [hnone] at hpower
      simp [hnone, hempty, hpower]
    · rw [hsome] at hpower
      simp [hsome, hempty, hpower]
  · have hspan := Text.spanDigits_eq n.fractionDigits n.isDigit_head_powerChars
    rw [if_neg hfraction, List.append_assoc, List.cons_append, Text.spanDigits_eq n.wholeDigits (by
      intro c hc
      rw [← Option.some.inj hc]
      rfl)]
    simp [hspan, hempty, hpower]

/-- A numeral with its sign. -/
def signed (negative : Bool) : String :=
  String.ofList (if negative then '-' :: n.chars else n.chars)

theorem readTrimmed?_signed (negative : Bool) : Binary64.readTrimmed? (n.signed negative) =
    some (Binary64.ofDecimal negative n.coefficient n.exponent) := by
  obtain ⟨c, rest, hhead, hdigit⟩ := n.exists_head
  have hunsigned := n.readUnsigned?_chars negative
  have htrim := n.trim_chars
  unfold Binary64.readTrimmed? Binary64.read? signed
  rw [String.toList_ofList]
  cases negative with
  | true =>
      have htrimmed : Text.trim ('-' :: n.chars) = '-' :: n.chars := by
        refine Text.trim_of_not_isBlank fun c hc => ?_
        rcases List.mem_cons.mp hc with rfl | hc
        · decide
        · rcases n.mem_chars hc with hdigit | rfl | rfl | rfl | rfl
          · exact Text.isBlank_of_isDigit hdigit
          all_goals decide
      rw [if_pos rfl, htrimmed]
      change (Binary64.readWord? true n.chars).or (Binary64.readUnsigned? true n.chars) = _
      rw [hunsigned, hhead, Binary64.readWord?_of_isDigit true hdigit, Option.none_or]
  | false =>
      have hsign : c ≠ '+' ∧ c ≠ '-' := by constructor <;> rintro rfl <;> simp at hdigit
      rw [if_neg Bool.false_ne_true, htrim]
      rw [hhead] at hunsigned ⊢
      split
      rename_i negative body hmatch
      split at hmatch
      · rename_i heq
        exact absurd (List.cons.inj heq).1 hsign.1
      · rename_i heq
        exact absurd (List.cons.inj heq).1 hsign.2
      · obtain ⟨rfl, rfl⟩ := Prod.mk.inj hmatch
        rw [Binary64.readWord?_of_isDigit false hdigit, Option.none_or, hunsigned]

end Numeral

/-! ## Numbers as numerals -/

namespace Decimal

variable {d : Decimal}

/-- There is a point just before a fraction. -/
theorem IsWritten.fraction_eq_nil_iff {whole fraction : List Char}
    (h : d.IsWritten whole fraction) : fraction = [] ↔ 0 ≤ d.exponent := by
  have hpoint : '.' ∈ d.positional.toList ↔ fraction ≠ [] := by
    rw [h.text, List.mem_append]
    have hwhole : '.' ∉ whole := fun hmem => absurd (h.wholeDigits _ hmem) (by decide)
    by_cases hfraction : fraction = [] <;> simp [hwhole, hfraction]
  rw [← not_iff_not, ← ne_eq, ← hpoint, positional]
  by_cases hexponent : 0 ≤ d.exponent
  · have hdigits : '.' ∉ Nat.toDigits 10 d.coefficient :=
      fun hmem => absurd (Text.isDigit_of_mem_toDigits hmem) (by decide)
    simp [hexponent, hdigits]
  · simp [hexponent]

/-- A decimal in positional notation, with a zero behind a point if it has no fraction. -/
theorem exists_numeral_positional (hd : 0 < d.coefficient) :
    ∃ n : Numeral,
      (d.positional ++ if decide (0 ≤ d.exponent) then ".0" else "").toList = n.chars ∧
      n.IsFloating ∧ (n.coefficient : Rat) * 10 ^ n.exponent = d.toRat := by
  obtain ⟨whole, fraction, h⟩ := exists_isWritten hd
  by_cases hexponent : 0 ≤ d.exponent
  · obtain rfl := h.fraction_eq_nil_iff.mpr hexponent
    rw [decide_eq_true hexponent]
    refine ⟨⟨whole, ['0'], none, h.nonempty, h.wholeDigits, by simp, by simp⟩, ?_, ?_, ?_⟩
    · rw [if_pos rfl, String.toList_append, h.text]
      simp [Numeral.chars, Numeral.pointed, Numeral.powerChars]
    · exact Or.inl (List.cons_ne_nil _ _)
    · have hzero : Text.digitsValue ['0'] = 0 := rfl
      have hvalue := h.value
      simp only [Numeral.coefficient, Numeral.exponent, Numeral.shift, Text.digitsValue_append,
        hzero, List.append_nil, List.length_nil, List.length_singleton] at hvalue ⊢
      rw [← hvalue]
      push_cast
      norm_num
      ring
  · have hfraction : fraction ≠ [] := mt h.fraction_eq_nil_iff.mp hexponent
    rw [decide_eq_false hexponent]
    refine ⟨⟨whole, fraction, none, h.nonempty, h.wholeDigits, h.fractionDigits, by simp⟩,
      ?_, Or.inl hfraction, ?_⟩
    · rw [if_neg Bool.false_ne_true, String.append_empty, h.text]
      simp [Numeral.chars, Numeral.pointed, Numeral.powerChars]
    · rw [← h.value]
      simp [Numeral.coefficient, Numeral.exponent, Numeral.shift]

/-- A decimal in scientific notation. -/
theorem exists_numeral_scientific (hd : 0 < d.coefficient) :
    ∃ n : Numeral, d.scientific.toList = n.chars ∧
      n.IsFloating ∧ (n.coefficient : Rat) * 10 ^ n.exponent = d.toRat := by
  obtain ⟨digit, rest, hdigits⟩ :=
    List.exists_cons_of_ne_nil (Nat.toDigits_ne_nil (b := 10) (n := d.coefficient))
  have hall (c : Char) (hc : c ∈ digit :: rest) : c.isDigit = true :=
    Text.isDigit_of_mem_toDigits (hdigits ▸ hc)
  refine ⟨⟨[digit], rest, some (decide (d.leadingExponent < 0),
      Nat.toDigits 10 d.leadingExponent.natAbs), List.cons_ne_nil _ _,
    fun c hc => hall c (by simp_all), fun c hc => hall c (by simp_all), ?_⟩, ?_, ?_, ?_⟩
  · intro negative digits hpower
    obtain ⟨-, rfl⟩ := Prod.mk.inj (Option.some.inj hpower)
    exact ⟨Nat.toDigits_ne_nil, fun c hc => Text.isDigit_of_mem_toDigits hc⟩
  · rw [scientific, hdigits]
    by_cases hnegative : d.leadingExponent < 0 <;> cases rest <;>
      simp [Numeral.chars, Numeral.pointed, Numeral.powerChars, hnegative]
  · exact Or.inr (Option.some_ne_none _)
  · have hcount : (Text.digitCount d.coefficient : Int) = rest.length + 1 := by
      rw [Text.digitCount, if_neg hd.ne', hdigits, List.length_cons]
      push_cast
      rfl
    have hcoefficient : Text.digitsValue ([digit] ++ rest) = d.coefficient := by
      rw [List.singleton_append, ← hdigits, Text.digitsValue_toDigits]
    simp only [Numeral.coefficient, Numeral.exponent, Numeral.shift, hcoefficient,
      Text.digitsValue_toDigits]
    rw [toRat]
    congr 2
    unfold leadingExponent
    split <;> rename_i hsign <;> simp only [decide_eq_true_eq] at hsign <;> omega

end Decimal
namespace Binary64

/-- A positive number is written as a numeral of its own. -/
theorem HasUnits.exists_numeral {q : Rat} {p units : Int} (h : HasUnits q p units) :
    ∃ n : Numeral, (NumberStyle.interchange.writePositive q).toList = n.chars ∧ n.IsFloating ∧
      ∀ negative, ofDecimal negative n.coefficient n.exponent =
        finite (if negative then -q else q) := by
  have hholds := h.holds_shortest .toEven
  obtain ⟨hpos, -⟩ := h.round_shortest .toEven
  have hcoefficient : 0 < (shortest .toEven q).coefficient := by
    refine Nat.pos_of_ne_zero fun hzero => hpos.ne' ?_
    simp [Decimal.toRat, hzero]
  obtain ⟨n, hchars, hfloating, hvalue⟩ : ∃ n : Numeral,
      (NumberStyle.interchange.writePositive q).toList = n.chars ∧ n.IsFloating ∧
        (n.coefficient : Rat) * 10 ^ n.exponent = (shortest .toEven q).toRat := by
    simp only [NumberStyle.writePositive, NumberStyle.interchange, Bool.true_and]
    split
    · exact Decimal.exists_numeral_positional hcoefficient
    · exact Decimal.exists_numeral_scientific hcoefficient
  exact ⟨n, hchars, hfloating, fun negative => h.ofDecimal_eq (hvalue ▸ hholds) negative⟩

/-- The numeral of zero. -/
def zeroNumeral : Numeral := ⟨['0'], ['0'], none, by simp, by simp, by simp, by simp⟩

/-- A number is written as a numeral that reads back as the number. -/
theorem IsNumber.exists_numeral {x : Binary64} (h : x.IsNumber) :
    ∃ negative, ∃ n : Numeral, NumberStyle.interchange.write x = n.signed negative ∧
      n.IsFloating ∧ ofDecimal negative n.coefficient n.exponent = x := by
  have hsigned {text : String} {n : Numeral} (htext : text.toList = n.chars) :
      text = n.signed false ∧ "-" ++ text = n.signed true := by
    constructor
    · exact String.toList_inj.mp (by simp [Numeral.signed, htext])
    · exact String.toList_inj.mp (by simp [Numeral.signed, htext])
  have hzero : zeroNumeral.IsFloating := Or.inl (List.cons_ne_nil _ _)
  rcases h.eq_zero_or_hasUnits with rfl | rfl | ⟨q, p, units, hunits, hsign⟩
  · exact ⟨false, zeroNumeral, rfl, hzero, rfl⟩
  · exact ⟨true, zeroNumeral, rfl, hzero, rfl⟩
  · have hpos := hunits.value_pos
    obtain ⟨n, htext, hfloating, hvalue⟩ := hunits.exists_numeral
    rcases hsign with rfl | rfl
    · refine ⟨false, n, ?_, hfloating, hvalue false⟩
      rw [← (hsigned htext).1, NumberStyle.write, if_neg hpos.ne', if_neg (not_lt_of_gt hpos)]
    · refine ⟨true, n, ?_, hfloating, by rw [hvalue true, if_pos rfl]⟩
      rw [← (hsigned htext).2, NumberStyle.write, if_neg (neg_ne_zero.mpr hpos.ne'),
        if_pos (neg_neg_of_pos hpos), neg_neg]

end Binary64

/-- The numeral of a natural number. -/
def Numeral.ofNat (k : Nat) : Numeral :=
  ⟨Nat.toDigits 10 k, [], none, Nat.toDigits_ne_nil,
    fun _ hc => Text.isDigit_of_mem_toDigits hc, by simp, by simp⟩

theorem Numeral.chars_ofNat (k : Nat) : (Numeral.ofNat k).chars = Nat.toDigits 10 k := by
  simp [ofNat, chars, pointed, powerChars]

/-- An integer is written as the numeral of its size. -/
theorem toString_eq_signed (k : Int) :
    toString k = (Numeral.ofNat k.natAbs).signed (decide (k < 0)) := by
  rw [Numeral.signed, Numeral.chars_ofNat]
  cases k with
  | ofNat k => rfl
  | negSucc k =>
      rw [Int.negSucc_eq, ← Nat.cast_succ, Binary64.toString_neg_natCast (Nat.succ_pos k)]
      have hnegative : -((k + 1 : Nat) : Int) < 0 := by omega
      rw [decide_eq_true hnegative, if_pos rfl, Int.natAbs_neg, Int.natAbs_natCast]
      exact String.toList_inj.mp (by simp)

namespace Json.Number

/-- The integer that a text of digits says, a minus sign in front allowed. -/
def readInteger? : List Char → Option Int
  | '-' :: digits => (Text.readNat? digits).map fun k : Nat => -(k : Int)
  | digits => (Text.readNat? digits).map fun k : Nat => (k : Int)

/-- The number that a text says: an integer if it is one, else the nearest binary number. -/
def ofText? (text : String) : Option Json.Number :=
  ((readInteger? text.toList).map integer).or ((Binary64.readTrimmed? text).map floating)

/-- Whether a number is one that a text can say. -/
def isFinite : Json.Number → Bool
  | integer _ => true
  | floating x => decide x.IsNumber

theorem readInteger?_signed (n : Numeral) (negative : Bool) :
    readInteger? (n.signed negative).toList =
      (Text.readNat? n.chars).map fun k : Nat => if negative then -(k : Int) else (k : Int) := by
  obtain ⟨c, rest, hhead, hdigit⟩ := n.exists_head
  have hsign : c ≠ '-' := by rintro rfl; simp at hdigit
  rw [Numeral.signed, String.toList_ofList]
  cases negative with
  | true => rfl
  | false =>
      rw [if_neg Bool.false_ne_true, readInteger?]
      · rfl
      · intro digits hdigits
        rw [hhead] at hdigits
        exact hsign (List.cons.inj hdigits).1

/-- A fraction or an exponent has characters other than digits. -/
theorem readNat?_of_isFloating {n : Numeral} (h : n.IsFloating) : Text.readNat? n.chars = none := by
  have hmem : '.' ∈ n.chars ∨ 'e' ∈ n.chars := by
    rcases h with hfraction | hpower
    · left
      simp [Numeral.chars, Numeral.pointed, hfraction]
    · right
      obtain ⟨⟨negative, digits⟩, hsome⟩ := Option.ne_none_iff_exists'.mp hpower
      simp [Numeral.chars, Numeral.powerChars, hsome]
  refine if_neg fun hdigits => ?_
  have hall := List.all_eq_true.mp hdigits.2
  rcases hmem with hpoint | hexponent
  · exact absurd (hall _ hpoint) (by decide)
  · exact absurd (hall _ hexponent) (by decide)

/-- The text of a number is a numeral, with its sign. -/
theorem exists_numeral {n : Json.Number} (h : n.isFinite = true) :
    ∃ negative, ∃ numeral : Numeral, n.text = numeral.signed negative := by
  cases n with
  | integer k => exact ⟨_, _, toString_eq_signed k⟩
  | floating x =>
      obtain ⟨negative, numeral, htext, -⟩ := (of_decide_eq_true h : x.IsNumber).exists_numeral
      exact ⟨negative, numeral, htext⟩

/-- The text of an integer says the integer. -/
theorem readInteger?_toString (k : Int) : readInteger? (toString k).toList = some k := by
  have hread : Text.readNat? (Numeral.ofNat k.natAbs).chars = some k.natAbs := by
    rw [Numeral.chars_ofNat, Text.readNat?, if_pos ⟨Nat.toDigits_ne_nil,
      List.all_eq_true.mpr fun c hc => Text.isDigit_of_mem_toDigits hc⟩,
      Text.digitsValue_toDigits]
  have hvalue : (if decide (k < 0) = true then -(k.natAbs : Int) else k.natAbs) = k := by
    split <;> rename_i hsign <;> simp only [decide_eq_true_eq] at hsign <;> omega
  rw [toString_eq_signed, readInteger?_signed, hread, Option.map_some, hvalue]

/-- The text of a number says the number. -/
theorem ofText?_text {n : Json.Number} (h : n.isFinite = true) : ofText? n.text = some n := by
  cases n with
  | integer k =>
      rw [ofText?, text, readInteger?_toString]
      rfl
  | floating x =>
      obtain ⟨negative, numeral, htext, hfloating, hvalue⟩ :=
        (of_decide_eq_true h : x.IsNumber).exists_numeral
      rw [ofText?, text, htext, readInteger?_signed, readNat?_of_isFloating hfloating,
        numeral.readTrimmed?_signed, hvalue]
      rfl

end Json.Number
end Rollup
