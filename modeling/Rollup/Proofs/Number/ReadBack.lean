/-
# Numbers read back

The plain text of a finite number reads back as the number, but for the sign of zero. So different
numbers have different texts, and the text of an integer that 53 digits can say is its own digits.
-/

import Rollup.Number.Text
import Rollup.Proofs.Number.Shortest

namespace Rollup

/-! ## Texts of digits -/

namespace Text

theorem digitsValue_append (first second : List Char) :
    digitsValue (first ++ second) =
      10 ^ second.length * digitsValue first + digitsValue second := by
  have hvalue (digits : List Char) : digitsValue digits = Nat.ofDigitChars 10 digits 0 := rfl
  rw [hvalue, hvalue, hvalue, Nat.ofDigitChars_append, Nat.ofDigitChars_eq_ofDigitChars_zero]

theorem digitsValue_toDigits (n : Nat) : digitsValue (Nat.toDigits 10 n) = n :=
  Nat.ofDigitChars_ten_toDigits

theorem digitsValue_replicate_zero (n : Nat) : digitsValue (List.replicate n '0') = 0 := by
  have hvalue : digitsValue (List.replicate n '0') = 0 * 10 ^ n :=
    Nat.ofDigitChars_replicate_zero.trans (Nat.mul_comm _ _)
  rwa [Nat.zero_mul] at hvalue

theorem toDigits_mul_ten_pow {n : Nat} (hn : 0 < n) (k : Nat) :
    Nat.toDigits 10 (n * 10 ^ k) = Nat.toDigits 10 n ++ List.replicate k '0' := by
  induction k with
  | zero => simp
  | succ k ih =>
      have hdigit : Nat.toDigits 10 0 = ['0'] := Nat.toDigits_zero 10
      have hpos : 0 < n * 10 ^ k := Nat.mul_pos hn (Nat.pow_pos (by decide))
      have hstep := Nat.toDigits_append_toDigits (b := 10) (by decide) hpos (by decide : 0 < 10)
      rw [Nat.add_zero, ih, hdigit] at hstep
      rw [List.replicate_succ', ← List.append_assoc, hstep]
      congr 1
      ring

theorem isDigit_of_mem_toDigits {n : Nat} {c : Char} (h : c ∈ Nat.toDigits 10 n) :
    c.isDigit = true := Nat.isDigit_of_mem_toDigits (by decide) (by decide) h

theorem isDigit_of_mem_replicate_zero {n : Nat} {c : Char} (h : c ∈ List.replicate n '0') :
    c.isDigit = true := by
  rw [(List.mem_replicate.mp h).2]
  rfl

/-- Pieces and a separator put together have their characters and no others. -/
theorem forall_mem_intercalate {p : Char → Prop} {separator : String}
    (hseparator : ∀ c ∈ separator.toList, p c) {pieces : List String}
    (h : ∀ piece ∈ pieces, ∀ c ∈ piece.toList, p c) :
    ∀ c ∈ (String.intercalate separator pieces).toList, p c := by
  induction pieces with
  | nil => exact fun c hc => by cases hc
  | cons piece pieces ih =>
      have hpiece := h piece List.mem_cons_self
      cases pieces with
      | nil => simpa using hpiece
      | cons next pieces =>
          have hrest := ih fun other hother => h other (List.mem_cons_of_mem piece hother)
          intro c hc
          rw [String.intercalate_cons_cons, String.toList_append, String.toList_append] at hc
          rcases List.mem_append.mp hc with hfront | hmem
          · exact (List.mem_append.mp hfront).elim (hpiece c) (hseparator c)
          · exact hrest c hmem

/-- Digits end where something else begins. -/
theorem spanDigits_eq {digits rest : List Char} (hdigits : ∀ c ∈ digits, c.isDigit = true)
    (hrest : ∀ c ∈ rest.head?, c.isDigit = false) :
    spanDigits (digits ++ rest) = (digits, rest) := by
  unfold spanDigits
  rw [List.takeWhile_append_of_pos hdigits, List.dropWhile_append_of_pos hdigits]
  cases rest with
  | nil => simp
  | cons c rest =>
      have hc : ¬ c.isDigit = true := by simp [hrest c rfl]
      rw [List.takeWhile_cons_of_neg hc, List.dropWhile_cons_of_neg hc, List.append_nil]

theorem isBlank_of_isDigit {c : Char} (h : c.isDigit = true) : isBlank c = false := by
  have hrange : 48 ≤ c.toNat ∧ c.toNat ≤ 57 := by
    simp only [Char.isDigit, Bool.and_eq_true, decide_eq_true_eq, ge_iff_le,
      UInt32.le_iff_toNat_le] at h
    exact h
  simp only [isBlank, blankRanges, List.any_cons, List.any_nil, Bool.or_false, Bool.or_eq_false_iff,
    Bool.and_eq_false_iff, decide_eq_false_iff_not]
  omega

theorem trim_of_not_isBlank {text : List Char} (h : ∀ c ∈ text, isBlank c = false) :
    trim text = text := by
  have hstart (text : List Char) (h : ∀ c ∈ text, isBlank c = false) : trimStart text = text := by
    cases text with
    | nil => rfl
    | cons c rest => exact trimStart_of_not_isBlank (h c (by simp)) rest
  unfold trim
  rw [hstart text h, hstart text.reverse fun c hc => h c (List.mem_reverse.mp hc),
    List.reverse_reverse]

end Text

/-! ## Positional notation -/

namespace Decimal

/-- Positional notation is digits, and a point with more digits behind it if there is a fraction. -/
structure IsWritten (d : Decimal) (whole fraction : List Char) : Prop where
  text : d.positional.toList = whole ++ if fraction = [] then [] else '.' :: fraction
  nonempty : whole ≠ []
  wholeDigits : ∀ c ∈ whole, c.isDigit = true
  fractionDigits : ∀ c ∈ fraction, c.isDigit = true
  value : (Text.digitsValue (whole ++ fraction) : Rat) * 10 ^ (-(fraction.length : Int)) = d.toRat

theorem exists_isWritten {d : Decimal} (hd : 0 < d.coefficient) :
    ∃ whole fraction, d.IsWritten whole fraction := by
  by_cases hexponent : 0 ≤ d.exponent
  · refine ⟨Nat.toDigits 10 (d.coefficient * 10 ^ d.exponent.toNat), [], ?_⟩
    have hvalue : ((d.coefficient * 10 ^ d.exponent.toNat : Nat) : Rat) = d.toRat := by
      unfold toRat
      rw [← Int.toNat_of_nonneg hexponent, zpow_natCast, Int.toNat_natCast]
      push_cast
      rfl
    refine ⟨?_, Nat.toDigits_ne_nil, fun c hc => Text.isDigit_of_mem_toDigits hc, by simp, ?_⟩
    · rw [Text.toDigits_mul_ten_pow hd, positional, if_pos hexponent]
      simp
    · simp [Text.digitsValue_toDigits, ← hvalue]
  · -- zeros in front leave a digit before the point
    have hplaces : ((-d.exponent).toNat : Int) = -d.exponent := Int.toNat_of_nonneg (by omega)
    have hpositive : 0 < (-d.exponent).toNat := by omega
    let digits := (Text.padded ((-d.exponent).toNat + 1) d.coefficient).toList
    have hdigits : digits = List.replicate ((-d.exponent).toNat + 1 -
        (Nat.toDigits 10 d.coefficient).length) '0' ++ Nat.toDigits 10 d.coefficient := by
      simp [digits, Text.padded]
    have hlength : (-d.exponent).toNat + 1 ≤ digits.length := by
      rw [hdigits, List.length_append, List.length_replicate]
      omega
    have hall : ∀ c ∈ digits, c.isDigit = true := by
      intro c hc
      rw [hdigits] at hc
      rcases List.mem_append.mp hc with hzero | hdigit
      · exact Text.isDigit_of_mem_replicate_zero hzero
      · exact Text.isDigit_of_mem_toDigits hdigit
    have hvalue : Text.digitsValue digits = d.coefficient := by
      rw [hdigits, Text.digitsValue_append, Text.digitsValue_replicate_zero,
        Text.digitsValue_toDigits, Nat.mul_zero, Nat.zero_add]
    have hfraction : (digits.drop (digits.length - (-d.exponent).toNat)).length =
        (-d.exponent).toNat := by
      rw [List.length_drop]
      omega
    have hnotNil : digits.drop (digits.length - (-d.exponent).toNat) ≠ [] :=
      List.ne_nil_of_length_pos (by omega)
    refine ⟨digits.take (digits.length - (-d.exponent).toNat),
      digits.drop (digits.length - (-d.exponent).toNat), ?_, ?_,
      fun c hc => hall c (List.mem_of_mem_take hc),
      fun c hc => hall c (List.mem_of_mem_drop hc), ?_⟩
    · rw [if_neg hnotNil, positional, if_neg hexponent]
      simp [digits]
    · exact List.ne_nil_of_length_pos (by rw [List.length_take]; omega)
    · rw [List.take_append_drop, hfraction, hvalue, hplaces, neg_neg]
      rfl

section

variable {d : Decimal} {whole fraction : List Char}

/-- What stands behind the digits before the point is not a digit. -/
theorem IsWritten.spanDigits (h : d.IsWritten whole fraction) :
    Text.spanDigits d.positional.toList =
      (whole, if fraction = [] then [] else '.' :: fraction) := by
  rw [h.text]
  refine Text.spanDigits_eq h.wholeDigits ?_
  split
  · simp
  · intro c hc
    rw [← Option.some.inj hc]
    rfl

theorem IsWritten.readUnsigned? (h : d.IsWritten whole fraction) (negative : Bool) :
    Binary64.readUnsigned? negative d.positional.toList = some (Binary64.ofDecimal negative
      (Text.digitsValue (whole ++ fraction)) (-(fraction.length : Int))) := by
  have hempty : whole.isEmpty = false := by simpa using h.nonempty
  unfold Binary64.readUnsigned?
  rw [h.spanDigits]
  by_cases hfraction : fraction = []
  · simp [hfraction, hempty, Binary64.readExponent?]
  · have hspan : Text.spanDigits fraction = (fraction, []) := by
      have hrest : ∀ c ∈ ([] : List Char).head?, c.isDigit = false := by simp
      simpa using Text.spanDigits_eq h.fractionDigits hrest
    simp [hfraction, hempty, hspan, Binary64.readExponent?]

/-- Positional notation starts with a digit. -/
theorem IsWritten.exists_head (h : d.IsWritten whole fraction) :
    ∃ c rest, d.positional.toList = c :: rest ∧ c.isDigit = true := by
  obtain ⟨c, rest, rfl⟩ := List.exists_cons_of_ne_nil h.nonempty
  exact ⟨c, _, h.text.trans (List.cons_append ..), h.wholeDigits c (by simp)⟩

end

/-- Positional notation has digits and a point only. -/
theorem mem_positional (d : Decimal) {c : Char} (hc : c ∈ d.positional.toList) :
    c.isDigit = true ∨ c = '.' := by
  unfold positional at hc
  split at hc
  · rw [String.toList_ofList, List.mem_append] at hc
    exact Or.inl (hc.elim Text.isDigit_of_mem_toDigits Text.isDigit_of_mem_replicate_zero)
  · have hpadded {width : Nat} (hc : c ∈ (Text.padded width d.coefficient).toList) :
        c.isDigit = true := by
      rw [Text.padded, String.toList_ofList, List.mem_append] at hc
      exact hc.elim Text.isDigit_of_mem_replicate_zero Text.isDigit_of_mem_toDigits
    rw [String.toList_ofList, List.mem_append, List.mem_cons] at hc
    rcases hc with hwhole | hpoint | hfraction
    · exact Or.inl (hpadded (List.mem_of_mem_take hwhole))
    · exact Or.inr hpoint
    · exact Or.inl (hpadded (List.mem_of_mem_drop hfraction))

end Decimal

/-! ## Reading -/

namespace Binary64

theorem toLower_of_isDigit {c : Char} (h : c.isDigit = true) : c.toLower = c := by
  have hrange : c.toNat ≤ 57 := by
    simp only [Char.isDigit, Bool.and_eq_true, decide_eq_true_eq, UInt32.le_iff_toNat_le] at h
    exact h.2
  unfold Char.toLower
  split
  · rename_i hupper
    have hlow : 65 ≤ c.toNat := by
      simp only [ge_iff_le, UInt32.le_iff_toNat_le] at hupper
      exact hupper.1
    omega
  · rfl

/-- A text that starts with a digit is no word. -/
theorem readWord?_of_isDigit (negative : Bool) {c : Char} (h : c.isDigit = true)
    (rest : List Char) : readWord? negative (c :: rest) = none := by
  have hword (word : String) (hhead : word.toList.head?.any Char.isDigit = false) :
      (String.ofList ((c :: rest).map Char.toLower) == word) = false := by
    rw [beq_eq_false_iff_ne]
    rintro rfl
    rw [String.toList_ofList, List.map_cons, toLower_of_isDigit h, List.head?_cons,
      Option.any_some, h] at hhead
    cases hhead
  unfold readWord?
  dsimp only
  rw [hword "inf" (by decide), hword "infinity" (by decide), hword "nan" (by decide)]
  rfl

section

variable {d : Decimal} {whole fraction : List Char}

theorem readTrimmed?_positional (h : d.IsWritten whole fraction) :
    readTrimmed? d.positional = some (ofDecimal false (Text.digitsValue (whole ++ fraction))
      (-(fraction.length : Int))) := by
  obtain ⟨c, rest, hhead, hdigit⟩ := h.exists_head
  have htrim : Text.trim d.positional.toList = d.positional.toList :=
    Text.trim_of_not_isBlank fun c hc => (d.mem_positional hc).elim Text.isBlank_of_isDigit
      fun hpoint => hpoint ▸ by decide
  have hunsigned := h.readUnsigned? false
  unfold readTrimmed? read?
  rw [htrim]
  rw [hhead] at hunsigned ⊢
  have hsign : c ≠ '+' ∧ c ≠ '-' := by constructor <;> rintro rfl <;> simp at hdigit
  split
  rename_i negative body hmatch
  split at hmatch
  · rename_i heq
    exact absurd (List.cons.inj heq).1 hsign.1
  · rename_i heq
    exact absurd (List.cons.inj heq).1 hsign.2
  · obtain ⟨rfl, rfl⟩ := Prod.mk.inj hmatch
    rw [readWord?_of_isDigit false hdigit, Option.none_or, hunsigned]

theorem readTrimmed?_negative (h : d.IsWritten whole fraction) :
    readTrimmed? ("-" ++ d.positional) = some (ofDecimal true
      (Text.digitsValue (whole ++ fraction)) (-(fraction.length : Int))) := by
  obtain ⟨c, rest, hhead, hdigit⟩ := h.exists_head
  have hlist : ("-" ++ d.positional).toList = '-' :: d.positional.toList := by simp
  have htrim : Text.trim ('-' :: d.positional.toList) = '-' :: d.positional.toList := by
    refine Text.trim_of_not_isBlank fun c hc => ?_
    rcases List.mem_cons.mp hc with rfl | hc
    · decide
    · exact (d.mem_positional hc).elim Text.isBlank_of_isDigit fun hpoint => hpoint ▸ by decide
  have hunsigned := h.readUnsigned? true
  have hread (body : List Char) :
      read? ('-' :: body) = (readWord? true body).or (readUnsigned? true body) := rfl
  rw [readTrimmed?, hlist, htrim, hread]
  rw [hhead] at hunsigned ⊢
  rw [readWord?_of_isDigit true hdigit, Option.none_or, hunsigned]

end

/-! ## Numbers and decimals -/

variable {q : Rat} {p units : Int}

/-- What lies in the interval of a number is neither too large nor too small for its decimal. -/
theorem HasUnits.bounds (h : HasUnits q p units) {r : Rat} (hr : (interval q).holds r = true) :
    (10 : Rat) ^ (-360 : Int) < r ∧ r < 10 ^ (360 : Int) := by
  have hunit := two_zpow_pos p
  obtain ⟨hlow, hhigh, -⟩ := h.bounds_of_holds hr
  have hone : (1 : Rat) * 2 ^ p ≤ units * 2 ^ p :=
    mul_le_mul_of_nonneg_right (by exact_mod_cast h.pos) hunit.le
  rw [← h.value] at hone
  have hleast : (2 : Rat) ^ (-1074 : Int) ≤ 2 ^ p := zpow_le_zpow_right₀ (by norm_num) h.place
  have hhalf : q - 2 ^ p / 2 ≤ r := by
    refine le_trans ?_ hlow
    split <;> linarith
  -- three binary digits make less than one decimal digit
  have hthree (k : Nat) : (2 : Rat) ^ (3 * k : Int) ≤ 10 ^ (k : Int) := by
    rw [zpow_mul, zpow_natCast, zpow_natCast]
    exact pow_le_pow_left₀ (by norm_num) (by norm_num) k
  have hlarge : (2 : Rat) ^ (1024 : Int) * 2 ^ (1 : Int) ≤ 10 ^ (360 : Int) := by
    rw [← two_zpow_add]
    exact (zpow_le_zpow_right₀ (by norm_num) (by norm_num)).trans (hthree 360)
  have hsmall : (10 : Rat) ^ (-360 : Int) ≤ 2 ^ (-1080 : Int) := by
    have hinverse := inv_anti₀ (two_zpow_pos _) (hthree 360)
    rwa [← zpow_neg, ← zpow_neg] at hinverse
  have hsix : (2 : Rat) ^ (-1074 : Int) = 2 ^ (-1080 : Int) * 2 ^ (6 : Int) := by
    rw [← two_zpow_add]
    rfl
  have htwo : (2 : Rat) ^ (1 : Int) = 2 := by norm_num
  have hsixty : (2 : Rat) ^ (6 : Int) = 64 := by norm_num
  have hsmallPos := two_zpow_pos (-1080)
  rw [htwo] at hlarge
  rw [hsixty] at hsix
  constructor
  · linarith
  · calc r ≤ q + q / 2 := by linarith
      _ ≤ q * 2 := by linarith only [h.value_pos]
      _ < 2 ^ (1024 : Int) * 2 := mul_lt_mul_of_pos_right h.small (by norm_num)
      _ ≤ 10 ^ (360 : Int) := hlarge

/-- A decimal in the interval of a number is read as the number. -/
theorem HasUnits.ofDecimal_eq (h : HasUnits q p units) {coefficient : Nat} {exponent : Int}
    (hr : (interval q).holds (coefficient * 10 ^ exponent) = true) (negative : Bool) :
    ofDecimal negative coefficient exponent = finite (if negative then -q else q) := by
  obtain ⟨hpos, hround⟩ := h.round_of_holds hr
  obtain ⟨hlow, hhigh⟩ := h.bounds hr
  have hcoefficient : coefficient ≠ 0 := by
    rintro rfl
    simp at hpos
  obtain ⟨hten, hten'⟩ := ten_zpow_digitCount (Nat.pos_of_ne_zero hcoefficient)
  have hexponent := ten_zpow_pos exponent
  have hlower : (10 : Rat) ^ ((Text.digitCount coefficient : Int) - 1 + exponent) ≤
      coefficient * 10 ^ exponent := by
    rw [ten_zpow_add]
    exact mul_le_mul_of_nonneg_right hten hexponent.le
  have hupper : coefficient * (10 : Rat) ^ exponent <
      10 ^ ((Text.digitCount coefficient : Int) + exponent) := by
    rw [ten_zpow_add]
    exact mul_lt_mul_of_pos_right (by linarith) hexponent
  have hten1 : (1 : Rat) < 10 := by norm_num
  have hmost := (zpow_lt_zpow_iff_right₀ hten1).mp (hlower.trans_lt hhigh)
  have hleast := (zpow_lt_zpow_iff_right₀ hten1).mp (hlow.trans hupper)
  unfold ofDecimal
  rw [if_neg hcoefficient]
  dsimp only
  rw [if_neg (by omega), if_neg (by omega)]
  cases negative with
  | false => exact hround
  | true => exact round_neg h.value_pos.ne' hround

/-! ## Plain text -/

/-- A natural number in positional notation is its digits. -/
theorem positional_natural (n : Nat) :
    Decimal.positional ⟨n, 0⟩ = String.ofList (Nat.toDigits 10 n) := by
  simp [Decimal.positional]

theorem toString_neg_natCast {n : Nat} (hn : 0 < n) :
    toString (-(n : Int)) = "-" ++ String.ofList (Nat.toDigits 10 n) := by
  cases n with
  | zero => cases hn
  | succ n => rfl

/-- The plain text of a number is a decimal in its interval, with a sign in front if it has one. -/
theorem HasUnits.exists_text (h : HasUnits q p units) :
    ∃ d : Decimal, 0 < d.coefficient ∧ (interval q).holds d.toRat = true ∧
      (finite q).text = d.positional ∧ (finite (-q)).text = "-" ++ d.positional := by
  have hq := h.value_pos
  have hden : (-q).den = q.den := Rat.neg_den q
  have hsize : (-q).abs = q.abs := Rat.abs_neg
  by_cases hsmall : q.den = 1 ∧ q.abs < integerBound
  · have hnum : 0 < q.num := Rat.num_pos.mpr hq
    obtain ⟨n, hn⟩ : ∃ n : Nat, q.num = n := ⟨q.num.toNat, (Int.toNat_of_nonneg hnum.le).symm⟩
    have hpos : 0 < n := by omega
    have hvalue : (n : Rat) = q := by
      have hinteger := (Rat.den_eq_one_iff q).mp hsmall.1
      rwa [hn, Int.cast_natCast] at hinteger
    refine ⟨⟨n, 0⟩, hpos, ?_, ?_, ?_⟩
    · have htoRat : Decimal.toRat ⟨n, 0⟩ = q := by simp [Decimal.toRat, hvalue]
      rw [htoRat]
      exact h.holds_self
    · have hinteger : (finite q).smallInteger? = some (n : Int) := by
        rw [← hn]
        exact if_pos hsmall
      rw [text, hinteger, positional_natural]
      rfl
    · have hinteger : (finite (-q)).smallInteger? = some (-(n : Int)) := by
        rw [← hn, ← Rat.num_neg_eq_neg_num]
        exact if_pos ⟨hden.trans hsmall.1, hsize.trans_lt hsmall.2⟩
      rw [text, hinteger, positional_natural]
      exact toString_neg_natCast hpos
  · obtain ⟨hpos, -⟩ := h.round_shortest .upward
    have hinteger : (finite q).smallInteger? = none := if_neg hsmall
    have hinteger' : (finite (-q)).smallInteger? = none :=
      if_neg fun hboth => hsmall ⟨hden.symm.trans hboth.1, hsize.symm.trans_lt hboth.2⟩
    have hwrite : NumberStyle.plain.writePositive q = (shortest .upward q).positional := by
      simp [NumberStyle.writePositive, NumberStyle.plain]
    refine ⟨shortest .upward q, ?_, h.holds_shortest .upward, ?_, ?_⟩
    · refine Nat.pos_of_ne_zero fun hzero => hpos.ne' ?_
      simp [Decimal.toRat, hzero]
    · rw [text, hinteger]
      dsimp only
      rw [NumberStyle.write, if_neg hq.ne', if_neg (not_lt_of_gt hq), hwrite]
    · rw [text, hinteger']
      dsimp only
      rw [NumberStyle.write, if_neg (neg_ne_zero.mpr hq.ne'), if_pos (neg_neg_of_pos hq), neg_neg,
        hwrite]

/-- Plain text reads back as the number, but for the sign of zero. -/
theorem IsNumber.readTrimmed?_text {x : Binary64} (h : x.IsNumber) :
    ∃ y, readTrimmed? x.text = some y ∧ y.toRat? = x.toRat? := by
  have hzero : readTrimmed? "0" = some (finite 0) := by decide +kernel
  rcases h.eq_zero_or_hasUnits with rfl | rfl | ⟨q, p, units, hunits, hsign⟩
  · exact ⟨finite 0, hzero, rfl⟩
  · exact ⟨finite 0, hzero, rfl⟩
  · obtain ⟨d, hd, hholds, htext, hminus⟩ := hunits.exists_text
    obtain ⟨whole, fraction, hwritten⟩ := Decimal.exists_isWritten hd
    rw [← hwritten.value] at hholds
    rcases hsign with rfl | rfl
    · refine ⟨finite q, ?_, rfl⟩
      rw [htext, readTrimmed?_positional hwritten, hunits.ofDecimal_eq hholds]
      rfl
    · refine ⟨finite (-q), ?_, rfl⟩
      rw [hminus, readTrimmed?_negative hwritten, hunits.ofDecimal_eq hholds, if_pos rfl]

/-- Numbers with one text are equal, but for the sign of zero. -/
theorem IsNumber.toRat?_eq_of_text {x y : Binary64} (hx : x.IsNumber) (hy : y.IsNumber)
    (h : x.text = y.text) : x.toRat? = y.toRat? := by
  obtain ⟨x', hx', hxrat⟩ := hx.readTrimmed?_text
  obtain ⟨y', hy', hyrat⟩ := hy.readTrimmed?_text
  rw [h, hy'] at hx'
  rw [← hxrat, ← hyrat, Option.some.inj hx']

/-- Plain text has digits, a point and a sign only. -/
theorem IsNumber.mem_text {x : Binary64} (h : x.IsNumber) {c : Char} (hc : c ∈ x.text.toList) :
    c.isDigit = true ∨ c = '.' ∨ c = '-' := by
  have hpositional {d : Decimal} (hmem : c ∈ d.positional.toList) :
      c.isDigit = true ∨ c = '.' ∨ c = '-' := (d.mem_positional hmem).imp_right Or.inl
  have hzero (hmem : c ∈ "0".toList) : c.isDigit = true ∨ c = '.' ∨ c = '-' := by
    obtain rfl := List.mem_singleton.mp hmem
    exact Or.inl rfl
  rcases h.eq_zero_or_hasUnits with rfl | rfl | ⟨q, p, units, hunits, hsign⟩
  · exact hzero hc
  · exact hzero hc
  · obtain ⟨d, -, -, htext, hminus⟩ := hunits.exists_text
    rcases hsign with rfl | rfl
    · exact hpositional (htext ▸ hc)
    · rw [hminus, String.toList_append] at hc
      rcases List.mem_append.mp hc with hsign | hmem
      · exact Or.inr (Or.inr (List.mem_singleton.mp hsign))
      · exact hpositional hmem

/-! ## Integers that 53 digits can say -/

/-- A positive integer below the first power of two that needs 54 digits has units. -/
theorem hasUnits_natCast {n : Nat} (hn : 0 < n) (hlt : n < 2 ^ 53) :
    HasUnits n ((n.log2 : Int) - 52) (n * 2 ^ (52 - n.log2)) := by
  have hlog : n.log2 ≤ 52 := Nat.lt_succ_iff.mp ((Nat.log2_lt hn.ne').mpr hlt)
  have hlow := Nat.log2_self_le hn.ne'
  have hhigh := Nat.lt_log2_self (n := n)
  have hsplit (k : Nat) (hk : k ≤ 52) : 2 ^ k * 2 ^ (52 - k) = (2 : Nat) ^ 52 := by
    rw [← Nat.pow_add, Nat.add_sub_cancel' hk]
  have hpos : 0 < 2 ^ (52 - n.log2) := Nat.pow_pos (by decide)
  refine ⟨?_, ?_, ?_, by omega, Or.inr ?_, ?_⟩
  · have hexponent : ((n.log2 : Int) - 52) = -((52 - n.log2 : Nat) : Int) := by omega
    rw [hexponent, zpow_neg, zpow_natCast]
    push_cast
    rw [mul_assoc, mul_inv_cancel₀ (pow_ne_zero _ (by norm_num)), mul_one]
  · exact_mod_cast Nat.mul_pos hn hpos
  · have hmul := Nat.mul_lt_mul_of_pos_right hhigh hpos
    rw [Nat.pow_succ, Nat.mul_right_comm, hsplit _ hlog] at hmul
    exact_mod_cast hmul
  · have hmul := Nat.mul_le_mul_right (2 ^ (52 - n.log2)) hlow
    rw [hsplit _ hlog] at hmul
    exact_mod_cast hmul
  · calc (n : Rat) < 2 ^ (53 : Int) := by exact_mod_cast hlt
      _ ≤ 2 ^ (1024 : Int) := zpow_le_zpow_right₀ (by norm_num) (by norm_num)

/-- The shortest decimal of an integer of sixteen digits is the integer. -/
theorem shortest_natCast {n : Nat} (hlow : 2 ^ 52 ≤ n) (hhigh : n < 2 ^ 53) (tie : Decimal.Tie) :
    (shortest tie n).toRat = n ∧ 0 ≤ (shortest tie n).exponent := by
  have hpos : 0 < n := by omega
  have hunits := hasUnits_natCast hpos hhigh
  have hlog : n.log2 = 52 := (Nat.log2_eq_iff hpos.ne').mpr ⟨hlow, hhigh⟩
  have hten : (1 : Rat) < 10 := by norm_num
  have hexponent : decimalExponent n = 15 := by
    obtain ⟨hbelow, habove⟩ := decimalExponent_spec (q := n) (by exact_mod_cast hpos)
    have hleast : (10 : Rat) ^ (15 : Int) ≤ n := by
      refine le_trans (b := ((2 ^ 52 : Nat) : Rat)) (by norm_num) (by exact_mod_cast hlow)
    have hmost : (n : Rat) < 10 ^ (16 : Int) := by
      refine lt_trans (b := ((2 ^ 53 : Nat) : Rat)) (by exact_mod_cast hhigh) (by norm_num)
    have hlt := (zpow_lt_zpow_iff_right₀ hten).mp (hleast.trans_lt habove)
    have hlt' := (zpow_lt_zpow_iff_right₀ hten).mp (hbelow.trans_lt hmost)
    omega
  have hsome : (nearestWithDigits tie n (15 + 1)).isSome = true := by
    refine isSome_nearestWithDigits 1 ?_ (Or.inl ?_)
    · rw [hexponent]
      norm_num
    · have hfloor : ((n : Rat) / 1).floor.toNat = n := by
        rw [div_one]
        exact Int.toNat_natCast n
      rw [hfloor, mul_one]
      exact hunits.holds_self
  obtain ⟨hholds, hle⟩ := shortest_spec (by decide : 15 < 17) hsome
  have hnonneg : 0 ≤ (shortest tie n).exponent := by
    rw [hexponent] at hle
    exact hle
  refine ⟨?_, hnonneg⟩
  -- an integer at most a half away is the integer itself
  obtain ⟨hnear, hnear', -⟩ := hunits.bounds_of_holds hholds
  have hunit : (2 : Rat) ^ ((n.log2 : Int) - 52) = 1 := by rw [hlog]; norm_num
  rw [hunit] at hnear hnear'
  have hinteger : (shortest tie n).toRat = (((shortest tie n).coefficient *
      10 ^ (shortest tie n).exponent.toNat : Nat) : Rat) := by
    unfold Decimal.toRat
    rw [← Int.toNat_of_nonneg hnonneg, zpow_natCast, Int.toNat_natCast]
    push_cast
    rfl
  have hhalf : (n : Rat) - 1 / 2 ≤ (shortest tie n).toRat := by
    refine le_trans ?_ hnear
    split <;> linarith
  rw [hinteger] at hhalf hnear' ⊢
  generalize (shortest tie n).coefficient * 10 ^ (shortest tie n).exponent.toNat = m at *
  have hle : n < m + 1 := by
    have hcast : (n : Rat) < m + 1 := by linarith
    exact_mod_cast hcast
  have hge : m < n + 1 := by
    have hcast : (m : Rat) < n + 1 := by linarith
    exact_mod_cast hcast
  rw [(by omega : m = n)]

/-- A decimal without a fraction is written as its digits. -/
theorem positional_of_toRat {d : Decimal} {n : Nat} (hn : 0 < n) (hvalue : d.toRat = n)
    (hexponent : 0 ≤ d.exponent) : d.positional = String.ofList (Nat.toDigits 10 n) := by
  have hproduct : d.coefficient * 10 ^ d.exponent.toNat = n := by
    unfold Decimal.toRat at hvalue
    rw [← Int.toNat_of_nonneg hexponent, zpow_natCast] at hvalue
    exact_mod_cast hvalue
  have hcoefficient : 0 < d.coefficient := by
    refine Nat.pos_of_ne_zero fun hzero => hn.ne ?_
    rw [← hproduct, hzero, Nat.zero_mul]
  rw [← hproduct, Text.toDigits_mul_ten_pow hcoefficient, Decimal.positional, if_pos hexponent]

theorem text_natCast {n : Nat} (hn : 0 < n) (hlt : n < 2 ^ 53) :
    (finite n).text = String.ofList (Nat.toDigits 10 n) ∧
      (finite (-n)).text = "-" ++ String.ofList (Nat.toDigits 10 n) := by
  have hpos : (0 : Rat) < n := by exact_mod_cast hn
  have hden : ((n : Rat)).den = 1 := Rat.den_natCast n
  have hden' : (-(n : Rat)).den = 1 := (Rat.neg_den _).trans hden
  have hsize : (n : Rat).abs = n := Rat.abs_of_nonneg hpos.le
  have hsize' : (-(n : Rat)).abs = n := Rat.abs_neg.trans hsize
  by_cases hsmall : (n : Rat) < integerBound
  · have hinteger : (finite n).smallInteger? = some (n : Int) := by
      have hnum : (n : Rat).num = n := Rat.num_natCast n
      rw [← hnum]
      exact if_pos ⟨hden, hsize.trans_lt hsmall⟩
    have hinteger' : (finite (-n)).smallInteger? = some (-(n : Int)) := by
      have hnum : (-(n : Rat)).num = -(n : Int) := Rat.num_natCast n ▸ Rat.num_neg_eq_neg_num n
      rw [← hnum]
      exact if_pos ⟨hden', hsize'.trans_lt hsmall⟩
    rw [text, hinteger, text, hinteger']
    exact ⟨rfl, toString_neg_natCast hn⟩
  · have hlow : 2 ^ 52 ≤ n := by
      have hbound : ((2 ^ 52 : Nat) : Rat) ≤ n := by
        refine le_trans ?_ (not_lt.mp hsmall)
        norm_num [integerBound]
      exact_mod_cast hbound
    obtain ⟨hvalue, hexponent⟩ := shortest_natCast hlow hlt .upward
    have hwrite : NumberStyle.plain.writePositive n = String.ofList (Nat.toDigits 10 n) := by
      rw [← positional_of_toRat hn hvalue hexponent]
      simp [NumberStyle.writePositive, NumberStyle.plain]
    have hinteger : (finite n).smallInteger? = none :=
      if_neg fun hboth => hsmall (hsize.symm.trans_lt hboth.2)
    have hinteger' : (finite (-n)).smallInteger? = none :=
      if_neg fun hboth => hsmall (hsize'.symm.trans_lt hboth.2)
    rw [text, hinteger, text, hinteger']
    dsimp only
    rw [NumberStyle.write, if_neg hpos.ne', if_neg (not_lt_of_gt hpos), NumberStyle.write,
      if_neg (neg_ne_zero.mpr hpos.ne'), if_pos (neg_neg_of_pos hpos), neg_neg, hwrite]
    exact ⟨rfl, rfl⟩

/-- The text of an integer that 53 digits can say is its own digits. -/
theorem text_ofInt {n : Int} (h : n.natAbs ≤ 2 ^ 53) : (ofInt n).text = toString n := by
  have hlast : (ofInt (2 ^ 53)).text = toString (2 ^ 53 : Int) ∧
      (ofInt (-2 ^ 53)).text = toString (-2 ^ 53 : Int) := by decide +kernel
  obtain ⟨k, rfl | rfl⟩ := Int.eq_nat_or_neg n
  all_goals
    rcases Nat.eq_zero_or_pos k with rfl | hk
    · decide +kernel
  · rcases Nat.lt_or_ge k (2 ^ 53) with hlt | hge
    · have hround := (hasUnits_natCast hk hlt).round_eq
      have hof : ofInt k = finite k := hround
      rw [hof, (text_natCast hk hlt).1]
      rfl
    · obtain rfl : k = 2 ^ 53 := by omega
      exact hlast.1
  · rcases Nat.lt_or_ge k (2 ^ 53) with hlt | hge
    · have hpos : (k : Rat) ≠ 0 := by exact_mod_cast hk.ne'
      have hround := round_neg hpos (hasUnits_natCast hk hlt).round_eq
      have hof : ofInt (-k) = finite (-k) := by
        rw [ofInt, Int.cast_neg, Int.cast_natCast]
        exact hround
      rw [hof, (text_natCast hk hlt).2, toString_neg_natCast hk]
    · obtain rfl : k = 2 ^ 53 := by omega
      exact hlast.2

end Binary64
end Rollup
