/-
# Dates that buckets show

The bucket of a range of dates shows its bounds as milliseconds, which come from the bound in
seconds as a binary number. They are the start of the second of the bound if this second is an
integer that a binary number holds, and if its milliseconds fit into 64 bits. Neither is checked when
the range is read. Parts of a millisecond are cut off toward zero, so before 1970 the second may be
the next one.
-/

import Rollup.Proofs.Calendar.Representable
import Rollup.Proofs.Filter.DateBounds

namespace Rollup

/-! ## Integers of 54 digits -/

namespace Binary64

/-- An integer of 54 binary digits rounds to an even one. -/
theorem round_natCast_even {n : Nat} (hlow : 2 ^ 53 ≤ n) (hhigh : n < 2 ^ 54) :
    round n = finite ((roundHalfEven ((n : Rat) / 2) * 2 : Int) : Rat) := by
  have hnLow : (2 : Rat) ^ 53 ≤ n := by exact_mod_cast hlow
  have hnHigh : (n : Rat) < 2 ^ 54 := by exact_mod_cast hhigh
  have hpos : (0 : Rat) < n := lt_of_lt_of_le (by norm_num) hnLow
  have hplace : lastPlace (n : Rat) = 1 := by
    refine lastPlace_eq hpos (by decide) (Or.inr ?_) ?_
    · norm_num at hnLow ⊢
      exact hnLow
    · norm_num at hnHigh ⊢
      exact hnHigh
  have hnearest : IsNearest ((n : Rat) / 2 ^ (1 : Int)) (roundHalfEven ((n : Rat) / 2)) := by
    rw [zpow_one]
    exact isNearest_roundHalfEven _
  have hbounds : (0 : Rat) < roundHalfEven ((n : Rat) / 2) ∧
      (roundHalfEven ((n : Rat) / 2) : Rat) < 2 ^ 54 := by
    have hnear := isNearest_roundHalfEven ((n : Rat) / 2)
    constructor
    · linarith [hnear.high]
    · linarith [hnear.low]
  have hfinite : (roundHalfEven ((n : Rat) / 2) : Rat) * 2 ^ (1 : Int) < 2 ^ (1024 : Int) := by
    calc (roundHalfEven ((n : Rat) / 2) : Rat) * 2 ^ (1 : Int)
        < 2 ^ 54 * 2 := by
          rw [zpow_one]
          linarith [hbounds.2]
      _ ≤ 2 ^ (1024 : Int) := by
          rw [← pow_succ]
          exact_mod_cast Nat.pow_le_pow_right (by decide) (by decide)
  rw [round_eq hpos hplace hnearest (by exact_mod_cast hbounds.1) hfinite]
  rw [zpow_one, Int.cast_mul, Int.cast_ofNat]

theorem ofInt_eq_even {n : Int} (hlow : 2 ^ 53 ≤ n.natAbs) (hhigh : n.natAbs < 2 ^ 54) :
    ofInt n = finite ((roundHalfEven ((n : Rat) / 2) * 2 : Int) : Rat) := by
  obtain ⟨k, rfl | rfl⟩ := n.eq_nat_or_neg
  · exact round_natCast_even (by simpa using hlow) (by simpa using hhigh)
  · rw [Int.natAbs_neg, Int.natAbs_natCast] at hlow hhigh
    have hround := round_natCast_even hlow hhigh
    have hhalf : ((1 : Int) : Rat) < roundHalfEven ((k : Rat) / 2) := by
      have hk : (2 : Rat) ^ 53 ≤ k := by exact_mod_cast hlow
      have hnear := (isNearest_roundHalfEven ((k : Rat) / 2)).high
      push_cast
      linarith
    have hne : ((roundHalfEven ((k : Rat) / 2) * 2 : Int) : Rat) ≠ 0 := by
      have hpos := Int.cast_lt.mp hhalf
      rw [Int.cast_ne_zero]
      omega
    have hopposite := round_neg hne hround
    rw [ofInt, Int.cast_neg, Int.cast_natCast, hopposite, neg_div, roundHalfEven_neg, neg_mul,
      Int.cast_neg]

/-- Half an integer of 54 digits is rounded to a neighbour. -/
theorem roundHalfEven_half (n : Int) :
    2 * roundHalfEven ((n : Rat) / 2) - 1 ≤ n ∧ n ≤ 2 * roundHalfEven ((n : Rat) / 2) + 1 := by
  have hnear := isNearest_roundHalfEven ((n : Rat) / 2)
  constructor
  · have hcast : ((2 * roundHalfEven ((n : Rat) / 2) - 1 : Int) : Rat) ≤ n := by
      push_cast
      linarith [hnear.low]
    exact_mod_cast hcast
  · have hcast : (n : Rat) ≤ ((2 * roundHalfEven ((n : Rat) / 2) + 1 : Int) : Rat) := by
      push_cast
      linarith [hnear.high]
    exact_mod_cast hcast

theorem toInt64_truncate_intCast (n : Int) : (finite n).toInt64 truncate = clampInt64 n := by
  rw [toInt64, truncate_intCast]

theorem truncate_eq_ceil {q : Rat} (hq : q < 0) : truncate q = ⌈q⌉ := by
  have hneg : truncate q = -⌊-q⌋ := if_neg hq.not_ge
  rw [hneg, Int.floor_neg, neg_neg]

theorem natAbs_truncate_lt {q : Rat} {n : Nat} (h : |q| < n) : (truncate q).natAbs < n := by
  obtain ⟨hlow, hhigh⟩ := abs_lt.mp h
  rcases le_or_gt 0 q with hq | hq
  · have htruncate : truncate q = ⌊q⌋ := if_pos hq
    have hfloor : ⌊q⌋ < n := Int.floor_lt.mpr (by exact_mod_cast hhigh)
    have hpos : 0 ≤ ⌊q⌋ := Int.floor_nonneg.mpr hq
    omega
  · have htruncate := truncate_eq_ceil hq
    have hceil : -(n : Int) < ⌈q⌉ := Int.lt_ceil.mpr (by exact_mod_cast hlow)
    have hneg : ⌈q⌉ ≤ 0 := Int.ceil_le.mpr (by exact_mod_cast hq.le)
    omega

theorem toInt64_truncate {x : Binary64} {q : Rat} (hx : x.toRat? = some q) (hq : |q| < 2 ^ 53) :
    x.toInt64 truncate = truncate q := by
  have hsmall := natAbs_truncate_lt (by exact_mod_cast hq)
  cases x with
  | finite p =>
      obtain rfl := Option.some.inj hx
      rw [toInt64, clampInt64]
      unfold int64Min int64Max
      split
      · omega
      · split
        · omega
        · rfl
  | negativeZero =>
      obtain rfl := Option.some.inj hx
      rfl
  | infinite negative => cases hx
  | nan negative => cases hx

theorem clampInt64_bounds (n : Int) : int64Min ≤ clampInt64 n ∧ clampInt64 n ≤ int64Max := by
  unfold clampInt64 int64Min int64Max
  split
  · omega
  · split
    · omega
    · omega

theorem toInt64_bounds (rule : Rat → Int) (x : Binary64) :
    int64Min ≤ x.toInt64 rule ∧ x.toInt64 rule ≤ int64Max := by
  cases x with
  | finite q => exact clampInt64_bounds _
  | negativeZero => exact (by decide : int64Min ≤ 0 ∧ 0 ≤ int64Max)
  | infinite negative =>
      cases negative with
      | false => exact (by decide : int64Min ≤ int64Max ∧ int64Max ≤ int64Max)
      | true => exact (by decide : int64Min ≤ int64Min ∧ int64Min ≤ int64Max)
  | nan negative => exact (by decide : int64Min ≤ 0 ∧ 0 ≤ int64Max)

end Binary64

/-! ## Shown milliseconds -/

namespace Ranges

open Binary64

/-- The milliseconds that a bucket shows for a bound in milliseconds. -/
def shownMillis (ms : Int) : Int := (Binary64.ofInt (ms / 1000)).toInt64 Binary64.truncate * 1000

/-- What a bucket shows for a bound in milliseconds that may be absent. -/
def shownBound (name : String) (ms? : Option Int) : List (String × Json) :=
  ms?.toList.flatMap fun ms =>
    [(name, .ofInt (shownMillis ms)),
      (name ++ "_as_string", .string (Calendar.millisText (shownMillis ms)))]

/-- Whether a bucket shows the start of a second for a bound, in 64 bits. -/
def ShowsSecond (ms second : Int) : Prop :=
  shownMillis ms = second * 1000 ∧ int64Min ≤ shownMillis ms ∧ shownMillis ms ≤ int64Max

/-- Whether a binary number holds the second of a bound, and 64 bits its milliseconds. -/
def HoldsSecond (ms : Int) : Prop :=
  ((ms / 1000).natAbs ≤ 2 ^ 53 ∨ 2 ∣ ms / 1000) ∧ (ms / 1000).natAbs < 9223372036854775

theorem showsSecond_iff_of_short {ms second : Int} (h : (ms / 1000).natAbs < 2 ^ 53) :
    ShowsSecond ms second ↔ ms / 1000 = second := by
  have hshown : shownMillis ms = ms / 1000 * 1000 := by
    rw [shownMillis, toInt64_ofInt h (truncate_intCast _)]
  unfold ShowsSecond int64Min int64Max
  rw [hshown]
  omega

/-- A bucket shows the second of a bound just when a binary number holds it. -/
theorem showsSecond_iff {ms : Int} (hlow : int64Min ≤ ms) (hhigh : ms ≤ int64Max) :
    ShowsSecond ms (ms / 1000) ↔ HoldsSecond ms := by
  unfold int64Min at hlow
  unfold int64Max at hhigh
  rcases Nat.lt_or_ge (ms / 1000).natAbs (2 ^ 53) with hshort | hlong
  · rw [showsSecond_iff_of_short hshort]
    unfold HoldsSecond
    omega
  · have hround := roundHalfEven_half (ms / 1000)
    have hshown : shownMillis ms = roundHalfEven ((ms / 1000 : Int) / 2) * 2 * 1000 := by
      rw [shownMillis, ofInt_eq_even hlong (by omega), toInt64_truncate_intCast, clampInt64]
      unfold int64Min int64Max
      split
      · omega
      · split
        · omega
        · rfl
    unfold ShowsSecond HoldsSecond int64Min int64Max
    rw [hshown]
    omega

end Ranges

/-! ## Bounds that are asked for -/

namespace Calendar

/-- Whether a number of milliseconds is less than one before a second, this one not after 1970. -/
def IsJustBefore (q : Rat) : Prop := ∃ k : Int, k ≤ 0 ∧ 1000 * (k : Rat) - 1 < q ∧ q < 1000 * k

theorem not_isJustBefore_intCast (n : Int) : ¬IsJustBefore n := by
  rintro ⟨k, -, hlow, hhigh⟩
  have hlow : 1000 * k - 1 < n := by exact_mod_cast hlow
  have hhigh : n < 1000 * k := by exact_mod_cast hhigh
  omega

/-- Parts of a millisecond that are cut off toward zero leave the second as it is, but for the last
millisecond of the seconds before 1970. -/
theorem truncate_ediv_eq_iff {q : Rat} :
    Binary64.truncate q / 1000 = ⌊q / 1000⌋ ↔ ¬IsJustBefore q := by
  obtain ⟨s, hs⟩ : ∃ s, ⌊q / 1000⌋ = s := ⟨_, rfl⟩
  obtain ⟨hlow, hhigh⟩ := Int.floor_eq_iff.mp hs
  have hlow : ((1000 * s : Int) : Rat) ≤ q := by push_cast; linarith
  have hhigh : q < ((1000 * (s + 1) : Int) : Rat) := by push_cast; linarith
  rw [hs]
  rcases le_or_gt 0 q with hq | hq
  · have htruncate : Binary64.truncate q = ⌊q⌋ := if_pos hq
    have hfrom : 1000 * s ≤ ⌊q⌋ := Int.le_floor.mpr hlow
    have hto : ⌊q⌋ < 1000 * (s + 1) := Int.floor_lt.mpr hhigh
    have hnot : ¬IsJustBefore q := by
      rintro ⟨k, hk, -, hbefore⟩
      have hk : (k : Rat) ≤ 0 := by exact_mod_cast hk
      linarith
    rw [htruncate]
    exact iff_of_true (by omega) hnot
  · have hfrom : 1000 * s ≤ ⌈q⌉ := by exact_mod_cast hlow.trans (Int.le_ceil q)
    have hto : ⌈q⌉ ≤ 1000 * (s + 1) := Int.ceil_le.mpr hhigh.le
    have hnext : IsJustBefore q ↔ ⌈q⌉ = 1000 * (s + 1) := by
      rw [Int.ceil_eq_iff]
      push_cast
      push_cast at hlow hhigh
      constructor
      · rintro ⟨k, -, hafter, hbefore⟩
        have hnear : 1000 * k - 1 < 1000 * (s + 1) ∧ 1000 * s < 1000 * k := by
          constructor
          · have : (1000 * (k : Rat) - 1) < 1000 * (s + 1) := hafter.trans hhigh
            exact_mod_cast this
          · have : (1000 * (s : Rat)) < 1000 * k := hlow.trans_lt hbefore
            exact_mod_cast this
        obtain rfl : k = s + 1 := by omega
        push_cast at hafter
        exact ⟨hafter, hhigh.le⟩
      · rintro ⟨hafter, -⟩
        have hneg : (1000 * (s : Rat)) < 0 := hlow.trans_lt hq
        have hneg : 1000 * s < 0 := by exact_mod_cast hneg
        exact ⟨s + 1, by omega, by push_cast; exact hafter, by push_cast; exact hhigh⟩
    rw [Binary64.truncate_eq_ceil hq, hnext]
    omega

/-- Whether a date in a request asks for a number of milliseconds: by a number or the text of one, as
the format scales it, of less than 54 binary digits, or by a date expression. -/
inductive AsksFor (now : Instant) (format : Option String) : Json → Rat → Prop
  | number (n : Json.Number) (q : Rat) :
      (if inSeconds format then n.toBinary64 * 1000 else n.toBinary64).toRat? = some q →
      |q| < 2 ^ 53 → AsksFor now format (.number n) q
  | text (s : String) (x : Binary64) (q : Rat) : Binary64.read? (Text.trim s.toList) = some x →
      (if inSeconds format then x * 1000 else x).toRat? = some q → |q| < 2 ^ 53 →
      AsksFor now format (.string s) q
  | date (s : String) (t : Instant) : Binary64.read? (Text.trim s.toList) = none →
      evaluate? now (Text.trim s.toList) = some t → AsksFor now format (.string s) t.millis

variable {now : Instant} {format : Option String} {value : Json} {ms : Int}

/-- An integer of milliseconds asks for just as many. -/
theorem asksFor_millis (hformat : inSeconds format = false) {k : Int} (hk : k.natAbs < 2 ^ 53) :
    AsksFor now format (.ofInt k) k := by
  refine .number _ _ ?_ ?_
  · rw [hformat, if_neg Bool.false_ne_true, Json.Number.toBinary64, Binary64.ofInt_eq_finite hk]
    rfl
  · rw [← Int.cast_abs, Int.abs_eq_natAbs]
    exact_mod_cast hk

/-- An integer of seconds asks for a thousand times as many milliseconds. -/
theorem asksFor_seconds (hformat : inSeconds format = true) {k : Int}
    (hk : (k * 1000).natAbs < 2 ^ 53) : AsksFor now format (.ofInt k) ((k * 1000 : Int) : Rat) := by
  have hthousand : (1000 : Binary64) = Binary64.ofInt 1000 := rfl
  refine .number _ _ ?_ ?_
  · rw [hformat, if_pos rfl, Json.Number.toBinary64, hthousand,
      Binary64.ofInt_mul_ofInt (by decide) (by omega) (by decide), Binary64.ofInt_eq_finite hk]
    rfl
  · rw [← Int.cast_abs, Int.abs_eq_natAbs]
    exact_mod_cast hk

theorem resolveMillis_bounds (hnow : now.IsRepresentable)
    (h : resolveMillis now format value = .ok ms) :
    Binary64.int64Min ≤ ms ∧ ms ≤ Binary64.int64Max := by
  unfold resolveMillis at h
  dsimp only at h
  split at h
  · obtain rfl := Except.ok.inj h
    exact Binary64.toInt64_bounds _ _
  · split at h
    · obtain rfl := Except.ok.inj h
      exact Binary64.toInt64_bounds _ _
    · split at h
      · rename_i t ht
        obtain rfl := Except.ok.inj h
        have hmillis := (isRepresentable_evaluate? hnow ht).millis_bounds
        unfold Binary64.int64Min Binary64.int64Max
        omega
      · cases h
  · cases h

/-- A date is resolved to the whole milliseconds of what it asks for. -/
theorem AsksFor.resolveMillis_eq (hnow : now.IsRepresentable) {q : Rat}
    (h : AsksFor now format value q) :
    resolveMillis now format value = .ok (Binary64.truncate q) ∧
      (Binary64.truncate q / 1000).natAbs < 2 ^ 53 := by
  have hshort {p : Rat} (hp : |p| < 2 ^ 53) : (Binary64.truncate p / 1000).natAbs < 2 ^ 53 := by
    have htruncate := Binary64.natAbs_truncate_lt (q := p) (n := 2 ^ 53) (by exact_mod_cast hp)
    omega
  cases h with
  | number n q hscaled hq =>
      rw [resolveMillis]
      exact ⟨congrArg _ (Binary64.toInt64_truncate hscaled hq), hshort hq⟩
  | text s x q hread hscaled hq =>
      rw [resolveMillis, hread]
      exact ⟨congrArg _ (Binary64.toInt64_truncate hscaled hq), hshort hq⟩
  | date s t hread ht =>
      have hmillis := (isRepresentable_evaluate? hnow ht).millis_bounds
      rw [resolveMillis, hread, ht, Binary64.truncate_intCast]
      exact ⟨rfl, by omega⟩

/-- A bucket shows the second of what a date asks for, unless this is a part of a millisecond before
the next one. -/
theorem AsksFor.showsSecond_iff (hnow : now.IsRepresentable) {q : Rat}
    (h : AsksFor now format value q) : ∃ ms, resolveMillis now format value = .ok ms ∧
      (Ranges.ShowsSecond ms ⌊q / 1000⌋ ↔ ¬IsJustBefore q) := by
  obtain ⟨hresolved, hshort⟩ := h.resolveMillis_eq hnow
  exact ⟨_, hresolved, (Ranges.showsSecond_iff_of_short hshort).trans truncate_ediv_eq_iff⟩

end Calendar

/-! ## Buckets of dates -/

namespace Ranges

open Binary64

/-- What the bucket of a range of dates shows: for each bound the milliseconds that its second has as
a binary number. These are the start of the second of the resolved bound, in 64 bits, just when a
binary number holds this second. They are the start of the second that was asked for if this was an
integer that a binary number holds or a date expression, and for other numbers unless they are less
than a millisecond before a second up to 1970. -/
theorem datesOfJson_shows_iff {name : String} {now : Calendar.Instant} {body : Json}
    {ranges : Ranges} (hnow : now.IsRepresentable)
    (h : datesOfJson name now body = .ok ranges) :
    ∃ frame, frameOfJson name "date_range" body = .ok frame ∧
      List.Forall₂ (fun item spec => ∃ low high,
          ResolvesTo now (body.stringField? "format") (item.present? "from") low ∧
          ResolvesTo now (body.stringField? "format") (item.present? "to") high ∧
          ranges.attributes spec = shownBound "from" low ++ shownBound "to" high ∧
          ∀ ms, ms ∈ low ∨ ms ∈ high → (ShowsSecond ms (ms / 1000) ↔ HoldsSecond ms))
        frame.items ranges.specs ∧
      ∀ value q, Calendar.AsksFor now (body.stringField? "format") value q →
        ∃ ms, Calendar.resolveMillis now (body.stringField? "format") value = .ok ms ∧
          (ShowsSecond ms ⌊q / 1000⌋ ↔ ¬Calendar.IsJustBefore q) := by
  unfold datesOfJson at h
  obtain ⟨frame, hframe, h⟩ := exists_ok_of_bind h
  obtain ⟨specs, hspecs, h⟩ := exists_ok_of_bind h
  obtain rfl := Except.ok.inj h
  refine ⟨frame, hframe, (forall₂_of_mapM hspecs).imp ?_, fun value q hq =>
    hq.showsSecond_iff hnow⟩
  intro item spec hspec
  obtain ⟨low, high, hfrom, hto, hlow, hhigh⟩ := dateSpecOfJson_spec hspec
  refine ⟨low, high, hfrom, hto, ?_, ?_⟩
  · rw [attributes]
    dsimp only
    rw [hlow, hhigh]
    cases low <;> cases high <;> rfl
  · have hbounds {value : Option Json} {ms? : Option Int}
        (hresolved : ResolvesTo now (body.stringField? "format") value ms?) (ms : Int)
        (hms : ms ∈ ms?) : int64Min ≤ ms ∧ ms ≤ int64Max := by
      cases hresolved with
      | some hvalue =>
          obtain rfl := Option.some.inj hms
          exact Calendar.resolveMillis_bounds hnow hvalue
      | none => cases hms
    rintro ms (hms | hms)
    · obtain ⟨hmin, hmax⟩ := hbounds hfrom ms hms
      exact showsSecond_iff hmin hmax
    · obtain ⟨hmin, hmax⟩ := hbounds hto ms hms
      exact showsSecond_iff hmin hmax

/-- A range of dates from a bound to the start of the present day. -/
def untilToday (bound : Json) : Json :=
  .object [("field", .string "ts"),
    ("ranges", .array [.object [("from", bound), ("to", .string "now/d")]])]

/-- On the fifteenth of March 2024, the bucket of the dates from a second and a half on shows one
second and the midnight before. -/
theorem untilToday_shows :
    let now : Calendar.Instant := ⟨1710499032, 0⟩
    now.IsRepresentable ∧ ∃ ranges, datesOfJson "r" now (untilToday (.ofInt 1500)) = .ok ranges ∧
      ∀ spec ∈ ranges.specs, ∃ low high,
        ranges.attributes spec = shownBound "from" (some low) ++ shownBound "to" (some high) ∧
        ShowsSecond low 1 ∧ ShowsSecond high 1710460800 := by
  have hnow : Calendar.Instant.IsRepresentable ⟨1710499032, 0⟩ := by decide +kernel
  have hspecs : (datesOfJson "r" ⟨1710499032, 0⟩ (untilToday (.ofInt 1500))).toOption.isSome =
      true := by decide +kernel
  refine ⟨hnow, ?_⟩
  cases hranges : datesOfJson "r" ⟨1710499032, 0⟩ (untilToday (.ofInt 1500)) with
  | error e => simp [hranges, Except.toOption] at hspecs
  | ok ranges =>
      obtain ⟨frame, hframe, hall, hasked⟩ := datesOfJson_shows_iff hnow hranges
      obtain rfl : (⟨"ts", [.object [("from", .ofInt 1500), ("to", .string "now/d")]], false⟩ :
        Frame) = frame := Except.ok.inj hframe
      obtain ⟨low, hfrom, hlowShown⟩ := hasked (.ofInt 1500) (1500 : Int)
        (Calendar.asksFor_millis rfl (by decide))
      obtain ⟨high, hto, hhighShown⟩ := hasked (.string "now/d") (1710460800000 : Int)
        (.date "now/d" ⟨1710460800, 0⟩ (by decide +kernel) (by decide +kernel))
      have hlowSecond : ⌊((1500 : Int) : Rat) / 1000⌋ = 1 := by norm_num
      have hhighSecond : ⌊((1710460800000 : Int) : Rat) / 1000⌋ = 1710460800 := by norm_num
      rw [hlowSecond] at hlowShown
      rw [hhighSecond] at hhighShown
      refine ⟨ranges, rfl, fun spec hspec => ⟨low, high, ?_,
        hlowShown.mpr (Calendar.not_isJustBefore_intCast _),
        hhighShown.mpr (Calendar.not_isJustBefore_intCast _)⟩⟩
      obtain ⟨first, rest, hfirst, hrest, heq⟩ := List.forall₂_cons_left_iff.mp hall
      rw [heq, List.forall₂_nil_left_iff.mp hrest, List.mem_singleton] at hspec
      subst hspec
      obtain ⟨low', high', hlow, hhigh, hshown, -⟩ := hfirst
      obtain rfl := eq_of_resolvesTo hlow hfrom
      obtain rfl := eq_of_resolvesTo hhigh hto
      exact hshown

/-- The texts of the lower bounds that the buckets of an accepted request show. -/
def shownFroms (accepted : Except RequestError Ranges) : Option (List (Option String)) :=
  accepted.toOption.map fun ranges =>
    ranges.specs.map fun spec => ((ranges.attributes spec).lookup "from").map Json.compact

/-- No binary number holds the second `2 ^ 53 + 1`, and the bucket shows the second before it. The
milliseconds of the last second do not fit into 64 bits. Half a millisecond before 1970 shows as the
first second of 1970. All these bounds are accepted. -/
theorem untilToday_shows_another :
    shownFroms (datesOfJson "r" default (untilToday (.ofInt 9007199254740993000))) =
        some [some "9007199254740992000"] ∧
      shownFroms (datesOfJson "r" default (untilToday (.ofInt int64Max))) =
        some [some "9223372036854776000"] ∧
      int64Max < 9223372036854776000 ∧
      shownFroms (datesOfJson "r" default
        (untilToday (.ofBinary64 (.finite (-1 / 2))))) = some [some "0"] := by
  decide +kernel

end Ranges
end Rollup
