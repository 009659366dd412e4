/-
# Representable instants

An instant can be represented if its second has a date and it lies in this second or in a leap
second behind it. Whatever the calendar gives can be: a written date, an instant that is moved or
rounded, and the instant of a date expression, provided the present can.
-/

import Mathlib.Data.List.Induction
import Mathlib.Data.List.TakeWhile
import Rollup.Calendar.Expression
import Rollup.Proofs.Calendar.Floor

namespace Rollup

/-! ## Digits -/

namespace Text

/-- Digits write less than the power of ten of their number. -/
theorem digitsValue_lt {digits : List Char} (h : ∀ c ∈ digits, c.isDigit = true) :
    digitsValue digits < 10 ^ digits.length := by
  induction digits using List.reverseRecOn with
  | nil => decide
  | append_singleton digits c ih =>
      have hdigit : c.toNat ≤ 57 := by
        have hc := h c (by simp)
        simp only [Char.isDigit, Bool.and_eq_true, decide_eq_true_eq, UInt32.le_iff_toNat_le] at hc
        exact hc.2
      have hshorter := ih fun d hd => h d (List.mem_append_left _ hd)
      have hvalue : digitsValue (digits ++ [c]) = 10 * digitsValue digits + (c.toNat - 48) := by
        simp [digitsValue]
      rw [hvalue, List.length_append, List.length_singleton, Nat.pow_succ]
      omega

end Text

namespace Calendar

open Date

theorem lt_of_takeExactly {width n : Nat} {text rest : List Char}
    (h : takeExactly width text = some (n, rest)) : n < 10 ^ width := by
  simp only [takeExactly] at h
  split at h
  · rename_i hdigits
    obtain ⟨hlength, hall⟩ := hdigits
    obtain ⟨rfl, -⟩ := Prod.mk.inj (Option.some.inj h)
    rw [List.all_eq_true] at hall
    have hvalue := Text.digitsValue_lt hall
    rwa [hlength] at hvalue
  · cases h

/-- An offset is less than a day. -/
theorem takeOffset_lt {text rest : List Char} {offset : Int}
    (h : takeOffset text = some (offset, rest)) :
    -secondsPerDay < offset ∧ offset < secondsPerDay := by
  unfold takeOffset at h
  split at h
  · cases h
  · split at h
    · obtain ⟨rfl, -⟩ := Prod.mk.inj (Option.some.inj h)
      decide
    · have hsign : ∃ (hours minutes : Nat) (negative : Prop) (_ : Decidable negative),
          hours ≤ 23 ∧ minutes ≤ 59 ∧
            offset = if negative then -((hours * 3600 + minutes * 60 : Nat) : Int)
              else (hours * 3600 + minutes * 60 : Nat) := by
        dsimp only at h
        split at h
        · obtain ⟨_, -, h⟩ := Option.bind_eq_some_iff.mp h
          obtain ⟨⟨hours, _⟩, -, h⟩ := Option.bind_eq_some_iff.mp h
          obtain ⟨_, -, h⟩ := Option.bind_eq_some_iff.mp h
          obtain ⟨⟨minutes, _⟩, -, h⟩ := Option.bind_eq_some_iff.mp h
          dsimp only at h
          split at h
          · rename_i hbound
            exact ⟨hours, minutes, _, _, hbound.1, hbound.2,
              (Prod.mk.inj (Option.some.inj h)).1.symm⟩
          · cases h
        · cases h
      obtain ⟨hours, minutes, negative, _, hhours, hminutes, rfl⟩ := hsign
      unfold secondsPerDay
      split
      · omega
      · omega

/-- Digits behind a point are less than a second. -/
theorem takeNanos_lt {text rest : List Char} {nano : Nat}
    (h : takeNanos text = some (nano, rest)) : nano < nanosPerSecond := by
  simp only [takeNanos] at h
  split at h
  · cases h
  · obtain ⟨rfl, -⟩ := Prod.mk.inj (Option.some.inj h)
    have hkept : ((text.takeWhile Char.isDigit).take 9).length ≤ 9 := List.length_take_le _ _
    have hvalue : Text.digitsValue ((text.takeWhile Char.isDigit).take 9) <
        10 ^ ((text.takeWhile Char.isDigit).take 9).length :=
      Text.digitsValue_lt fun c hc => List.mem_takeWhile_imp (List.mem_of_mem_take hc)
    generalize (text.takeWhile Char.isDigit).take 9 = kept at hkept hvalue ⊢
    calc Text.digitsValue kept * 10 ^ (9 - kept.length)
        < 10 ^ kept.length * 10 ^ (9 - kept.length) :=
          Nat.mul_lt_mul_of_pos_right hvalue (Nat.pow_pos (by decide))
      _ = nanosPerSecond := by
          rw [← Nat.pow_add, Nat.add_sub_cancel' hkept]
          rfl

/-! ## Written dates -/

namespace Instant

/-- Whether an instant can be represented. -/
structure IsRepresentable (t : Instant) : Prop where
  dated : t.IsDated
  nano_lt : t.nano < 2 * nanosPerSecond

instance (t : Instant) : Decidable t.IsRepresentable :=
  decidable_of_iff (t.IsDated ∧ t.nano < 2 * nanosPerSecond)
    ⟨fun h => ⟨h.1, h.2⟩, fun h => ⟨h.dated, h.nano_lt⟩⟩

/-- An instant on a date that exists is dated. -/
theorem isDated_of_isValid {d : Date} (h : d.isValid = true) {t : Instant}
    (hday : t.dayNumber = d.dayNumber) : t.IsDated := by
  rw [isDated_iff, hday]
  exact dayNumber_of_isValid h

end Instant

theorem Date.of?_eq_some_iff {year : Int} {month day : Nat} {d : Date} :
    Date.of? year month day = some d ↔ d = ⟨year, month, day⟩ ∧ d.isValid = true := by
  simp only [Date.of?]
  split
  · rename_i h
    rw [Option.some.injEq, eq_comm, iff_self_and]
    rintro rfl
    exact h
  · rename_i h
    simp only [reduceCtorEq, false_iff, not_and]
    rintro rfl
    exact h

/-- The instant of a stamp lies on its date, in its second or in a leap second behind it. -/
theorem Stamp.exists_of_toInstant? {s : Stamp} {t : Instant} (h : s.toInstant? = some t) :
    ∃ d : Date, d.isValid = true ∧ d.year = s.year ∧ t.dayNumber = d.dayNumber ∧
      t.nano ≤ s.nano + nanosPerSecond := by
  simp only [toInstant?, Option.bind_eq_bind, Option.bind_eq_some_iff] at h
  obtain ⟨d, hd, h⟩ := h
  obtain ⟨rfl, hvalid⟩ := Date.of?_eq_some_iff.mp hd
  split at h
  · rename_i htime
    obtain rfl := Option.some.inj h
    refine ⟨_, hvalid, rfl, ?_, ?_⟩
    · simp only [Instant.dayNumber, secondsPerDay]
      split
      · omega
      · omega
    · dsimp only
      split
      · exact le_rfl
      · exact Nat.le_add_right _ _
  · cases h

theorem isRepresentable_toInstant? {s : Stamp} (hnano : s.nano < nanosPerSecond) {t : Instant}
    (h : s.toInstant? = some t) : t.IsRepresentable := by
  obtain ⟨d, hvalid, -, hday, hle⟩ := s.exists_of_toInstant? h
  exact ⟨Instant.isDated_of_isValid hvalid hday, by omega⟩

/-- In the years of four digits an offset does not lead out of the dates. -/
theorem isRepresentable_of_takeOffset {s : Stamp} (hfirst : 0 ≤ s.year) (hlast : s.year < 10000)
    (hnano : s.nano < nanosPerSecond) {text : List Char} {t : Instant}
    (h : (do
      let (offset, rest) ← takeOffset text
      if rest.isEmpty then
        let t ← s.toInstant?
        some { t with second := t.second - offset }
      else none) = some t) : t.IsRepresentable := by
  obtain ⟨⟨offset, rest⟩, hoffset, h⟩ := Option.bind_eq_some_iff.mp h
  obtain ⟨hlow, hhigh⟩ := takeOffset_lt hoffset
  dsimp only at h
  split at h
  · obtain ⟨u, hu, hmoved⟩ := Option.bind_eq_some_iff.mp h
    obtain rfl := Option.some.inj hmoved
    obtain ⟨d, hvalid, hyear, hday, hle⟩ := s.exists_of_toInstant? hu
    have hmonth : 0 ≤ monthOf u.dayNumber ∧ monthOf u.dayNumber < 120000 := by
      rw [hday, monthOf_dayNumber hvalid, hyear]
      simp only [isValid, Bool.and_eq_true, decide_eq_true_eq] at hvalid
      omega
    have hbounds : firstDay 0 ≤ u.dayNumber ∧ u.dayNumber < firstDay 120000 := by
      rw [← le_monthOf_iff, ← not_le, ← le_monthOf_iff, not_le]
      exact hmonth
    have hwide : firstDayNumber < firstDay 0 ∧ firstDay 120000 < lastDayNumber := by
      decide +kernel
    constructor
    · rw [Instant.isDated_iff]
      unfold Instant.dayNumber secondsPerDay at *
      dsimp only
      omega
    · dsimp only
      omega
  · cases h

/-- The strict form writes years of four digits only. -/
theorem isRepresentable_readStrict? {text : List Char} {t : Instant}
    (h : readStrict? text = some t) : t.IsRepresentable := by
  unfold readStrict? at h
  obtain ⟨⟨year, _⟩, hyear, h⟩ := Option.bind_eq_some_iff.mp h
  have hlast := lt_of_takeExactly hyear
  -- nothing that is read between the year and the fraction matters here
  iterate 10 obtain ⟨_, -, h⟩ := Option.bind_eq_some_iff.mp h
  dsimp only at h
  split at h
  · obtain ⟨⟨nano, _⟩, hnano, h⟩ := Option.bind_eq_some_iff.mp h
    exact isRepresentable_of_takeOffset (by simp) (by simpa using hlast) (takeNanos_lt hnano) h
  · obtain ⟨⟨nano, _⟩, hnano, h⟩ := Option.bind_eq_some_iff.mp h
    obtain ⟨rfl, -⟩ := Prod.mk.inj (Option.some.inj hnano)
    exact isRepresentable_of_takeOffset (by simp) (by simpa using hlast)
      (by simp [nanosPerSecond]) h

/-- No part of a date but the fraction changes the nanoseconds. -/
theorem Piece.nano_lt_of_read {piece : Piece} {s u : Stamp} (hs : s.nano < nanosPerSecond)
    {text rest : List Char} (h : piece.read s text = some (u, rest)) :
    u.nano < nanosPerSecond := by
  cases piece with
  | fraction =>
      simp only [read] at h
      split at h
      · obtain ⟨⟨nano, _⟩, hnano, hu⟩ := Option.map_eq_some_iff.mp h
        obtain ⟨rfl, -⟩ := Prod.mk.inj hu
        exact takeNanos_lt hnano
      · obtain ⟨rfl, -⟩ := Prod.mk.inj (Option.some.inj h)
        exact hs
  | mark c =>
      simp only [read] at h
      split at h
      · split at h
        · obtain ⟨rfl, -⟩ := Prod.mk.inj (Option.some.inj h)
          exact hs
        · cases h
      · cases h
  | gap =>
      obtain ⟨rfl, -⟩ := Prod.mk.inj (Option.some.inj h)
      exact hs
  | _ =>
      obtain ⟨_, -, hu⟩ := Option.map_eq_some_iff.mp h
      obtain ⟨rfl, -⟩ := Prod.mk.inj hu
      exact hs

theorem nano_lt_of_readPieces {pieces : List Piece} {s u : Stamp} (hs : s.nano < nanosPerSecond)
    {text : List Char} (h : readPieces pieces s text = some u) : u.nano < nanosPerSecond := by
  induction pieces generalizing s text with
  | nil =>
      simp only [readPieces] at h
      split at h
      · exact Option.some.inj h ▸ hs
      · cases h
  | cons piece pieces ih =>
      obtain ⟨⟨v, rest⟩, hv, hrest⟩ := Option.bind_eq_some_iff.mp h
      exact ih (piece.nano_lt_of_read hs hv) hrest

theorem isRepresentable_readDate? {text : List Char} {t : Instant} (h : readDate? text = some t) :
    t.IsRepresentable := by
  unfold readDate? at h
  obtain hstrict | ⟨-, hlocal⟩ := Option.or_eq_some_iff.mp h
  · exact isRepresentable_readStrict? hstrict
  · obtain ⟨pieces, -, hread⟩ := List.exists_of_findSome?_eq_some hlocal
    obtain ⟨s, hs, ht⟩ := Option.bind_eq_some_iff.mp hread
    exact isRepresentable_toInstant? (nano_lt_of_readPieces (by decide) hs) ht

/-! ## Instants moved and rounded -/

namespace Instant

variable {t u : Instant}

/-- A part of a second that stays, or that leaves its leap second, is no more than it was. -/
theorem IsRepresentable.of? (ht : t.IsRepresentable) {second : Int} {nano : Nat}
    (hnano : nano ≤ t.nano) (h : of? second nano = some u) : u.IsRepresentable := by
  obtain ⟨rfl, hdated⟩ := of?_eq_some_iff.mp h
  exact ⟨hdated, hnano.trans_lt ht.nano_lt⟩

theorem IsRepresentable.addSeconds? (ht : t.IsRepresentable) {seconds : Int}
    (h : t.addSeconds? seconds = some u) : u.IsRepresentable := by
  unfold Instant.addSeconds? at h
  split at h
  · obtain rfl := Option.some.inj h
    exact ht
  · split at h
    · exact ht.of? le_rfl h
    · exact ht.of? (Nat.sub_le _ _) h

theorem IsRepresentable.addMonths? (ht : t.IsRepresentable) {months : Int}
    (h : t.addMonths? months = some u) : u.IsRepresentable := by
  obtain ⟨d, hd, rfl⟩ := Option.map_eq_some_iff.mp h
  obtain ⟨-, hvalid⟩ := Date.of?_eq_some_iff.mp hd
  refine ⟨isDated_of_isValid hvalid ?_, ht.nano_lt⟩
  simp only [dayNumber, secondOfDay, secondsPerDay]
  omega

theorem IsRepresentable.shift? (ht : t.IsRepresentable) {amount : Int} {unit : TimeUnit}
    (h : t.shift? amount unit = some u) : u.IsRepresentable := by
  unfold Instant.shift? at h
  split at h
  · exact ht.addSeconds? h
  · exact ht.addMonths? h

theorem IsRepresentable.floor? (ht : t.IsRepresentable) {unit : TimeUnit}
    (h : t.floor? unit = some u) : u.IsRepresentable := by
  rw [floor?_eq ht.dated] at h
  exact ht.of? (Nat.zero_le _) h

/-- The seconds of the dates have thirteen digits at most. -/
theorem IsDated.second_bounds (ht : t.IsDated) : -10 ^ 13 < t.second ∧ t.second < 10 ^ 13 := by
  have hfirst : (-10 ^ 13 : Int) < firstSecond := by decide +kernel
  have hlast : lastSecond < 10 ^ 13 := by decide +kernel
  exact ⟨hfirst.trans_le ht.1, ht.2.trans_lt hlast⟩

theorem IsRepresentable.millis_bounds (ht : t.IsRepresentable) :
    -10 ^ 16 < t.millis ∧ t.millis < 10 ^ 17 := by
  have hsecond := ht.dated.second_bounds
  have hnano := ht.nano_lt
  unfold nanosPerSecond at hnano
  unfold millis
  omega

end Instant

/-! ## Expressions -/

theorem Adjustment.isRepresentable_made {t u : Instant} (ht : t.IsRepresentable) {a : Adjustment}
    (h : Adjustment.apply? t a = some u) : u.IsRepresentable := by
  cases a with
  | shift amount unit => exact ht.shift? h
  | floor unit => exact ht.floor? h

theorem isRepresentable_foldlM {adjustments : List Adjustment} {t u : Instant}
    (ht : t.IsRepresentable) (h : adjustments.foldlM Adjustment.apply? t = some u) :
    u.IsRepresentable := by
  induction adjustments generalizing t with
  | nil =>
      obtain rfl := Option.some.inj h
      exact ht
  | cons a rest ih =>
      rw [List.foldlM_cons] at h
      obtain ⟨v, hv, hrest⟩ := Option.bind_eq_some_iff.mp h
      exact ih (a.isRepresentable_made ht hv) hrest

theorem isRepresentable_evaluate? {now t : Instant} (hnow : now.IsRepresentable)
    {text : List Char} (h : evaluate? now text = some t) : t.IsRepresentable := by
  unfold evaluate? at h
  split at h
  · obtain ⟨adjustments, -, hfold⟩ := Option.bind_eq_some_iff.mp h
    exact isRepresentable_foldlM hnow hfold
  · split at h
    · obtain ⟨start, hstart, h⟩ := Option.bind_eq_some_iff.mp h
      obtain ⟨adjustments, -, hfold⟩ := Option.bind_eq_some_iff.mp h
      exact isRepresentable_foldlM (isRepresentable_readDate? hstart) hfold
    · exact isRepresentable_readDate? h

end Calendar
end Rollup
