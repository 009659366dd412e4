/-
# Buckets that a statement computes

The expression of an interval is arithmetic, and its value at a second is the value of the bucket in
which the second lies. So the rows that come back, the declared bounds and the rows that are filled
in lie on one grid.
-/

import Rollup.Proofs.Aggregation.Intervals
import Rollup.Proofs.Statement.Arithmetic

namespace Rollup

open Calendar Statement

namespace Statement

/-! ## Texts of arithmetic -/

theorem isOpen_toString (k : Int) : IsOpen (toString k).toList [.number (toString k)] :=
  toString_eq_signed k ▸ isOpen_signed _ _

/-- The token of a name is no sign and no number. -/
theorem nameToken_cases (name : String) :
    (∃ k, nameToken name = .keyword k) ∨ (∃ text, nameToken name = .word text) ∨
      ∃ text, nameToken name = .quoted text := by
  unfold nameToken Pending.wordToken
  split
  · split
    · exact Or.inl ⟨_, rfl⟩
    · exact Or.inr (Or.inl ⟨_, rfl⟩)
  · exact Or.inr (Or.inr ⟨_, rfl⟩)

section

variable (field : String)

/-- A text that ends with a field and what stands behind it up to a number. -/
theorem isOpen_behind_field {piece middle : String} {ts us : List Token}
    (hpiece : IsClosed piece.toList ts) (hmiddle : IsClosed middle.toList us)
    (hapart : IsApart middle.toList) (k : Int) :
    IsOpen (piece ++ quoteName field ++ middle ++ toString k).toList
      (ts ++ [nameToken field] ++ us ++ [.number (toString k)]) := by
  simp only [String.toList_append]
  exact ((hpiece.append_isOpen (isOpen_quoteName field)).append_isClosed hmiddle
    hapart).append_isOpen (isOpen_toString k)

theorem parse_floor (width : Int) :
    Arithmetic.parse (tokens ("FLOOR(" ++ quoteName field ++ "/" ++ toString width ++ ")*" ++
      toString width)) = some (.operate .multiply (.call .floor (.operate .divide
        (.field (nameToken field)) (.number (toString width)))) (.number (toString width))) := by
  have hlead : IsClosed "FLOOR(".toList [.word "FLOOR", .opening] := fun _ _ => rfl
  have hdivide : IsClosed "/".toList [.sign '/'] := fun _ _ => rfl
  have hmultiply : IsClosed ")*".toList [.closing, .sign '*'] := fun _ _ => rfl
  have htext := ((isOpen_behind_field field hlead hdivide (isApart_cons rfl (by decide))
    width).append_isClosed hmultiply (isApart_cons rfl (by decide))).append_isOpen
    (isOpen_toString width)
  simp only [← String.toList_append] at htext
  rw [htext.tokens_eq]
  obtain ⟨k, hname⟩ | ⟨name, hname⟩ | ⟨name, hname⟩ := nameToken_cases field <;>
    rw [hname] <;> rfl

theorem parse_week :
    Arithmetic.parse (tokens ((DateInterval.seconds 604800 345600).expression field)) =
      some (.operate .add (.operate .multiply (.call .floor (.operate .divide
        (.operate .add (.field (nameToken field)) (.number "-345600")) (.number "604800")))
        (.number "604800")) (.number "345600")) := by
  have hlead : IsClosed "FLOOR((".toList [.word "FLOOR", .opening, .opening] := fun _ _ => rfl
  have hmiddle : IsClosed "-345600)/604800)*604800+".toList [.number "-345600", .closing,
    .sign '/', .number "604800", .closing, .sign '*', .number "604800", .sign '+'] := fun _ _ => rfl
  have htext := isOpen_behind_field field hlead hmiddle (isApart_cons rfl (by decide)) 345600
  have hexpression : (DateInterval.seconds 604800 345600).expression field =
      "FLOOR((" ++ quoteName field ++ "-345600)/604800)*604800+" ++ toString (345600 : Int) := by
    simp only [DateInterval.expression, String.append_assoc]
    rfl
  rw [hexpression, htext.tokens_eq]
  obtain ⟨k, hname⟩ | ⟨name, hname⟩ | ⟨name, hname⟩ := nameToken_cases field <;>
    rw [hname] <;> rfl

theorem parse_month :
    Arithmetic.parse (tokens ((DateInterval.months 1).expression field)) =
      some (.call .yearMonth (.field (nameToken field))) := by
  have hlead : IsClosed "YEARMONTH(".toList [.word "YEARMONTH", .opening] := fun _ _ => rfl
  have hend : IsClosed ")".toList [.closing] := fun _ _ => rfl
  have htext := (hlead.append_isOpen (isOpen_quoteName field)).append_isClosed hend
    (isApart_cons rfl (by decide))
  simp only [← String.toList_append] at htext
  have hexpression : (DateInterval.months 1).expression field =
      "YEARMONTH(" ++ quoteName field ++ ")" := rfl
  rw [hexpression, htext.isOpen.tokens_eq]
  obtain ⟨k, hname⟩ | ⟨name, hname⟩ | ⟨name, hname⟩ := nameToken_cases field <;>
    rw [hname] <;> rfl

theorem parse_year :
    Arithmetic.parse (tokens ((DateInterval.months 12).expression field)) =
      some (.operate .add (.operate .multiply (.call .year (.field (nameToken field)))
        (.number "100")) (.number "1")) := by
  have hlead : IsClosed "YEAR(".toList [.word "YEAR", .opening] := fun _ _ => rfl
  have hmiddle : IsClosed ")*100+".toList [.closing, .sign '*', .number "100", .sign '+'] :=
    fun _ _ => rfl
  have htext := isOpen_behind_field field hlead hmiddle (isApart_cons rfl (by decide)) 1
  have hexpression : (DateInterval.months 12).expression field =
      "YEAR(" ++ quoteName field ++ ")*100+" ++ toString (1 : Int) := by
    simp only [DateInterval.expression, String.append_assoc]
    rfl
  rw [hexpression, htext.tokens_eq]
  obtain ⟨k, hname⟩ | ⟨name, hname⟩ | ⟨name, hname⟩ := nameToken_cases field <;>
    rw [hname] <;> rfl

theorem parse_quarter :
    Arithmetic.parse (tokens ((DateInterval.months 3).expression field)) =
      some (.operate .add (.operate .add
        (.operate .multiply (.call .year (.field (nameToken field))) (.number "100"))
        (.operate .multiply (.call .floor (.operate .divide
          (.operate .add (.call .month (.field (nameToken field))) (.number "-1"))
          (.number "3"))) (.number "3"))) (.number "1")) := by
  have hlead : IsClosed "YEAR(".toList [.word "YEAR", .opening] := fun _ _ => rfl
  have hbetween : IsClosed ")*100+FLOOR((MONTH(".toList [.closing, .sign '*', .number "100",
    .sign '+', .word "FLOOR", .opening, .opening, .word "MONTH", .opening] := fun _ _ => rfl
  have hmiddle : IsClosed ")-1)/3)*3+".toList [.closing, .number "-1", .closing, .sign '/',
    .number "3", .closing, .sign '*', .number "3", .sign '+'] := fun _ _ => rfl
  have hpiece := (hlead.append_isOpen (isOpen_quoteName field)).append_isClosed hbetween
    (isApart_cons rfl (by decide))
  simp only [← String.toList_append] at hpiece
  have htext := isOpen_behind_field field hpiece hmiddle (isApart_cons rfl (by decide)) 1
  have hexpression : (DateInterval.months 3).expression field =
      "YEAR(" ++ quoteName field ++ ")*100+FLOOR((MONTH(" ++ quoteName field ++ ")-1)/3)*3+" ++
        toString (1 : Int) := by
    simp only [DateInterval.expression, String.append_assoc]
    rfl
  rw [hexpression, htext.tokens_eq]
  obtain ⟨k, hname⟩ | ⟨name, hname⟩ | ⟨name, hname⟩ := nameToken_cases field <;>
    rw [hname] <;> rfl

end

/-! ## Values -/

theorem floor_intCast_div {n width : Int} (hwidth : 0 < width) :
    ((n : Rat) / (width : Rat)).floor = n / width := by
  have hpos : (0 : Rat) < width := by exact_mod_cast hwidth
  have hlow := Int.ediv_mul_le n hwidth.ne'
  have hhigh := Int.lt_ediv_add_one_mul_self n hwidth
  have hfloor : ⌊(n : Rat) / width⌋ = n / width := by
    rw [Int.floor_eq_iff, le_div_iff₀ hpos, div_lt_iff₀ hpos]
    exact ⟨by exact_mod_cast hlow, by exact_mod_cast hhigh⟩
  exact hfloor

variable (calendar : UtcCalendar) (field : String) (second : Int)

theorem evaluate_floor {width : Int} (hwidth : 0 < width) :
    evaluate calendar field second ((DateInterval.seconds width 0).expression field) =
      some ((second / width * width : Int) : Rat) := by
  have hne : (width : Rat) ≠ 0 := by exact_mod_cast hwidth.ne'
  have hexpression : (DateInterval.seconds width 0).expression field =
      "FLOOR(" ++ quoteName field ++ "/" ++ toString width ++ ")*" ++ toString width := rfl
  rw [hexpression, evaluate, parse_floor, Option.bind_some]
  simp only [Arithmetic.value, Json.Number.readInteger?_toString, if_true, Option.map_some,
    Option.bind_some, Operation.apply, if_neg hne, Builtin.apply, floor_intCast_div hwidth]
  rw [Int.cast_mul]

theorem evaluate_week :
    evaluate calendar field second ((DateInterval.seconds 604800 345600).expression field) =
      some (((second - 345600) / 604800 * 604800 + 345600 : Int) : Rat) := by
  have hwidth : Json.Number.readInteger? "604800".toList = some 604800 := rfl
  have hoffset : Json.Number.readInteger? "345600".toList = some 345600 := rfl
  have hnegated : Json.Number.readInteger? "-345600".toList = some (-345600) := rfl
  have hne : ((604800 : Int) : Rat) ≠ 0 := by norm_num
  have hsum : (second : Rat) + ((-345600 : Int) : Rat) = ((second - 345600 : Int) : Rat) := by
    rw [← Int.cast_add, Int.sub_eq_add_neg]
  rw [evaluate, parse_week, Option.bind_some]
  simp only [Arithmetic.value, hwidth, hoffset, hnegated, if_true, Option.map_some,
    Option.bind_some, Operation.apply, if_neg hne, Builtin.apply, hsum,
    floor_intCast_div (by decide : (0 : Int) < 604800)]
  rw [Int.cast_add, Int.cast_mul]

theorem evaluate_month :
    evaluate calendar field second ((DateInterval.months 1).expression field) =
      some ((calendar.year second * 100 + calendar.month second : Int) : Rat) := by
  rw [evaluate, parse_month, Option.bind_some]
  simp only [Arithmetic.value, if_true, Option.map_some, Builtin.apply, Rat.floor_intCast]
  rw [Int.cast_add, Int.cast_mul]
  rfl

theorem evaluate_year :
    evaluate calendar field second ((DateInterval.months 12).expression field) =
      some ((calendar.year second * 100 + 1 : Int) : Rat) := by
  have hhundred : Json.Number.readInteger? "100".toList = some 100 := rfl
  have hone : Json.Number.readInteger? "1".toList = some 1 := rfl
  rw [evaluate, parse_year, Option.bind_some]
  simp only [Arithmetic.value, hhundred, hone, if_true, Option.map_some, Option.bind_some,
    Operation.apply, Builtin.apply, Rat.floor_intCast]
  rw [Int.cast_add, Int.cast_mul]

theorem evaluate_quarter :
    evaluate calendar field second ((DateInterval.months 3).expression field) =
      some ((calendar.year second * 100 + (calendar.month second - 1) / 3 * 3 + 1 : Int) :
        Rat) := by
  have hhundred : Json.Number.readInteger? "100".toList = some 100 := rfl
  have hthree : Json.Number.readInteger? "3".toList = some 3 := rfl
  have hone : Json.Number.readInteger? "1".toList = some 1 := rfl
  have hnegated : Json.Number.readInteger? "-1".toList = some (-1) := rfl
  have hne : ((3 : Int) : Rat) ≠ 0 := by norm_num
  have hsum (month : Int) : (month : Rat) + ((-1 : Int) : Rat) = ((month - 1 : Int) : Rat) := by
    rw [← Int.cast_add, Int.sub_eq_add_neg]
  rw [evaluate, parse_quarter, Option.bind_some]
  simp only [Arithmetic.value, hhundred, hthree, hone, hnegated, if_true, Option.map_some,
    Option.bind_some, Operation.apply, if_neg hne, Builtin.apply, Rat.floor_intCast, hsum,
    floor_intCast_div (by decide : (0 : Int) < 3)]
  rw [Int.cast_add, Int.cast_add, Int.cast_mul, Int.cast_mul]

end Statement

namespace DateInterval

variable {interval : DateInterval}

/-- The expression of an interval has the value of the bucket in which a second lies. -/
theorem evaluate_expression (h : interval.IsStated) (calendar : UtcCalendar) (field : String)
    (second : Int) : evaluate calendar field second (interval.expression field) =
      some ((interval.bucketValue (interval.bucketOf (second * 1000)) : Int) : Rat) := by
  cases interval with
  | seconds width offset =>
      have hsecond : second * 1000 / 1000 = second := by omega
      rw [bucketOf, bucketValue, hsecond]
      obtain ⟨hwidth, rfl | ⟨rfl, rfl⟩⟩ := h
      · rw [evaluate_floor calendar field second (by omega), Int.sub_zero, Int.add_zero]
      · exact evaluate_week calendar field second
  | months n =>
      have hday : second * 1000 / 86400000 = second / 86400 := by omega
      have hmonth := calendar.isMonth second
      rw [bucketOf, bucketValue, hday, calendar.monthOf_eq, yearMonthAt]
      rcases h with rfl | rfl | rfl
      · rw [evaluate_month]
        congr 2
        omega
      · rw [evaluate_quarter]
        congr 2
        omega
      · rw [evaluate_year]
        congr 2
        omega

end DateInterval

end Rollup
