/-
# Calm pieces of a statement

A piece without quotes and opening parentheses says nothing that could be called. Numbers, the
arithmetic of histograms and the names of computed columns are such pieces, and no search is counted
in them, whatever numbers they say.
-/

import Rollup.Aggregation.Ranges
import Rollup.Proofs.Forest.Filters
import Rollup.Proofs.Statement.Searches

namespace Rollup

namespace Statement

/-- The characters that open a parenthesis, a text or a quoted name, and those that wait for the
characters behind them, as comparisons and exponents do. -/
def loudChars : List Char := ['(', '\'', backquote, '<', '>', 'e']

def isCalm (c : Char) : Bool := !loudChars.contains c

theorem isCalm_iff {c : Char} : isCalm c = true ↔ c ∉ loudChars := by simp [isCalm]

/-- Whether all characters of a piece are calm. -/
def IsCalm (piece : String) : Prop := ∀ c ∈ piece.toList, isCalm c = true

instance (piece : String) : Decidable (IsCalm piece) :=
  decidable_of_iff (piece.toList.all isCalm = true) List.all_eq_true

namespace Pending

/-- Whether the token that is being read ends where names and numbers do. -/
def isCalm : Pending → Bool
  | nothing => true
  | word _ => true
  | minus => true
  | number _ => true
  | _ => false

theorem wordToken_ne_opening (chars : List Char) : wordToken chars ≠ .opening := by
  unfold wordToken
  split <;> simp

theorem start_isCalm {c : Char} (hc : Statement.isCalm c = true) :
    (start c).2.isCalm = true ∧ .opening ∉ (start c).1 := by
  have hne (d : Char) (hd : d ∈ loudChars) : c ≠ d := fun heq => isCalm_iff.mp hc (heq ▸ hd)
  unfold start
  rw [if_neg (hne backquote (by decide)), if_neg (hne '\'' (by decide)),
    if_neg (hne '<' (by decide)), if_neg (hne '>' (by decide)), if_neg (hne '(' (by decide))]
  repeat' split
  all_goals exact ⟨rfl, by simp⟩

theorem endBefore_isCalm {token : Token} {c : Char} (hc : Statement.isCalm c = true)
    (htoken : token ≠ .opening) :
    (endBefore token c).2.isCalm = true ∧ .opening ∉ (endBefore token c).1 :=
  ⟨(start_isCalm hc).1, fun hmem => (List.mem_cons.mp hmem).elim (fun h => htoken h.symm)
    (start_isCalm hc).2⟩

/-- A calm character opens no parenthesis and no token of another kind. -/
theorem step_isCalm {p : Pending} (hp : p.isCalm = true) {c : Char}
    (hc : Statement.isCalm c = true) :
    (p.step c).2.isCalm = true ∧ .opening ∉ (p.step c).1 := by
  cases p with
  | nothing => exact start_isCalm hc
  | word chars =>
      rw [step]
      split
      · exact ⟨rfl, by simp⟩
      · exact endBefore_isCalm hc (wordToken_ne_opening chars)
  | minus =>
      rw [step]
      split
      · exact ⟨rfl, by simp⟩
      · exact endBefore_isCalm hc (by simp)
  | number chars =>
      have hexponent : c ≠ 'e' := by
        rintro rfl
        exact absurd hc (by decide)
      rw [step, if_neg hexponent]
      split
      · exact ⟨rfl, by simp⟩
      · exact endBefore_isCalm hc (by simp)
  | quoted _ | text _ | escaped _ | exponent _ | less | greater => cases hp

theorem scan_end {p : Pending} (hp : p.isCalm = true) :
    ∃ ts, .opening ∉ ts ∧ ∀ rest, IsBoundary rest → scan p rest = ts ++ scan nothing rest := by
  cases p with
  | nothing => exact ⟨[], by simp, fun _ _ => rfl⟩
  | word chars =>
      exact ⟨[wordToken chars], by simp [(wordToken_ne_opening chars).symm],
        fun _ hrest => scan_word_end hrest⟩
  | minus =>
      refine ⟨[.sign '-'], by simp, fun rest hrest => ?_⟩
      cases rest with
      | nil => rfl
      | cons c rest =>
          have hdigit : c.isDigit = false := by
            have hname := (hrest c rfl).1
            simp only [continuesName, Char.isAlphanum, Bool.or_eq_false_iff] at hname
            exact hname.1.2
          rw [scan, step, hdigit, if_neg Bool.false_ne_true, endBefore_append_scan]
          rfl
  | number chars =>
      exact ⟨[.number (String.ofList chars)], by simp, fun _ hrest => scan_number_end hrest⟩
  | quoted _ | text _ | escaped _ | exponent _ | less | greater => cases hp

theorem scan_isCalm {p : Pending} (hp : p.isCalm = true) {piece : List Char}
    (hpiece : ∀ c ∈ piece, Statement.isCalm c = true) :
    ∃ ts, .opening ∉ ts ∧
      ∀ rest, IsBoundary rest → scan p (piece ++ rest) = ts ++ scan nothing rest := by
  induction piece generalizing p with
  | nil => exact scan_end hp
  | cons c piece ih =>
      obtain ⟨hnext, hbefore⟩ := step_isCalm hp (hpiece c List.mem_cons_self)
      obtain ⟨ts, hts, hscan⟩ := ih hnext fun d hd => hpiece d (List.mem_cons_of_mem c hd)
      refine ⟨(p.step c).1 ++ ts, by simp [hbefore, hts], fun rest hrest => ?_⟩
      rw [List.cons_append, scan, hscan rest hrest, List.append_assoc]

end Pending

theorem searchCount_of_notMem {ts : List Token} (h : .opening ∉ ts) : searchCount ts = 0 := by
  induction ts with
  | nil => rfl
  | cons token rest ih =>
      have hrest := List.not_mem_of_not_mem_cons h
      have hhead : rest.head? ≠ some .opening := fun heq => hrest (List.mem_of_head? heq)
      rw [searchCount, if_neg fun hcall => hhead hcall.2, ih hrest]

namespace IsCalm

variable {first second : String}

theorem exists_tokens (h : IsCalm first) : ∃ ts, .opening ∉ ts ∧ IsOpen first.toList ts :=
  Pending.scan_isCalm rfl h

theorem append (hfirst : IsCalm first) (hsecond : IsCalm second) : IsCalm (first ++ second) := by
  intro c hc
  rw [String.toList_append] at hc
  exact (List.mem_append.mp hc).elim (hfirst c) (hsecond c)

theorem intercalate {separator : String} (hseparator : IsCalm separator) {pieces : List String}
    (h : ∀ piece ∈ pieces, IsCalm piece) : IsCalm (String.intercalate separator pieces) :=
  Text.forall_mem_intercalate hseparator h

theorem hasSearches (h : IsCalm first) : HasSearches first 0 := by
  obtain ⟨ts, hts, hopen⟩ := h.exists_tokens
  exact ⟨ts, hopen, searchCount_of_notMem hts⟩

end IsCalm

/-- A calm piece behind others. -/
theorem HasSearches.calm {first piece : String} {n : Nat} (hfirst : HasSearches first n)
    (hpiece : IsCalm piece) (hapart : IsApart piece.toList) : HasSearches (first ++ piece) n := by
  obtain ⟨us, hopen, hcount⟩ := hfirst
  obtain ⟨ts, hts, hopen'⟩ := hpiece.exists_tokens
  refine ⟨us ++ ts, ?_, ?_⟩
  · rw [String.toList_append]
    exact hopen.append hopen' hapart
  · have hhead : ts.head? ≠ some .opening := fun heq => hts (List.mem_of_head? heq)
    rw [searchCount_append hhead, hcount, searchCount_of_notMem hts, Nat.add_zero]

theorem hasSearches_quoteName (name : String) : HasSearches (quoteName name) 0 := by
  refine ⟨[nameToken name], isOpen_quoteName name, ?_⟩
  rw [searchCount, searchCount]
  simp

end Statement

open Statement

/-! ## Numbers -/

theorem Statement.isCalm_of_isDigit {c : Char} (h : c.isDigit = true) : isCalm c = true := by
  have hloud : (loudChars.all fun d => !d.isDigit) = true := rfl
  refine isCalm_iff.mpr fun hmem => ?_
  have hdigit := List.all_eq_true.mp hloud c hmem
  rw [h] at hdigit
  cases hdigit

theorem Numeral.isCalm_signed_ofNat (k : Nat) (negative : Bool) :
    IsCalm ((Numeral.ofNat k).signed negative) := by
  have hdigits (c : Char) (hc : c ∈ (Numeral.ofNat k).chars) : isCalm c = true := by
    rw [Numeral.chars_ofNat] at hc
    exact isCalm_of_isDigit (Text.isDigit_of_mem_toDigits hc)
  intro c hc
  rw [Numeral.signed, String.toList_ofList] at hc
  split at hc
  · rcases List.mem_cons.mp hc with rfl | hc
    · decide
    · exact hdigits c hc
  · exact hdigits c hc

theorem Statement.isCalm_toString (k : Int) : IsCalm (toString k) :=
  toString_eq_signed k ▸ Numeral.isCalm_signed_ofNat _ _

theorem Decimal.isCalm_positional (d : Decimal) : IsCalm d.positional := by
  intro c hc
  rcases d.mem_positional hc with hdigit | rfl
  · exact isCalm_of_isDigit hdigit
  · decide

namespace Binary64

theorem isCalm_write (x : Binary64) : IsCalm (NumberStyle.plain.write x) := by
  have hpointed : NumberStyle.plain.pointed = false := rfl
  have hpositive (q : Rat) : IsCalm (NumberStyle.plain.writePositive q) := by
    have htext : NumberStyle.plain.writePositive q =
        (shortest NumberStyle.plain.tie q).positional ++ "" := rfl
    rw [htext]
    exact (Decimal.isCalm_positional _).append (by decide)
  unfold NumberStyle.write
  rw [hpointed]
  cases x with
  | finite q =>
      dsimp only
      split
      · decide
      · split
        · exact (show IsCalm "-" by decide).append (hpositive (-q))
        · exact hpositive q
  | negativeZero => decide
  | infinite negative => cases negative <;> decide
  | nan negative => cases negative <;> decide

/-- The plain text of every number is calm, infinity and what is no number included. -/
theorem isCalm_text (x : Binary64) : IsCalm x.text := by
  unfold text
  split
  · exact isCalm_toString _
  · exact isCalm_write x

end Binary64

/-! ## Expressions -/

namespace Statement

variable {width offset : String}

/-- A call of another function with one argument. -/
theorem HasSearches.call {function argument : String} {n : Nat} {ts : List Token}
    (hargument : HasSearches argument n) (hfunction : IsLead function ts) :
    HasSearches (function ++ argument ++ ")") n :=
  (HasSearches.lead hfunction hargument).calm (by decide) (isApart_cons rfl (by decide))

theorem hasSearches_floor (field : String) (hwidth : IsCalm width) :
    HasSearches ("FLOOR(" ++ quoteName field ++ "/" ++ width ++ ")*" ++ width) 0 := by
  have hlead : IsLead "FLOOR(" [.word "FLOOR", .opening] := ⟨fun _ _ => rfl, by decide⟩
  have hrest : IsCalm ("/" ++ width ++ ")*" ++ width) :=
    (((show IsCalm "/" by decide).append hwidth).append (by decide)).append hwidth
  have happ : "FLOOR(" ++ quoteName field ++ "/" ++ width ++ ")*" ++ width =
      "FLOOR(" ++ quoteName field ++ ("/" ++ width ++ ")*" ++ width) := by
    simp only [String.append_assoc]
  rw [happ]
  refine (HasSearches.lead hlead (hasSearches_quoteName field)).calm hrest ?_
  simp only [String.toList_append]
  exact isApart_cons rfl (by decide)

theorem hasSearches_floorFrom (field : String) (hwidth : IsCalm width) (hoffset : IsCalm offset) :
    HasSearches ("FLOOR((" ++ quoteName field ++ "-" ++ offset ++ ")/" ++ width ++ ")*" ++ width ++
      "+" ++ offset) 0 := by
  have hlead : IsLead "FLOOR((" [.word "FLOOR", .opening, .opening] :=
    ⟨fun _ _ => rfl, by decide⟩
  have hrest : IsCalm ("-" ++ offset ++ ")/" ++ width ++ ")*" ++ width ++ "+" ++ offset) :=
    (((((((show IsCalm "-" by decide).append hoffset).append (by decide)).append hwidth).append
      (by decide)).append hwidth).append (by decide)).append hoffset
  have happ : "FLOOR((" ++ quoteName field ++ "-" ++ offset ++ ")/" ++ width ++ ")*" ++ width ++
      "+" ++ offset = "FLOOR((" ++ quoteName field ++
        ("-" ++ offset ++ ")/" ++ width ++ ")*" ++ width ++ "+" ++ offset) := by
    simp only [String.append_assoc]
  rw [happ]
  refine (HasSearches.lead hlead (hasSearches_quoteName field)).calm hrest ?_
  simp only [String.toList_append]
  exact isApart_cons rfl (by decide)

theorem hasSearches_count : HasSearches countExpression 0 := by
  have hlead : IsLead countExpression [.word "count", .opening, .sign '*', .closing] :=
    ⟨fun _ _ => rfl, by decide⟩
  simpa using HasSearches.lead hlead HasSearches.empty

end Statement

theorem Metric.hasSearches_expression (m : Metric) : HasSearches m.expression 0 := by
  have hlead : IsLead (m.function.name ++ "(") [.word m.function.name, .opening] := by
    cases m.function <;> exact ⟨fun _ _ => rfl, by decide⟩
  exact (hasSearches_quoteName m.field).call hlead

theorem Histogram.hasSearches_expression (h : Histogram) : HasSearches h.expression 0 := by
  have hwidth := h.interval.isCalm_text
  unfold expression
  dsimp only
  split
  · exact hasSearches_floor h.field hwidth
  · exact hasSearches_floorFrom h.field hwidth h.offset.isCalm_text

theorem DateInterval.hasSearches_expression (interval : DateInterval) (field : String) :
    HasSearches (interval.expression field) 0 := by
  have hfield := hasSearches_quoteName field
  have hyear : HasSearches ("YEAR(" ++ quoteName field) 0 :=
    have hlead : IsLead "YEAR(" [.word "YEAR", .opening] := ⟨fun _ _ => rfl, by decide⟩
    HasSearches.lead hlead hfield
  unfold expression
  dsimp only
  split
  · rename_i width offset
    split
    · exact hasSearches_floor field (isCalm_toString width)
    · exact hasSearches_floorFrom field (isCalm_toString width) (isCalm_toString offset)
  · rename_i n
    split
    · have hlead : IsLead "YEARMONTH(" [.word "YEARMONTH", .opening] :=
        ⟨fun _ _ => rfl, by decide⟩
      exact hfield.call hlead
    · split
      · exact hyear.calm (by decide) (isApart_cons rfl (by decide))
      · have hmonth : IsJoint ")*100+FLOOR((MONTH(" [.closing, .sign '*', .number "100", .sign '+',
            .word "FLOOR", .opening, .opening, .word "MONTH", .opening] :=
          ⟨⟨fun _ _ => rfl, by decide⟩, isApart_cons rfl (by decide), _, _, rfl, by decide⟩
        have hrest : IsCalm (")-1)/" ++ toString n ++ ")*" ++ toString n ++ "+1") :=
          ((((show IsCalm ")-1)/" by decide).append (isCalm_toString n)).append
            (by decide)).append (isCalm_toString n)).append (by decide)
        have hboth := (hyear.join hmonth hfield).calm hrest (by
          simp only [String.toList_append]
          exact isApart_cons rfl (by decide))
        simpa only [String.append_assoc] using hboth

theorem Ranges.hasSearches_expression (r : Ranges) : HasSearches r.expression 0 := by
  unfold expression
  split
  · exact (show IsCalm "0" by decide).hasSearches
  · have hbounds : IsCalm (", " ++ String.intercalate ", " (r.boundaries.map Binary64.text) ++
        ")") := by
      refine ((show IsCalm ", " by decide).append (IsCalm.intercalate (by decide) ?_)).append
        (by decide)
      intro piece hpiece
      obtain ⟨x, -, rfl⟩ := List.mem_map.mp hpiece
      exact x.isCalm_text
    have hlead : IsLead "INTERVAL(" [.word "INTERVAL", .opening] := ⟨fun _ _ => rfl, by decide⟩
    have hboth := (HasSearches.lead hlead (hasSearches_quoteName r.field)).calm hbounds (by
      simp only [String.toList_append]
      exact isApart_cons rfl (by decide))
    simpa only [String.append_assoc] using hboth

/-- The text of a condition has a call for each atom that searches. -/
theorem Condition.hasSearches_text {c : Condition} (h : ∀ a ∈ c.atoms, a.isWritable = true) :
    HasSearches c.text c.searches :=
  ⟨c.tokens, isOpen_text h, c.searchCount_tokens⟩

/-- The column of a leg whose filter does not search. -/
theorem Leg.hasSearches_expression {l : Leg} {e : String} (he : l.expression? = some e)
    (hwritable : ∀ f ∈ l.filter?, ∀ a ∈ f.condition.atoms, a.isWritable = true)
    (hsilent : ∀ f ∈ l.filter?, f.condition.searches = 0) : HasSearches e 0 := by
  unfold expression? at he
  unfold filter? at hwritable hsilent
  split at he
  · rename_i f hfilter
    obtain rfl := Option.some.inj he
    rw [hfilter] at hwritable hsilent
    have htext := Condition.hasSearches_text (hwritable f rfl)
    rw [hsilent f rfl] at htext
    have hlead : IsLead "IF(" [.word "IF", .opening] := ⟨fun _ _ => rfl, by decide⟩
    exact (HasSearches.lead hlead htext).calm (by decide) (isApart_cons rfl (by decide))
  · obtain rfl := Option.some.inj he
    exact (show IsCalm "1" by decide).hasSearches
  · cases he

/-- What is computed for a node has no search, unless it is a leg with a filter that searches. -/
theorem Aggregation.hasSearches_expression {a : Aggregation} {e : String}
    (he : a.expression? = some e)
    (hwritable : ∀ f ∈ a.filter?, ∀ x ∈ f.condition.atoms, x.isWritable = true)
    (hsilent : ∀ f ∈ a.filter?, f.condition.searches = 0) : HasSearches e 0 := by
  cases a with
  | metric m =>
      obtain rfl := Option.some.inj he
      exact m.hasSearches_expression
  | histogram h =>
      obtain rfl := Option.some.inj he
      exact h.hasSearches_expression
  | dateHistogram h =>
      obtain rfl := Option.some.inj he
      exact h.interval.hasSearches_expression h.field
  | ranges r =>
      obtain rfl := Option.some.inj he
      exact r.hasSearches_expression
  | leg l => exact l.hasSearches_expression he hwritable hsilent
  | terms _ | query _ => cases he

end Rollup
