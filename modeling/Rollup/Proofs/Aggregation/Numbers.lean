/-
# Numbers in expressions

The expression of a histogram or of ranges says the numbers that its request states. A number that
is read from the request as a finite one is written as a decimal. Texts of infinity, of no number
and of numbers that are too large are read as well, and then the expression says a word instead:
only an interval that is no number or not positive is refused, and a bound that no number can be
read from.
-/

import Rollup.Proofs.Aggregation.DateBuckets
import Rollup.Proofs.Aggregation.Pieces
import Rollup.Proofs.Forest.Filters

namespace Rollup

/-! ## What states the numbers -/

/-- The values that state the bounds of ranges. -/
def Ranges.statedBounds (body : Json) : List Json :=
  (((body.field? "ranges").bind Json.array?).getD []).flatMap fun item =>
    (item.present? "from").toList ++ (item.present? "to").toList

/-- The values that state numbers which are checked: the interval of a histogram, and bounds. -/
def Aggregation.checkedNumbers (kind : String) (body : Json) : List Json :=
  if kind = "histogram" then (body.field? "interval").toList
  else if kind = "range" then Ranges.statedBounds body
  else []

/-- The values that state the numbers of an aggregation. -/
def Aggregation.statedNumbers (kind : String) (body : Json) : List Json :=
  checkedNumbers kind body ++ if kind = "histogram" then (body.field? "offset").toList else []

/-- A histogram has an interval that is stated and positive. An offset that no number can be read
from counts as zero. -/
theorem Histogram.ofJson_spec {name : String} {body : Json} {h : Histogram}
    (hread : ofJson name body = .ok h) :
    (∃ value, body.field? "interval" = some value ∧ Cell.number? value = some h.interval) ∧
      Binary64.less 0 h.interval = true ∧
      h.offset = ((body.field? "offset").bind Cell.number?).getD 0 := by
  cases hfield : body.stringField? "field" with
  | none => simp [ofJson, hfield, bind, Except.bind] at hread
  | some field =>
  cases hvalue : body.field? "interval" with
  | none => simp [ofJson, hfield, hvalue, bind, Except.bind] at hread
  | some value =>
  cases hinterval : (Cell.number? value).filter (Binary64.less 0) with
  | none => simp [ofJson, hfield, hvalue, hinterval, bind, Except.bind] at hread
  | some interval =>
      obtain ⟨hnumber, hpositive⟩ := Option.filter_eq_some_iff.mp hinterval
      have hfields : h.interval = interval ∧
          h.offset = ((body.field? "offset").bind Cell.number?).getD 0 := by
        unfold ofJson at hread
        rw [hfield, hvalue] at hread
        simp only [hinterval, Except.bind, bind, pure, Except.pure] at hread
        split at hread
        · obtain rfl := Except.ok.inj hread
          exact ⟨rfl, rfl⟩
        · obtain ⟨bounds, -, hread⟩ := exists_ok_of_bind hread
          obtain rfl := Except.ok.inj hread
          exact ⟨rfl, rfl⟩
      rw [hfields.1]
      exact ⟨⟨value, rfl, hnumber⟩, hpositive, hfields.2⟩

namespace Ranges

theorem specOfJson_spec {name : String} {item : Json} {spec : RangeSpec}
    (h : specOfJson name item = .ok spec) :
    List.Forall₂ (fun value b => Cell.number? value = some b)
      ((item.present? "from").toList ++ (item.present? "to").toList)
      (spec.low.toList ++ spec.high.toList) := by
  unfold specOfJson at h
  extract_lets bound at h
  have hbound {field : String} {b? : Option Binary64} (hb : bound field = .ok b?) :
      List.Forall₂ (fun value b => Cell.number? value = some b) (item.present? field).toList
        b?.toList := by
    simp only [bound] at hb
    cases hvalue : item.present? field with
    | none =>
        simp only [hvalue] at hb
        obtain rfl := Except.ok.inj hb
        exact .nil
    | some value =>
        cases hnumber : Cell.number? value with
        | none => simp [hvalue, hnumber] at hb
        | some x =>
            simp only [hvalue, hnumber] at hb
            obtain rfl := Except.ok.inj hb
            exact .cons hnumber .nil
  obtain ⟨low, hlow, h⟩ := exists_ok_of_bind h
  obtain ⟨high, hhigh, h⟩ := exists_ok_of_bind h
  obtain rfl := Except.ok.inj h
  exact List.rel_append (hbound hlow) (hbound hhigh)

theorem items_of_frameOfJson {name kind : String} {body : Json} {frame : Frame}
    (h : frameOfJson name kind body = .ok frame) :
    (body.field? "ranges").bind Json.array? = some frame.items := by
  cases hfield : body.stringField? "field" with
  | none => simp [frameOfJson, hfield, bind, Except.bind] at h
  | some field =>
  cases hitems : (body.field? "ranges").bind Json.array? with
  | none => simp [frameOfJson, hfield, hitems, bind, Except.bind] at h
  | some items =>
      unfold frameOfJson at h
      rw [hfield] at h
      simp only [hitems, Except.bind, bind, pure, Except.pure] at h
      split at h
      · cases h
      · obtain rfl := Except.ok.inj h
        rfl

/-- The bounds of ranges are the numbers that are read from what states them. -/
theorem ofJson_spec {name : String} {body : Json} {r : Ranges} (h : ofJson name body = .ok r) :
    List.Forall₂ (fun value b => Cell.number? value = some b) (statedBounds body) r.bounds := by
  unfold ofJson at h
  obtain ⟨frame, hframe, h⟩ := exists_ok_of_bind h
  obtain ⟨specs, hspecs, h⟩ := exists_ok_of_bind h
  obtain rfl := Except.ok.inj h
  rw [statedBounds, items_of_frameOfJson hframe, Option.getD_some, bounds]
  exact List.rel_flatMap (forall₂_of_mapM hspecs) fun item spec hspec => specOfJson_spec hspec

end Ranges

/-! ## Aggregations that are read -/

section

variable {name : String} {body : Json}

theorem Cell.isOfFormat_of_isFinite {value : Json} {x : Binary64} (h : number? value = some x)
    (hvalue : value.isFinite = true) : x.IsOfFormat :=
  isOfFormat_of_number? h fun n hn => by rwa [hn] at hvalue

/-- A number that is read if it is stated, and otherwise stands for itself. -/
theorem forall_number?_iff {stated : Option Json} {default : Binary64} {p : Binary64 → Prop}
    (hdefault : p default) :
    (∀ value ∈ stated.toList, ∀ x, Cell.number? value = some x → p x) ↔
      p ((stated.bind Cell.number?).getD default) := by
  cases stated with
  | none => simpa using hdefault
  | some value =>
      cases hnumber : Cell.number? value with
      | none => simpa [hnumber] using hdefault
      | some x => simp [hnumber]

theorem Histogram.isOfFormat_of_ofJson {h : Histogram} (hread : ofJson name body = .ok h)
    (hbody : body.isFinite = true) : h.interval.IsOfFormat ∧ h.offset.IsOfFormat := by
  obtain ⟨⟨value, hvalue, hnumber⟩, -, hoffset⟩ := ofJson_spec hread
  refine ⟨Cell.isOfFormat_of_isFinite hnumber
    (Json.isInherited_isFinite.field? hbody hvalue), ?_⟩
  rw [hoffset]
  refine (forall_number?_iff (p := Binary64.IsOfFormat) (Or.inl Binary64.isNumber_zero)).mp ?_
  intro other hother x hx
  have hfield := Option.mem_toList.mp hother
  exact Cell.isOfFormat_of_isFinite hx (Json.isInherited_isFinite.field? hbody hfield)

/-- The expression of a histogram is readable just when interval and offset are stated finite. -/
theorem Histogram.forall_isReadable_pieces_iff {h : Histogram} (hread : ofJson name body = .ok h)
    (hbody : body.isFinite = true) :
    (∀ piece ∈ h.pieces, piece.IsReadable) ↔
      ∀ value ∈ Aggregation.statedNumbers "histogram" body, ∀ x,
        Cell.number? value = some x → x.IsNumber := by
  obtain ⟨⟨value, hvalue, hnumber⟩, -, hoffset⟩ := ofJson_spec hread
  obtain ⟨hinterval, hformat⟩ := isOfFormat_of_ofJson hread hbody
  -- an offset that equals zero is not written, and is a finite number
  have hwritten : (∀ piece ∈ if h.offset.same 0 then none else some (Piece.number h.offset),
      piece.IsReadable) ↔ h.offset.IsNumber := by
    by_cases hsame : h.offset.same 0 = true
    · have hfinite := (Binary64.isNumber_iff_of_same hsame hformat
        (Or.inl Binary64.isNumber_zero)).mpr Binary64.isNumber_zero
      simp [hsame, hfinite]
    · simpa [hsame] using hformat.isDecimal_text_iff
  have hstated : Aggregation.statedNumbers "histogram" body =
      [value] ++ (body.field? "offset").toList := by
    rw [Aggregation.statedNumbers, Aggregation.checkedNumbers, if_pos rfl, if_pos rfl, hvalue,
      Option.toList_some]
  rw [pieces, forall_isReadable_floorPieces, hwritten, hstated, List.forall_mem_append,
    forall_number?_iff Binary64.isNumber_zero, ← hoffset]
  refine and_congr ?_ Iff.rfl
  simpa [hnumber] using hinterval.isDecimal_text_iff

/-- What is asked of the numbers that are read may be asked of what they are read from. -/
theorem forall_number?_iff_of_forall₂ {values : List Json} {numbers : List Binary64}
    {p : Binary64 → Prop}
    (h : List.Forall₂ (fun value x => Cell.number? value = some x) values numbers) :
    (∀ x ∈ numbers, p x) ↔ ∀ value ∈ values, ∀ x, Cell.number? value = some x → p x := by
  induction h with
  | nil => simp
  | cons hnumber _ ih => simp [hnumber, ih]

theorem Ranges.isFinite_of_mem_statedBounds (hbody : body.isFinite = true) {value : Json}
    (hvalue : value ∈ statedBounds body) : value.isFinite = true := by
  obtain ⟨item, hitem, hbound⟩ := List.mem_flatMap.mp hvalue
  have hitemFinite : item.isFinite = true := by
    cases hranges : body.field? "ranges" with
    | none => simp [hranges] at hitem
    | some ranges =>
        have hfinite := Json.isInherited_isFinite.field? hbody hranges
        cases ranges with
        | array items =>
            rw [hranges] at hitem
            exact (Json.itemsAreFinite_iff items).mp hfinite item hitem
        | null | bool _ | number _ | string _ | object _ => simp [hranges, Json.array?] at hitem
  have hpresent {field : String} (hmem : value ∈ (item.present? field).toList) :
      value.isFinite = true := by
    have hfield := (Option.filter_eq_some_iff.mp (Option.mem_toList.mp hmem)).1
    exact Json.isInherited_isFinite.field? hitemFinite hfield
  exact (List.mem_append.mp hbound).elim hpresent hpresent

theorem Ranges.isOfFormat_of_ofJson {r : Ranges} (hread : ofJson name body = .ok r)
    (hbody : body.isFinite = true) : ∀ b ∈ r.bounds, b.IsOfFormat := by
  rw [forall_number?_iff_of_forall₂ (ofJson_spec hread)]
  exact fun value hvalue x hx =>
    Cell.isOfFormat_of_isFinite hx (isFinite_of_mem_statedBounds hbody hvalue)

/-- The expression of ranges of numbers is readable just when all bounds are stated finite. -/
theorem Ranges.forall_isReadable_pieces_iff {r : Ranges} (hread : ofJson name body = .ok r)
    (hbody : body.isFinite = true) :
    (∀ piece ∈ r.pieces, piece.IsReadable) ↔
      ∀ value ∈ Aggregation.statedNumbers "range" body, ∀ x,
        Cell.number? value = some x → x.IsNumber := by
  have hbounds := isOfFormat_of_ofJson hread hbody
  have hstated : Aggregation.statedNumbers "range" body = statedBounds body :=
    List.append_nil (statedBounds body)
  rw [hstated, ← forall_number?_iff_of_forall₂ (ofJson_spec hread),
    ← isNumber_boundaries_iff hbounds, forall_isReadable_pieces]
  exact forall₂_congr fun b hb =>
    (hbounds b (mem_bounds_of_mem_boundaries hb)).isDecimal_text_iff

/-- Every result of a step over a list is the result of the step for an item. -/
theorem exists_ok_of_mem_mapM {α β ε : Type} {f : α → Except ε β} {items : List α}
    {results : List β} (h : items.mapM f = .ok results) :
    ∀ result ∈ results, ∃ item, f item = .ok result := by
  have hall : List.Forall₂ (fun result item => f item = .ok result) results items :=
    (forall₂_of_mapM h).flip
  exact ((List.forall₂_and_left _ _).mp (hall.imp fun result item hitem => ⟨⟨item, hitem⟩, hitem⟩)).1

/-- The bounds of ranges of dates are seconds, and finite numbers. -/
theorem Ranges.isNumber_of_datesOfJson {now : Calendar.Instant} (hnow : now.IsRepresentable)
    {r : Ranges} (hread : datesOfJson name now body = .ok r) : ∀ b ∈ r.bounds, b.IsNumber := by
  unfold datesOfJson at hread
  obtain ⟨frame, -, hread⟩ := exists_ok_of_bind hread
  obtain ⟨specs, hspecs, hread⟩ := exists_ok_of_bind hread
  obtain rfl := Except.ok.inj hread
  have hseconds {value : Option Json} {ms? : Option Int}
      (hresolved : ResolvesTo now (body.stringField? "format") value ms?) {b : Binary64}
      (hb : b ∈ (ms?.map fun ms => Binary64.ofInt (ms / 1000)).toList) : b.IsNumber := by
    cases hresolved with
    | none => cases hb
    | some hms =>
        obtain rfl := List.mem_singleton.mp hb
        obtain ⟨hmin, hmax⟩ := Calendar.resolveMillis_bounds hnow hms
        unfold Binary64.int64Min at hmin
        unfold Binary64.int64Max at hmax
        exact Binary64.isNumber_ofInt (by omega)
  intro b hb
  obtain ⟨spec, hspec, hmem⟩ := List.mem_flatMap.mp hb
  obtain ⟨item, hitem⟩ := exists_ok_of_mem_mapM hspecs spec hspec
  obtain ⟨low, high, hfrom, hto, hlow, hhigh⟩ := dateSpecOfJson_spec hitem
  rw [hlow, hhigh] at hmem
  exact (List.mem_append.mp hmem).elim (hseconds hfrom) (hseconds hto)

/-! ## Refusals -/

/-- Whether all errors of a step say that a field of an aggregation is not valid. -/
def RefusesInvalid {α : Type} (name kind : String) (x : Except RequestError α) : Prop :=
  ∀ e, x = .error e → ∃ field text, e = .invalidField name kind field text

namespace RefusesInvalid

variable {α β : Type} {kind : String}

theorem ok (a : α) : RefusesInvalid name kind (.ok a) := fun _ h => by cases h

theorem error (field text : String) :
    RefusesInvalid name kind
      (.error (.invalidField name kind field text) : Except RequestError α) :=
  fun _ h => ⟨field, text, (Except.error.inj h).symm⟩

theorem bind {x : Except RequestError α} {f : α → Except RequestError β}
    (hx : RefusesInvalid name kind x) (hf : ∀ a, RefusesInvalid name kind (f a)) :
    RefusesInvalid name kind (x >>= f) := by
  cases x with
  | error e => exact fun e' h => hx e' (congrArg Except.error (Except.error.inj h))
  | ok a => exact hf a

theorem map {x : Except RequestError α} {f : α → β} (hx : RefusesInvalid name kind x) :
    RefusesInvalid name kind (x.map f) := by
  cases x with
  | error e => exact fun e' h => hx e' (congrArg Except.error (Except.error.inj h))
  | ok a => exact ok (f a)

theorem mapM {f : α → Except RequestError β} (hf : ∀ a, RefusesInvalid name kind (f a))
    (items : List α) : RefusesInvalid name kind (items.mapM f) := by
  induction items with
  | nil => exact ok []
  | cons item rest ih =>
      rw [List.mapM_cons]
      exact bind (hf item) fun result => bind ih fun results => ok (result :: results)

end RefusesInvalid

/-- A histogram that states its field and an interval is only refused for what it states. -/
theorem Histogram.refusesInvalid_ofJson {field : String} {value : Json}
    (hfield : body.stringField? "field" = some field)
    (hvalue : body.field? "interval" = some value) :
    RefusesInvalid name "histogram" (ofJson name body) := by
  have hbounds (bounds : Json) : RefusesInvalid name "histogram" (boundsOfJson name bounds) := by
    unfold boundsOfJson
    dsimp only
    split
    · split
      · exact .ok _
      · exact .error _ _
    · exact .error _ _
  unfold ofJson
  rw [hfield, hvalue]
  refine .bind (.ok field) fun _ => .bind (.ok value) fun stated => ?_
  beta_reduce
  extract_lets offset rest
  have hrest (interval : Binary64) : RefusesInvalid name "histogram" (rest interval) := by
    simp only [rest]
    split
    · exact .bind (.ok none) fun _ => .ok _
    · exact .bind (.map (hbounds _)) fun _ => .ok _
  split
  · exact .bind (.ok _) hrest
  · exact .bind (.error _ _) hrest

/-- Ranges that state their field and a list are only refused for what they state. -/
theorem Ranges.refusesInvalid_ofJson {field : String} {items : List Json}
    (hfield : body.stringField? "field" = some field)
    (hitems : (body.field? "ranges").bind Json.array? = some items) :
    RefusesInvalid name "range" (ofJson name body) := by
  refine .bind ?_ fun frame => .bind (.mapM (fun item => ?_) _) fun specs => .ok _
  · unfold frameOfJson
    rw [hfield, hitems]
    refine .bind (.ok field) fun _ => .bind (.ok items) fun _ => ?_
    beta_reduce
    split
    · exact .error _ _
    · exact .ok _
  · unfold specOfJson
    extract_lets bound
    have hbound (field : String) : RefusesInvalid name "range" (bound field) := by
      simp only [bound]
      split
      · exact .ok _
      · split
        · exact .ok _
        · exact .error _ _
    exact .bind (hbound "from") fun low => .bind (hbound "to") fun high => .ok _

namespace Aggregation

variable {now : Calendar.Instant} {kind : String} {a : Aggregation}

theorem statedNumbers_eq_nil (hhistogram : kind ≠ "histogram") (hrange : kind ≠ "range") :
    statedNumbers kind body = [] := by
  rw [statedNumbers, checkedNumbers, if_neg hhistogram, if_neg hrange, if_neg hhistogram,
    List.append_nil]

/-- What says a number is a histogram or has ranges. -/
theorem ofKind_cases (h : ofKind now name kind body = .ok a) :
    (∃ g, a = histogram g ∧ kind = "histogram" ∧ Histogram.ofJson name body = .ok g) ∨
      (∃ r, a = ranges r ∧ kind = "range" ∧ Ranges.ofJson name body = .ok r) ∨
      (∃ r, a = ranges r ∧ kind = "date_range" ∧ Ranges.datesOfJson name now body = .ok r) ∨
      (kind ≠ "histogram" ∧ kind ≠ "range" ∧ ∀ x, Piece.number x ∉ a.pieces) := by
  have hplain {e? : Option String} {x : Binary64} : Piece.number x ∉ e?.toList.map .text := by
    simp
  unfold ofKind at h
  split_ifs at h with hterms hhistogram hdates hrange hdateRange hquery
  · obtain ⟨t, -, rfl⟩ := exists_ok_of_map h
    exact Or.inr (Or.inr (Or.inr ⟨by simp [hterms], by simp [hterms], fun x => hplain⟩))
  · obtain ⟨g, hread, rfl⟩ := exists_ok_of_map h
    exact Or.inl ⟨g, rfl, hhistogram, hread⟩
  · obtain ⟨d, -, rfl⟩ := exists_ok_of_map h
    exact Or.inr (Or.inr (Or.inr
      ⟨hhistogram, by simp [hdates], d.interval.number_notMem_pieces d.field⟩))
  · obtain ⟨r, hread, rfl⟩ := exists_ok_of_map h
    exact Or.inr (Or.inl ⟨r, rfl, hrange, hread⟩)
  · obtain ⟨r, hread, rfl⟩ := exists_ok_of_map h
    exact Or.inr (Or.inr (Or.inl ⟨r, rfl, hdateRange, hread⟩))
  · refine Or.inr (Or.inr (Or.inr ⟨hhistogram, hrange, ?_⟩))
    unfold queryOf at h
    split at h
    · obtain rfl := Except.ok.inj h
      exact fun x => hplain
    · cases h
  · refine Or.inr (Or.inr (Or.inr ⟨hhistogram, hrange, ?_⟩))
    split at h
    · obtain ⟨m, -, rfl⟩ := exists_ok_of_map h
      exact fun x => hplain
    · obtain rfl := Except.ok.inj h
      exact fun x => hplain

/-- An expression is readable just when all numbers it says are stated finite. -/
theorem forall_isReadable_pieces_iff (hnow : now.IsRepresentable)
    (h : ofKind now name kind body = .ok a) (hbody : body.isFinite = true) :
    (∀ piece ∈ a.pieces, piece.IsReadable) ↔
      ∀ value ∈ statedNumbers kind body, ∀ x, Cell.number? value = some x → x.IsNumber := by
  obtain ⟨g, rfl, rfl, hread⟩ | ⟨r, rfl, rfl, hread⟩ | ⟨r, rfl, rfl, hread⟩ |
    ⟨hhistogram, hrange, hnone⟩ := ofKind_cases h
  · exact Histogram.forall_isReadable_pieces_iff hread hbody
  · exact Ranges.forall_isReadable_pieces_iff hread hbody
  · rw [statedNumbers_eq_nil (by decide) (by decide)]
    refine iff_of_true (r.forall_isReadable_pieces.mpr fun b hb => ?_) (by simp)
    exact (Ranges.isNumber_of_datesOfJson hnow hread b
      (Ranges.mem_bounds_of_mem_boundaries hb)).isDecimal_text
  · rw [statedNumbers_eq_nil hhistogram hrange]
    exact iff_of_true (Piece.isReadable_of_notMem hnone) (by simp)

/-- The numbers that an expression says are values of the format. -/
theorem isOfFormat_of_mem_pieces (hnow : now.IsRepresentable)
    (h : ofKind now name kind body = .ok a) (hbody : body.isFinite = true) {x : Binary64}
    (hx : Piece.number x ∈ a.pieces) : x.IsOfFormat := by
  obtain ⟨g, rfl, -, hread⟩ | ⟨r, rfl, -, hread⟩ | ⟨r, rfl, -, hread⟩ | ⟨-, -, hnone⟩ :=
    ofKind_cases h
  · obtain ⟨hinterval, hoffset⟩ := Histogram.isOfFormat_of_ofJson hread hbody
    obtain rfl | rfl := Histogram.eq_of_mem_pieces hx
    · exact hinterval
    · exact hoffset
  · exact Ranges.isOfFormat_of_ofJson hread hbody x
      (Ranges.mem_bounds_of_mem_boundaries (Ranges.mem_boundaries_of_mem_pieces hx))
  · exact Or.inl (Ranges.isNumber_of_datesOfJson hnow hread x
      (Ranges.mem_bounds_of_mem_boundaries (Ranges.mem_boundaries_of_mem_pieces hx)))
  · exact absurd hx (hnone x)

/-- Of an aggregation that is read, the numbers that are checked can be read. -/
theorem isSome_of_mem_checkedNumbers (h : ofKind now name kind body = .ok a) :
    ∀ value ∈ checkedNumbers kind body, (Cell.number? value).isSome = true := by
  obtain ⟨g, rfl, rfl, hread⟩ | ⟨r, rfl, rfl, hread⟩ | ⟨r, rfl, rfl, hread⟩ |
    ⟨hhistogram, hrange, hnone⟩ := ofKind_cases h
  · obtain ⟨⟨value, hvalue, hnumber⟩, -⟩ := Histogram.ofJson_spec hread
    rw [checkedNumbers, if_pos rfl, hvalue]
    simp [hnumber]
  · have hall := Ranges.ofJson_spec hread
    exact ((List.forall₂_and_left _ _).mp (hall.imp fun value x hx =>
      ⟨Option.isSome_of_eq_some hx, hx⟩)).1
  · simp [checkedNumbers]
  · simp [checkedNumbers, hhistogram, hrange]

/-- A number that is checked and cannot be read is refused as an invalid field. -/
theorem exists_error_of_mem_checkedNumbers {field : String} {value : Json}
    (hfield : body.stringField? "field" = some field) (hvalue : value ∈ checkedNumbers kind body)
    (hnumber : Cell.number? value = none) :
    ∃ field text, ofKind now name kind body = .error (.invalidField name kind field text) := by
  have hrefused : RefusesInvalid name kind (ofKind now name kind body) := by
    unfold checkedNumbers at hvalue
    split_ifs at hvalue with hhistogram hrange
    · subst hhistogram
      exact .map (Histogram.refusesInvalid_ofJson hfield (Option.mem_toList.mp hvalue))
    · subst hrange
      cases hitems : (body.field? "ranges").bind Json.array? with
      | none => simp [Ranges.statedBounds, hitems] at hvalue
      | some items => exact .map (Ranges.refusesInvalid_ofJson hfield hitems)
    · cases hvalue
  cases hread : ofKind now name kind body with
  | ok a =>
      have hsome := isSome_of_mem_checkedNumbers hread value hvalue
      simp [hnumber] at hsome
  | error e =>
      obtain ⟨field, text, rfl⟩ := hrefused e hread
      exact ⟨field, text, rfl⟩

end Aggregation

end

/-! ## Forests -/

/-- Whether a value is a part of a JSON value: the value itself, or in a field of a part. -/
inductive Json.Contains (root : Json) : Json → Prop where
  | root : Contains root root
  | field {fields : Fields} {field : String × Json} :
      Contains root (.object fields) → field ∈ fields → Contains root field.2

theorem Json.isInherited_contains (root : Json) : IsInherited root.Contains :=
  fun _ hfields _ hfield => .field hfields hfield

theorem Json.Contains.isFinite {root value : Json} (h : root.Contains value)
    (hroot : root.isFinite = true) : value.isFinite = true := by
  induction h with
  | root => exact hroot
  | field _ hfield ih => exact isInherited_isFinite _ ih _ hfield

/-- Every node but a leg and the query is read from the body of its kind. -/
theorem Forest.exists_body_of_ofJson {now : Calendar.Instant} {json : Json} {forest : Forest}
    (h : ofJson now json = .ok forest) : ∀ n ∈ forest, n.isLeg = false → n.isQuery = false →
      ∃ name kind body, json.Contains body ∧
        Aggregation.ofKind now name kind body = .ok n.aggregation := by
  refine Request.forall_of_ofJson (p := fun a => a.isLeg = false → a.isQuery = false →
    ∃ name kind body, json.Contains body ∧ Aggregation.ofKind now name kind body = .ok a) h .root
    json.isInherited_contains ?_ ?_
  · intro name kind body nodes hnodes hbody a ha hleg _
    unfold Request.nodesOfKind at hnodes
    split_ifs at hnodes with hfilters hfilter hquery
    · obtain ⟨⟨shape, legs⟩, -, hnodes⟩ := exists_ok_of_bind hnodes
      obtain rfl := Except.ok.inj hnodes
      obtain ⟨⟨entry, i⟩, -, rfl⟩ := List.mem_map.mp ha
      cases hleg
    · obtain rfl := Except.ok.inj hnodes
      obtain rfl := List.mem_singleton.mp ha
      cases hleg
    · obtain ⟨found, hfound, hnodes⟩ := exists_ok_of_bind hnodes
      obtain rfl := Except.ok.inj hnodes
      obtain rfl := List.mem_singleton.mp ha
      exact ⟨name, kind, body, hbody, hfound⟩
  · intro clause a ha _ _ hquery
    unfold Aggregation.queryOf at ha
    split at ha
    · obtain rfl := Except.ok.inj ha
      cases hquery
    · cases ha

/-- The expression of a node that is read from a request says the numbers that its body states,
each as a decimal just when all of them are stated finite; the seconds of dates always are. An
interval is positive. An interval or a bound that no number can be read from is refused as an
invalid field; an offset counts as zero then. -/
theorem Forest.numbers_of_ofJson {now : Calendar.Instant} {json : Json}
    (hnow : now.IsRepresentable) (hjson : json.isFinite = true) :
    (∀ forest, ofJson now json = .ok forest →
      ∀ n ∈ forest, n.isLeg = false → n.isQuery = false →
        n.aggregation.expression?.getD "" =
            String.join (n.aggregation.pieces.map Piece.render) ∧
          (∀ x, Piece.number x ∈ n.aggregation.pieces → (IsDecimal x.text ↔ x.IsNumber)) ∧
          (∀ h, n.aggregation = .histogram h → Binary64.less 0 h.interval = true) ∧
          ∃ name kind body, json.Contains body ∧
            Aggregation.ofKind now name kind body = .ok n.aggregation ∧
            ((∀ piece ∈ n.aggregation.pieces, piece.IsReadable) ↔
              ∀ value ∈ Aggregation.statedNumbers kind body, ∀ x,
                Cell.number? value = some x → x.IsNumber)) ∧
      ∀ name kind body, (body.stringField? "field").isSome = true →
        ∀ value ∈ Aggregation.checkedNumbers kind body, Cell.number? value = none →
          ∃ field text,
            Aggregation.ofKind now name kind body = .error (.invalidField name kind field text) := by
  constructor
  · intro forest h n hn hleg hquery
    obtain ⟨name, kind, body, hbody, hread⟩ := exists_body_of_ofJson h n hn hleg hquery
    have hfinite := hbody.isFinite hjson
    refine ⟨n.aggregation.expression_eq, fun x hx => ?_, fun g hg => ?_, name, kind, body, hbody,
      hread, Aggregation.forall_isReadable_pieces_iff hnow hread hfinite⟩
    · exact (Aggregation.isOfFormat_of_mem_pieces hnow hread hfinite hx).isDecimal_text_iff
    · rw [hg] at hread
      obtain ⟨g', hg', -, hhistogram⟩ | ⟨r, hr, -⟩ | ⟨r, hr, -⟩ | ⟨-, -, hnone⟩ :=
        Aggregation.ofKind_cases hread
      · obtain rfl := Aggregation.histogram.inj hg'
        exact (Histogram.ofJson_spec hhistogram).2.1
      · cases hr
      · cases hr
      · exact absurd g.interval_mem_pieces (hnone g.interval)
  · intro name kind body hfield value hvalue hnumber
    obtain ⟨field, hfield⟩ := Option.isSome_iff_exists.mp hfield
    exact Aggregation.exists_error_of_mem_checkedNumbers hfield hvalue hnumber

/-! ## Texts of numbers -/

/-- A request for a histogram with ranges below it, all stated by texts but the offset. -/
def sizesRequest (interval : String) : Json :=
  .object [("aggs", .object [("sizes", .object [
    ("histogram", .object [("field", .string "size"), ("interval", .string interval),
      ("offset", .number (.integer 1))]),
    ("aggs", .object [("grades", .object [("range", .object [("field", .string "size"),
      ("ranges", .array [.object [("to", .string "1e2")]])])])])])])]

/-- The pieces of its expressions for an interval that is read as `width`. -/
def sizesPieces (width : Binary64) : List (List Piece) :=
  [[.text "FLOOR((", .text "size", .text "-", .number (.finite 1), .text ")/", .number width,
      .text ")*", .number width, .text "+", .number (.finite 1)],
    [.text "INTERVAL(", .text "size", .text ", ", .number (.finite 100), .text ")"]]

/-- Whether the nodes of a request are read into these pieces, and none is a leg or the query. -/
def Forest.ReadsPieces (json : Json) (pieces : List (List Piece)) : Prop :=
  (ofJson default json).toOption.map (List.map fun n =>
    (n.isLeg || n.isQuery, n.aggregation.pieces)) = some (pieces.map fun ps => (false, ps))

instance (json : Json) (pieces : List (List Piece)) : Decidable (Forest.ReadsPieces json pieces) :=
  inferInstanceAs (Decidable (_ = _))

theorem Forest.ReadsPieces.exists_forest {json : Json} {pieces : List (List Piece)}
    (h : ReadsPieces json pieces) :
    ∃ forest, ofJson default json = .ok forest ∧
      (forest.map fun n => n.aggregation.pieces) = pieces ∧
      (forest.map fun n => n.aggregation.expression?.getD "") =
        pieces.map (fun ps => String.join (ps.map Piece.render)) ∧
      ∀ n ∈ forest, n.isLeg = false ∧ n.isQuery = false := by
  obtain ⟨forest, hread, hnodes⟩ := Option.map_eq_some_iff.mp h
  have hpieces : (forest.map fun n => n.aggregation.pieces) = pieces := by
    simpa [Function.comp_def] using congrArg (List.map Prod.snd) hnodes
  refine ⟨forest, ?_, hpieces, ?_, fun n hn => ?_⟩
  · cases hforest : ofJson default json with
    | error e => simp [hforest, Except.toOption] at hread
    | ok found => simpa [hforest, Except.toOption] using hread
  · rw [← hpieces, List.map_map]
    exact List.map_congr_left fun n _ => n.aggregation.expression_eq
  · obtain ⟨ps, -, hps⟩ := List.mem_map.mp (hnodes ▸ List.mem_map_of_mem hn)
    have hplain : (n.isLeg || n.isQuery) = false := (congrArg Prod.fst hps).symm
    simpa using hplain

/-- A request whose numbers are stated finite, by texts or not. -/
theorem Forest.sizesRequest_isReadable :
    (default : Calendar.Instant).IsRepresentable ∧ (sizesRequest "2.5").isFinite = true ∧
      ∃ forest, ofJson default (sizesRequest "2.5") = .ok forest ∧
        (forest.map fun n => n.aggregation.expression?.getD "") =
          ["FLOOR((size-1)/2.5)*2.5+1", "INTERVAL(size, 100)"] ∧
        ∀ n ∈ forest, ∀ piece ∈ n.aggregation.pieces, piece.IsReadable := by
  have hnow : (default : Calendar.Instant).IsRepresentable := by decide +kernel
  have hfinite : (sizesRequest "2.5").isFinite = true := by decide +kernel
  have hreads : ReadsPieces (sizesRequest "2.5") (sizesPieces (.finite (5 / 2))) :=
    by decide +kernel
  obtain ⟨forest, hforest, hpieces, hsays, hplain⟩ := hreads.exists_forest
  refine ⟨hnow, hfinite, forest, hforest, hsays.trans (by decide +kernel), ?_⟩
  -- the numbers are finite values of the format, and so their texts are decimals
  have hnumbers : ∀ ps ∈ sizesPieces (.finite (5 / 2)), ∀ x, Piece.number x ∈ ps →
      x.IsNumber := by
    have hone : (Binary64.finite 1).IsNumber := by decide +kernel
    have hwidth : (Binary64.finite (5 / 2)).IsNumber := by decide +kernel
    have hbound : (Binary64.finite 100).IsNumber := by decide +kernel
    simp [sizesPieces, hone, hwidth, hbound]
  intro n hn piece hpiece
  obtain ⟨-, hdecimal, -⟩ := (numbers_of_ofJson hnow hfinite).1 forest hforest n hn
    (hplain n hn).1 (hplain n hn).2
  cases piece with
  | text chars => trivial
  | integer k => exact Piece.isReadable_integer k
  | number x =>
      exact (hdecimal x hpiece).mpr (hnumbers _ (hpieces ▸ List.mem_map_of_mem hn) x hpiece)

/-- A text of infinity is read as a positive number, and the expression says it. -/
theorem Forest.sizesRequest_says_infinity :
    ∃ forest, ofJson default (sizesRequest "inf") = .ok forest ∧
      (forest.map fun n => n.aggregation.expression?.getD "") =
        ["FLOOR((size-1)/inf)*inf+1", "INTERVAL(size, 100)"] ∧
      ∃ n ∈ forest, ∃ piece ∈ n.aggregation.pieces, ¬ piece.IsReadable := by
  have hreads : ReadsPieces (sizesRequest "inf") (sizesPieces (.infinite false)) :=
    by decide +kernel
  obtain ⟨forest, hforest, hpieces, hsays, -⟩ := hreads.exists_forest
  refine ⟨forest, hforest, hsays.trans (by decide +kernel), ?_⟩
  have hwidth : ∃ ps ∈ sizesPieces (.infinite false), Piece.number (.infinite false) ∈ ps := by
    simp [sizesPieces]
  obtain ⟨ps, hps, hmem⟩ := hwidth
  obtain ⟨n, hn, rfl⟩ := List.mem_map.mp (hpieces ▸ hps)
  exact ⟨n, hn, _, hmem, Binary64.not_isDecimal_text rfl⟩

end Rollup
