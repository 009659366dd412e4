/-
# Two readings of a reply

A reply of the daemon is read twice: it is decoded for searches, and it is written as a text for
whoever sends a statement by hand. Both take the first result set. The text knows only errors that
are texts, and it counts whatever stands under `data`, so the two readings part where an error is an
object and where something that is no object stands among the rows, and nowhere else.
-/

import Rollup.Command.ResultText
import Rollup.Daemon.Reply
import Rollup.Proofs.Number.ReadBack

namespace Rollup.Command

/-! ## What is written -/

/-- What stands under `data` in a result set. -/
def itemsOf (set : Json) : List Json := ((set.field? "data").bind Json.array?).getD []

/-- Rows as a text: their number, below a table if there are columns. -/
def textOfRows (columns : List String) (rows : List Json) : String :=
  let count := toString rows.length ++ " rows"
  if columns.isEmpty then count
  else
    TextTable.render (columns :: rows.map fun row => columns.map (cellText row)) ++ "\n" ++ count

/-- The error of a result set, if it is a text. -/
def textError? (set : Json) : Option String :=
  (set.stringField? "error").filter fun e => !e.isEmpty

theorem resultText_eq (reply : Json) :
    resultText reply =
      match textError? (firstResultSet reply) with
      | some error => .error error
      | none => .ok (textOfRows (columnNames (firstResultSet reply))
          (itemsOf (firstResultSet reply))) := by
  have hrows (columns : List String) (rows : List Json) :
      .ok (textOfRows columns rows) = (if columns.isEmpty then
          .ok (toString rows.length ++ " rows")
        else .ok (TextTable.render (columns :: rows.map fun row => columns.map (cellText row)) ++
          "\n" ++ (toString rows.length ++ " rows")) : Except String String) := by
    unfold textOfRows
    split <;> rfl
  unfold resultText
  rw [hrows]
  rfl

/-- The last line of a text. -/
def lastLine (text : List Char) : List Char := (text.reverse.takeWhile (· ≠ '\n')).reverse

theorem lastLine_append {line : List Char} (h : '\n' ∉ line) (before : List Char) :
    lastLine (before ++ line) = lastLine before ++ line := by
  have hline : ∀ c ∈ line.reverse, decide (c ≠ '\n') = true := fun c hc =>
    decide_eq_true fun heq => h (heq ▸ List.mem_reverse.mp hc)
  unfold lastLine
  rw [List.reverse_append, List.takeWhile_append_of_pos hline, List.reverse_append,
    List.reverse_reverse]

/-- The line that counts rows. -/
def countLine (n : Nat) : List Char := Nat.toDigits 10 n ++ " rows".toList

theorem toList_count (n : Nat) : (toString n ++ " rows").toList = countLine n := by
  have hdigits : (toString n).toList = Nat.toDigits 10 n := String.toList_ofList
  rw [String.toList_append, hdigits, countLine]

theorem countLine_injective : Function.Injective countLine := by
  intro n m h
  have hdigits := congrArg Text.digitsValue (List.append_cancel_right h)
  rwa [Text.digitsValue_toDigits, Text.digitsValue_toDigits] at hdigits

/-- Whatever the columns, the last line counts the rows. -/
theorem lastLine_textOfRows (columns : List String) (rows : List Json) :
    lastLine (textOfRows columns rows).toList = countLine rows.length := by
  have hline : '\n' ∉ countLine rows.length := by
    intro hmem
    rcases List.mem_append.mp hmem with hdigit | hword
    · exact absurd (Text.isDigit_of_mem_toDigits hdigit) (by decide)
    · exact absurd hword (by decide)
  unfold textOfRows
  dsimp only
  split
  · rw [toList_count]
    exact lastLine_append hline []
  · rw [String.toList_append, toList_count, lastLine_append hline, String.toList_append]
    simp [lastLine]

/-! ## What is decoded -/

theorem decode_eq (reply : Json) :
    Daemon.decode reply =
      match Daemon.errorOf? (firstResultSet reply) with
      | some message => .error message
      | none => .ok ⟨Daemon.rowsOf (firstResultSet reply),
          (((firstResultSet reply).field? "total").bind Json.nat?).getD
            (Daemon.rowsOf (firstResultSet reply)).length⟩ := by
  cases reply with
  | array sets =>
      cases sets with
      | nil => rfl
      | cons set sets => rfl
  | _ => rfl

/-- The rows that are decoded are the items that are objects. -/
theorem rowsOf_eq (set : Json) : Daemon.rowsOf set = (itemsOf set).filterMap Json.object? := by
  unfold Daemon.rowsOf itemsOf
  cases (set.field? "data").bind Json.array? <;> rfl

/-- Without other items, the rows are the items. -/
theorem map_object_rowsOf {set : Json} (h : ∀ item ∈ itemsOf set, item.isObject = true) :
    (Daemon.rowsOf set).map Json.object = itemsOf set := by
  have hobject (item : Json) (hitem : item.isObject = true) :
      item.object?.map Json.object = some item := by
    cases item <;> first | rfl | cases hitem
  rw [rowsOf_eq, List.map_filterMap]
  exact (List.filterMap_congr fun item hitem => hobject item (h item hitem)).trans
    List.filterMap_some

/-- There are as many rows as items only without other items. -/
theorem isObject_of_length_rowsOf {set : Json}
    (h : (itemsOf set).length = (Daemon.rowsOf set).length) :
    ∀ item ∈ itemsOf set, item.isObject = true := by
  rw [rowsOf_eq] at h
  intro item hitem
  have hsome := List.filterMap_length_eq_length.mp h.symm item hitem
  cases item <;> first | rfl | cases hsome

/-! ## Where the readings part -/

/-- An error that is an object is an error when the reply is decoded, and none in the text. -/
theorem errors_of_object {set : Json} {fields : Fields}
    (h : set.field? "error" = some (.object fields)) :
    textError? set = none ∧ ∃ message, Daemon.errorOf? set = some message := by
  unfold textError? Json.stringField? Daemon.errorOf?
  rw [h]
  exact ⟨rfl, _, rfl⟩

/-- Any other error is the same in both readings. -/
theorem errorOf?_eq_textError? {set : Json}
    (h : ∀ fields, set.field? "error" ≠ some (.object fields)) :
    Daemon.errorOf? set = textError? set := by
  unfold textError? Json.stringField? Daemon.errorOf?
  split
  · rename_i text hfield
    rw [hfield]
    cases hempty : text.isEmpty <;> simp [Json.string?, Option.filter, hempty]
  · rename_i fields hfield
    exact absurd hfield (h fields)
  · rename_i hother _
    cases hfield : set.field? "error" with
    | none => rfl
    | some error =>
        cases error with
        | string text => exact absurd hfield (hother text)
        | _ => rfl

/-- Whether the readings of a reply agree: the same errors with the same messages, and otherwise a
text of just the rows that are decoded, with their number. -/
structure ReadAlike (reply : Json) : Prop where
  errors : ∀ message, resultText reply = .error message ↔ Daemon.decode reply = .error message
  rows : ∀ text result, resultText reply = .ok text → Daemon.decode reply = .ok result →
    text = textOfRows (columnNames (firstResultSet reply)) (result.rows.map Json.object)

theorem resultText_eq_error {reply : Json} {message : String} :
    resultText reply = .error message ↔ textError? (firstResultSet reply) = some message := by
  rw [resultText_eq]
  cases textError? (firstResultSet reply) <;> simp

theorem decode_eq_error {reply : Json} {message : String} :
    Daemon.decode reply = .error message ↔
      Daemon.errorOf? (firstResultSet reply) = some message := by
  rw [decode_eq]
  cases Daemon.errorOf? (firstResultSet reply) <;> simp

theorem rows_of_decode {reply : Json} {result : ResultSet}
    (h : Daemon.decode reply = .ok result) :
    Daemon.errorOf? (firstResultSet reply) = none ∧
      result.rows = Daemon.rowsOf (firstResultSet reply) := by
  rw [decode_eq] at h
  cases herror : Daemon.errorOf? (firstResultSet reply) with
  | some message =>
      rw [herror] at h
      cases h
  | none =>
      rw [herror] at h
      cases h
      exact ⟨rfl, rfl⟩

theorem resultText_eq_ok {reply : Json} (h : textError? (firstResultSet reply) = none) :
    resultText reply = .ok (textOfRows (columnNames (firstResultSet reply))
      (itemsOf (firstResultSet reply))) := by
  rw [resultText_eq, h]

/-- Readings that agree take no object for an error. -/
theorem ReadAlike.error_ne_object {reply : Json} (h : ReadAlike reply) (fields : Fields) :
    (firstResultSet reply).field? "error" ≠ some (.object fields) := by
  intro hobject
  obtain ⟨hnone, message, hsome⟩ := errors_of_object hobject
  have herror := resultText_eq_error.mp ((h.errors message).mpr (decode_eq_error.mpr hsome))
  rw [hnone] at herror
  cases herror

/-- Readings that agree count the same rows, so that all items are objects. -/
theorem ReadAlike.isObject {reply : Json} (h : ReadAlike reply) {result : ResultSet}
    (hdecode : Daemon.decode reply = .ok result) :
    ∀ item ∈ itemsOf (firstResultSet reply), item.isObject = true := by
  obtain ⟨hnone, hrows⟩ := rows_of_decode hdecode
  have htext : textError? (firstResultSet reply) = none := by
    rw [← errorOf?_eq_textError? h.error_ne_object, hnone]
  have hsame := h.rows _ result (resultText_eq_ok htext) hdecode
  have hlines := congrArg (fun text => lastLine text.toList) hsame
  rw [lastLine_textOfRows, lastLine_textOfRows, List.length_map, hrows] at hlines
  exact isObject_of_length_rowsOf (countLine_injective hlines)

/-- What is an error in the text is one with the same message when the reply is decoded. The
readings agree just when no error is an object and, where there is no error, all items are
objects. -/
theorem readAlike_iff (reply : Json) :
    (∀ message, resultText reply = .error message → Daemon.decode reply = .error message) ∧
    (ReadAlike reply ↔
      (∀ fields, (firstResultSet reply).field? "error" ≠ some (.object fields)) ∧
      ∀ result, Daemon.decode reply = .ok result →
        ∀ item ∈ itemsOf (firstResultSet reply), item.isObject = true) := by
  refine ⟨fun message hmessage => ?_, ?_⟩
  · rw [resultText_eq_error] at hmessage
    have hother : ∀ fields, (firstResultSet reply).field? "error" ≠ some (.object fields) := by
      intro fields hobject
      rw [(errors_of_object hobject).1] at hmessage
      cases hmessage
    rw [decode_eq_error, errorOf?_eq_textError? hother, hmessage]
  · constructor
    · intro h
      exact ⟨h.error_ne_object, fun result => h.isObject⟩
    · rintro ⟨hother, hobjects⟩
      have hsame := errorOf?_eq_textError? hother
      refine ⟨fun message => ?_, fun text result htext hdecode => ?_⟩
      · rw [resultText_eq_error, decode_eq_error, hsame]
      · obtain ⟨hnone, hrows⟩ := rows_of_decode hdecode
        rw [resultText_eq_ok (hsame ▸ hnone)] at htext
        rw [hrows, map_object_rowsOf (hobjects result hdecode)]
        exact (Except.ok.inj htext).symm

/-- A reply with an error that has a reason. -/
def reasonedReply : Json :=
  .object [("error", .object [("type", .string "parse_exception"), ("reason", .string "bad query")])]

/-- A reply with a number among its rows. -/
def looseReply : Json :=
  .array [.object [("data", .array [.object [("id", .ofInt 1)], .ofInt 2]), ("total", .ofInt 1)]]

/-- A failed statement is written as one that has no rows, and a number is counted as a row. -/
theorem reasonedReply_reads_apart :
    Daemon.decode reasonedReply = .error "bad query" ∧ resultText reasonedReply = .ok "0 rows" ∧
      ¬ ReadAlike reasonedReply ∧
    (∃ result, Daemon.decode looseReply = .ok result ∧ result.rows.length = 1) ∧
      resultText looseReply = .ok "2 rows" ∧ ¬ ReadAlike looseReply := by
  have hdecode : Daemon.decode looseReply = .ok ⟨[[("id", .ofInt 1)]], 1⟩ := rfl
  have hitems : itemsOf (firstResultSet looseReply) =
      [.object [("id", .ofInt 1)], .ofInt 2] := rfl
  refine ⟨rfl, rfl, fun h => h.error_ne_object _ rfl, ⟨_, hdecode, rfl⟩, rfl, fun h => ?_⟩
  have hobject := h.isObject hdecode (.ofInt 2) (by rw [hitems]; simp)
  exact absurd hobject (by decide)

end Rollup.Command
