/-
# Reckoning a date expression

The adjustments of an expression are read and made one after the other. Every number on the way has
a width. Where a step checks that a number fits, one that does not leaves no result; where a step
takes it for granted, the whole reckoning overruns and there is no answer at all.
-/

import Rollup.Calendar.Expression

namespace Rollup.Calendar

/-! ## Results -/

/-- What a reckoning comes to. -/
inductive Reckoned (α : Type) where
  | value (a : α)
  | nothing
  | overrun
  deriving DecidableEq, Repr

namespace Reckoned

variable {α β : Type}

/-- Go on with a value. -/
def bind : Reckoned α → (α → Reckoned β) → Reckoned β
  | value a, next => next a
  | nothing, _ => nothing
  | overrun, _ => overrun

instance : Monad Reckoned where
  pure := value
  bind := bind

def ofOption : Option α → Reckoned α
  | some a => value a
  | none => nothing

/-- The value alone. -/
def toOption : Reckoned α → Option α
  | value a => some a
  | _ => none

end Reckoned

/-! ## Widths -/

/-- The integers from the first to the last that fit. -/
structure Width where
  first : Int
  last : Int

namespace Width

def int64 : Width := ⟨Binary64.int64Min, Binary64.int64Max⟩

def nat32 : Width := ⟨0, 0xffffffff⟩

/-- The seconds of a length of time, whose milliseconds have to fit into 64 bits. -/
def seconds : Width := ⟨-(Binary64.int64Max / 1000), Binary64.int64Max / 1000⟩

/-- The days that have a date. -/
def days : Width := ⟨Date.firstDayNumber, Date.lastDayNumber⟩

/-- Whether a number fits. -/
def Holds (w : Width) (n : Int) : Prop := w.first ≤ n ∧ n ≤ w.last

instance (w : Width) (n : Int) : Decidable (w.Holds n) := inferInstanceAs (Decidable (_ ∧ _))

/-- A number that is checked. -/
def checked (w : Width) (n : Int) : Reckoned Int := if w.Holds n then .value n else .nothing

/-- A number that is taken to fit. -/
def unchecked (w : Width) (n : Int) : Reckoned Int := if w.Holds n then .value n else .overrun

end Width

/-! ## Steps -/

namespace Instant

/-- Move an instant by an amount of some unit. All numbers are checked. -/
def move (t : Instant) (amount : Int) (unit : TimeUnit) : Reckoned Instant :=
  match unit.length with
  | .seconds n => do
      let seconds ← Width.seconds.checked (amount * n)
      .ofOption (t.addSeconds? seconds)
  | .months n => do
      let months ← Width.int64.checked (amount * n)
      let _ ← Width.nat32.checked months.natAbs
      .ofOption (t.addMonths? months)

/-- Round an instant down to the start of a unit. The Monday of a week is taken to have a date, and
the start of an hour or a minute to fit into 64 bits. -/
def roundDown (t : Instant) (unit : TimeUnit) : Reckoned Instant :=
  match unit with
  | .week => do
      let monday ← Width.days.unchecked (t.dayNumber - Date.daysSinceMonday t.dayNumber)
      return ⟨monday * secondsPerDay, 0⟩
  | .hour => do
      let start ← Width.int64.unchecked (t.second - t.second % 3600)
      .ofOption (of? start 0)
  | .minute => do
      let start ← Width.int64.unchecked (t.second - t.second % 60)
      .ofOption (of? start 0)
  | other => .ofOption (t.floor? other)

end Instant

/-- The amount written by a sign and digits. Its opposite is taken to fit. -/
def readAmount (negative : Bool) (digits : List Char) : Reckoned Int := do
  let amount ← Width.int64.checked (amountOf digits)
  if negative then Width.int64.unchecked (-amount) else return amount

/-- Make the first adjustment of a text; the rest of the text stays. -/
def Instant.adjust (t : Instant) (text : List Char) : Reckoned (Instant × List Char) :=
  match text with
  | '/' :: letter :: rest => do
      let unit ← .ofOption (TimeUnit.ofLetter? letter)
      let start ← t.roundDown unit
      return (start, rest)
  | sign :: rest =>
      if sign = '+' ∨ sign = '-' then do
        let (digits, rest) := Text.spanDigits rest
        let amount ← readAmount (sign = '-') digits
        match rest with
        | letter :: rest => do
            let unit ← .ofOption (TimeUnit.ofLetter? letter)
            let moved ← t.move amount unit
            return (moved, rest)
        | [] => .nothing
      else .nothing
  | [] => .nothing

/-- Make all adjustments of a text. Each has a character at least, so the length is fuel enough. -/
def Instant.adjustAll : Nat → Instant → List Char → Reckoned Instant
  | _, t, [] => .value t
  | 0, _, _ :: _ => .nothing
  | fuel + 1, t, text => do
      let (t, rest) ← t.adjust text
      adjustAll fuel t rest

/-! ## Expressions -/

/-- The instant from which an expression starts, `now` being the present, and its adjustments. -/
def anchor? (now : Instant) (text : List Char) : Option (Instant × List Char) :=
  match text with
  | 'n' :: 'o' :: 'w' :: rest => some (now, rest)
  | _ =>
      match splitAtBars text with
      | some (anchor, rest) => (readDate? anchor).map fun start => (start, rest)
      | none => (readDate? text).map fun start => (start, [])

/-- Reckon a date expression. -/
def reckon (now : Instant) (text : List Char) : Reckoned Instant := do
  let (start, rest) ← .ofOption (anchor? now text)
  start.adjustAll rest.length rest

end Rollup.Calendar
