/-
# Binary floating point numbers of 64 bits

A finite number is kept as the rational it denotes, so that addition, subtraction,
multiplication and division are "compute exactly, then round once". Rounding goes to the
nearest number with 53 significant bits and exponent at least -1074, ties to the even
neighbour. Zero has a sign, and so has the value that is no number.
-/

namespace Rollup

/-- A number in the format binary64. -/
inductive Binary64 where
  | finite (value : Rat)
  | negativeZero
  | infinite (negative : Bool)
  | nan (negative : Bool)
  deriving DecidableEq, Inhabited

namespace Binary64

/-! ## Rounding -/

/-- The nearest integer, a half going to the even neighbour. -/
def roundHalfEven (q : Rat) : Int :=
  let below := q.floor
  let excess := q - below
  if excess < 1 / 2 then below
  else if 1 / 2 < excess then below + 1
  else if below % 2 = 0 then below
  else below + 1

/-- The nearest integer, a half going away from zero. -/
def roundHalfAway (q : Rat) : Int :=
  if 0 ≤ q then (q + 1 / 2).floor else -(-q + 1 / 2).floor

/-- The integer part, toward zero. -/
def truncate (q : Rat) : Int :=
  if 0 ≤ q then q.floor else -(-q).floor

/-- For a positive rational the greatest `k` with `2 ^ k ≤ q`. -/
def binaryExponent (q : Rat) : Int :=
  let estimate : Int := (q.num.natAbs.log2 : Int) - (q.den.log2 : Int)
  if (2 : Rat) ^ estimate ≤ q then estimate else estimate - 1

/-- The exponent of the last binary place that a number of this size has. -/
def lastPlace (q : Rat) : Int :=
  max (binaryExponent q - 52) (-1074)

/-- Zero with a sign. -/
def zero (negative : Bool) : Binary64 :=
  if negative then negativeZero else finite 0

/-- The number nearest to a rational. A negative rational that rounds to zero keeps its sign. -/
def round (q : Rat) : Binary64 :=
  if q = 0 then finite 0
  else
    let place := lastPlace q.abs
    let units := roundHalfEven (q / 2 ^ place)
    let value : Rat := units * 2 ^ place
    if units = 0 then zero (q < 0)
    else if value.abs < 2 ^ (1024 : Int) then finite value
    else infinite (q < 0)

/-- The number nearest to an integer. -/
def ofInt (n : Int) : Binary64 :=
  round n

instance : Coe Int Binary64 := ⟨ofInt⟩

instance (n : Nat) : OfNat Binary64 n := ⟨ofInt n⟩

/-! ## Classes -/

/-- Whether the sign is a minus, also on zero. -/
def isNegative : Binary64 → Bool
  | finite q => q < 0
  | negativeZero => true
  | infinite negative => negative
  | nan negative => negative

def isNaN : Binary64 → Bool
  | nan _ => true
  | _ => false

/-- The rational that a finite number denotes. -/
def toRat? : Binary64 → Option Rat
  | finite q => some q
  | negativeZero => some 0
  | infinite _ => none
  | nan _ => none

/-- Whether the number is a finite integer. -/
def isIntegral (x : Binary64) : Bool :=
  match x.toRat? with
  | some q => q.den == 1
  | none => false

/-! ## Arithmetic -/

/-- A result of no defined value. -/
def undefined : Binary64 := nan false

def neg : Binary64 → Binary64
  | finite q => if q = 0 then negativeZero else finite (-q)
  | negativeZero => finite 0
  | infinite negative => infinite (!negative)
  | nan negative => nan (!negative)

/-- The exact sum, rounded once. The sum is the negative zero only when both terms are. -/
def add : Binary64 → Binary64 → Binary64
  | nan negative, _ => nan negative
  | _, nan negative => nan negative
  | infinite a, infinite b => if a = b then infinite a else undefined
  | infinite a, _ => infinite a
  | _, infinite b => infinite b
  | negativeZero, negativeZero => negativeZero
  | negativeZero, finite q => finite q
  | finite p, negativeZero => finite p
  | finite p, finite q => round (p + q)

def sub (x y : Binary64) : Binary64 := add x (neg y)

/-- The exact product, rounded once. -/
def mul (x y : Binary64) : Binary64 :=
  let negative := x.isNegative != y.isNegative
  match x, y with
  | nan sign, _ => nan sign
  | _, nan sign => nan sign
  | infinite _, infinite _ => infinite negative
  | infinite _, finite q => if q = 0 then undefined else infinite negative
  | finite p, infinite _ => if p = 0 then undefined else infinite negative
  | infinite _, negativeZero => undefined
  | negativeZero, infinite _ => undefined
  | negativeZero, _ => zero negative
  | _, negativeZero => zero negative
  | finite p, finite q => if p * q = 0 then zero negative else round (p * q)

/-- The exact quotient, rounded once. A nonzero number over zero is infinite. -/
def div (x y : Binary64) : Binary64 :=
  let negative := x.isNegative != y.isNegative
  match x, y with
  | nan sign, _ => nan sign
  | _, nan sign => nan sign
  | infinite _, infinite _ => undefined
  | infinite _, _ => infinite negative
  | _, infinite _ => zero negative
  | negativeZero, negativeZero => undefined
  | negativeZero, finite q => if q = 0 then undefined else zero negative
  | finite p, negativeZero => if p = 0 then undefined else infinite negative
  | finite p, finite q =>
      if q = 0 then (if p = 0 then undefined else infinite negative)
      else if p = 0 then zero negative
      else round (p / q)

instance : Neg Binary64 := ⟨neg⟩
instance : Add Binary64 := ⟨add⟩
instance : Sub Binary64 := ⟨sub⟩
instance : Mul Binary64 := ⟨mul⟩
instance : Div Binary64 := ⟨div⟩

/-! ## Order -/

/-- Compare two rationals. -/
def compareRat (p q : Rat) : Ordering :=
  if p < q then .lt else if p = q then .eq else .gt

/-- The order of the real line with both infinities. Zero equals zero whatever the signs, and
nothing compares with the value that is no number. -/
def compare? : Binary64 → Binary64 → Option Ordering
  | nan _, _ => none
  | _, nan _ => none
  | infinite a, infinite b => some (if a = b then .eq else if a then .lt else .gt)
  | infinite a, _ => some (if a then .lt else .gt)
  | _, infinite b => some (if b then .gt else .lt)
  | negativeZero, negativeZero => some .eq
  | negativeZero, finite q => some (compareRat 0 q)
  | finite p, negativeZero => some (compareRat p 0)
  | finite p, finite q => some (compareRat p q)

/-- Strictly less; false when the two do not compare. -/
def less (x y : Binary64) : Bool := compare? x y == some .lt

/-- At most; false when the two do not compare. -/
def atMost (x y : Binary64) : Bool :=
  match compare? x y with
  | some .lt => true
  | some .eq => true
  | _ => false

/-- Equal as numbers. The value that is no number does not equal itself. -/
def same (x y : Binary64) : Bool := compare? x y == some .eq

/-- A total order on all values: by sign first, the negative zero below zero, and the value that
is no number outside the infinity of its sign. -/
def totalCompare (x y : Binary64) : Ordering :=
  match x, y with
  | nan a, nan b => if a = b then .eq else if a then .lt else .gt
  | nan a, _ => if a then .lt else .gt
  | _, nan b => if b then .gt else .lt
  | negativeZero, finite q => if q = 0 then .lt else compareRat 0 q
  | finite p, negativeZero => if p = 0 then .gt else compareRat p 0
  | _, _ => (compare? x y).getD .eq

/-- The lesser of two numbers; one that is no number gives way to the other. -/
def min (x y : Binary64) : Binary64 :=
  if x.isNaN then y else if less y x then y else x

/-- The greater of two numbers; one that is no number gives way to the other. -/
def max (x y : Binary64) : Binary64 :=
  if x.isNaN then y else if less x y then y else x

/-! ## Integers -/

/-- The least and the greatest integer of 64 bits in two's complement. -/
def int64Min : Int := -0x8000000000000000

def int64Max : Int := 0x7fffffffffffffff

/-- An integer brought into the range of 64 bits. -/
def clampInt64 (n : Int) : Int :=
  if n < int64Min then int64Min else if int64Max < n then int64Max else n

/-- Turn a number into an integer of 64 bits by a rounding rule. Numbers beyond the range go to
its ends, and the value that is no number goes to zero. -/
def toInt64 (rule : Rat → Int) : Binary64 → Int
  | finite q => clampInt64 (rule q)
  | negativeZero => 0
  | infinite negative => if negative then int64Min else int64Max
  | nan _ => 0

/-- The integer part as an unsigned integer of 64 bits, kept in its range. -/
def toNat64 : Binary64 → Nat
  | finite q => Nat.min (truncate q).toNat 0xffffffffffffffff
  | negativeZero => 0
  | infinite negative => if negative then 0 else 0xffffffffffffffff
  | nan _ => 0

theorem compare?_nan_left (s : Bool) (x : Binary64) : compare? (nan s) x = none := by
  cases x <;> rfl

theorem neg_neg_of_finite {q : Rat} (h : q ≠ 0) : neg (neg (finite q)) = finite q := by
  have h' : -q ≠ 0 := fun e => h (by simpa using congrArg Neg.neg e)
  simp [neg, h, h']

end Binary64
end Rollup
