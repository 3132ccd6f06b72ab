/-
Finite binary64 numbers.

A number is a sign and the rank of its magnitude: rank 0 is zero, rank 1 the
least positive number, and so on in increasing order up to the greatest finite
one.  The rank is the bit pattern without its sign, so equal numbers have equal
ranks, and the neighbour of a number is one rank away.

* `ofRatio`: the nearest number to a quotient of naturals, a tie going to the
  even rank, or `none` when that is beyond the finite numbers;
* `ofDecimal`: the same for `digits * 10 ^ exponent`;
* `mul?`, `div?`: the nearest numbers to a product and to a quotient of numbers;
* `timesPowerOfTen?`, `overPowerOfTen?`: products and quotients with the numbers
  nearest to powers of ten.

Design notes: rounding is one exact division.  The grid on which the quotient
falls is `2 ^ scale`, and `(scale + 1074) * 2 ^ 52 + m` is the rank of
`m * 2 ^ scale`, also when rounding carries `m` up to `2 ^ 53`.
-/
import ConfigTemplate.Decimal.Numeral

namespace ConfigTemplate

/-- A finite binary64 number.  The bound leaves out the ranks of infinity and of what is
no number. -/
structure Binary64 where
  negative : Bool
  rank : Nat
  rank_lt : rank < 2047 * Nat.pow 2 52
  deriving DecidableEq, Repr

namespace Binary64

/-- The integer `m` of the magnitude `m * 2 ^ scale`. -/
def mantissa (x : Binary64) : Nat :=
  if x.rank < Nat.pow 2 52 then x.rank else Nat.pow 2 52 + x.rank % Nat.pow 2 52

/-- The binary exponent of the magnitude `mantissa * 2 ^ scale`. -/
def scale (x : Binary64) : Int :=
  if x.rank < Nat.pow 2 52 then -1074 else (x.rank / Nat.pow 2 52 : Nat) - 1075

/-- Zero, with a sign. -/
def zero (negative : Bool) : Binary64 :=
  ⟨negative, 0, by decide⟩

/-- Whether a number is zero, of either sign. -/
def isZero (x : Binary64) : Bool :=
  x.rank == 0

@[simp] theorem isZero_zero (negative : Bool) : (zero negative).isZero = true := rfl

/-- The nearest integer to `num / den`, a half going to the even one. -/
def roundHalfEven (num den : Nat) : Nat :=
  let q := num / den
  let r := num % den
  if 2 * r < den then q else if den < 2 * r then q + 1 else q + q % 2

/-- `num / den` in units of `2 ^ e`, as a quotient again. -/
def inUnits (num den : Nat) : Int → Nat × Nat
  | .ofNat k => (num, den * Nat.pow 2 k)
  | .negSucc k => (num * Nat.pow 2 (k + 1), den)

/-- The greatest `e` with `2 ^ e ≤ num / den`. -/
def binaryExponent (num den : Nat) : Int :=
  let e : Int := num.log2 - den.log2
  let (n, d) := inUnits num den e
  if d ≤ n then e else e - 1

/-- The number nearest to `num / den`, a tie going to the even rank. -/
def ofRatio (negative : Bool) (num den : Nat) : Option Binary64 :=
  if num = 0 then some (zero negative)
  else
    let scale := max (-1074) (binaryExponent num den - 52)
    let (n, d) := inUnits num den scale
    let rank := (scale + 1074).toNat * Nat.pow 2 52 + roundHalfEven n d
    if h : rank < 2047 * Nat.pow 2 52 then some ⟨negative, rank, h⟩ else none

/-- The number nearest to an integer. -/
def ofInt (n : Int) : Option Binary64 :=
  ofRatio (n < 0) n.natAbs 1

/-- The number nearest to `digits * 10 ^ exponent`.  Every number of more than
400 places is beyond the finite ones, and one with 400 zeros after the point is
nearest to zero, so no power beyond these is ever taken. -/
def ofDecimal (negative : Bool) (digits : Nat) (exponent : Int) : Option Binary64 :=
  let places : Int := (Decimal.natText digits).length + exponent
  if digits = 0 ∨ places < -400 then some (zero negative)
  else if 400 < places then none
  else match exponent with
    | .ofNat k => ofRatio negative (digits * Nat.pow 10 k) 1
    | .negSucc k => ofRatio negative digits (Nat.pow 10 (k + 1))

/-! ### Products and quotients -/

/-- The number nearest to `num / den * 2 ^ e`. -/
def ofScaled (negative : Bool) (num den : Nat) (e : Int) : Option Binary64 :=
  let (n, d) := inUnits num den (-e)
  ofRatio negative n d

/-- The number nearest to a product, or `none` beyond the finite numbers. -/
def mul? (x y : Binary64) : Option Binary64 :=
  ofScaled (x.negative ^^ y.negative) (x.mantissa * y.mantissa) 1 (x.scale + y.scale)

/-- The number nearest to a quotient, unless the divisor is zero. -/
def div? (x y : Binary64) : Option Binary64 :=
  if y.isZero then none
  else ofScaled (x.negative ^^ y.negative) x.mantissa y.mantissa (x.scale - y.scale)

/-- The exponent of the greatest power of ten that is near a finite number. -/
def maxPower : Nat := 308

/-- The number nearest to `10 ^ k`. -/
def powerOfTen? (k : Nat) : Option Binary64 :=
  ofDecimal false 1 k

/-- A number times `10 ^ k`, rounded.  Only zero has a product beyond `maxPower`. -/
def timesPowerOfTen? (x : Binary64) (k : Nat) : Option Binary64 :=
  if k ≤ maxPower then (powerOfTen? k).bind x.mul? else if x.isZero then some x else none

/-- A number over `10 ^ k`, rounded.  Beyond `maxPower` the quotient is taken in
several steps, and rounded at each. -/
def overPowerOfTen? (x : Binary64) (k : Nat) : Option Binary64 :=
  if k ≤ maxPower then (powerOfTen? k).bind x.div?
  else if x.isZero then some x
  else do
    let y ← (powerOfTen? maxPower).bind x.div?
    y.overPowerOfTen? (k - maxPower)
termination_by k
decreasing_by simp only [maxPower] at *; omega

end Binary64

end ConfigTemplate
