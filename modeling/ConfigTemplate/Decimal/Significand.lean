/-
Decimal numbers with a significand of 64 bits.

A `Significand` is `digits * 10 ^ exponent` where `digits` has at most 64 bits.

* `Significand.ofParts`: the leading digits of a numeral, as many as fit;
* `Significand.toBinary64?`: the number that these stand for, which is rounded once
  for the digits and once for each power of ten.

Because of the second rounding the number may lie next to the nearest one, and the
greatest finite numbers may turn out to be out of range.

Design notes: where the digits before the point do not fit, those after it are still
tried, and the first of them may fit where an earlier digit did not.
-/
import ConfigTemplate.Decimal.Binary64

namespace ConfigTemplate

namespace Decimal

/-- The decimal `digits * 10 ^ exponent`, with no more digits than 64 bits hold. -/
structure Significand where
  digits : Nat
  exponent : Int
  digits_lt : digits < Nat.pow 2 64

namespace Significand

/-- Append digits to a number up to the first one that takes it beyond 64 bits, which
is left with the digits after it. -/
def fill (n : Nat) : Text → Nat × Text
  | [] => (n, [])
  | c :: ds =>
    let m := 10 * n + (c.toNat - '0'.toNat)
    if m < Nat.pow 2 64 then fill m ds else (n, c :: ds)

theorem fill_lt {n : Nat} (h : n < Nat.pow 2 64) (ds : Text) : (fill n ds).1 < Nat.pow 2 64 := by
  induction ds generalizing n with
  | nil => exact h
  | cons c ds ih =>
    simp only [fill]
    split
    · rename_i hm
      exact ih hm
    · exact h

/-- The significand of a numeral with digits before and after the point.  A digit that
is left out counts for the exponent if it stands before the point. -/
def ofParts (whole fraction : Text) : Significand :=
  let head := fill 0 whole
  let all := fill head.1 fraction
  { digits := all.1
    exponent := head.2.length + all.2.length - fraction.length
    digits_lt := fill_lt (fill_lt (by decide) whole) fraction }

/-- The number times `10 ^ exponent`. -/
def shift (x : Significand) (exponent : Int) : Significand :=
  { x with exponent := x.exponent + exponent }

/-- Whether all digits are zero, whatever the exponent. -/
def isZero (x : Significand) : Bool :=
  x.digits == 0

/-- The finite number that a significand stands for, if there is one. -/
def toBinary64? (negative : Bool) (x : Significand) : Option Binary64 := do
  let y ← Binary64.ofRatio negative x.digits 1
  match x.exponent with
  | .ofNat k => y.timesPowerOfTen? k
  | .negSucc k => y.overPowerOfTen? (k + 1)

end Significand

end Decimal

end ConfigTemplate
