/-
The shortest decimal for a binary64 number.

Every real between the midpoints to the two neighbours of a number reads back
as that number, the midpoints too when its mantissa is even.  `shortest` finds
the greatest power of ten with a multiple in this interval, and of two such
multiples the one nearer to the number, an even one when both are as near.

Design notes: bounds and candidates are compared in exact arithmetic, in quarter
units of the last binary place.  The interval of a normal number is wider than
`10 ^ -17` times the number, so the search that starts one place above the first
digit ends within twenty places.
-/
import ConfigTemplate.Decimal.Binary64

namespace ConfigTemplate

namespace Decimal

/-- The decimal `digits * 10 ^ exponent`. -/
structure Scaled where
  digits : Nat
  exponent : Int
  deriving DecidableEq, Repr

end Decimal

namespace Binary64

/-- The least and the greatest quarter of the last place that a number owns. -/
def quarters (x : Binary64) : Nat × Nat :=
  let below := if x.mantissa = Nat.pow 2 52 ∧ -1074 < x.scale then 1 else 2
  (4 * x.mantissa - below, 4 * x.mantissa + 2)

/-- A quarter of the last place in units of `10 ^ p`, as a quotient. -/
def quarterInTens (x : Binary64) (p : Int) : Nat × Nat :=
  let e := x.scale - 2
  (Nat.pow 2 e.toNat * Nat.pow 10 (-p).toNat, Nat.pow 2 (-e).toNat * Nat.pow 10 p.toNat)

/-- Whether `d * 10 ^ p` is positive and reads back as the number. -/
def owns (x : Binary64) (p : Int) (d : Nat) : Bool :=
  let (num, den) := x.quarterInTens p
  let (lo, hi) := x.quarters
  let closed := x.mantissa % 2 = 0
  0 < d && (lo * num < d * den || closed && lo * num == d * den) &&
    (d * den < hi * num || closed && d * den == hi * num)

/-- The multiple of `10 ^ p` nearest to the number, if one reads back as it. -/
def nearestOwned (x : Binary64) (p : Int) : Option Nat :=
  let (num, den) := x.quarterInTens p
  let value := 4 * x.mantissa * num
  let d := value / den
  match x.owns p d, x.owns p (d + 1) with
  | true, true => some (roundHalfEven value den)
  | true, false => some d
  | false, true => some (d + 1)
  | false, false => none

/-- The decimal of fewest digits that reads back as the magnitude of a number,
and of those the nearest. -/
def shortest (x : Binary64) : Decimal.Scaled :=
  let top := (x.mantissa.log2 + x.scale + 2) * 30103 / 100000 + 1
  let powers := (List.range 24).map fun (i : Nat) => top - i
  (powers.findSome? fun p => (x.nearestOwned p).map (⟨·, p⟩)).getD ⟨0, 0⟩

end Binary64

end ConfigTemplate
