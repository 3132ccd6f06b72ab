/-
How the digits of a floating-point number are laid out.

A `Layout` says between which decimal exponents a number is written with a plain
decimal point, and whether a positive exponent carries a sign.  `Layout.json` is
the layout of numbers in documents and rendered text.
-/
import ConfigTemplate.Decimal.Shortest

namespace ConfigTemplate

namespace Decimal

/-- The choices in writing a floating-point number. -/
structure Layout where
  least : Int
  greatest : Int
  plus : Text

/-- Numbers from `10 ^ -5` up to `10 ^ 16` are positional, with at least one
decimal; the others have an exponent, always signed. -/
def Layout.json : Layout := ⟨-5, 15, ['+']⟩

/-- A run of zeros, which moves the point. -/
def zeros (n : Nat) : Text :=
  List.replicate n '0'

/-- Digits with a point after the first `n`, and a zero where one side would be
empty. -/
def pointed (ds : Text) (n : Nat) : Text :=
  ds.take n ++ '.' :: (if ds.length ≤ n then ['0'] else ds.drop n)

/-- Write `d.digits * 10 ^ d.exponent`. -/
def Layout.write (layout : Layout) (d : Scaled) : Text :=
  let ds := natText d.digits
  let first : Int := d.exponent + ds.length - 1
  if layout.least ≤ first ∧ first ≤ layout.greatest then
    if first < 0 then '0' :: '.' :: zeros (-first - 1).toNat ++ ds
    else pointed (ds ++ zeros d.exponent.toNat) (first.toNat + 1)
  else
    let fraction := match ds.drop 1 with
      | [] => []
      | rest => '.' :: rest
    let sign := if first < 0 then ['-'] else layout.plus
    ds.take 1 ++ fraction ++ 'e' :: sign ++ natText first.natAbs

/-- Write a binary64 number by its shortest digits. -/
def Layout.writeBinary64 (layout : Layout) (x : Binary64) : Text :=
  (if x.negative then ['-'] else []) ++
    if x.isZero then ['0', '.', '0'] else layout.write x.shortest

end Decimal

end ConfigTemplate
