/-
Numbers of a document.

A number is an integer of at most 64 bits (unsigned, or negative and signed) or
a finite binary64.  A numeral whose parts are already told apart is read in one of two
ways: `Number.ofDecimal?` is the nearest number, while `Number.ofSignificand?` and
`Number.ofDigits?` count no more than 64 bits of its digits.  `Number.text` writes a
number.
-/
import ConfigTemplate.Decimal.Layout
import ConfigTemplate.Decimal.Significand

namespace ConfigTemplate

/-- A number of a document.  Integers are those of 64 bits, with or without a sign. -/
inductive Number where
  | int (n : Int) (bounds : -0x8000000000000000 ≤ n ∧ n < 0x10000000000000000)
  | float (x : Binary64)
  deriving DecidableEq, Repr

namespace Number

/-- The integer as a number, if it has at most 64 bits. -/
def ofInt? (n : Int) : Option Number :=
  if h : -0x8000000000000000 ≤ n ∧ n < 0x10000000000000000 then some (.int n h) else none

/-- The number nearest to a numeral with a fraction or an exponent, or `none` when it
is out of range. -/
def ofDecimal? (negative : Bool) (whole fraction : Text) (exponent : Int) : Option Number :=
  (Binary64.ofDecimal negative (Decimal.digitsValue (whole ++ fraction))
    (exponent - fraction.length)).map .float

/-- The floating-point number that a significand stands for, or `none` when it is out
of range. -/
def ofSignificand? (negative : Bool) (x : Decimal.Significand) : Option Number :=
  (x.toBinary64? negative).map .float

/-- The number that a run of digits spells.  A negative zero and a number of more
than 64 bits become floating point. -/
def ofDigits? (negative : Bool) (whole : Text) : Option Number :=
  let n := Decimal.digitsValue whole
  let float := ofSignificand? negative (.ofParts whole [])
  if negative && n == 0 then float else (ofInt? (if negative then -n else n)).or float

/-- A number as it is written in documents and rendered text. -/
def text : Number → Text
  | int n _ => Decimal.intText n
  | float x => Decimal.Layout.json.writeBinary64 x

/-- The binary64 number nearest to a number. -/
def toBinary64 : Number → Option Binary64
  | int n _ => Binary64.ofInt n
  | float x => some x

/-- Whether a number counts as zero, which is decided in floating point. -/
def isZero (n : Number) : Bool :=
  match n.toBinary64 with
  | some x => x.isZero
  | none => true

end Number

end ConfigTemplate
