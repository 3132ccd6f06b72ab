/-
Decimal numerals.

`natText` writes a natural number in decimal and `digitsValue` reads a run of
digits; `digitsValue_natText` says that reading undoes writing.  `readIndex` is
the reading of list positions, which admits a plus sign and leading zeros but no
number of more than 64 bits (`readIndex_natText`).  `radixValue` reads digits in another base.
-/
import ConfigTemplate.Text.Basic

namespace ConfigTemplate

namespace Decimal

/-- A natural number in decimal, without leading zeros. -/
def natText (n : Nat) : Text :=
  Nat.toDigits 10 n

/-- The digits of an integer after its minus sign, if it has one. -/
def intText : Int → Text
  | .ofNat n => natText n
  | .negSucc n => '-' :: natText (n + 1)

/-- The number that a run of decimal digits spells; none at all spell zero. -/
def digitsValue (ds : Text) : Nat :=
  Nat.ofDigitChars 10 ds 0

@[simp] theorem digitsValue_natText (n : Nat) : digitsValue (natText n) = n :=
  Nat.ofDigitChars_toDigits (by decide) (by decide)

theorem isDigit_of_mem_natText {n : Nat} {c : Char} (h : c ∈ natText n) : c.isDigit = true :=
  Nat.isDigit_of_mem_toDigits (by decide) (by decide) h

/-- The list position that a text names: digits, after a plus sign or not, of a
number below `2 ^ 64`. -/
def readIndex (s : Text) : Option Nat :=
  let ds := match s with
    | '+' :: ds => ds
    | ds => ds
  if ds ≠ [] ∧ ds.all Char.isDigit ∧ digitsValue ds < Nat.pow 2 64 then some (digitsValue ds)
  else none

theorem natText_ne_nil (n : Nat) : natText n ≠ [] :=
  Nat.toDigits_ne_nil

theorem natText_injective {m n : Nat} (h : natText m = natText n) : m = n := by
  rw [← digitsValue_natText m, h, digitsValue_natText]

/-- A position of at most 64 bits is read as it is written. -/
theorem readIndex_natText {n : Nat} (h : n < Nat.pow 2 64) : readIndex (natText n) = some n := by
  have hdigits : (natText n).all Char.isDigit = true :=
    List.all_eq_true.mpr fun c hc => isDigit_of_mem_natText hc
  have hvalue : digitsValue (natText n) < Nat.pow 2 64 := by rwa [digitsValue_natText]
  -- The first character is a digit, so that there is no plus sign to pass over.
  have hplus : ∀ ds, natText n ≠ '+' :: ds := by
    intro ds hds
    have hdigit : '+'.isDigit = true := isDigit_of_mem_natText (n := n) (hds ▸ List.mem_cons_self)
    exact absurd hdigit (by decide)
  simp only [readIndex]
  rw [if_pos ⟨natText_ne_nil n, hdigits, hvalue⟩, digitsValue_natText]

/-- The value of a character as a digit in a base up to 36, in either case. -/
def digitValue (base : Nat) (c : Char) : Option Nat :=
  let n := if c.isDigit then c.toNat - '0'.toNat
    else if c.isLower then c.toNat - 'a'.toNat + 10
    else if c.isUpper then c.toNat - 'A'.toNat + 10
    else base
  if n < base then some n else none

/-- The number that a run of digits in a base spells, if all of them are such. -/
def radixValue (base : Nat) (ds : Text) : Option Nat :=
  ds.foldlM (fun n c => (digitValue base c).map (base * n + ·)) 0

end Decimal

end ConfigTemplate
