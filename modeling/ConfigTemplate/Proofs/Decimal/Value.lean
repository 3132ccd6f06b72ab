/-
Values of numbers.

A number stands for a rational number, and it is tested for zero in floating point.

* `ofRatio_of_lt`: a positive integer of at most 64 bits has a nearest binary64 number, which
  is not zero;
* `isZero_iff`: so testing for zero is exact, for integers as for floating-point numbers.
-/
import Mathlib.Algebra.Order.Ring.Rat
import Mathlib.Tactic.NormNum
import ConfigTemplate.Number

namespace ConfigTemplate

namespace Binary64

/-- The rational number that a binary64 number is. -/
def value (x : Binary64) : ℚ :=
  (if x.negative then -1 else 1) * x.mantissa * (2 : ℚ) ^ x.scale

/-- Only rank 0 has no magnitude. -/
theorem mantissa_eq_zero_iff (x : Binary64) : x.mantissa = 0 ↔ x.rank = 0 := by
  unfold mantissa
  split
  · rfl
  · next h =>
    have hpow : 0 < Nat.pow 2 52 := by decide
    omega

theorem value_eq_zero_iff (x : Binary64) : x.value = 0 ↔ x.rank = 0 := by
  have hsign : (if x.negative then -1 else 1 : ℚ) ≠ 0 := by
    split
    · norm_num
    · norm_num
  have hscale : (2 : ℚ) ^ x.scale ≠ 0 := zpow_ne_zero _ (by norm_num)
  rw [value, mul_eq_zero, mul_eq_zero, Nat.cast_eq_zero, mantissa_eq_zero_iff]
  constructor
  · rintro ((h | h) | h)
    · exact absurd h hsign
    · exact h
    · exact absurd h hscale
  · intro h
    exact .inl (.inr h)

/-! ### Integers in floating point -/

theorem roundHalfEven_le (num den : Nat) : roundHalfEven num den ≤ num / den + 1 := by
  simp only [roundHalfEven]
  split
  · omega
  · split
    · omega
    · omega

theorem inUnits_ofNat (num den k : Nat) : inUnits num den (k : Int) = (num, den * 2 ^ k) := rfl

theorem inUnits_negSucc (num den k : Nat) :
    inUnits num den (Int.negSucc k) = (num * 2 ^ (k + 1), den) := rfl

theorem binaryExponent_one {m : Nat} (h : m ≠ 0) : binaryExponent m 1 = m.log2 := by
  have hlog : (m.log2 : Int) - (Nat.log2 1 : Nat) = m.log2 := Int.sub_zero _
  have hle : 1 * 2 ^ m.log2 ≤ m := by
    rw [Nat.one_mul]
    exact Nat.log2_self_le h
  simp only [binaryExponent, hlog, inUnits_ofNat]
  exact if_pos hle

/-- On the grid with 53 bits, an integer has no more than these. -/
theorem inUnits_lt (m : Nat) :
    (inUnits m 1 ((m.log2 : Int) - 52)).1 / (inUnits m 1 ((m.log2 : Int) - 52)).2 < 2 ^ 53 := by
  have hself : m < 2 ^ (m.log2 + 1) := Nat.lt_log2_self
  by_cases h : 52 ≤ m.log2
  · obtain ⟨k, hk⟩ := Nat.exists_eq_add_of_le h
    have hunit : (m.log2 : Int) - 52 = (k : Nat) := by omega
    rw [hunit, inUnits_ofNat]
    apply Nat.div_lt_of_lt_mul
    calc m < 2 ^ (m.log2 + 1) := hself
      _ = 1 * 2 ^ k * 2 ^ 53 := by
        rw [hk, Nat.one_mul, ← Nat.pow_add]
        congr 1
        omega
  · obtain ⟨k, hk⟩ := Nat.exists_eq_add_of_lt (Nat.lt_of_not_le h)
    have hunit : (m.log2 : Int) - 52 = Int.negSucc k := by omega
    rw [hunit, inUnits_negSucc, Nat.div_one]
    calc m * 2 ^ (k + 1) < 2 ^ (m.log2 + 1) * 2 ^ (k + 1) :=
          Nat.mul_lt_mul_of_pos_right hself (Nat.two_pow_pos _)
      _ = 2 ^ 53 := by
        rw [← Nat.pow_add]
        congr 1
        omega

/-- **A positive integer of at most 64 bits has a nearest number**, and it is not zero. -/
theorem ofRatio_of_lt {m : Nat} (h : m ≠ 0) (hm : m < 2 ^ 64) (negative : Bool) :
    ∃ x, ofRatio negative m 1 = some x ∧ x.rank ≠ 0 := by
  have hlog : m.log2 < 64 := (Nat.log2_lt h).mpr hm
  have hscale : max (-1074) (binaryExponent m 1 - 52) = (m.log2 : Int) - 52 := by
    rw [binaryExponent_one h]
    omega
  have hgrid : ((m.log2 : Int) - 52 + 1074).toNat = m.log2 + 1022 := by omega
  have hquot := inUnits_lt m
  have hround := roundHalfEven_le (inUnits m 1 ((m.log2 : Int) - 52)).1
    (inUnits m 1 ((m.log2 : Int) - 52)).2
  have hpow : Nat.pow 2 52 = 2 ^ 52 := rfl
  unfold ofRatio
  rw [if_neg h]
  simp only [hscale, hgrid, hpow]
  rw [dif_pos (by omega)]
  refine ⟨_, rfl, ?_⟩
  show (m.log2 + 1022) * 2 ^ 52 + _ ≠ 0
  omega

theorem exists_ofInt {n : Int} (h : n ≠ 0) (hn : n.natAbs < 2 ^ 64) :
    ∃ x, ofInt n = some x ∧ x.rank ≠ 0 :=
  ofRatio_of_lt (Int.natAbs_ne_zero.mpr h) hn _

end Binary64

namespace Number

/-- The rational number that a number is. -/
def value : Number → ℚ
  | int n _ => n
  | float x => x.value

theorem isZero_int_iff {n : Int} (h : -0x8000000000000000 ≤ n ∧ n < 0x10000000000000000) :
    (int n h).isZero = true ↔ n = 0 := by
  by_cases hn : n = 0
  · subst hn
    exact iff_of_true rfl rfl
  · obtain ⟨x, hx, hrank⟩ := Binary64.exists_ofInt hn (by omega)
    have hzero : (int n h).isZero = x.isZero := by
      rw [isZero, toBinary64, hx]
    rw [hzero]
    exact iff_of_false (by simpa [Binary64.isZero] using hrank) hn

/-- **Testing for zero is exact.**  Integers are tested in floating point, where none of them
but zero comes to zero. -/
theorem isZero_iff (n : Number) : n.isZero = true ↔ n.value = 0 := by
  cases n with
  | int n h =>
    rw [isZero_int_iff h, value, Int.cast_eq_zero]
  | float x =>
    rw [value, Binary64.value_eq_zero_iff]
    exact beq_iff_eq

end Number

end ConfigTemplate
