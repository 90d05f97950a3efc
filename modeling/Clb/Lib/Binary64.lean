/-
# Lib.Binary64 -- rounding to 53 bit significands

`round` is the IEEE 754 round-to-nearest-even of a rational to a significand of 53 bits, with
unbounded exponents (no operand in this development comes near the ends of the range). Its relative
error is at most `2 ^ -53` (`abs_round_sub_le`) and integers up to `2 ^ 53` are exact
(`round_intCast`). `ceil_round_div` is the fact the development rests on: the quotient of two
integers, computed with both roundings, has the exact ceiling as long as the operands are small. -/
import Mathlib.Data.Int.Log
import Mathlib.Data.Rat.Floor
import Mathlib.Tactic.Linarith
import Mathlib.Tactic.FieldSimp
import Mathlib.Tactic.NormNum

set_option autoImplicit false

namespace Clb.Lib.Binary64

/-- The integer nearest to `x`, the even one of two. -/
def roundEven (x : ℚ) : ℤ :=
  let low := ⌊x⌋
  let rest := x - low
  if rest < 1 / 2 then low
  else if 1 / 2 < rest then low + 1
  else if low % 2 = 0 then low
  else low + 1

/-- The weight of the last bit of a 53 bit significand for `x`. -/
def ulp (x : ℚ) : ℚ := (2 : ℚ) ^ (Int.log 2 |x| - 52)

def round (x : ℚ) : ℚ := roundEven (x / ulp x) * ulp x

theorem abs_roundEven_sub_le (x : ℚ) : |(roundEven x : ℚ) - x| ≤ 1 / 2 := by
  have low := Int.floor_le x
  have high := Int.lt_floor_add_one x
  unfold roundEven
  dsimp only
  split_ifs <;> push_cast <;> rw [abs_le] <;> constructor <;> linarith

theorem roundEven_intCast (n : ℤ) : roundEven n = n := by
  simp [roundEven]

theorem ulp_pos (x : ℚ) : 0 < ulp x :=
  zpow_pos two_pos _

theorem ulp_le {x : ℚ} (nonzero : x ≠ 0) : ulp x * 2 ^ 52 ≤ |x| := by
  have split : ulp x * 2 ^ 52 = (2 : ℚ) ^ Int.log 2 |x| := by
    unfold ulp
    rw [← zpow_natCast, ← zpow_add₀ (by norm_num)]
    congr 1
    norm_num
  rw [split]
  exact Int.zpow_log_le_self (by norm_num) (abs_pos.mpr nonzero)

/-- The relative error of one rounding. -/
theorem abs_round_sub_le (x : ℚ) : |round x - x| ≤ |x| / 2 ^ 53 := by
  by_cases zero : x = 0
  · subst zero
    simp [round, roundEven]
  have scale := ulp_pos x
  have error := abs_roundEven_sub_le (x / ulp x)
  have back : round x - x = ((roundEven (x / ulp x) : ℚ) - x / ulp x) * ulp x := by
    unfold round
    field_simp
  rw [back, abs_mul, abs_of_pos scale]
  have bound := ulp_le zero
  calc |(roundEven (x / ulp x) : ℚ) - x / ulp x| * ulp x
      ≤ 1 / 2 * ulp x := mul_le_mul_of_nonneg_right error scale.le
    _ ≤ |x| / 2 ^ 53 := by rw [le_div_iff₀ (by norm_num)]; linarith

/-- A number that is a whole multiple of its last bit's weight is exact. -/
theorem round_of_multiple {x : ℚ} (k : ℤ) (multiple : x / ulp x = k) : round x = x := by
  unfold round
  rw [multiple, roundEven_intCast, ← multiple]
  have := (ulp_pos x).ne'
  field_simp

theorem round_intCast {n : ℤ} (small : |n| ≤ 2 ^ 53) : round n = n := by
  by_cases zero : n = 0
  · subst zero
    simp [round, roundEven]
  have nonzero : (n : ℚ) ≠ 0 := by exact_mod_cast zero
  have logLe : Int.log 2 |(n : ℚ)| ≤ 53 := by
    have mono : Int.log 2 |(n : ℚ)| ≤ Int.log 2 ((2 : ℚ) ^ (53 : ℤ)) := by
      refine Int.log_mono_right (abs_pos.mpr nonzero) ?_
      exact_mod_cast small
    exact mono.trans_eq (Int.log_zpow (b := 2) (by norm_num) 53)
  have logNonneg : 0 ≤ Int.log 2 |(n : ℚ)| := by
    rw [← Int.log_one_right (R := ℚ) 2]
    refine Int.log_mono_right one_pos ?_
    exact_mod_cast Int.one_le_abs zero
  by_cases top : Int.log 2 |(n : ℚ)| = 53
  · -- only the two ends of the range have this exponent, and they are even
    have low := Int.zpow_log_le_self (b := 2) (by norm_num) (abs_pos.mpr nonzero)
    rw [top] at low
    have ends : |n| = 2 ^ 53 := le_antisymm small (by exact_mod_cast low)
    obtain ⟨m, even⟩ : (2 : ℤ) ∣ n := by
      rw [← dvd_abs, ends]
      exact ⟨2 ^ 52, by norm_num⟩
    refine round_of_multiple m ?_
    unfold ulp
    rw [top, even]
    norm_num
  · obtain ⟨d, exponent⟩ : ∃ d : ℕ, Int.log 2 |(n : ℚ)| - 52 = -(d : ℤ) :=
      ⟨(52 - Int.log 2 |(n : ℚ)|).toNat, by omega⟩
    refine round_of_multiple (n * 2 ^ d) ?_
    unfold ulp
    rw [exponent, zpow_neg, zpow_natCast, div_inv_eq_mul]
    push_cast
    rfl

/-- **Exact ceilings.** For operands below `2 ^ 45` and a divisor of at most `2 ^ 24` the rounded
quotient and the true one have the same ceiling, if the quotient stays below `2 ^ 21`. -/
theorem ceil_round_div {a b : ℤ} (positive : 0 < b) (nonneg : 0 ≤ a) (divisor : b ≤ 2 ^ 24)
    (operand : a ≤ 2 ^ 45) (quotient : (a : ℚ) / b ≤ 2 ^ 21) :
    ⌈round (round a / b)⌉ = ⌈(a : ℚ) / b⌉ := by
  have bpos : (0 : ℚ) < b := by exact_mod_cast positive
  have apos : (0 : ℚ) ≤ a := by exact_mod_cast nonneg
  have q0 : 0 ≤ (a : ℚ) / b := div_nonneg apos bpos.le
  rw [round_intCast (n := a) (by rw [abs_of_nonneg nonneg]; linarith)]
  have qlow : (⌈(a : ℚ) / b⌉ : ℚ) < a / b + 1 := Int.ceil_lt_add_one _
  have qhigh : (a : ℚ) / b ≤ ⌈(a : ℚ) / b⌉ := Int.le_ceil _
  set n := ⌈(a : ℚ) / b⌉ with ceiling
  by_cases whole : (a : ℚ) / b = n
  · rw [whole, round_intCast, Int.ceil_intCast]
    rw [abs_of_nonneg (by exact_mod_cast whole ▸ q0)]
    have : (n : ℚ) ≤ 2 ^ 21 := whole ▸ quotient
    have : n ≤ 2 ^ 21 := by exact_mod_cast this
    linarith
  · -- off the integers the quotient keeps a distance of at least 1 / b from both neighbours
    have below : a < n * b := by
      have strict : (a : ℚ) / b < n := lt_of_le_of_ne qhigh whole
      rw [div_lt_iff₀ bpos] at strict
      exact_mod_cast strict
    have above : (n - 1) * b < a := by
      have strict : (n : ℚ) - 1 < a / b := by linarith
      rw [lt_div_iff₀ bpos] at strict
      exact_mod_cast strict
    have gapHigh : (a : ℚ) / b + 1 / b ≤ n := by
      rw [← add_div, div_le_iff₀ bpos]
      exact_mod_cast below
    have gapLow : (n : ℚ) - 1 + 1 / b ≤ a / b := by
      have step : ((n : ℚ) - 1) * b + 1 ≤ a := by exact_mod_cast above
      have : (n : ℚ) - 1 + 1 / b = ((n - 1) * b + 1) / b := by field_simp
      rw [this]
      exact div_le_div_of_nonneg_right step bpos.le
    have error := abs_round_sub_le ((a : ℚ) / b)
    rw [abs_of_nonneg q0, abs_le] at error
    have tiny : (a : ℚ) / b / 2 ^ 53 < 1 / b := by
      have bound : (b : ℚ) ≤ 2 ^ 24 := by exact_mod_cast divisor
      have inverse : (1 : ℚ) / 2 ^ 24 ≤ 1 / b := one_div_le_one_div_of_le bpos bound
      have : (a : ℚ) / b / 2 ^ 53 ≤ 2 ^ 21 / 2 ^ 53 :=
        div_le_div_of_nonneg_right quotient (by norm_num)
      have : (2 : ℚ) ^ 21 / 2 ^ 53 < 1 / 2 ^ 24 := by norm_num
      linarith
    rw [Int.ceil_eq_iff]
    constructor <;> linarith [error.1, error.2]

end Clb.Lib.Binary64
