import Mathlib.Algebra.Order.Round
import Mathlib.Data.Int.Log
import Mathlib.Data.Rat.Floor
import Mathlib.Tactic.Linarith

/-!
# Rounding to a number of digits

A number with a significand of `p` binary digits that is nearest to a rational number (`roundTo`).
The error is relative to the number (`abs_roundTo_sub_le`).
-/

namespace PconTng.Rounding

/-- The number with a significand of `p` binary digits that is nearest to `x`. -/
def roundTo (p : ℕ) (x : ℚ) : ℚ :=
  let unit : ℚ := 2 ^ (Int.log 2 |x| - (p - 1))
  round (x / unit) * unit

/-- The error of rounding is at most half a unit of the last place. -/
theorem abs_roundTo_sub_le (p : ℕ) (x : ℚ) : |roundTo p x - x| ≤ |x| / 2 ^ p := by
  obtain rfl | hx := eq_or_ne x 0
  · simp [roundTo]
  have hunit : (0 : ℚ) < 2 ^ (Int.log 2 |x| - (p - 1)) := zpow_pos two_pos _
  generalize hu : (2 : ℚ) ^ (Int.log 2 |x| - (p - 1)) = unit at hunit
  have hhalf : |(round (x / unit) : ℚ) - x / unit| ≤ 1 / 2 := by
    rw [abs_sub_comm]
    exact abs_sub_round _
  have hsmall : unit * 2 ^ p ≤ 2 * |x| := by
    have hlog : (2 : ℚ) ^ Int.log 2 |x| ≤ |x| := Int.zpow_log_le_self (by decide) (abs_pos.2 hx)
    have hsplit : unit * 2 ^ p = 2 * 2 ^ Int.log 2 |x| := by
      rw [← hu, ← zpow_natCast, ← zpow_add₀ (by decide), ← zpow_one_add₀ (by decide)]
      congr 1
      omega
    rw [hsplit]
    linarith
  calc |roundTo p x - x| = |(round (x / unit) - x / unit) * unit| := by
        rw [sub_mul, div_mul_cancel₀ _ hunit.ne', roundTo]
        simp only [hu]
    _ = |(round (x / unit) : ℚ) - x / unit| * unit := by rw [abs_mul, abs_of_pos hunit]
    _ ≤ 1 / 2 * unit := mul_le_mul_of_nonneg_right hhalf hunit.le
    _ ≤ |x| / 2 ^ p := by
        rw [le_div_iff₀ (by positivity)]
        linarith

end PconTng.Rounding
