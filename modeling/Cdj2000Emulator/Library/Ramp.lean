import Mathlib.Algebra.Order.Ring.Int
import Mathlib.Logic.Function.Iterate

namespace Cdj2000Emulator.Library.Ramp

variable {step target value : ℤ} {k : ℕ}

def approach (step target value : ℤ) : ℤ := value + (target - value).sign * min step |target - value|

theorem sign_mul_min {d : ℤ} (positive : 0 < step) :
    d.sign * min step |d| = if d < 0 then max (-step) d else min step d := by
  rcases lt_trichotomy d 0 with negative | rfl | above
  · rw [Int.sign_eq_neg_one_of_neg negative, abs_of_neg negative, if_pos negative]
    omega
  · rw [Int.sign_zero, if_neg (lt_irrefl 0)]
    omega
  · rw [Int.sign_eq_one_of_pos above, abs_of_pos above, if_neg above.not_gt]
    omega

/-- The difference cut to the step on either side. -/
theorem clamp_eq {d : ℤ} (positive : 0 < step) :
    (if step < d then step else if d < -step then -step else d) = d.sign * min step |d| := by
  rw [sign_mul_min positive]
  omega

theorem approach_of_le (positive : 0 < step) (h : value ≤ target) :
    approach step target value = min (value + step) target := by
  rw [approach, sign_mul_min positive]
  omega

theorem approach_of_ge (positive : 0 < step) (h : target ≤ value) :
    approach step target value = max (value - step) target := by
  rw [approach, sign_mul_min positive]
  omega

theorem iterate_of_le (positive : 0 < step) (h : value ≤ target) :
    (approach step target)^[k] value = min (value + k * step) target := by
  induction k with
  | zero =>
    rw [Nat.cast_zero, Int.zero_mul, Int.add_zero, min_eq_left h]
    rfl
  | succ k ih =>
    rw [Function.iterate_succ_apply', ih, approach_of_le positive (min_le_right _ _), Nat.cast_succ, Int.add_mul,
      Int.one_mul]
    omega

theorem iterate_of_ge (positive : 0 < step) (h : target ≤ value) :
    (approach step target)^[k] value = max (value - k * step) target := by
  induction k with
  | zero =>
    rw [Nat.cast_zero, Int.zero_mul, Int.sub_zero, max_eq_left h]
    rfl
  | succ k ih =>
    rw [Function.iterate_succ_apply', ih, approach_of_ge positive (le_max_right _ _), Nat.cast_succ, Int.add_mul,
      Int.one_mul]
    omega

theorem iterate_reaches (positive : 0 < step) (enough : |target - value| ≤ k * step) :
    (approach step target)^[k] value = target := by
  rcases le_total value target with below | above
  · rw [abs_of_nonneg (Int.sub_nonneg_of_le below)] at enough
    rw [iterate_of_le positive below, min_eq_right (by omega)]
  · rw [abs_of_nonpos (Int.sub_nonpos_of_le above)] at enough
    rw [iterate_of_ge positive above, max_eq_right (by omega)]

theorem iterate_between (positive : 0 < step) :
    min value target ≤ (approach step target)^[k] value ∧
      (approach step target)^[k] value ≤ max value target := by
  have walked : 0 ≤ (k : ℤ) * step := Int.mul_nonneg (Int.natCast_nonneg k) positive.le
  rcases le_total value target with below | above
  · rw [iterate_of_le positive below]
    omega
  · rw [iterate_of_ge positive above]
    omega

end Cdj2000Emulator.Library.Ramp
