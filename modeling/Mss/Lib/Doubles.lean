import Mathlib.Algebra.Order.Field.Power
import Mathlib.Algebra.Order.Field.Rat
import Mathlib.Data.Int.Log
import Mathlib.Data.Rat.Floor
import Mathlib.Tactic.Linarith
import Mathlib.Tactic.NormNum
import Mathlib.Tactic.Ring

/-!
# Doubles

A number is rounded to 53 binary digits, or to the least step there is. How a half is rounded is a
parameter: anything that gives one of the nearest whole numbers.

* `RoundsToNearest`: a rounding to whole numbers is at most a half away.
* `nearest`: the double nearest to a number; **`abs_nearest_sub_le`**, `abs_nearest_sub_le_of_le`: how
  far away it is.
* **`nearest_steps`**: numbers of up to 53 binary digits are doubles; `nearest_nearest`: and so is
  what a number is rounded to.
-/

namespace Doubles

/-- **A rounding to whole numbers** that is at most a half away. -/
def RoundsToNearest (toWhole : ℚ → ℤ) : Prop := ∀ q : ℚ, |(toWhole q : ℚ) - q| ≤ 1 / 2

variable (toWhole : ℚ → ℤ)

/-- The exponent of the step between the doubles around a number. -/
def stepExponent (q : ℚ) : ℤ := max (Int.log 2 |q| - 52) (-1074)

/-- **The double nearest to a number**, in a range that has no end. -/
def nearest (q : ℚ) : ℚ :=
  if q = 0 then 0 else toWhole (q / 2 ^ stepExponent q) * 2 ^ stepExponent q

@[simp] theorem nearest_zero : nearest toWhole 0 = 0 := if_pos rfl

variable {toWhole}

theorem step_le {q : ℚ} (hq : q ≠ 0) :
    (2 : ℚ) ^ stepExponent q ≤ |q| * 2 ^ (-52 : ℤ) + 2 ^ (-1074 : ℤ) := by
  have hlog : (2 : ℚ) ^ (Int.log 2 |q| - 52) ≤ |q| * 2 ^ (-52 : ℤ) := by
    rw [sub_eq_add_neg, zpow_add₀ two_ne_zero]
    refine mul_le_mul_of_nonneg_right ?_ (by positivity)
    exact_mod_cast Int.zpow_log_le_self one_lt_two (abs_pos.mpr hq)
  have hleast : (0 : ℚ) ≤ 2 ^ (-1074 : ℤ) := by positivity
  have hshare : (0 : ℚ) ≤ |q| * 2 ^ (-52 : ℤ) := by positivity
  rcases max_choice (Int.log 2 |q| - 52) (-1074) with hmax | hmax
  · rw [stepExponent, hmax]
    linarith
  · rw [stepExponent, hmax]
    linarith

/-- **The nearest double is at most half a step away.** -/
theorem abs_nearest_sub_le (h : RoundsToNearest toWhole) (q : ℚ) :
    |nearest toWhole q - q| ≤ (|q| * 2 ^ (-52 : ℤ) + 2 ^ (-1074 : ℤ)) / 2 := by
  by_cases hq : q = 0
  · rw [hq, nearest_zero]
    simp only [sub_self, abs_zero, zero_mul, zero_add]
    positivity
  · have hstep : (0 : ℚ) < 2 ^ stepExponent q := by positivity
    have hscaled : nearest toWhole q - q =
        (toWhole (q / 2 ^ stepExponent q) - q / 2 ^ stepExponent q) * 2 ^ stepExponent q := by
      rw [nearest, if_neg hq, sub_mul, div_mul_cancel₀ _ hstep.ne']
    calc |nearest toWhole q - q|
        = |(toWhole (q / 2 ^ stepExponent q) : ℚ) - q / 2 ^ stepExponent q| *
            2 ^ stepExponent q := by rw [hscaled, abs_mul, abs_of_pos hstep]
      _ ≤ 1 / 2 * 2 ^ stepExponent q := mul_le_mul_of_nonneg_right (h _) hstep.le
      _ = 2 ^ stepExponent q / 2 := by rw [one_div, inv_mul_eq_div]
      _ ≤ (|q| * 2 ^ (-52 : ℤ) + 2 ^ (-1074 : ℤ)) / 2 :=
        div_le_div_of_nonneg_right (step_le hq) zero_le_two

theorem nearest_nonpos (h : RoundsToNearest toWhole) {q : ℚ} (hq : q ≤ 0) :
    nearest toWhole q ≤ 0 := by
  unfold nearest
  split_ifs with hzero
  · exact le_rfl
  · have hstep : (0 : ℚ) < 2 ^ stepExponent q := by positivity
    have hscaled : q / 2 ^ stepExponent q ≤ 0 := div_nonpos_of_nonpos_of_nonneg hq hstep.le
    have hwhole : (toWhole (q / 2 ^ stepExponent q) : ℚ) < 1 := by
      have hround := (abs_le.mp (h (q / 2 ^ stepExponent q))).2
      linarith
    have hwhole' : toWhole (q / 2 ^ stepExponent q) ≤ 0 := by
      have hcast : toWhole (q / 2 ^ stepExponent q) < 1 := by exact_mod_cast hwhole
      omega
    exact mul_nonpos_of_nonpos_of_nonneg (by exact_mod_cast hwhole') hstep.le

/-- Up to a bound, it is a share of the bound away. -/
theorem abs_nearest_sub_le_of_le (h : RoundsToNearest toWhole) {q bound : ℚ} (hq : |q| ≤ bound)
    (hbound : 1 ≤ bound) : |nearest toWhole q - q| ≤ bound * 2 ^ (-52 : ℤ) := by
  have hleast : (2 : ℚ) ^ (-1074 : ℤ) ≤ 2 ^ (-52 : ℤ) :=
    zpow_le_zpow_right₀ one_le_two (by norm_num)
  have hshare : (0 : ℚ) ≤ 2 ^ (-52 : ℤ) := by positivity
  have hmore : |q| * 2 ^ (-52 : ℤ) + 2 ^ (-1074 : ℤ) ≤ bound * 2 ^ (-52 : ℤ) * 2 := by
    calc |q| * 2 ^ (-52 : ℤ) + 2 ^ (-1074 : ℤ)
        ≤ bound * 2 ^ (-52 : ℤ) + bound * 2 ^ (-52 : ℤ) :=
          add_le_add (mul_le_mul_of_nonneg_right hq hshare)
            (hleast.trans (le_mul_of_one_le_left hshare hbound))
      _ = bound * 2 ^ (-52 : ℤ) * 2 := (mul_two _).symm
  exact (abs_nearest_sub_le h q).trans ((div_le_iff₀ zero_lt_two).mpr hmore)

/-! ## The numbers that are doubles -/

theorem RoundsToNearest.intCast (h : RoundsToNearest toWhole) (n : ℤ) : toWhole n = n := by
  have hround : ((|toWhole n - n| : ℤ) : ℚ) < 1 := by
    push_cast
    exact (h n).trans_lt (by norm_num)
  have hless : |toWhole n - n| < 1 := by exact_mod_cast hround
  exact sub_eq_zero.mp (Int.abs_lt_one_iff.mp hless)

theorem nearest_of_steps (h : RoundsToNearest toWhole) {q : ℚ} {n : ℤ}
    (hn : q = n * 2 ^ stepExponent q) : nearest toWhole q = q := by
  have hstep : (2 : ℚ) ^ stepExponent q ≠ 0 := by positivity
  have hscaled : q / 2 ^ stepExponent q = n := (div_eq_iff hstep).mpr hn
  unfold nearest
  split_ifs with hzero
  · exact hzero.symm
  · rw [hscaled, h.intCast]
    exact hn.symm

theorem nearest_steps_of_lt (h : RoundsToNearest toWhole) {m e : ℤ} (hm : |m| < 2 ^ 53)
    (he : -1074 ≤ e) : nearest toWhole (m * 2 ^ e) = m * 2 ^ e := by
  by_cases hzero : m = 0
  · rw [hzero, Int.cast_zero, zero_mul, nearest_zero]
  · have hpower : (0 : ℚ) < 2 ^ e := by positivity
    have hq : (0 : ℚ) < |(m : ℚ) * 2 ^ e| :=
      abs_pos.mpr (mul_ne_zero (by exact_mod_cast hzero) hpower.ne')
    have hlog : Int.log 2 |(m : ℚ) * 2 ^ e| < 53 + e := by
      rw [← Int.lt_zpow_iff_log_lt one_lt_two hq, Nat.cast_ofNat, zpow_add₀ two_ne_zero, abs_mul,
        abs_of_pos hpower]
      refine mul_lt_mul_of_pos_right ?_ hpower
      exact_mod_cast hm
    have hstep : stepExponent ((m : ℚ) * 2 ^ e) ≤ e := max_le (by omega) he
    obtain ⟨k, hk⟩ := Int.le.dest hstep
    refine nearest_of_steps h (n := m * 2 ^ k) ?_
    generalize stepExponent ((m : ℚ) * 2 ^ e) = s at hk
    rw [← hk, zpow_add₀ two_ne_zero, zpow_natCast]
    push_cast
    ring

/-- **Numbers of up to 53 binary digits are doubles.** -/
theorem nearest_steps (h : RoundsToNearest toWhole) {m e : ℤ} (hm : |m| ≤ 2 ^ 53) (he : -1074 ≤ e) :
    nearest toWhole (m * 2 ^ e) = m * 2 ^ e := by
  rcases hm.lt_or_eq with hm | hm
  · exact nearest_steps_of_lt h hm he
  · -- one more digit, all of which but the first are zeros
    have heven : ∃ n : ℤ, m = 2 * n := by
      rcases abs_choice m with habs | habs
      · exact ⟨2 ^ 52, by omega⟩
      · exact ⟨-2 ^ 52, by omega⟩
    obtain ⟨n, rfl⟩ := heven
    have hn : |n| < 2 ^ 53 := by
      rw [abs_mul, abs_two] at hm
      omega
    have hshift : ((2 * n : ℤ) : ℚ) * 2 ^ e = n * 2 ^ (e + 1) := by
      rw [zpow_add_one₀ two_ne_zero]
      push_cast
      ring
    rw [hshift, nearest_steps_of_lt h hn (by omega)]

theorem nearest_intCast (h : RoundsToNearest toWhole) {n : ℤ} (hn : |n| ≤ 2 ^ 53) :
    nearest toWhole n = n := by
  have hsteps := nearest_steps h hn (e := 0) (by omega)
  rwa [zpow_zero, mul_one] at hsteps

theorem nearest_nearest (h : RoundsToNearest toWhole) (q : ℚ) :
    nearest toWhole (nearest toWhole q) = nearest toWhole q := by
  by_cases hq : q = 0
  · rw [hq, nearest_zero, nearest_zero]
  · have hstep : (0 : ℚ) < 2 ^ stepExponent q := by positivity
    have hdigits : |q / 2 ^ stepExponent q| < 2 ^ 53 := by
      rw [abs_div, abs_of_pos hstep, div_lt_iff₀ hstep]
      calc |q| < ((2 : ℕ) : ℚ) ^ (Int.log 2 |q| + 1) := Int.lt_zpow_succ_log_self one_lt_two _
        _ = 2 ^ (53 + (Int.log 2 |q| - 52)) := by
          rw [Nat.cast_ofNat]
          congr 1
          ring
        _ ≤ 2 ^ (53 + stepExponent q) :=
          zpow_le_zpow_right₀ one_le_two (add_le_add_right (le_max_left _ _) _)
        _ = 2 ^ 53 * 2 ^ stepExponent q := by
          rw [zpow_add₀ two_ne_zero]
          rfl
    have hwhole : |toWhole (q / 2 ^ stepExponent q)| ≤ 2 ^ 53 := by
      have hround := h (q / 2 ^ stepExponent q)
      have hless : ((|toWhole (q / 2 ^ stepExponent q)| : ℤ) : ℚ) < 2 ^ 53 + 1 := by
        push_cast
        have htriangle := abs_sub_abs_le_abs_sub (toWhole (q / 2 ^ stepExponent q) : ℚ)
          (q / 2 ^ stepExponent q)
        linarith
      have hint : |toWhole (q / 2 ^ stepExponent q)| < 2 ^ 53 + 1 := by exact_mod_cast hless
      omega
    rw [show nearest toWhole q = toWhole (q / 2 ^ stepExponent q) * 2 ^ stepExponent q from if_neg hq]
    exact nearest_steps h hwhole (le_max_right _ _)

end Doubles
