import Mathlib.Data.Int.Log
import Mathlib.Data.Rat.Floor
import Mathlib.Tactic.Linarith

/-!
# Rounding to binary digits

`nearest bits x` is the nearest number to `x` with `bits` binary digits, of two equally near
ones the even one: a result of IEEE arithmetic with 24 digits (`float`) or 53 (`double`), as
long as it is neither too large nor too small for the exponent.

    no further from x than half a unit of the last digit        (abs_nearest_sub_le)
    at most 2 ^ (k - bits - 1) from x below 2 ^ k               (abs_nearest_sub_le_of_lt)
-/

namespace Nearest

/-- The nearest integer, of two the even one. -/
def roundEven (x : ℚ) : ℤ :=
  let n := ⌊x⌋
  if x - n < 1 / 2 then n else if 1 / 2 < x - n then n + 1 else if Even n then n else n + 1

/-- One unit of the last of `bits` digits of `x`. -/
def unit (bits : ℕ) (x : ℚ) : ℚ := 2 ^ (Int.log 2 |x| + 1 - bits)

def nearest (bits : ℕ) (x : ℚ) : ℚ := roundEven (x / unit bits x) * unit bits x

theorem abs_roundEven_sub_le (x : ℚ) : |(roundEven x : ℚ) - x| ≤ 1 / 2 := by
  have hle := Int.floor_le x
  have hlt := Int.lt_floor_add_one x
  unfold roundEven
  simp only
  rw [abs_le]
  split_ifs with hdown hup heven
  · constructor <;> linarith
  · push_cast
    constructor <;> linarith
  · constructor <;> linarith
  · push_cast
    constructor <;> linarith

theorem unit_pos (bits : ℕ) (x : ℚ) : 0 < unit bits x := zpow_pos two_pos _

theorem abs_nearest_sub_le (bits : ℕ) (x : ℚ) : |nearest bits x - x| ≤ unit bits x / 2 := by
  have hpos := unit_pos bits x
  have hscale : nearest bits x - x =
      (roundEven (x / unit bits x) - x / unit bits x) * unit bits x := by
    rw [sub_mul, div_mul_cancel₀ _ hpos.ne', nearest]
  rw [hscale, abs_mul, abs_of_pos hpos]
  calc |(roundEven (x / unit bits x) : ℚ) - x / unit bits x| * unit bits x
      ≤ 1 / 2 * unit bits x := mul_le_mul_of_nonneg_right (abs_roundEven_sub_le _) hpos.le
    _ = unit bits x / 2 := by ring

theorem unit_le {bits : ℕ} {x : ℚ} {k : ℤ} (hx : x ≠ 0) (hlt : |x| < 2 ^ k) :
    unit bits x ≤ 2 ^ (k - bits) := by
  have hlog : Int.log 2 |x| < k := (Int.lt_zpow_iff_log_lt Nat.one_lt_two (abs_pos.mpr hx)).mp hlt
  exact zpow_le_zpow_right₀ one_le_two (by omega)

theorem abs_nearest_sub_le_of_lt {bits : ℕ} {x : ℚ} {k : ℤ} (hlt : |x| < 2 ^ k) :
    |nearest bits x - x| ≤ 2 ^ (k - bits) / 2 := by
  by_cases hx : x = 0
  · subst hx
    have hzero : nearest bits 0 = 0 := by simp [nearest, roundEven]
    rw [hzero, sub_self, abs_zero]
    exact (half_pos (zpow_pos two_pos _)).le
  · have hunit : unit bits x ≤ 2 ^ (k - bits) := unit_le hx hlt
    calc |nearest bits x - x| ≤ unit bits x / 2 := abs_nearest_sub_le bits x
      _ ≤ 2 ^ (k - bits) / 2 := by linarith only [hunit]

/-- 0.4 as a `float` is more than 0.4. -/
example : nearest 24 (2 / 5) = 13421773 / 33554432 := by decide +kernel

end Nearest
