import Mathlib.Algebra.Order.Field.Power
import Mathlib.Data.Int.Log
import Mathlib.Data.Rat.Floor
import Mathlib.Tactic.Linarith
import Mathlib.Tactic.Positivity

/-!
# Rounding to `float64`

A finite `float64` is a rational number. `round` is the rounding of IEEE 754 to the nearest one, with ties to the even
one, and the smallest distance at the bottom. Where the result would be infinite it is the number that a wider exponent
would give; callers ask for that first.
-/

namespace Float64

variable {q : ℚ}

/-- The nearest integer; of two, the even one. -/
def nearest (q : ℚ) : Int :=
  if q - ⌊q⌋ < 1 / 2 ∨ q - ⌊q⌋ = 1 / 2 ∧ ⌊q⌋ % 2 = 0 then ⌊q⌋ else ⌊q⌋ + 1

/-- The distance of the numbers of the format around `q`. -/
def ulp (q : ℚ) : ℚ := 2 ^ max (Int.log 2 |q| - 52) (-1074)

/-- To a whole number of units in the last place. -/
def round (q : ℚ) : ℚ := nearest (q / ulp q) * ulp q

/-- `int64(v)`: the whole part, or what amd64 makes of a number that is out of range. -/
def toInt64 (v : ℚ) : Int :=
  let n := if 0 ≤ v then ⌊v⌋ else ⌈v⌉
  if -2 ^ 63 ≤ n ∧ n < 2 ^ 63 then n else -2 ^ 63

example : round (1 / 10) = 3602879701896397 / 36028797018963968 := by decide +kernel

example : [(2 : ℚ) ^ 53 + 1, 2 ^ 63 - 1].map (fun q => toInt64 (round q)) = [2 ^ 53, -2 ^ 63] := by decide +kernel

theorem abs_nearest_sub_le (q : ℚ) : |(nearest q : ℚ) - q| ≤ 1 / 2 := by
  have hle := Int.floor_le q
  have hlt := Int.lt_floor_add_one q
  unfold nearest
  rw [abs_le]
  split
  · rename_i h
    rcases h with h | ⟨h, -⟩ <;> constructor <;> linarith
  · rename_i h
    have : ¬ q - ⌊q⌋ < 1 / 2 := fun hlt => h (.inl hlt)
    push_cast
    constructor <;> linarith

/-- From the smallest number of the format on, the distance is at most the number itself. -/
theorem ulp_le (hq : 2 ^ (-1074 : Int) ≤ q) : ulp q ≤ q := by
  have hpos : 0 < q := lt_of_lt_of_le (by positivity) hq
  rw [ulp, abs_of_pos hpos]
  rcases max_choice (Int.log 2 q - 52) (-1074) with h | h <;> rw [h]
  · calc (2 : ℚ) ^ (Int.log 2 q - 52) ≤ 2 ^ Int.log 2 q := zpow_le_zpow_right₀ (by norm_num) (by omega)
      _ ≤ q := Int.zpow_log_le_self (by norm_num) hpos
  · exact hq

/-- A number that does not underflow is at most doubled or halved. -/
theorem round_mem (hq : 2 ^ (-1074 : Int) ≤ q) : q / 2 ≤ round q ∧ round q ≤ 2 * q := by
  have hulp : 0 < ulp q := by unfold ulp; positivity
  have hone : 1 ≤ q / ulp q := (one_le_div hulp).2 (ulp_le hq)
  obtain ⟨hlow, hhigh⟩ := abs_le.1 (abs_nearest_sub_le (q / ulp q))
  have hq' : q = q / ulp q * ulp q := (div_mul_cancel₀ q hulp.ne').symm
  constructor
  · calc q / 2 = q / ulp q / 2 * ulp q := by rw [div_mul_eq_mul_div, ← hq']
      _ ≤ round q := mul_le_mul_of_nonneg_right (by linarith) hulp.le
  · calc round q ≤ 2 * (q / ulp q) * ulp q := mul_le_mul_of_nonneg_right (by linarith) hulp.le
      _ = 2 * q := by rw [mul_assoc, ← hq']

end Float64
