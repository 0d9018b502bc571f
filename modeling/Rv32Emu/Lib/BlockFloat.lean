import Mathlib.Algebra.Order.Floor.Ring
import Mathlib.Algebra.Order.Field.Power
import Mathlib.Data.Rat.Floor
import Mathlib.Data.Sign.Basic
import Mathlib.Tactic.Positivity
import Mathlib.Tactic.Linarith

namespace Rv32Emu

def truncTo (x step : ℚ) : ℚ := SignType.sign x * (⌊|x| / step⌋ * step)

section truncTo

variable {step : ℚ}

@[simp] theorem truncTo_zero (step : ℚ) : truncTo 0 step = 0 := by simp [truncTo]

theorem truncTo_of_nonneg {x : ℚ} (h : 0 ≤ x) : truncTo x step = ⌊x / step⌋ * step := by
  rcases h.eq_or_lt with rfl | hx
  · simp
  · simp [truncTo, sign_pos hx, abs_of_pos hx]

theorem truncTo_neg (x : ℚ) : truncTo (-x) step = -truncTo x step := by
  simp [truncTo, Left.sign_neg]

theorem truncTo_div (hstep : 0 < step) (m d : ℕ) :
    truncTo (m / d * step) step = (m / d : ℕ) * step := by
  rw [truncTo_of_nonneg (by positivity), mul_div_assoc, div_self hstep.ne', mul_one]
  rw [Rat.floor_natCast_div_natCast]
  norm_cast

theorem abs_sub_truncTo_lt (hstep : 0 < step) (x : ℚ) : |x - truncTo x step| < step := by
  wlog hx : 0 ≤ x generalizing x
  · have hneg := this (-x) (by linarith)
    rwa [truncTo_neg, neg_sub_neg, abs_sub_comm] at hneg
  have hle : (⌊x / step⌋ : ℚ) * step ≤ x := (le_div_iff₀ hstep).mp (Int.floor_le _)
  have hlt : x < (⌊x / step⌋ + 1) * step := (div_lt_iff₀ hstep).mp (Int.lt_floor_add_one _)
  rw [truncTo_of_nonneg hx, abs_of_nonneg (by linarith)]
  linarith

end truncTo

section significand

variable {m p q : ℕ}

theorem shifted_eq_zero_iff (hlo : 2 ^ p ≤ m) (hhi : m < 2 ^ (p + 1)) (k : ℕ) : m / 2 ^ k = 0 ↔ p < k := by
  rw [Nat.div_eq_zero_iff_lt (Nat.two_pow_pos k)]
  constructor
  · intro h
    exact (Nat.pow_lt_pow_iff_right (by decide)).mp (hlo.trans_lt h)
  · intro h
    exact hhi.trans_le (Nat.pow_le_pow_right (by decide) h)

theorem leading_le_shifted_iff (hlo : 2 ^ (p + q) ≤ m) (hhi : m < 2 ^ (p + q + 1)) (k : ℕ) :
    2 ^ p ≤ m / 2 ^ (k + q) ↔ k = 0 := by
  rw [Nat.le_div_iff_mul_le (Nat.two_pow_pos _), ← Nat.pow_add]
  constructor
  · intro h
    have hexp : p + (k + q) < p + q + 1 := (Nat.pow_lt_pow_iff_right (by decide)).mp (h.trans_lt hhi)
    omega
  · rintro rfl
    rwa [Nat.zero_add]

end significand

end Rv32Emu
