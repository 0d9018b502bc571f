import Mathlib.Algebra.Order.Field.Power
import Mathlib.Order.Bounds.Basic
import Mathlib.Tactic.Linarith
import Mathlib.Tactic.NormNum
import Mathlib.Tactic.Positivity
import Mathlib.Tactic.Ring

namespace Rv32Emu

/-- The magnitudes with `p` fraction bits whose lowest binade is that of `2 ^ emin`; there is no highest. -/
def magnitudes (p : ℕ) (emin : ℤ) : Set ℚ :=
  {q | ∃ (m : ℕ) (e : ℤ), m < 2 ^ (p + 1) ∧ emin ≤ e ∧ q = m * 2 ^ (e - p)}

structure InBinade (emin e : ℤ) (x : ℚ) : Prop where
  min_le : emin ≤ e
  low : e = emin ∨ 2 ^ e ≤ x
  high : x < 2 ^ (e + 1)

section magnitudes

variable {p : ℕ} {emin e : ℤ} {x q : ℚ} {k : ℕ}

theorem two_zpow_eq_steps (p : ℕ) (e : ℤ) : (2 : ℚ) ^ e = ((2 ^ p : ℕ) : ℚ) * 2 ^ (e - p) := by
  rw [Nat.cast_pow, Nat.cast_ofNat, ← zpow_natCast, ← zpow_add₀ two_ne_zero, add_sub_cancel]

theorem two_zpow_succ_eq_steps (p : ℕ) (e : ℤ) :
    (2 : ℚ) ^ (e + 1) = ((2 ^ (p + 1) : ℕ) : ℚ) * 2 ^ (e - p) := by
  rw [two_zpow_eq_steps (p + 1) (e + 1)]
  congr 2
  push_cast
  ring

theorem two_zpow_mem_magnitudes (h : emin ≤ e) : (2 : ℚ) ^ e ∈ magnitudes p emin :=
  ⟨2 ^ p, e, Nat.pow_lt_pow_right (by decide) (Nat.lt_succ_self p), h, two_zpow_eq_steps p e⟩

theorem eq_steps_of_mem (hq : q ∈ magnitudes p emin) (h : e = emin ∨ 2 ^ e ≤ q) :
    ∃ k : ℕ, q = k * 2 ^ (e - p) := by
  obtain ⟨m, e', hm, hmin, rfl⟩ := hq
  have hle : e ≤ e' := by
    rcases h with rfl | h
    · exact hmin
    · by_contra hlt
      have htop : (m : ℚ) * 2 ^ (e' - p) < 2 ^ (e' + 1) := by
        rw [two_zpow_succ_eq_steps p e']
        have hcast : (m : ℚ) < ((2 ^ (p + 1) : ℕ) : ℚ) := by exact_mod_cast hm
        gcongr
      have hmono : (2 : ℚ) ^ (e' + 1) ≤ 2 ^ e := zpow_le_zpow_right₀ one_le_two (by omega)
      linarith
  refine ⟨m * 2 ^ (e' - e).toNat, ?_⟩
  have hexp : (2 : ℚ) ^ (e' - p) = 2 ^ (e' - e).toNat * 2 ^ (e - p) := by
    rw [← zpow_natCast, ← zpow_add₀ two_ne_zero, Int.toNat_of_nonneg (by omega)]
    congr 1
    ring
  rw [hexp]
  push_cast
  ring

theorem steps_mem_magnitudes (he : emin ≤ e) (hk : k ≤ 2 ^ (p + 1)) :
    (k : ℚ) * 2 ^ (e - p) ∈ magnitudes p emin := by
  rcases hk.eq_or_lt with rfl | hlt
  · rw [← two_zpow_succ_eq_steps]
    exact two_zpow_mem_magnitudes (by omega)
  · exact ⟨k, e, hlt, he, rfl⟩

theorem InBinade.steps_lt (h : InBinade emin e x) (hle : (k : ℚ) * 2 ^ (e - p) ≤ x) : k < 2 ^ (p + 1) := by
  have hlt : (k : ℚ) * 2 ^ (e - p) < ((2 ^ (p + 1) : ℕ) : ℚ) * 2 ^ (e - p) := by
    rw [← two_zpow_succ_eq_steps]
    exact hle.trans_lt h.high
  exact_mod_cast lt_of_mul_lt_mul_right hlt (by positivity)

theorem InBinade.isGreatest_steps (h : InBinade emin e x) (hle : (k : ℚ) * 2 ^ (e - p) ≤ x)
    (hlt : x < ((k + 1 : ℕ) : ℚ) * 2 ^ (e - p)) :
    IsGreatest (magnitudes p emin ∩ Set.Iic x) (k * 2 ^ (e - p)) := by
  refine ⟨⟨steps_mem_magnitudes h.min_le (h.steps_lt hle).le, hle⟩, ?_⟩
  rintro q ⟨hq, hqx⟩
  by_cases hlow : e = emin ∨ 2 ^ e ≤ q
  · obtain ⟨j, rfl⟩ := eq_steps_of_mem hq hlow
    have hjk : (j : ℚ) < ((k + 1 : ℕ) : ℚ) := lt_of_mul_lt_mul_right (lt_of_le_of_lt hqx hlt) (by positivity)
    have hj : j ≤ k := Nat.lt_succ_iff.mp (by exact_mod_cast hjk)
    have hcast : (j : ℚ) ≤ k := by exact_mod_cast hj
    gcongr
  · -- a magnitude below the binade is below its first step, which `x` has reached
    obtain ⟨hne, hq'⟩ := not_or.mp hlow
    have hfirst : (2 : ℚ) ^ e ≤ x := h.low.resolve_left hne
    rw [two_zpow_eq_steps p e] at hfirst hq'
    have hkp : ((2 ^ p : ℕ) : ℚ) < ((k + 1 : ℕ) : ℚ) :=
      lt_of_mul_lt_mul_right (hfirst.trans_lt hlt) (by positivity)
    have hk : 2 ^ p ≤ k := Nat.lt_succ_iff.mp (by exact_mod_cast hkp)
    have hcast : ((2 ^ p : ℕ) : ℚ) ≤ k := by exact_mod_cast hk
    calc q ≤ ((2 ^ p : ℕ) : ℚ) * 2 ^ (e - p) := (not_le.mp hq').le
      _ ≤ k * 2 ^ (e - p) := by gcongr

theorem InBinade.isLeast_steps (h : InBinade emin e x) (hlt : (k : ℚ) * 2 ^ (e - p) < x)
    (hle : x ≤ ((k + 1 : ℕ) : ℚ) * 2 ^ (e - p)) :
    IsLeast (magnitudes p emin ∩ Set.Ici x) (((k + 1 : ℕ) : ℚ) * 2 ^ (e - p)) := by
  refine ⟨⟨steps_mem_magnitudes h.min_le (h.steps_lt hlt.le), hle⟩, ?_⟩
  rintro q ⟨hq, hxq⟩
  have hlow : e = emin ∨ 2 ^ e ≤ q := h.low.imp_right fun hx => hx.trans hxq
  obtain ⟨j, rfl⟩ := eq_steps_of_mem hq hlow
  have hkj : (k : ℚ) < j := lt_of_mul_lt_mul_right (hlt.trans_le hxq) (by positivity)
  have hcast : ((k + 1 : ℕ) : ℚ) ≤ j := by exact_mod_cast (by exact_mod_cast hkj : k < j)
  gcongr

end magnitudes

end Rv32Emu
