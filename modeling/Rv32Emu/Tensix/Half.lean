import Mathlib.Tactic.IntervalCases
import Rv32Emu.Lib.FloatFormat
import Rv32Emu.Tensix.Bfp8

namespace Rv32Emu

section binades

variable {b : Word}

theorem abs_floatValue (hexp : floatExp b ≠ 0) :
    |floatValue b| = ((2 ^ 23 + floatFrac b : ℕ) : ℚ) * 2 ^ ((floatExp b : ℤ) - 150) := by
  rw [floatValue, if_neg hexp, abs_mul, abs_neg_one_pow, one_mul, abs_of_nonneg (by positivity)]

theorem abs_floatValue_of_exp_zero (hexp : floatExp b = 0) :
    |floatValue b| = floatFrac b * 2 ^ (-149 : ℤ) := by
  rw [floatValue, if_pos hexp, abs_mul, abs_neg_one_pow, one_mul, abs_of_nonneg (by positivity)]

theorem le_abs_floatValue (hexp : floatExp b ≠ 0) : 2 ^ ((floatExp b : ℤ) - 127) ≤ |floatValue b| := by
  have hstep : (floatExp b : ℤ) - 127 - (23 : ℕ) = floatExp b - 150 := by
    push_cast
    ring
  rw [abs_floatValue hexp, two_zpow_eq_steps 23, hstep]
  gcongr
  exact Nat.le_add_right ..

theorem abs_floatValue_lt (b : Word) : |floatValue b| < 2 ^ ((floatExp b : ℤ) - 126) := by
  have hfrac := floatFrac_lt b
  by_cases hexp : floatExp b = 0
  · have hcast : (floatFrac b : ℚ) < ((2 ^ 23 : ℕ) : ℚ) := by exact_mod_cast hfrac
    have hstep : ((0 : ℕ) : ℤ) - 126 - (23 : ℕ) = -149 := by norm_num
    rw [abs_floatValue_of_exp_zero hexp, hexp, two_zpow_eq_steps 23 (((0 : ℕ) : ℤ) - 126), hstep]
    gcongr
  · have hcast : ((2 ^ 23 + floatFrac b : ℕ) : ℚ) < ((2 ^ 24 : ℕ) : ℚ) := by exact_mod_cast (by omega)
    have hstep : (floatExp b : ℤ) - 126 - (24 : ℕ) = floatExp b - 150 := by
      push_cast
      ring
    rw [abs_floatValue hexp, two_zpow_eq_steps 24 ((floatExp b : ℤ) - 126), hstep]
    gcongr

theorem abs_floatValue_lt_iff {e : ℕ} (he : e ≠ 0) :
    |floatValue b| < 2 ^ ((e : ℤ) - 127) ↔ floatExp b < e := by
  constructor
  · intro h
    by_contra hge
    have hle := le_abs_floatValue (b := b) (by omega)
    have hpow : (2 : ℚ) ^ ((e : ℤ) - 127) ≤ 2 ^ ((floatExp b : ℤ) - 127) :=
      zpow_le_zpow_right₀ one_le_two (by omega)
    linarith
  · intro h
    exact (abs_floatValue_lt b).trans_le (zpow_le_zpow_right₀ one_le_two (by omega))

theorem steps_le_floatValue (hexp : floatExp b ≠ 0) (d : ℕ) :
    (((2 ^ 23 + floatFrac b) / 2 ^ d : ℕ) : ℚ) * 2 ^ ((floatExp b : ℤ) - 150 + d) ≤ |floatValue b| ∧
      |floatValue b| < (((2 ^ 23 + floatFrac b) / 2 ^ d + 1 : ℕ) : ℚ) * 2 ^ ((floatExp b : ℤ) - 150 + d) := by
  have hstep : (2 : ℚ) ^ ((floatExp b : ℤ) - 150 + d) = ((2 ^ d : ℕ) : ℚ) * 2 ^ ((floatExp b : ℤ) - 150) := by
    rw [two_zpow_eq_steps d, add_sub_cancel_right]
  rw [abs_floatValue hexp, hstep, ← mul_assoc, ← mul_assoc, ← Nat.cast_mul, ← Nat.cast_mul]
  have hpos : (0 : ℚ) < 2 ^ ((floatExp b : ℤ) - 150) := by positivity
  constructor
  · apply mul_le_mul_of_nonneg_right _ hpos.le
    exact_mod_cast Nat.div_mul_le_self ..
  · apply mul_lt_mul_of_pos_right _ hpos
    rw [Nat.add_mul, Nat.one_mul]
    exact_mod_cast Nat.lt_div_mul_add (Nat.two_pow_pos d)

theorem floatValue_inBinade (hexp : floatExp b ≠ 0) {emin : ℤ} (h : emin ≤ (floatExp b : ℤ) - 127) :
    InBinade emin ((floatExp b : ℤ) - 127) |floatValue b| := by
  refine ⟨h, .inr (le_abs_floatValue hexp), ?_⟩
  have hend : (floatExp b : ℤ) - 127 + 1 = floatExp b - 126 := by ring
  rw [hend]
  exact abs_floatValue_lt b

end binades

section fields

variable (h : Word)

def halfSign : ℕ := h.toNat / 2 ^ 15 % 2

def halfExp : ℕ := h.toNat / 2 ^ 10 % 32

def halfFrac : ℕ := h.toNat % 2 ^ 10

def halfValue : ℚ :=
  (-1) ^ halfSign h *
    if halfExp h = 0 then (halfFrac h : ℚ) * 2 ^ (-24 : ℤ)
    else ((2 ^ 10 + halfFrac h : ℕ) : ℚ) * 2 ^ ((halfExp h : ℤ) - 25)

def halfMagnitudes : Set ℚ := {q | ∃ h, halfExp h ≠ 31 ∧ |halfValue h| = q}

def TruncatesToHalf (x y : ℚ) : Prop := 0 ≤ x * y ∧ IsGreatest (halfMagnitudes ∩ Set.Iic |x|) |y|

theorem halfFrac_lt : halfFrac h < 2 ^ 10 := Nat.mod_lt _ (by decide)

theorem abs_halfValue : |halfValue h| =
    if halfExp h = 0 then (halfFrac h : ℚ) * 2 ^ (-24 : ℤ)
    else ((2 ^ 10 + halfFrac h : ℕ) : ℚ) * 2 ^ ((halfExp h : ℤ) - 25) := by
  rw [halfValue, abs_mul, abs_neg_one_pow, one_mul]
  apply abs_of_nonneg
  split_ifs <;> positivity

theorem halfMagnitudes_subset : halfMagnitudes ⊆ magnitudes 10 (-14) := by
  rintro _ ⟨h, -, rfl⟩
  have hfrac := halfFrac_lt h
  rw [abs_halfValue]
  split_ifs with hexp
  · exact ⟨halfFrac h, -14, by omega, le_rfl, by norm_num⟩
  · refine ⟨2 ^ 10 + halfFrac h, (halfExp h : ℤ) - 15, by omega, by omega, ?_⟩
    congr 2
    push_cast
    ring

end fields

section unpack

variable {raw : Word}

theorem normalizeHalf_spec {n : ℕ} (hn : n ≤ 10) (mant exp : Word) (hlow : 2 ^ (10 - n) ≤ mant.toNat)
    (hhigh : mant.toNat < 2 ^ 11) :
    ∃ k ≤ n, (normalizeHalf n mant exp).1.toNat = mant.toNat * 2 ^ k ∧
      (normalizeHalf n mant exp).2 = exp - w32 k ∧
      2 ^ 10 ≤ mant.toNat * 2 ^ k ∧ mant.toNat * 2 ^ k < 2 ^ 11 := by
  induction n generalizing mant exp with
  | zero => exact ⟨0, le_rfl, by simp [normalizeHalf], by simp [normalizeHalf, w32], by omega, by omega⟩
  | succ n ih =>
    have hbit : bit mant 10 = decide (2 ^ 10 ≤ mant.toNat) := by
      rw [bit, BitVec.getLsbD, Nat.testBit_eq_decide_div_mod_eq]
      apply decide_eq_decide.mpr
      omega
    rw [normalizeHalf, hbit]
    by_cases hdone : 2 ^ 10 ≤ mant.toNat
    · rw [if_pos (decide_eq_true hdone)]
      exact ⟨0, by omega, by simp, by simp [w32], by omega, by omega⟩
    · rw [if_neg (by simpa using hdone)]
      have hshift : (mant <<< 1).toNat = mant.toNat * 2 := by
        rw [BitVec.toNat_shiftLeft, Nat.shiftLeft_eq]
        omega
      have hpow : 2 ^ (10 - n) = 2 ^ (10 - (n + 1)) * 2 := by
        rw [← Nat.pow_succ]
        congr 1
        omega
      obtain ⟨k, hk, hmant, hexp, hlead⟩ := ih (by omega) (mant <<< 1) (exp - 1) (by omega) (by omega)
      have hmul : mant.toNat * 2 * 2 ^ k = mant.toNat * 2 ^ (k + 1) := by
        rw [Nat.pow_succ]
        ring
      rw [hshift, hmul] at hmant hlead
      refine ⟨k + 1, by omega, hmant, ?_, hlead⟩
      rw [hexp, w32_add]
      exact (BitVec.sub_sub ..).trans (congrArg (exp - ·) (BitVec.add_comm ..))

theorem half_sign_toNat (raw : Word) : (bits raw 15 1).toNat = halfSign raw := bits_mask_toNat raw 15 1 rfl

theorem half_exp_toNat (raw : Word) : (bits raw 10 0x1F).toNat = halfExp raw := bits_mask_toNat raw 10 5 rfl

theorem half_frac_toNat (raw : Word) : (raw &&& 0x3FF).toNat = halfFrac raw := and_mask_toNat raw 10 rfl

theorem halfSign_le (raw : Word) : halfSign raw ≤ 1 := Nat.lt_succ_iff.mp (Nat.mod_lt _ (by decide))

theorem halfExp_lt (raw : Word) : halfExp raw < 32 := Nat.mod_lt _ (by decide)

theorem half_fields {s e m : Word} (hs : s.toNat ≤ 1) (he : e.toNat < 256) (hm : m.toNat < 2 ^ 10) :
    floatSign (s <<< 31 ||| e <<< 23 ||| m <<< 13) = s.toNat ∧
      floatExp (s <<< 31 ||| e <<< 23 ||| m <<< 13) = e.toNat ∧
      floatFrac (s <<< 31 ||| e <<< 23 ||| m <<< 13) = m.toNat * 2 ^ 13 := by
  have hfrac : (m <<< 13).toNat = m.toNat * 2 ^ 13 := by
    rw [BitVec.toNat_shiftLeft, Nat.shiftLeft_eq]
    omega
  have hword :=
    fields_toNat 23 31 (s := s) (e := e) (f := m <<< 13) (by omega) (by omega) (by decide) (by omega)
  rw [hfrac] at hword
  exact float_fields he (by omega) hword

theorem halfToFloat_normal (hexp : halfExp raw ≠ 0) (hfin : halfExp raw ≠ 31) :
    floatSign (halfToFloat raw) = halfSign raw ∧ floatExp (halfToFloat raw) = halfExp raw + 112 ∧
      floatFrac (halfToFloat raw) = halfFrac raw * 2 ^ 13 := by
  have hlt := halfExp_lt raw
  have hne : bits raw 10 0x1F ≠ 0 := fun h => hexp ((half_exp_toNat raw).symm.trans (congrArg BitVec.toNat h))
  have hne' : bits raw 10 0x1F ≠ 31 :=
    fun h => hfin ((half_exp_toNat raw).symm.trans (congrArg BitVec.toNat h))
  have hbias : (bits raw 10 0x1F + 112).toNat = halfExp raw + 112 := by
    have hval : (112 : Word).toNat = 112 := rfl
    rw [BitVec.toNat_add, half_exp_toNat, hval]
    omega
  have hfields := half_fields (s := bits raw 15 1) (e := bits raw 10 0x1F + 112) (m := raw &&& 0x3FF)
    ((half_sign_toNat raw).trans_le (halfSign_le raw)) (by omega)
      ((half_frac_toNat raw).trans_lt (halfFrac_lt raw))
  rw [half_sign_toNat, hbias, half_frac_toNat] at hfields
  unfold halfToFloat
  dsimp only
  rwa [if_neg hne, if_neg hne']

theorem halfToFloat_zero (hexp : halfExp raw = 0) (hfrac : halfFrac raw = 0) :
    (halfToFloat raw).toNat = 2 ^ 31 * halfSign raw := by
  have hs := halfSign_le raw
  have he : bits raw 10 0x1F = 0 := BitVec.eq_of_toNat_eq ((half_exp_toNat raw).trans hexp)
  have hm : raw &&& 0x3FF = 0 := BitVec.eq_of_toNat_eq ((half_frac_toNat raw).trans hfrac)
  unfold halfToFloat
  dsimp only
  rw [if_pos he, if_pos hm, BitVec.toNat_shiftLeft, half_sign_toNat, Nat.shiftLeft_eq]
  omega

theorem halfToFloat_subnormal (hexp : halfExp raw = 0) (hfrac : halfFrac raw ≠ 0) :
    ∃ k ≤ 10, 2 ^ 10 ≤ halfFrac raw * 2 ^ k ∧ halfFrac raw * 2 ^ k < 2 ^ 11 ∧
      floatSign (halfToFloat raw) = halfSign raw ∧ floatExp (halfToFloat raw) = 113 - k ∧
      floatFrac (halfToFloat raw) = (halfFrac raw * 2 ^ k - 2 ^ 10) * 2 ^ 13 := by
  have hlt := halfFrac_lt raw
  have he : bits raw 10 0x1F = 0 := BitVec.eq_of_toNat_eq ((half_exp_toNat raw).trans hexp)
  have hm : raw &&& 0x3FF ≠ 0 := fun h => hfrac ((half_frac_toNat raw).symm.trans (congrArg BitVec.toNat h))
  obtain ⟨k, hk, hmant, hdown, hlow, hhigh⟩ := normalizeHalf_spec (n := 10) le_rfl (raw &&& 0x3FF) 1
    (by rw [half_frac_toNat]; omega) (by rw [half_frac_toNat]; omega)
  rw [half_frac_toNat] at hmant hlow hhigh
  refine ⟨k, hk, hlow, hhigh, ?_⟩
  have hbias : ((normalizeHalf 10 (raw &&& 0x3FF) 1).2 + 112).toNat = 113 - k := by
    rw [hdown, w32]
    interval_cases k <;> rfl
  have hlead : ((normalizeHalf 10 (raw &&& 0x3FF) 1).1 &&& 0x3FF).toNat = halfFrac raw * 2 ^ k - 2 ^ 10 := by
    rw [half_frac_toNat, halfFrac, hmant]
    omega
  have hfields := half_fields (s := bits raw 15 1) (e := (normalizeHalf 10 (raw &&& 0x3FF) 1).2 + 112)
    (m := (normalizeHalf 10 (raw &&& 0x3FF) 1).1 &&& 0x3FF)
    ((half_sign_toNat raw).trans_le (halfSign_le raw)) (by omega) (by omega)
  rw [half_sign_toNat, hbias, hlead] at hfields
  unfold halfToFloat
  dsimp only
  rwa [if_pos he, if_neg hm]

theorem floatValue_halfToFloat (hfin : halfExp raw ≠ 31) : floatValue (halfToFloat raw) = halfValue raw := by
  by_cases hexp : halfExp raw = 0
  · by_cases hfrac : halfFrac raw = 0
    · have hword := halfToFloat_zero hexp hfrac
      obtain ⟨-, he, hf⟩ := float_fields (e := 0) (f := 0) (by decide) (by decide) hword
      simp [floatValue, halfValue, hexp, hfrac, he, hf]
    · obtain ⟨k, hk, hlow, -, hs, he, hf⟩ := halfToFloat_subnormal hexp hfrac
      have hpow : (2 : ℚ) ^ (-24 : ℤ) = 2 ^ k * 2 ^ 13 * 2 ^ (((113 - k : ℕ) : ℤ) - 150) := by
        rw [← zpow_natCast, ← zpow_natCast, ← zpow_add₀ two_ne_zero, ← zpow_add₀ two_ne_zero]
        congr 1
        omega
      have hsig : 2 ^ 23 + (halfFrac raw * 2 ^ k - 2 ^ 10) * 2 ^ 13 = halfFrac raw * 2 ^ k * 2 ^ 13 := by
        omega
      rw [floatValue, halfValue, hs, he, hf, if_neg (by omega), if_pos hexp, hsig, hpow]
      push_cast
      ring
  · obtain ⟨hs, he, hf⟩ := halfToFloat_normal hexp hfin
    have hpow : (2 : ℚ) ^ ((halfExp raw : ℤ) - 25) = 2 ^ 13 * 2 ^ (((halfExp raw + 112 : ℕ) : ℤ) - 150) := by
      rw [← zpow_natCast, ← zpow_add₀ two_ne_zero]
      congr 1
      omega
    rw [floatValue, halfValue, hs, he, hf, if_neg (by omega), if_neg hexp, hpow]
    push_cast
    ring

end unpack

section pack

variable {f : Word}

theorem floatToHalf_flushed (hexp : floatExp f ≤ 112) : (floatToHalf f).toNat = 2 ^ 15 * floatSign f := by
  have hs := floatSign_le f
  have hzero : ((bits f 31 1) <<< 15).toNat = 2 ^ 15 * floatSign f := by
    rw [BitVec.toNat_shiftLeft, bits_sign_toNat, Nat.shiftLeft_eq]
    omega
  have hne : bits f 23 0xFF ≠ 0xFF := by
    intro h
    have := (bits_exp_toNat f).symm.trans (congrArg BitVec.toNat h)
    have hval : (0xFF : Word).toNat = 255 := rfl
    omega
  have hflush : ((bits f 23 0xFF).toNat : ℤ) - 127 + 15 ≤ 0 := by
    rw [bits_exp_toNat]
    omega
  unfold floatToHalf
  dsimp only
  rw [if_neg hne, if_pos hflush, ite_self]
  exact hzero

theorem floatToHalf_normal (hlow : 113 ≤ floatExp f) (hhigh : floatExp f ≤ 142) :
    (floatToHalf f).toNat = 2 ^ 15 * floatSign f + (2 ^ 10 * (floatExp f - 112) + floatFrac f / 2 ^ 13) := by
  have hs := floatSign_le f
  have hfrac := floatFrac_lt f
  have hexp := bits_exp_toNat f
  have hne : bits f 23 0xFF ≠ 0 := by
    intro h
    rw [h] at hexp
    have hval : (0 : Word).toNat = 0 := rfl
    omega
  have hne' : bits f 23 0xFF ≠ 0xFF := by
    intro h
    rw [h] at hexp
    have hval : (0xFF : Word).toNat = 255 := rfl
    omega
  have hbiased : (BitVec.ofInt 32 ((floatExp f : ℤ) - 127 + 15)).toNat = floatExp f - 112 := by
    rw [BitVec.toNat_ofInt]
    omega
  have hmant : (bits f 13 0x3FF).toNat = floatFrac f / 2 ^ 13 := by
    rw [bits_mask_toNat f 13 10 rfl, floatFrac]
    omega
  have hword := fields_toNat 10 15 (s := bits f 31 1) (e := BitVec.ofInt 32 ((floatExp f : ℤ) - 127 + 15))
    (f := bits f 13 0x3FF) (by rw [bits_sign_toNat]; omega) (by omega) (by decide) (by omega)
  rw [bits_sign_toNat, hbiased, hmant] at hword
  unfold floatToHalf
  dsimp only
  rw [if_neg hne, if_neg hne', hexp, if_neg (by omega), if_neg (by omega)]
  exact hword

end pack

section roundTrip

variable {raw f : Word}

theorem half_of_fields {s e m : ℕ} (hs : s ≤ 1) (he : e < 32) (hm : m < 2 ^ 10)
    (hraw : raw.toNat = 2 ^ 15 * s + (2 ^ 10 * e + m)) :
    halfSign raw = s ∧ halfExp raw = e ∧ halfFrac raw = m := by
  unfold halfSign halfExp halfFrac
  omega

theorem half_fields_toNat (h : raw.toNat < 2 ^ 16) :
    raw.toNat = 2 ^ 15 * halfSign raw + (2 ^ 10 * halfExp raw + halfFrac raw) := by
  unfold halfSign halfExp halfFrac
  omega

theorem floatToHalf_halfToFloat_iff (h : raw.toNat < 2 ^ 16) (hfin : halfExp raw ≠ 31) :
    floatToHalf (halfToFloat raw) = raw ↔ halfExp raw ≠ 0 ∨ halfFrac raw = 0 := by
  have hraw := half_fields_toNat h
  have hlt := halfExp_lt raw
  rw [← BitVec.toNat_inj]
  by_cases hexp : halfExp raw = 0
  · by_cases hfrac : halfFrac raw = 0
    · obtain ⟨hs, he, -⟩ := float_fields (e := 0) (f := 0) (by decide) (by decide)
          (halfToFloat_zero hexp hfrac)
      rw [floatToHalf_flushed (by omega), hs]
      omega
    · obtain ⟨k, hk, hlow, -, hs, he, -⟩ := halfToFloat_subnormal hexp hfrac
      have hk0 : k ≠ 0 := by
        rintro rfl
        have := halfFrac_lt raw
        omega
      rw [floatToHalf_flushed (by omega), hs]
      omega
  · obtain ⟨hs, he, hf⟩ := halfToFloat_normal hexp hfin
    rw [floatToHalf_normal (by omega) (by omega), hs, he, hf, Nat.mul_div_cancel _ (by decide)]
    omega

theorem floatToHalf_lt (hlt : floatExp f ≤ 142) :
    (floatToHalf f).toNat < 2 ^ 16 ∧ halfExp (floatToHalf f) ≠ 31 := by
  have hs := floatSign_le f
  have hfrac := floatFrac_lt f
  by_cases hexp : floatExp f ≤ 112
  · have hword := floatToHalf_flushed hexp
    unfold halfExp
    omega
  · have hword := floatToHalf_normal (by omega) hlt
    unfold halfExp
    omega

theorem truncatesToHalf_of_isGreatest {x y : ℚ} (hsign : 0 ≤ x * y) (hy : |y| ∈ halfMagnitudes)
    (h : IsGreatest (magnitudes 10 (-14) ∩ Set.Iic |x|) |y|) : TruncatesToHalf x y :=
  ⟨hsign, ⟨hy, h.1.2⟩, fun _ hq => h.2 ⟨halfMagnitudes_subset hq.1, hq.2⟩⟩

theorem truncatesToHalf_zero_iff {x y : ℚ} (hx : |x| < 2 ^ (-14 : ℤ)) (hy : y = 0) :
    TruncatesToHalf x y ↔ |x| < 2 ^ (-24 : ℤ) := by
  subst hy
  constructor
  · rintro ⟨-, hgreatest⟩
    by_contra hge
    have hmem : (2 : ℚ) ^ (-24 : ℤ) ∈ halfMagnitudes := by
      refine ⟨1, by decide, ?_⟩
      have he : halfExp 1 = 0 := by decide
      have hf : halfFrac 1 = 1 := by decide
      rw [abs_halfValue, if_pos he, hf, Nat.cast_one, one_mul]
    have hle := hgreatest.2 ⟨hmem, not_lt.mp hge⟩
    rw [abs_zero] at hle
    exact absurd hle (not_le.mpr (by positivity))
  · intro hlt
    have hbin : InBinade (-14) (-14) |x| := ⟨le_rfl, .inl rfl, hx.trans (by norm_num)⟩
    have hgreatest := hbin.isGreatest_steps (p := 10) (k := 0) (by simp) (by simpa using hlt)
    apply truncatesToHalf_of_isGreatest (by simp)
    · exact ⟨0, by decide, by simp [halfValue, halfExp, halfFrac]⟩
    · simpa using hgreatest

theorem abs_floatValue_lt_65536_iff : |floatValue f| < 65536 ↔ floatExp f < 143 := by
  rw [← abs_floatValue_lt_iff (by decide)]
  norm_num

theorem abs_floatValue_lt_normal_iff : |floatValue f| < 2 ^ (-14 : ℤ) ↔ floatExp f < 113 := by
  rw [← abs_floatValue_lt_iff (by decide)]
  norm_num

theorem abs_floatValue_lt_least_iff : |floatValue f| < 2 ^ (-24 : ℤ) ↔ floatExp f < 103 := by
  rw [← abs_floatValue_lt_iff (by decide)]
  norm_num

theorem truncatesToHalf_iff (hlt : |floatValue f| < 65536) :
    TruncatesToHalf (floatValue f) (floatValue (halfToFloat (floatToHalf f))) ↔
      |floatValue f| < 2 ^ (-24 : ℤ) ∨ 2 ^ (-14 : ℤ) ≤ |floatValue f| := by
  have htop := abs_floatValue_lt_65536_iff.mp hlt
  have hs := floatSign_le f
  have hfrac := floatFrac_lt f
  rw [floatValue_halfToFloat (floatToHalf_lt (by omega)).2]
  by_cases hexp : floatExp f < 113
  · have hsmall := abs_floatValue_lt_normal_iff.mpr hexp
    obtain ⟨-, he, hf⟩ := half_of_fields (e := 0) (m := 0) hs (by decide) (by decide)
        (floatToHalf_flushed (f := f) (by omega))
    rw [truncatesToHalf_zero_iff hsmall (by simp [halfValue, he, hf])]
    exact (or_iff_left (not_le.mpr hsmall)).symm
  · have hlarge := not_lt.mp (mt abs_floatValue_lt_normal_iff.mp hexp)
    obtain ⟨hsign, he, hf⟩ := half_of_fields hs (by omega) (by omega)
        (floatToHalf_normal (f := f) (by omega) (by omega))
    have hne : floatExp f ≠ 0 := by omega
    have hne' : halfExp (floatToHalf f) ≠ 0 := by omega
    have hsteps : |halfValue (floatToHalf f)| =
        (((2 ^ 23 + floatFrac f) / 2 ^ 13 : ℕ) : ℚ) * 2 ^ ((floatExp f : ℤ) - 127 - (10 : ℕ)) := by
      have hsig : 2 ^ 10 + floatFrac f / 2 ^ 13 = (2 ^ 23 + floatFrac f) / 2 ^ 13 := by omega
      rw [abs_halfValue, if_neg hne', he, hf, hsig]
      congr 2
      omega
    have hbin : InBinade (-14) ((floatExp f : ℤ) - 127) |floatValue f| := floatValue_inBinade hne (by omega)
    have hbetween := steps_le_floatValue hne 13
    have hstep : (floatExp f : ℤ) - 150 + (13 : ℕ) = (floatExp f : ℤ) - 127 - (10 : ℕ) := by
      push_cast
      ring
    rw [hstep] at hbetween
    refine iff_of_true (truncatesToHalf_of_isGreatest ?_ ⟨_, by omega, rfl⟩ ?_) (.inr hlarge)
    · have hprod : floatValue f * halfValue (floatToHalf f) =
          |floatValue f| * |halfValue (floatToHalf f)| := by
        rw [abs_floatValue hne, abs_halfValue, floatValue, halfValue, if_neg hne, if_neg hne', hsign,
          mul_mul_mul_comm, ← mul_pow, neg_one_mul, neg_neg, one_pow, one_mul]
      rw [hprod]
      positivity
    · rw [hsteps]
      exact hbin.isGreatest_steps hbetween.1 hbetween.2

end roundTrip

end Rv32Emu
