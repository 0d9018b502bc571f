import Rv32Emu.Tensix.Unpack
import Rv32Emu.Lib.BlockFloat

namespace Rv32Emu

section fields

variable (b : Word)

def floatSign : ℕ := b.toNat / 2 ^ 31

def floatExp : ℕ := b.toNat / 2 ^ 23 % 256

def floatFrac : ℕ := b.toNat % 2 ^ 23

def floatValue : ℚ :=
  (-1) ^ floatSign b *
    if floatExp b = 0 then (floatFrac b : ℚ) * 2 ^ (-149 : ℤ)
    else ((2 ^ 23 + floatFrac b : ℕ) : ℚ) * 2 ^ ((floatExp b : ℤ) - 150)

def ZeroOrNormal : Prop := floatExp b ≠ 255 ∧ (floatExp b = 0 → floatFrac b = 0)
  deriving Decidable

theorem floatSign_le : floatSign b ≤ 1 := by
  have := b.isLt
  unfold floatSign
  omega

theorem floatExp_lt : floatExp b < 256 := Nat.mod_lt _ (by decide)

theorem floatFrac_lt : floatFrac b < 2 ^ 23 := Nat.mod_lt _ (by decide)

theorem bits_exp_toNat : (bits b 23 0xFF).toNat = floatExp b := bits_mask_toNat b 23 8 rfl

theorem and_frac_toNat : (b &&& 0x7FFFFF).toNat = floatFrac b := and_mask_toNat b 23 rfl

theorem bits_sign_toNat : (bits b 31 1).toNat = floatSign b := by
  rw [bits_mask_toNat b 31 1 rfl]
  exact Nat.mod_eq_of_lt (Nat.lt_succ_of_le (floatSign_le b))

theorem float_fields {b : Word} {s e f : ℕ} (he : e < 256) (hf : f < 2 ^ 23)
    (hb : b.toNat = 2 ^ 31 * s + (2 ^ 23 * e + f)) : floatSign b = s ∧ floatExp b = e ∧ floatFrac b = f := by
  unfold floatSign floatExp floatFrac
  omega

end fields

section encode

def bfp8Magnitude (E : ℕ) (b : Word) : ℕ := (2 ^ 23 + floatFrac b) / 2 ^ (E - floatExp b + 17)

variable {E : ℕ} {b : Word}

theorem bfp8Magnitude_lt (E : ℕ) (b : Word) : bfp8Magnitude E b < 128 := by
  have hfrac := floatFrac_lt b
  have hpow : 2 ^ 17 ≤ 2 ^ (E - floatExp b + 17) := Nat.pow_le_pow_right (by decide) (by omega)
  calc bfp8Magnitude E b ≤ (2 ^ 23 + floatFrac b) / 2 ^ 17 := Nat.div_le_div_left hpow (by decide)
    _ < 128 := by omega

theorem bfp8Mantissa_of_exp_zero (hexp : floatExp b = 0) (sharedExp : Word) :
    bfp8Mantissa sharedExp b = 0 := by
  have hb : bits b 23 0xFF = 0 := BitVec.eq_of_toNat_eq ((bits_exp_toNat b).trans hexp)
  rw [bfp8Mantissa]
  exact if_pos hb

theorem one_or_frac_toNat (b : Word) :
    (((1 : Word) <<< 23) ||| (b &&& 0x7FFFFF)).toNat = 2 ^ 23 + floatFrac b := by
  rw [BitVec.toNat_or, and_frac_toNat]
  exact (Nat.two_pow_add_eq_or_of_lt (floatFrac_lt b) 1).symm

theorem bfp8Mantissa_toNat {sharedExp : Word} (hexp : floatExp b ≠ 0) (hle : floatExp b ≤ sharedExp.toNat) :
    (bfp8Mantissa sharedExp b).toNat =
      (if bfp8Magnitude sharedExp.toNat b = 0 then 0 else floatSign b * 2 ^ 7) +
        bfp8Magnitude sharedExp.toNat b := by
  have hb : bits b 23 0xFF ≠ 0 := by
    intro h
    exact hexp ((bits_exp_toNat b).symm.trans (congrArg BitVec.toNat h))
  have hdiff : (if sharedExp.toNat > (bits b 23 0xFF).toNat then sharedExp - bits b 23 0xFF else 0).toNat =
      sharedExp.toNat - floatExp b := by
    split_ifs with h
    · rw [BitVec.toNat_sub_of_le (by rw [BitVec.le_def]; omega), bits_exp_toNat]
    · rw [bits_exp_toNat] at h
      exact (Nat.sub_eq_zero_of_le (by omega)).symm
  have hmant : ((((1 : Word) <<< 23 ||| (b &&& 0x7FFFFF)) >>> (sharedExp.toNat - floatExp b)) >>> 17).toNat =
      bfp8Magnitude sharedExp.toNat b := by
    simp only [BitVec.toNat_ushiftRight, one_or_frac_toNat, Nat.shiftRight_eq_div_pow, Nat.div_div_eq_div_mul,
      ← Nat.pow_add, bfp8Magnitude]
  have hlt := bfp8Magnitude_lt sharedExp.toNat b
  rw [bfp8Mantissa]
  simp only [if_neg hb, hdiff]
  generalize (((1 : Word) <<< 23 ||| (b &&& 0x7FFFFF)) >>> (sharedExp.toNat - floatExp b)) >>> 17 =
    mant at hmant ⊢
  rw [if_neg (by omega : ¬mant.toNat > 127)]
  by_cases hz : mant = 0
  · have hmag : bfp8Magnitude sharedExp.toNat b = 0 := by rw [← hmant, hz]; rfl
    rw [hz, hmag, if_pos rfl, if_pos rfl]
    rfl
  · have hmag : bfp8Magnitude sharedExp.toNat b ≠ 0 := by
      intro h
      exact hz (BitVec.eq_of_toNat_eq (hmant.trans h))
    have hsign := floatSign_le b
    rw [if_neg hz, if_neg hmag, BitVec.toNat_or, BitVec.toNat_shiftLeft, bits_sign_toNat, hmant,
      Nat.shiftLeft_eq, Nat.mod_eq_of_lt (by omega), Nat.mul_comm]
    exact (Nat.two_pow_add_eq_or_of_lt hlt _).symm

theorem bfp8Mantissa_lt {sharedExp : Word} (hle : floatExp b ≤ sharedExp.toNat) :
    (bfp8Mantissa sharedExp b).toNat < 256 := by
  by_cases hexp : floatExp b = 0
  · rw [bfp8Mantissa_of_exp_zero hexp]
    decide
  · have hlt := bfp8Magnitude_lt sharedExp.toNat b
    have hsign := floatSign_le b
    rw [bfp8Mantissa_toNat hexp hle]
    split_ifs <;> omega

end encode

section decode

def bfp8Decode (shExp mantB : Word) : Word :=
  let mant7 := mantB &&& 0x7F
  if mant7 ≠ 0 ∧ shExp ≠ 0 then
    ((mantB >>> 7) <<< 31) ||| (shExp <<< 23) ||| ((mant7 <<< 17) &&& 0x7FFFFF)
  else 0

theorem fields_toNat (p q : ℕ) {s e f : Word} (hs : 2 ^ q * s.toNat < 2 ^ 32)
    (he : 2 ^ p * e.toNat + f.toNat < 2 ^ q) (hq : q < 32) (hf : f.toNat < 2 ^ p) :
    (s <<< q ||| e <<< p ||| f).toNat = 2 ^ q * s.toNat + (2 ^ p * e.toNat + f.toNat) := by
  have hword : 2 ^ q < 2 ^ 32 := Nat.pow_lt_pow_right (by decide) hq
  rw [BitVec.or_assoc, BitVec.toNat_or, BitVec.toNat_or, BitVec.toNat_shiftLeft, BitVec.toNat_shiftLeft,
    Nat.shiftLeft_eq, Nat.shiftLeft_eq, Nat.mul_comm _ (2 ^ q), Nat.mul_comm _ (2 ^ p), Nat.mod_eq_of_lt hs,
    Nat.mod_eq_of_lt (by omega), Nat.two_pow_add_eq_or_of_lt he, Nat.two_pow_add_eq_or_of_lt hf]

@[simp] theorem floatValue_zero : floatValue 0 = 0 := by simp [floatValue, floatExp, floatFrac]

variable {shExp mantB : Word} {s m : ℕ}

theorem bfp8Decode_of_zero (hm : mantB.toNat % 128 = 0) : bfp8Decode shExp mantB = 0 := by
  have hz : mantB &&& 0x7F = 0 := BitVec.eq_of_toNat_eq ((and_mask_toNat mantB 7 rfl).trans hm)
  exact if_neg fun h => h.1 hz

theorem bfp8Decode_value (hexp : shExp.toNat < 256) (hnz : shExp.toNat ≠ 0) (hs : s ≤ 1) (hm : m < 128)
    (hm0 : m ≠ 0) (hb : mantB.toNat = s * 2 ^ 7 + m) :
    floatValue (bfp8Decode shExp mantB) = (-1) ^ s *
      (((64 + m % 64 : ℕ) : ℚ) * 2 ^ ((shExp.toNat : ℤ) - 133)) := by
  have hmant : (mantB &&& 0x7F).toNat = m := by
    rw [and_mask_toNat mantB 7 rfl]
    omega
  have hsign : (mantB >>> 7).toNat = s := by
    rw [BitVec.toNat_ushiftRight, Nat.shiftRight_eq_div_pow]
    omega
  have hfrac : (((mantB &&& 0x7F) <<< 17) &&& 0x7FFFFF).toNat = m % 64 * 2 ^ 17 := by
    rw [and_frac_toNat, floatFrac, BitVec.toNat_shiftLeft, hmant, Nat.shiftLeft_eq]
    omega
  have hne : mantB &&& 0x7F ≠ 0 ∧ shExp ≠ 0 := by
    constructor
    · intro h
      exact hm0 (hmant.symm.trans (congrArg BitVec.toNat h))
    · rintro rfl
      exact hnz rfl
  have hword :=
    fields_toNat 23 31 (s := mantB >>> 7) (e := shExp) (f := ((mantB &&& 0x7F) <<< 17) &&& 0x7FFFFF)
    (by omega) (by omega) (by decide) (by omega)
  rw [hsign, hfrac] at hword
  rw [bfp8Decode, if_pos hne]
  generalize (mantB >>> 7) <<< 31 ||| shExp <<< 23 ||| ((mantB &&& 0x7F) <<< 17) &&& 0x7FFFFF = w at hword ⊢
  obtain ⟨hws, hwe, hwf⟩ := float_fields hexp (by omega) hword
  have hpow : (2 : ℚ) ^ ((shExp.toNat : ℤ) - 133) = 2 ^ 17 * 2 ^ ((shExp.toNat : ℤ) - 150) := by
    rw [← zpow_natCast, ← zpow_add₀ two_ne_zero]
    congr 1
    push_cast
    ring
  rw [floatValue, hws, hwe, if_neg hnz, hwf, hpow]
  push_cast
  ring

end decode

section roundTrip

variable {E : ℕ} {b : Word}

theorem floatValue_of_exp_zero (hb : ZeroOrNormal b) (hexp : floatExp b = 0) : floatValue b = 0 := by
  simp [floatValue, hexp, hb.2 hexp]

theorem floatValue_eq_steps (hexp : floatExp b ≠ 0) (hle : floatExp b ≤ E) :
    floatValue b =
      (-1) ^ floatSign b *
        (((2 ^ 23 + floatFrac b : ℕ) : ℚ) / (2 ^ (E - floatExp b + 17) : ℕ) * 2 ^ ((E : ℤ) - 133)) := by
  have hpow : (2 : ℚ) ^ ((E : ℤ) - 133) = (2 ^ (E - floatExp b + 17) : ℕ) * 2 ^ ((floatExp b : ℤ) - 150) := by
    rw [Nat.cast_pow, Nat.cast_ofNat, ← zpow_natCast, ← zpow_add₀ two_ne_zero]
    congr 1
    omega
  have hne : ((2 ^ (E - floatExp b + 17) : ℕ) : ℚ) ≠ 0 := by positivity
  rw [floatValue, if_neg hexp, hpow, ← mul_assoc (_ / _), div_mul_cancel₀ _ hne]

theorem truncTo_floatValue (hexp : floatExp b ≠ 0) (hle : floatExp b ≤ E) :
    truncTo (floatValue b) (2 ^ ((E : ℤ) - 133)) =
      (-1) ^ floatSign b * (bfp8Magnitude E b * 2 ^ ((E : ℤ) - 133)) := by
  have hpos : (0 : ℚ) < 2 ^ ((E : ℤ) - 133) := by positivity
  rw [floatValue_eq_steps hexp hle]
  obtain hs | hs : floatSign b = 0 ∨ floatSign b = 1 := by
    have := floatSign_le b
    omega
  · rw [hs, pow_zero, one_mul, one_mul]
    exact truncTo_div hpos _ _
  · rw [hs, pow_one, neg_one_mul, neg_one_mul, truncTo_neg]
    exact congrArg Neg.neg (truncTo_div hpos _ _)

def Truncates (E : ℕ) (b out : Word) : Prop := floatValue out = truncTo (floatValue b) (2 ^ ((E : ℤ) - 133))

theorem Truncates.abs_sub_lt {out : Word} (h : Truncates E b out) :
    |floatValue b - floatValue out| < 2 ^ ((E : ℤ) - 133) := by
  rw [h]
  exact abs_sub_truncTo_lt (by positivity) _

theorem bfp8Magnitude_eq_zero_iff (E : ℕ) (b : Word) : bfp8Magnitude E b = 0 ↔ floatExp b + 7 ≤ E := by
  have hfrac := floatFrac_lt b
  rw [bfp8Magnitude, shifted_eq_zero_iff (p := 23) (by omega) (by omega)]
  omega

theorem leading_le_bfp8Magnitude_iff (hle : floatExp b ≤ E) : 64 ≤ bfp8Magnitude E b ↔ floatExp b = E := by
  have hfrac := floatFrac_lt b
  rw [bfp8Magnitude, show 64 = 2 ^ 6 from rfl,
    leading_le_shifted_iff (p := 6) (q := 17) (by omega) (by omega)]
  omega

theorem steps_inj {s : ℕ} {x y : ℚ} :
    (-1) ^ s * (x * 2 ^ ((E : ℤ) - 133)) = (-1) ^ s * (y * 2 ^ ((E : ℤ) - 133)) ↔ x = y := by
  have hpos : (0 : ℚ) < 2 ^ ((E : ℤ) - 133) := by positivity
  constructor
  · intro h
    exact mul_right_cancel₀ hpos.ne' (mul_left_cancel₀ (pow_ne_zero s (by norm_num)) h)
  · rintro rfl
    rfl

theorem truncates_zero_iff (hb : ZeroOrNormal b) (hle : floatExp b ≤ E) :
    Truncates E b 0 ↔ floatExp b = 0 ∨ floatExp b + 7 ≤ E := by
  rw [Truncates, floatValue_zero]
  by_cases hexp : floatExp b = 0
  · simp [hexp, floatValue_of_exp_zero hb hexp]
  have hzero : (0 : ℚ) = (-1) ^ floatSign b * ((0 : ℕ) * 2 ^ ((E : ℤ) - 133)) := by simp
  rw [truncTo_floatValue hexp hle, hzero, steps_inj, Nat.cast_inj, eq_comm, bfp8Magnitude_eq_zero_iff]
  simp [hexp]

theorem truncates_decode_iff {sharedExp : Word} (hb : ZeroOrNormal b) (hE : sharedExp.toNat < 256)
    (hle : floatExp b ≤ sharedExp.toNat) :
    Truncates sharedExp.toNat b (bfp8Decode sharedExp (bfp8Mantissa sharedExp b)) ↔
      floatExp b = 0 ∨ floatExp b + 7 ≤ sharedExp.toNat ∨ floatExp b = sharedExp.toNat := by
  by_cases hexp : floatExp b = 0
  · rw [bfp8Mantissa_of_exp_zero hexp, bfp8Decode_of_zero rfl, truncates_zero_iff hb hle]
    simp [hexp]
  have hmant := bfp8Mantissa_toNat hexp hle
  by_cases hm : bfp8Magnitude sharedExp.toNat b = 0
  · rw [hm, if_pos rfl] at hmant
    rw [bfp8Decode_of_zero (by omega), truncates_zero_iff hb hle]
    have hsmall := (bfp8Magnitude_eq_zero_iff _ _).mp hm
    simp [hsmall]
  · have hlarge := mt (bfp8Magnitude_eq_zero_iff _ _).mpr hm
    have hlt := bfp8Magnitude_lt sharedExp.toNat b
    have hlead := leading_le_bfp8Magnitude_iff hle
    rw [if_neg hm] at hmant
    rw [Truncates, bfp8Decode_value hE (by omega) (floatSign_le b) hlt hm hmant,
      truncTo_floatValue hexp hle, steps_inj, Nat.cast_inj]
    omega

end roundTrip

end Rv32Emu
