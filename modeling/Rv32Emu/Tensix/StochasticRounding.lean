import Rv32Emu.Tensix.Half
import Rv32Emu.Tensix.Lanes

namespace Rv32Emu

section pattern

variable {w x : Word}

theorem abs_floatValue_of_pattern {s e f : ℕ} (he : e ≠ 0) (he' : e < 255) (hf : f ≤ 2 ^ 23)
    (hw : w.toNat = 2 ^ 31 * s + (2 ^ 23 * e + f)) :
    floatSign w = s ∧ |floatValue w| = ((2 ^ 23 + f : ℕ) : ℚ) * 2 ^ ((e : ℤ) - 150) := by
  rcases hf.eq_or_lt with hcarry | hlt
  · obtain ⟨hsign, hexp, hfrac⟩ := float_fields (b := w) (s := s) (e := e + 1) (f := 0) (by omega)
        (by decide) (by omega)
    have hpow : (2 : ℚ) ^ (((e + 1 : ℕ) : ℤ) - 150) = 2 * 2 ^ ((e : ℤ) - 150) := by
      rw [← zpow_one_add₀ two_ne_zero]
      congr 1
      push_cast
      ring
    have htwice : 2 ^ 23 + f = (2 ^ 23 + 0) * 2 := by omega
    refine ⟨hsign, ?_⟩
    rw [abs_floatValue (by omega), hexp, hfrac, hpow, htwice, Nat.cast_mul, Nat.cast_ofNat, mul_assoc]
  · obtain ⟨hsign, hexp, hfrac⟩ := float_fields (by omega) hlt hw
    refine ⟨hsign, ?_⟩
    rw [abs_floatValue (by omega), hexp, hfrac]

end pattern

section neighbours

variable {x : Word} {p d : ℕ}

def discarded (d : ℕ) (x : Word) : ℕ := floatFrac x % 2 ^ d

def keptSteps (d : ℕ) (x : Word) : ℕ := (2 ^ 23 + floatFrac x) / 2 ^ d

def stepOf (p : ℕ) (x : Word) : ℚ := 2 ^ ((floatExp x : ℤ) - 127 - p)

theorem discarded_add_kept (hd : d ≤ 23) (x : Word) :
    keptSteps d x * 2 ^ d + discarded d x = 2 ^ 23 + floatFrac x := by
  have hmod : (2 ^ 23 + floatFrac x) % 2 ^ d = floatFrac x % 2 ^ d := by
    rw [Nat.add_mod, Nat.mod_eq_zero_of_dvd (Nat.pow_dvd_pow 2 hd), Nat.zero_add, Nat.mod_mod]
  rw [keptSteps, discarded, ← hmod]
  exact Nat.div_add_mod' ..

theorem discarded_lt (d : ℕ) (x : Word) : discarded d x < 2 ^ d := Nat.mod_lt _ (Nat.two_pow_pos d)

theorem stepOf_pos (p : ℕ) (x : Word) : 0 < stepOf p x := by
  unfold stepOf
  positivity

theorem stepOf_eq (hpd : p + d = 23) (x : Word) :
    stepOf p x = ((2 ^ d : ℕ) : ℚ) * 2 ^ ((floatExp x : ℤ) - 150) := by
  have hexp : (floatExp x : ℤ) - 127 - p - d = (floatExp x : ℤ) - 150 := by omega
  rw [stepOf, two_zpow_eq_steps d, hexp]

theorem abs_floatValue_eq_kept (hexp : floatExp x ≠ 0) (hpd : p + d = 23) :
    |floatValue x| = keptSteps d x * stepOf p x + discarded d x * 2 ^ ((floatExp x : ℤ) - 150) := by
  rw [abs_floatValue hexp, ← discarded_add_kept (d := d) (by omega), stepOf_eq hpd]
  push_cast
  ring

theorem kept_isGreatest (hexp : floatExp x ≠ 0) (hpd : p + d = 23) :
    IsGreatest (magnitudes p (-126) ∩ Set.Iic |floatValue x|) (keptSteps d x * stepOf p x) := by
  have hlt : ((discarded d x : ℕ) : ℚ) < ((2 ^ d : ℕ) : ℚ) := by exact_mod_cast discarded_lt d x
  have hunit : (0 : ℚ) < 2 ^ ((floatExp x : ℤ) - 150) := by positivity
  apply (floatValue_inBinade hexp (by omega)).isGreatest_steps
  · rw [abs_floatValue_eq_kept hexp hpd]
    exact le_add_of_nonneg_right (by positivity)
  · have hstep := mul_lt_mul_of_pos_right hlt hunit
    rw [← stepOf_eq hpd] at hstep
    change _ < _ * stepOf p x
    rw [abs_floatValue_eq_kept hexp hpd]
    push_cast
    linarith

theorem kept_succ_isLeast (hexp : floatExp x ≠ 0) (hpd : p + d = 23) (hne : discarded d x ≠ 0) :
    IsLeast (magnitudes p (-126) ∩ Set.Ici |floatValue x|) (((keptSteps d x + 1 : ℕ) : ℚ) * stepOf p x) := by
  have hlt : ((discarded d x : ℕ) : ℚ) < ((2 ^ d : ℕ) : ℚ) := by exact_mod_cast discarded_lt d x
  have hpos : (0 : ℚ) < discarded d x := by exact_mod_cast Nat.pos_of_ne_zero hne
  have hunit : (0 : ℚ) < 2 ^ ((floatExp x : ℤ) - 150) := by positivity
  apply (floatValue_inBinade hexp (by omega)).isLeast_steps
  · change _ * stepOf p x < _
    rw [abs_floatValue_eq_kept hexp hpd]
    exact lt_add_of_pos_right _ (by positivity)
  · have hstep := mul_lt_mul_of_pos_right hlt hunit
    rw [← stepOf_eq hpd] at hstep
    change _ ≤ _ * stepOf p x
    rw [abs_floatValue_eq_kept hexp hpd]
    push_cast
    linarith

theorem mem_magnitudes_iff (hexp : floatExp x ≠ 0) (hpd : p + d = 23) :
    |floatValue x| ∈ magnitudes p (-126) ↔ discarded d x = 0 := by
  constructor
  · intro hmem
    have hself : |floatValue x| ≤ keptSteps d x * stepOf p x :=
      (kept_isGreatest hexp hpd).2 ⟨hmem, Set.mem_Iic.mpr le_rfl⟩
    rw [abs_floatValue_eq_kept hexp hpd] at hself
    by_contra hne
    have hpos : (0 : ℚ) < discarded d x := by exact_mod_cast Nat.pos_of_ne_zero hne
    have hunit : (0 : ℚ) < discarded d x * 2 ^ ((floatExp x : ℤ) - 150) := by positivity
    linarith
  · intro hzero
    rw [abs_floatValue_eq_kept hexp hpd, hzero, Nat.cast_zero, zero_mul, add_zero]
    exact (kept_isGreatest hexp hpd).1.1

end neighbours

section rounding

variable {x mask threshold ulp : Word} {p d : ℕ}

def roundedSteps (d : ℕ) (x : Word) (t : ℕ) : ℕ :=
  if t ≤ discarded d x then keptSteps d x + 1 else keptSteps d x

theorem keptSteps_bounds (hd : d ≤ 23) (x : Word) :
    2 ^ 23 ≤ keptSteps d x * 2 ^ d ∧ (keptSteps d x + 1) * 2 ^ d ≤ 2 ^ 24 := by
  have hfrac := floatFrac_lt x
  have hlow : 2 ^ 23 = 2 ^ (23 - d) * 2 ^ d := by rw [← Nat.pow_add, Nat.sub_add_cancel hd]
  have hhigh : 2 ^ 24 = 2 ^ (24 - d) * 2 ^ d := by rw [← Nat.pow_add, Nat.sub_add_cancel (by omega)]
  constructor
  · rw [hlow]
    apply Nat.mul_le_mul_right
    rw [keptSteps, Nat.le_div_iff_mul_le (Nat.two_pow_pos d), ← hlow]
    exact Nat.le_add_right ..
  · rw [hhigh]
    apply Nat.mul_le_mul_right
    rw [Nat.succ_le_iff, keptSteps, Nat.div_lt_iff_lt_mul (Nat.two_pow_pos d), ← hhigh]
    omega

theorem roundedSteps_bounds (hd : d ≤ 23) (x : Word) (t : ℕ) :
    2 ^ 23 ≤ roundedSteps d x t * 2 ^ d ∧ roundedSteps d x t * 2 ^ d ≤ 2 ^ 24 := by
  obtain ⟨hlow, hhigh⟩ := keptSteps_bounds hd x
  have hpos := Nat.two_pow_pos d
  rw [Nat.add_mul, Nat.one_mul] at hhigh
  unfold roundedSteps
  split_ifs
  · rw [Nat.add_mul, Nat.one_mul]
    omega
  · omega

theorem float_fields_toNat (x : Word) :
    x.toNat = 2 ^ 31 * floatSign x + (2 ^ 23 * floatExp x + floatFrac x) := by
  unfold floatSign floatExp floatFrac
  omega

theorem and_discarded (hd : d ≤ 23) (hmask : mask.toNat = 2 ^ d - 1) :
    (x &&& mask).toNat = discarded d x := by
  rw [and_mask_toNat x d hmask, discarded, floatFrac, Nat.mod_mod_of_dvd _ (Nat.pow_dvd_pow 2 hd)]

theorem roundMantissa_toNat (threshold : Word) (hexp : floatExp x < 255) (hd : d ≤ 23)
    (hmask : mask.toNat = 2 ^ d - 1) (hulp : ulp.toNat = 2 ^ d) :
    (roundMantissa x mask threshold ulp).toNat =
      2 ^ 31 * floatSign x + (2 ^ 23 * floatExp x + (roundedSteps d x threshold.toNat * 2 ^ d - 2 ^ 23)) := by
  have hsign := floatSign_le x
  have hx := float_fields_toNat x
  have hkept := discarded_add_kept hd x
  have hdisc : (x &&& mask).toNat = discarded d x := and_discarded hd hmask
  obtain ⟨hlow, hhigh⟩ := keptSteps_bounds hd x
  rw [Nat.add_mul, Nat.one_mul] at hhigh
  have hdown : (x - (x &&& mask)).toNat =
      2 ^ 31 * floatSign x + (2 ^ 23 * floatExp x + (keptSteps d x * 2 ^ d - 2 ^ 23)) := by
    rw [BitVec.toNat_sub_of_le (by rw [BitVec.le_def, hdisc]; omega), hdisc]
    omega
  unfold roundMantissa roundedSteps
  dsimp only
  rw [hdisc]
  split_ifs
  · rw [BitVec.toNat_add, hdown, hulp, Nat.add_mul, Nat.one_mul]
    omega
  · exact hdown

theorem abs_roundMantissa (hexp : floatExp x ≠ 0) (hexp' : floatExp x < 255) (hpd : p + d = 23)
    (hmask : mask.toNat = 2 ^ d - 1) (hulp : ulp.toNat = 2 ^ d) :
    floatSign (roundMantissa x mask threshold ulp) = floatSign x ∧
      |floatValue (roundMantissa x mask threshold ulp)| = roundedSteps d x threshold.toNat * stepOf p x := by
  obtain ⟨hlow, hhigh⟩ := roundedSteps_bounds (d := d) (by omega) x threshold.toNat
  obtain ⟨hsign, hvalue⟩ := abs_floatValue_of_pattern hexp hexp' (by omega)
    (roundMantissa_toNat threshold hexp' (by omega) hmask hulp)
  refine ⟨hsign, ?_⟩
  rw [hvalue, Nat.add_sub_cancel' hlow, stepOf_eq hpd]
  push_cast
  ring

/-- A correct rounding of `x` to `p` fraction bits, where mode 2 is toward zero and mode 0 to nearest
with ties away from zero. An infinity counts as 2^128, the next step above the finite floats. -/
structure RoundsTo (p : ℕ) (mode x out : Word) : Prop where
  sign : floatSign out = floatSign x
  neighbour : IsGreatest (magnitudes p (-126) ∩ Set.Iic |floatValue x|) |floatValue out| ∨
    IsLeast (magnitudes p (-126) ∩ Set.Ici |floatValue x|) |floatValue out|
  exact : |floatValue x| ∈ magnitudes p (-126) → out = x
  towardZero : mode = 2 → IsGreatest (magnitudes p (-126) ∩ Set.Iic |floatValue x|) |floatValue out|
  nearest : mode = 0 → ∀ lo hi, IsGreatest (magnitudes p (-126) ∩ Set.Iic |floatValue x|) lo →
    IsLeast (magnitudes p (-126) ∩ Set.Ici |floatValue x|) hi →
    |floatValue out| = if |floatValue x| - lo < hi - |floatValue x| then lo else hi

structure RoundsAt (p d t : ℕ) (x out : Word) : Prop where
  widths : p + d = 23
  normal : floatExp x ≠ 0
  sign : floatSign out = floatSign x
  value : |floatValue out| = roundedSteps d x t * stepOf p x
  kept : t ≠ 0 → discarded d x = 0 → out = x

theorem roundMantissa_roundsAt (hexp : floatExp x ≠ 0) (hfin : floatExp x < 255) (hpd : p + d = 23)
    (hmask : mask.toNat = 2 ^ d - 1) (hulp : ulp.toNat = 2 ^ d) :
    RoundsAt p d threshold.toNat x (roundMantissa x mask threshold ulp) := by
  obtain ⟨hsign, hvalue⟩ := abs_roundMantissa hexp hfin hpd hmask hulp
  refine ⟨hpd, hexp, hsign, hvalue, fun ht hzero => ?_⟩
  have hsteps : roundedSteps d x threshold.toNat = keptSteps d x := if_neg (by omega)
  have hkept := discarded_add_kept (d := d) (by omega) x
  have hfields := float_fields_toNat x
  apply BitVec.eq_of_toNat_eq
  rw [roundMantissa_toNat threshold hfin (by omega) hmask hulp, hsteps]
  omega

namespace RoundsAt

variable {t : ℕ} {out mode : Word}

theorem exact_iff (h : RoundsAt p d t x out) (hzero : discarded d x = 0) : RoundsTo p mode x out ↔ t ≠ 0 := by
  have hmem := (mem_magnitudes_iff h.normal h.widths).mpr hzero
  constructor
  · rintro hr rfl
    have hsame := congrArg (fun w => |floatValue w|) (hr.exact hmem)
    have hself := abs_floatValue_eq_kept h.normal h.widths
    rw [hzero, Nat.cast_zero, zero_mul, add_zero] at hself
    have hvalue := h.value
    rw [roundedSteps, if_pos (Nat.zero_le _)] at hvalue
    rw [hvalue, hself] at hsame
    have hpos := stepOf_pos p x
    push_cast at hsame
    linarith
  · intro ht
    obtain rfl := h.kept ht hzero
    have hgreatest : IsGreatest (magnitudes p (-126) ∩ Set.Iic |floatValue out|) |floatValue out| :=
      ⟨⟨hmem, Set.mem_Iic.mpr le_rfl⟩, fun _ hq => hq.2⟩
    have hleast : IsLeast (magnitudes p (-126) ∩ Set.Ici |floatValue out|) |floatValue out| :=
      ⟨⟨hmem, Set.mem_Ici.mpr le_rfl⟩, fun _ hq => hq.2⟩
    refine ⟨rfl, .inl hgreatest, fun _ => rfl, fun _ => hgreatest, fun _ lo hi hlo hhi => ?_⟩
    rw [hlo.unique hgreatest, hhi.unique hleast, ite_self]

theorem closer_iff (h : RoundsAt p d t x out) :
    |floatValue x| - keptSteps d x * stepOf p x <
      ((keptSteps d x + 1 : ℕ) : ℚ) * stepOf p x - |floatValue x| ↔
      2 * discarded d x < 2 ^ d := by
  have hunit : (0 : ℚ) < 2 ^ ((floatExp x : ℤ) - 150) := by positivity
  have hdiff : (((keptSteps d x + 1 : ℕ) : ℚ) * stepOf p x - |floatValue x|) -
      (|floatValue x| - keptSteps d x * stepOf p x) =
      (((2 ^ d : ℕ) : ℚ) - ((2 * discarded d x : ℕ) : ℚ)) * 2 ^ ((floatExp x : ℤ) - 150) := by
    rw [abs_floatValue_eq_kept h.normal h.widths, stepOf_eq h.widths]
    push_cast
    ring
  rw [← sub_pos, hdiff, mul_pos_iff_of_pos_right hunit, sub_pos, Nat.cast_lt]

theorem inexact_iff (h : RoundsAt p d t x out) (hne : discarded d x ≠ 0) :
    RoundsTo p mode x out ↔
      if t ≤ discarded d x then mode ≠ 2 ∧ (mode = 0 → 2 ^ d ≤ 2 * discarded d x)
      else mode = 0 → 2 * discarded d x < 2 ^ d := by
  have hlo := kept_isGreatest h.normal h.widths
  have hhi := kept_succ_isLeast h.normal h.widths hne
  have hcloser := h.closer_iff
  have hvalue := h.value
  have hexact : |floatValue x| ∈ magnitudes p (-126) → out = x :=
    fun hmem => absurd ((mem_magnitudes_iff h.normal h.widths).mp hmem) hne
  have hstep := stepOf_pos p x
  have hapart : ((keptSteps d x + 1 : ℕ) : ℚ) * stepOf p x ≠ keptSteps d x * stepOf p x := by
    push_cast
    linarith
  unfold roundedSteps at hvalue
  by_cases hup : t ≤ discarded d x
  · rw [if_pos hup] at hvalue
    rw [if_pos hup]
    constructor
    · intro hr
      refine ⟨fun hmode => hapart ?_, fun hmode => ?_⟩
      · rw [← hvalue]
        exact (hr.towardZero hmode).unique hlo
      · by_contra hlt
        have hnear := hr.nearest hmode _ _ hlo hhi
        rw [if_pos (hcloser.mpr (not_le.mp hlt)), hvalue] at hnear
        exact hapart hnear
    · rintro ⟨hnot, hnear⟩
      refine ⟨h.sign, .inr (hvalue ▸ hhi), hexact, fun hmode => absurd hmode hnot,
        fun hmode lo hi hlo' hhi' => ?_⟩
      rw [hlo'.unique hlo, hhi'.unique hhi, if_neg (mt hcloser.mp (not_lt.mpr (hnear hmode))), hvalue]
  · rw [if_neg hup] at hvalue
    rw [if_neg hup]
    constructor
    · intro hr hmode
      by_contra hge
      have hnear := hr.nearest hmode _ _ hlo hhi
      rw [if_neg (mt hcloser.mp hge), hvalue] at hnear
      exact hapart hnear.symm
    · intro hnear
      refine ⟨h.sign, .inl (hvalue ▸ hlo), hexact, fun _ => hvalue ▸ hlo, fun hmode lo hi hlo' hhi' => ?_⟩
      rw [hlo'.unique hlo, hhi'.unique hhi, if_pos (hcloser.mpr (hnear hmode)), hvalue]

end RoundsAt

end rounding

section instruction

variable {s : Sfpu} {imm x random : Word} {lane p d : ℕ}

def rndMode (imm : Word) : Word := bits imm 21 0x7

def keptBits (imm : Word) : ℕ := if (imm &&& 0xF).toNat = 0 then 10 else 7

def stochThreshold (d : ℕ) (random : Word) : ℕ := random.toNat % 2 ^ 23 / 2 ^ (23 - d)

/-- The discarded bits do not meet the threshold by chance: toward zero they are not all ones, and a random
threshold is not zero when nothing is discarded. -/
def RoundsWell (d : ℕ) (mode x random : Word) : Prop :=
  mode = 0 ∨ mode = 2 ∧ discarded d x ≠ 2 ^ d - 1 ∨
    mode ≠ 0 ∧ mode ≠ 2 ∧ (discarded d x ≠ 0 ∨ stochThreshold d random ≠ 0)

def prngBits (mode random : Word) : Word :=
  if mode = 0 then 0x400000 else if mode = 2 then 0x7fffff else random &&& 0x7fffff

theorem prngBits_threshold (hd : d ≤ 23) (hpos : d ≠ 0) (mode random : Word) :
    (prngBits mode random >>> (23 - d)).toNat =
      if mode = 0 then 2 ^ (d - 1) else if mode = 2 then 2 ^ d - 1 else stochThreshold d random := by
  have hpow : 2 ^ 23 = 2 ^ d * 2 ^ (23 - d) := by rw [← Nat.pow_add, Nat.add_sub_cancel' hd]
  rw [BitVec.toNat_ushiftRight, Nat.shiftRight_eq_div_pow]
  unfold prngBits
  split_ifs
  · have hhalf : (0x400000 : Word).toNat = 2 ^ (d - 1) * 2 ^ (23 - d) := by
      rw [← Nat.pow_add, show d - 1 + (23 - d) = 22 by omega]
      rfl
    rw [hhalf, Nat.mul_div_cancel _ (Nat.two_pow_pos _)]
  · have hones : (0x7fffff : Word).toNat = 2 ^ d * 2 ^ (23 - d) - 1 := by
      rw [← hpow]
      rfl
    rw [hones, Nat.mul_comm, Nat.mul_sub_div _ _ _ (by positivity)]
    simp
  · rw [and_mask_toNat random 23 rfl]
    rfl

theorem two_pow_half (hd : d ≠ 0) : 2 ^ d = 2 * 2 ^ (d - 1) := by
  rw [← Nat.pow_succ', Nat.succ_eq_add_one, Nat.sub_add_cancel (Nat.pos_of_ne_zero hd)]

namespace RoundsAt

variable {t : ℕ} {out mode : Word}

theorem nearest (h : RoundsAt p d (2 ^ (d - 1)) x out) (hd : d ≠ 0) : RoundsTo p 0 x out := by
  have hhalf := two_pow_half hd
  have hpos := Nat.two_pow_pos (d - 1)
  by_cases hzero : discarded d x = 0
  · exact (h.exact_iff hzero).mpr (by omega)
  · rw [h.inexact_iff hzero]
    split_ifs
    · exact ⟨by decide, fun _ => by omega⟩
    · exact fun _ => by omega

theorem towardZero_iff (h : RoundsAt p d (2 ^ d - 1) x out) (hd : d ≠ 0) :
    RoundsTo p 2 x out ↔ discarded d x ≠ 2 ^ d - 1 := by
  have hhalf := two_pow_half hd
  have hpos := Nat.two_pow_pos (d - 1)
  have hlt := discarded_lt d x
  by_cases hzero : discarded d x = 0
  · rw [h.exact_iff hzero, hzero]
    exact ne_comm
  · rw [h.inexact_iff hzero]
    split_ifs
    · exact iff_of_false (fun hand => hand.1 rfl) (by omega)
    · exact iff_of_true (fun hmode => absurd hmode (by decide)) (by omega)

theorem stochastic_iff (h : RoundsAt p d t x out) (hnear : mode ≠ 0) (htoward : mode ≠ 2) :
    RoundsTo p mode x out ↔ discarded d x ≠ 0 ∨ t ≠ 0 := by
  by_cases hzero : discarded d x = 0
  · rw [h.exact_iff hzero, or_iff_right (not_not.mpr hzero)]
  · rw [h.inexact_iff hzero]
    refine iff_of_true ?_ (.inl hzero)
    split_ifs
    · exact ⟨htoward, fun hmode => absurd hmode hnear⟩
    · exact fun hmode => absurd hmode hnear

theorem roundsTo_iff (h : RoundsAt p d t x out) (hd : d ≠ 0)
    (ht : t = if mode = 0 then 2 ^ (d - 1) else if mode = 2 then 2 ^ d - 1 else stochThreshold d random) :
    RoundsTo p mode x out ↔ RoundsWell d mode x random := by
  unfold RoundsWell
  by_cases hnear : mode = 0
  · subst hnear
    rw [if_pos rfl] at ht
    subst ht
    exact iff_of_true (h.nearest hd) (.inl rfl)
  · rw [if_neg hnear] at ht
    rw [or_iff_right hnear]
    by_cases htoward : mode = 2
    · subst htoward
      rw [if_pos rfl] at ht
      subst ht
      rw [h.towardZero_iff hd, or_iff_left fun hand => hand.2.1 rfl]
      exact (and_iff_right rfl).symm
    · rw [if_neg htoward] at ht
      subst ht
      have hrandom :=
        (and_iff_right hnear).trans (and_iff_right htoward) (c := discarded d x ≠ 0 ∨
          stochThreshold d random ≠ 0)
      rw [h.stochastic_iff hnear htoward, hrandom, or_iff_right fun hand : mode = 2 ∧ _ => htoward hand.1]

end RoundsAt

theorem stochRounded_eq (hmod : (imm &&& 0xF).toNat ≤ 1) (hexp : bits x 23 0xFF ≠ 0)
    (hfin : bits x 23 0xFF ≠ 0xFF) :
    stochRounded imm random x =
      if (imm &&& 0xF).toNat = 0 then roundMantissa x 0x1fff (prngBits (rndMode imm) random >>> 10) 0x2000
      else roundMantissa x 0xffff (prngBits (rndMode imm) random >>> 7) 0x10000 := by
  unfold stochRounded
  dsimp only
  rw [if_neg (by omega), if_neg hexp, if_neg hfin]
  rfl

theorem stochRounded_roundsAt (hmod : (imm &&& 0xF).toNat ≤ 1) (hexp : floatExp x ≠ 0)
    (hfin : floatExp x ≠ 255) :
    RoundsAt (keptBits imm) (23 - keptBits imm)
      (prngBits (rndMode imm) random >>> (23 - (23 - keptBits imm))).toNat x (stochRounded imm random x) := by
  have hlt := floatExp_lt x
  have hne : bits x 23 0xFF ≠ 0 := fun h => hexp ((bits_exp_toNat x).symm.trans (congrArg BitVec.toNat h))
  have hne' : bits x 23 0xFF ≠ 0xFF := fun h => hfin ((bits_exp_toNat x).symm.trans (congrArg BitVec.toNat h))
  rw [stochRounded_eq hmod hne hne']
  rcases Nat.le_one_iff_eq_zero_or_eq_one.mp hmod with hmod | hmod
  · have hkept : keptBits imm = 10 := if_pos hmod
    have hmask : (0x1fff : Word).toNat = 2 ^ 13 - 1 := rfl
    have hulp : (0x2000 : Word).toNat = 2 ^ 13 := rfl
    rw [hkept, if_pos hmod]
    exact roundMantissa_roundsAt (p := 10) hexp (by omega) (by decide) hmask hulp
  · have hkept : keptBits imm = 7 := if_neg (by omega)
    have hmask : (0xffff : Word).toNat = 2 ^ 16 - 1 := rfl
    have hulp : (0x10000 : Word).toNat = 2 ^ 16 := rfl
    rw [hkept, if_neg (by omega)]
    exact roundMantissa_roundsAt (p := 7) hexp (by omega) (by decide) hmask hulp

theorem sfpstochrnd_lreg (s : Sfpu) (imm : Word) (lane : ℕ) (hvd : fieldVd imm < 8)
    (hlane : lane < lregLanes) (hon : s.laneEnabled lane = true) :
    (sfpstochrnd s imm).lreg (fieldVd imm) lane =
      stochRounded imm (s.prngState lane) (s.lreg (fieldVc imm) lane) := by
  have hwritable : lregWritable (fieldVd imm) = true := by simp [lregWritable, hvd]
  have hlaneAt : (s.lanewise (stochLane imm)).laneAt lane = (stochLane imm s lane).laneAt lane := by
    rw [Sfpu.lanewise, Sfpu.Lanewise.forRange_laneAt (Sfpu.Lanewise.lanewise_local (stochLane_local imm))
      hlane, if_pos hon]
  have hread (t : Sfpu) : t.lreg (fieldVd imm) lane = (t.laneAt lane).lreg (fieldVd imm) := rfl
  rw [sfpstochrnd_eq, if_neg (by omega), hread, hlaneAt, stochLane, if_pos hwritable,
    Sfpu.laneAt_setLreg_self]
  exact Function.update_self ..

theorem stochRounded_roundsTo_iff (imm x random : Word) (hmod : (imm &&& 0xF).toNat ≤ 1)
    (hexp : floatExp x ≠ 0) (hfin : floatExp x ≠ 255) :
    RoundsTo (keptBits imm) (rndMode imm) x (stochRounded imm random x) ↔
      RoundsWell (23 - keptBits imm) (rndMode imm) x random := by
  have hpos : 23 - keptBits imm ≠ 0 := by
    unfold keptBits
    split_ifs <;> decide
  exact (stochRounded_roundsAt hmod hexp hfin).roundsTo_iff hpos (prngBits_threshold (by omega) hpos ..)

end instruction

theorem sfpstochrnd_rounds_iff (s : Sfpu) (imm : Word) (lane : ℕ) (hmod : (imm &&& 0xF).toNat ≤ 1)
    (hvd : fieldVd imm < 8) (hlane : lane < lregLanes) (hon : s.laneEnabled lane = true)
    (hexp : floatExp (s.lreg (fieldVc imm) lane) ≠ 0) (hfin : floatExp (s.lreg (fieldVc imm) lane) ≠ 255) :
    RoundsTo (keptBits imm) (rndMode imm) (s.lreg (fieldVc imm) lane)
      ((sfpstochrnd s imm).lreg (fieldVd imm) lane) ↔
      RoundsWell (23 - keptBits imm) (rndMode imm) (s.lreg (fieldVc imm) lane) (s.prngState lane) := by
  rw [sfpstochrnd_lreg s imm lane hvd hlane hon]
  exact stochRounded_roundsTo_iff _ _ _ hmod hexp hfin

def sfpuWith (x : Word) : Sfpu := (tensixInit ⟨none, none⟩).sfpu.setLreg 1 0 x

theorem sfpstochrnd_first (x imm : Word) (hvd : fieldVd imm = 0) :
    (sfpstochrnd (sfpuWith x) imm).lreg 0 0 = stochRounded imm 0 ((sfpuWith x).lreg (fieldVc imm) 0) := by
  have hlreg := sfpstochrnd_lreg (sfpuWith x) imm 0 (by omega) (by decide) rfl
  rwa [hvd] at hlreg

theorem sfpstochrnd_rounds_tie :
    (sfpuWith 0x3F801000).lreg 1 0 = 0x3F801000 ∧
      (sfpstochrnd (sfpuWith 0x3F801000) 0x100).lreg 0 0 = 0x3F802000 ∧
      RoundsTo 10 0 0x3F801000 ((sfpstochrnd (sfpuWith 0x3F801000) 0x100).lreg 0 0) := by
  have hvd : fieldVd 0x100 = 0 := by decide
  have hvc : fieldVc 0x100 = 1 := by decide
  have hkept : keptBits 0x100 = 10 := by decide
  have hmode : rndMode 0x100 = 0 := by decide
  have hsrc : (sfpuWith 0x3F801000).lreg 1 0 = 0x3F801000 := rfl
  have hiff := sfpstochrnd_rounds_iff (sfpuWith 0x3F801000) 0x100 0 (by decide) (by decide) (by decide) rfl
    (by rw [hvc, hsrc]; decide) (by rw [hvc, hsrc]; decide)
  have hrounds := hiff.mpr (.inl hmode)
  rw [hvd, hvc, hkept, hmode, hsrc] at hrounds
  refine ⟨hsrc, ?_, hrounds⟩
  rw [sfpstochrnd_first _ _ hvd, hvc, hsrc]
  decide

theorem sfpstochrnd_rounds_up :
    (sfpuWith 0x3F801FFF).lreg 10 0 = 0x3F800000 ∧
      ¬RoundsTo 10 1 0x3F800000 ((sfpstochrnd (sfpuWith 0x3F801FFF) 0x200A00).lreg 0 0) ∧
      (sfpuWith 0x3F801FFF).lreg 1 0 = 0x3F801FFF ∧
      ¬RoundsTo 10 2 0x3F801FFF ((sfpstochrnd (sfpuWith 0x3F801FFF) 0x400100).lreg 0 0) := by
  have hone : (sfpuWith 0x3F801FFF).lreg (fieldVc 0x200A00) 0 = 0x3F800000 := by decide
  have hsrc : (sfpuWith 0x3F801FFF).lreg (fieldVc 0x400100) 0 = 0x3F801FFF := by decide
  refine ⟨rfl, ?_, rfl, ?_⟩
  · rw [sfpstochrnd_first _ _ (by decide), hone]
    intro h
    have hwell := (stochRounded_roundsTo_iff 0x200A00 0x3F800000 0 (by decide) (by decide) (by decide)).mp h
    exact absurd hwell (by unfold RoundsWell; decide)
  · rw [sfpstochrnd_first _ _ (by decide), hsrc]
    intro h
    have hwell := (stochRounded_roundsTo_iff 0x400100 0x3F801FFF 0 (by decide) (by decide) (by decide)).mp h
    exact absurd hwell (by unfold RoundsWell; decide)

end Rv32Emu
