import Rv32Emu.Lib.Lfsr
import Rv32Emu.Tensix.Sfpu
import Mathlib.Tactic.NormNum.Prime

namespace Rv32Emu

open Function Lfsr

def prngNext (state : Word) : Word := (~~~w32 (popcount (state &&& 0x80200003)) <<< 31) ||| (state >>> 1)

theorem advancePrng_iterate (s : Sfpu) (lane n : ℕ) :
    ((fun s => (advancePrng s lane).2)^[n] s).prngState lane = prngNext^[n] (s.prngState lane) := by
  have hstep : Semiconj (fun s : Sfpu => s.prngState lane) (fun s => (advancePrng s lane).2) prngNext :=
    fun s => update_self lane _ s.prngState
  exact hstep.iterate_right n s

def tapParity (v : Word) : Bool := v[0] ^^ v[1] ^^ v[21] ^^ v[31]

def feedback (v : Word) : Word := (v >>> 1) ^^^ if tapParity v then BitVec.twoPow 32 31 else 0

theorem popcount_taps (v : Word) :
    popcount (v &&& 0x80200003) = v[0].toNat + v[1].toNat + v[21].toNat + v[31].toNat := by
  simp only [popcount, forRange, bit, BitVec.ofNat_eq_ofNat, BitVec.getLsbD_and, Bool.and_eq_true,
    List.range_succ, List.range_zero, List.nil_append, List.cons_append, List.foldl_cons, Nat.zero_lt_succ,
    BitVec.getLsbD_eq_getElem, BitVec.reduceGetElem, and_true, zero_add, Nat.reduceLT, Bool.false_eq_true,
      and_false,
    ↓reduceIte, Nat.lt_add_one, List.foldl_nil]
  cases v[0] <;> cases v[1] <;> cases v[21] <;> cases v[31] <;> rfl

theorem prngNext_not (v : Word) : prngNext (~~~v) = ~~~feedback v := by
  have htop : ~~~w32 (popcount (~~~v &&& 0x80200003)) <<< 31 = if tapParity v then 0
      else BitVec.twoPow 32 31 := by
    rw [popcount_taps]
    unfold tapParity
    simp only [BitVec.getElem_not]
    cases v[0] <;> cases v[1] <;> cases v[21] <;> cases v[31] <;> rfl
  unfold prngNext feedback
  rw [htop]
  apply BitVec.eq_of_getLsbD_eq
  intro i hi
  cases tapParity v <;> simp <;> grind

theorem feedback_linear : Linear feedback := by
  intro a b
  have hparity : tapParity (a ^^^ b) = (tapParity a ^^ tapParity b) := by
    simp only [tapParity, BitVec.getElem_xor, Bool.xor_assoc, Bool.xor_left_comm]
  unfold feedback
  rw [hparity, BitVec.ushiftRight_xor_distrib, xor_xor_xor_comm]
  cases tapParity a <;> cases tapParity b <;> simp

theorem feedback_root : Root 0x80200003 feedback :=
  (feedback_linear.iterate 32).ext (act_linear feedback_linear _) (by decide +kernel)

def shortStates : List Word :=
  [0, 0x5CB972E5, 0x2E5CB972, 0x972E5CB9, 0xCB972E5C, 0xE5CB972E, 0x72E5CB97, 0xB972E5CB]

def prngPeriod (seed : Word) : ℕ :=
  if seed = 0xFFFFFFFF then 1
  else if ~~~seed ∈ shortStates then 7
  -- the polynomial of degree 29
  else if act feedback 0x2749D3A7 (~~~seed) = 0 then 2 ^ 29 - 1
  else 7 * (2 ^ 29 - 1)

section cycles

variable {c : Word}

theorem act_one (c : Word) : act feedback 1 c = c :=
  act_xpow (k := 0) (n := 0) (by decide) feedback_linear feedback_root (by decide) c

theorem act_period {n : ℕ} (hn : n < 2 ^ 32) :
    act feedback (xpow 0x80200003 32 n ^^^ 1) c = 0 ↔ feedback^[n] c = c := by
  have hsum := act_polynomial_linear feedback c (xpow 0x80200003 32 n) 1
  dsimp only at hsum
  rw [hsum, act_one, act_xpow (by decide) feedback_linear feedback_root hn]
  exact BitVec.xor_eq_zero_iff

theorem act_eq_zero_of_mul {a b g : Word} (h : act (xtime 0x80200003) g a = b) (ha : act feedback a c = 0) :
    act feedback b c = 0 := by
  rw [← h, act_mul feedback_linear feedback_root, ha]
  exact (act_linear feedback_linear g).zero

theorem feedback_period (c : Word) : feedback^[7 * (2 ^ 29 - 1)] c = c := by
  rw [← act_period (by decide)]
  have hone : xpow (0x80200003 : Word) 32 (7 * (2 ^ 29 - 1)) ^^^ 1 = 0 := by decide +kernel
  rw [hone]
  exact (act_polynomial_linear feedback c).zero

theorem iterate_seven_of_dvd {q : ℕ} (hq : q = 233 ∨ q = 1103 ∨ q = 2089)
    (h : feedback^[7 * (2 ^ 29 - 1) / q] c = c) : feedback^[7] c = c := by
  rw [← act_period (by decide)]
  obtain rfl | rfl | rfl := hq
  · exact act_eq_zero_of_mul (g := 0xA51B93A2) (by decide +kernel) ((act_period (by decide)).mpr h)
  · exact act_eq_zero_of_mul (g := 0x40C13309) (by decide +kernel) ((act_period (by decide)).mpr h)
  · exact act_eq_zero_of_mul (g := 0xFE4DE422) (by decide +kernel) ((act_period (by decide)).mpr h)

theorem mem_shortStates (h : feedback^[7] c = c) : c ∈ shortStates := by
  have hzero : act feedback (0xF4FD3A75 ^^^ 1) c = 0 :=
    act_eq_zero_of_mul (g := 0x0BFF857E) (by decide +kernel) ((act_period (by decide)).mpr h)
  have hfixed : act feedback 0xF4FD3A75 c = c := by
    have hsum := act_polynomial_linear feedback c 0xF4FD3A75 1
    dsimp only at hsum
    rw [hzero, act_one] at hsum
    exact BitVec.xor_eq_zero_iff.mp hsum.symm
  have hbasis : ∀ i < 32, act feedback 0xF4FD3A75 (BitVec.twoPow 32 i) ∈ shortStates := by decide +kernel
  have hclosed : (shortStates.all fun a => shortStates.all fun b => shortStates.contains (a ^^^ b)) =
      true := by
    decide +kernel
  simp only [List.all_eq_true, List.contains_iff_mem] at hclosed
  have hsum : ∀ n ≤ 32, combine (fun i => act feedback 0xF4FD3A75 (BitVec.twoPow 32 i)) c n ∈
      shortStates := by
    intro n hn
    induction n with
    | zero => exact List.mem_cons_self
    | succ n ih =>
      refine hclosed _ (ih (by omega)) _ ?_
      split
      · exact hbasis n (by omega)
      · decide
  rw [← hfixed, ← combine_twoPow c, (act_linear feedback_linear _).combine]
  exact hsum 32 (Nat.le_refl _)

theorem iterate_primitive_iff : feedback^[2 ^ 29 - 1] c = c ↔ act feedback 0x2749D3A7 c = 0 := by
  rw [← act_period (by decide)]
  exact ⟨act_eq_zero_of_mul (g := 2) (by decide +kernel), act_eq_zero_of_mul (g := 6) (by decide +kernel)⟩

end cycles

theorem eq_of_dvd_of_not_dvd_div {m n : ℕ} (h : m ∣ n) (hq : ∀ q, q.Prime → q ∣ n → ¬m ∣ n / q) : m = n := by
  obtain ⟨k, rfl⟩ := h
  by_contra hne
  have hk : k ≠ 1 := by
    rintro rfl
    exact hne (Nat.mul_one m).symm
  have hdvd := Nat.minFac_dvd k
  refine hq _ (Nat.minFac_prime hk) (hdvd.mul_left m) ?_
  rw [Nat.mul_div_assoc m hdvd]
  exact Nat.dvd_mul_right m _

theorem prime_cases {q : ℕ} (hq : q.Prime) (h : q ∣ 7 * (2 ^ 29 - 1)) :
    q = 7 ∨ q = 233 ∨ q = 1103 ∨ q = 2089 := by
  have hfactors : 7 * (2 ^ 29 - 1) = 7 * (233 * (1103 * 2089)) := rfl
  rw [hfactors, hq.dvd_mul, hq.dvd_mul, hq.dvd_mul] at h
  have hprime {r : ℕ} (hr : r.Prime) : q ∣ r → q = r := (Nat.prime_dvd_prime_iff_eq hq hr).mp
  exact h.imp (hprime (by norm_num)) (.imp (hprime (by norm_num))
    (.imp (hprime (by norm_num)) (hprime (by norm_num))))

theorem feedback_minimalPeriod (seed : Word) : minimalPeriod feedback (~~~seed) = prngPeriod seed := by
  have hiff (n : ℕ) : feedback^[n] (~~~seed) = ~~~seed ↔ minimalPeriod feedback (~~~seed) ∣ n :=
    isPeriodicPt_iff_minimalPeriod_dvd
  unfold prngPeriod
  split_ifs with hfixed hshort hprimitive
  · subst hfixed
    exact minimalPeriod_eq_one_iff_isFixedPt.mpr rfl
  · have hall : (shortStates.all fun c => feedback^[7] c = c && (c = 0 || feedback c ≠ c)) = true := by
      decide +kernel
    have hseed := List.all_eq_true.mp hall _ hshort
    rw [Bool.and_eq_true, Bool.or_eq_true, decide_eq_true_eq, decide_eq_true_eq, decide_eq_true_eq] at hseed
    obtain ⟨hseven, hzero | hmoves⟩ := hseed
    · exact absurd (BitVec.not_eq_comm.mp hzero) hfixed
    · exact ((Nat.dvd_prime (by norm_num)).mp ((hiff 7).mp hseven)).resolve_left fun h =>
        hmoves (minimalPeriod_eq_one_iff_isFixedPt.mp h)
  · refine eq_of_dvd_of_not_dvd_div ((hiff _).mp (iterate_primitive_iff.mpr hprimitive))
      fun q hq hdvd hm => ?_
    obtain rfl | hlarge := prime_cases hq (hdvd.mul_left 7)
    · exact absurd hdvd (by decide)
    · apply hshort ∘ mem_shortStates ∘ iterate_seven_of_dvd hlarge
      rw [hiff, Nat.mul_div_assoc 7 hdvd]
      exact hm.mul_left 7
  · refine eq_of_dvd_of_not_dvd_div ((hiff _).mp (feedback_period _)) fun q hq hdvd hm => ?_
    obtain rfl | hlarge := prime_cases hq hdvd
    · rw [Nat.mul_div_cancel_left _ (by norm_num), ← hiff, iterate_primitive_iff] at hm
      exact hprimitive hm
    · exact hshort (mem_shortStates (iterate_seven_of_dvd hlarge ((hiff _).mpr hm)))

theorem advancePrng_recurs (s : Sfpu) (lane n : ℕ) :
    ((fun s => (advancePrng s lane).2)^[n] s).prngState lane = s.prngState lane ↔
      prngPeriod (s.prngState lane) ∣ n := by
  have hnot : Semiconj (fun c : Word => ~~~c) feedback prngNext := fun c => (prngNext_not c).symm
  have hiterate := hnot.iterate_right n (~~~s.prngState lane)
  rw [BitVec.not_not] at hiterate
  rw [advancePrng_iterate, ← feedback_minimalPeriod, ← isPeriodicPt_iff_minimalPeriod_dvd, ← hiterate,
    BitVec.not_eq_comm]
  exact Iff.rfl

end Rv32Emu
