import Mathlib.Algebra.Group.Basic
import Mathlib.Data.Nat.Prime.Basic
import Mathlib.Dynamics.PeriodicPts.Defs

/-! Linear maps on words under exclusive or, and the polynomials over two elements that act on them: bit
`i` of a word is the coefficient of the `i`-th power. A map whose power of the width is a sum of smaller
ones has all its powers given by those of the indeterminate modulo a polynomial, and squaring computes
these. -/

namespace Rv32Emu

namespace Lfsr

variable {w : ℕ} {f g : BitVec w → BitVec w} {p : BitVec w}

def Linear (f : BitVec w → BitVec w) : Prop := ∀ a b, f (a ^^^ b) = f a ^^^ f b

def combine (u : ℕ → BitVec w) (a : BitVec w) : ℕ → BitVec w
  | 0 => 0
  | n + 1 => combine u a n ^^^ if a.getLsbD n then u n else 0

theorem xor_xor_xor_comm (a b c d : BitVec w) : a ^^^ b ^^^ (c ^^^ d) = a ^^^ c ^^^ (b ^^^ d) := by
  rw [BitVec.xor_assoc, BitVec.xor_assoc, ← BitVec.xor_assoc b, ← BitVec.xor_assoc c, BitVec.xor_comm b]

theorem combine_congr {u v : ℕ → BitVec w} (a : BitVec w) {n : ℕ} (h : ∀ i < n, u i = v i) :
    combine u a n = combine v a n := by
  induction n with
  | zero => rfl
  | succ n ih => rw [combine, combine, ih fun i hi => h i (by omega), h n (by omega)]

theorem combine_xor (u : ℕ → BitVec w) (a b : BitVec w) (n : ℕ) :
    combine u (a ^^^ b) n = combine u a n ^^^ combine u b n := by
  induction n with
  | zero => simp [combine]
  | succ n ih =>
    rw [combine, combine, combine, ih, xor_xor_xor_comm, BitVec.getLsbD_xor]
    congr 1
    cases a.getLsbD n <;> cases b.getLsbD n <;> simp

theorem combine_xor_words (u v : ℕ → BitVec w) (a : BitVec w) (n : ℕ) :
    combine (fun i => u i ^^^ v i) a n = combine u a n ^^^ combine v a n := by
  induction n with
  | zero => simp [combine]
  | succ n ih =>
    rw [combine, combine, combine, ih, xor_xor_xor_comm]
    cases a.getLsbD n <;> simp

namespace Linear

theorem zero (hf : Linear f) : f 0 = 0 := by
  have h := hf 0 0
  rwa [BitVec.xor_self, BitVec.xor_self] at h

theorem combine (hf : Linear f) (u : ℕ → BitVec w) (a : BitVec w) (n : ℕ) :
    f (combine u a n) = Lfsr.combine (fun i => f (u i)) a n := by
  induction n with
  | zero => exact hf.zero
  | succ n ih =>
    rw [Lfsr.combine, Lfsr.combine, hf, ih, apply_ite f, hf.zero]

theorem iterate (hf : Linear f) (n : ℕ) : Linear f^[n] := by
  intro a b
  induction n with
  | zero => rfl
  | succ n ih =>
    rw [Function.iterate_succ_apply', Function.iterate_succ_apply', Function.iterate_succ_apply', ih, hf]

end Linear

theorem combine_shiftLeft (u : ℕ → BitVec w) (a : BitVec w) {n : ℕ} (hn : n < w) :
    combine u (a <<< 1) (n + 1) = combine (fun i => u (i + 1)) a n := by
  induction n with
  | zero => simp [combine]
  | succ n ih =>
    rw [combine, ih (by omega), combine, BitVec.getLsbD_shiftLeft]
    simp [hn]

theorem combine_one (u : ℕ → BitVec w) (hw : 0 < w) (n : ℕ) : combine u 1 (n + 1) = u 0 := by
  induction n with
  | zero => simp [combine, hw]
  | succ n ih =>
    rw [combine, ih]
    simp

theorem combine_twoPow (a : BitVec w) : combine (BitVec.twoPow w) a w = a := by
  have hbits (n j : ℕ) (hj : j < w) : (combine (BitVec.twoPow w) a n).getLsbD j =
      (decide (j < n) && a.getLsbD j) := by
    induction n with
    | zero => simp [combine]
    | succ n ih =>
      rw [combine, BitVec.getLsbD_xor, ih]
      cases ha : a.getLsbD n <;> grind
  apply BitVec.eq_of_getLsbD_eq
  intro j hj
  rw [hbits w j hj, decide_eq_true hj, Bool.true_and]

theorem Linear.ext (hf : Linear f) (hg : Linear g)
    (h : ∀ i < w, f (BitVec.twoPow w i) = g (BitVec.twoPow w i)) (v : BitVec w) : f v = g v := by
  rw [← combine_twoPow v, hf.combine, hg.combine]
  exact combine_congr _ h

def act (f : BitVec w → BitVec w) (a v : BitVec w) : BitVec w := combine (fun i => f^[i] v) a w

theorem act_polynomial_linear (f : BitVec w → BitVec w) (v : BitVec w) : Linear fun a => act f a v :=
  fun a b => combine_xor _ a b w

theorem act_linear (hf : Linear f) (a : BitVec w) : Linear (act f a) := by
  intro v v'
  unfold act
  rw [← combine_xor_words]
  exact combine_congr a fun i _ => hf.iterate i v v'

/-- The product with the indeterminate, modulo the polynomial with the leading coefficient left out. -/
def xtime (p a : BitVec w) : BitVec w := (a <<< 1) ^^^ if a.msb then p else 0

def Root (p : BitVec w) (f : BitVec w → BitVec w) : Prop := ∀ v, f^[w] v = act f p v

section root

variable (hf : Linear f) (hp : Root p f)

include hf hp

theorem act_xtime (a v : BitVec w) : act f (xtime p a) v = f (act f a v) := by
  cases w with
  | zero => exact BitVec.eq_of_zero_length rfl
  | succ n =>
    have hstep : (fun i => f^[i + 1] v) = fun i => f (f^[i] v) :=
      funext fun i => Function.iterate_succ_apply' f i v
    have hlow : combine (fun i => f^[i] v) (a <<< 1) (n + 1) = combine (fun i => f (f^[i] v)) a n := by
      rw [combine_shiftLeft _ _ (Nat.lt_succ_self n), hstep]
    have htop : act f (if a.msb then p else 0) v = if a.getLsbD n then f (f^[n] v) else 0 := by
      rw [BitVec.msb_eq_getLsbD_last, Nat.add_sub_cancel, ← Function.iterate_succ_apply' f n v]
      cases a.getLsbD n with
      | true => exact (hp v).symm
      | false => exact (act_polynomial_linear f v).zero
    calc act f (xtime p a) v = combine (fun i => f^[i] v) (a <<< 1) (n + 1) ^^^ act f (if a.msb then p
      else 0) v :=
          act_polynomial_linear f v _ _
      _ = combine (fun i => f (f^[i] v)) a (n + 1) := by rw [hlow, htop, combine]
      _ = f (act f a v) := (hf.combine _ a _).symm

theorem act_iterate_xtime (n : ℕ) (a v : BitVec w) : act f ((xtime p)^[n] a) v = f^[n] (act f a v) := by
  induction n with
  | zero => rfl
  | succ n ih => rw [Function.iterate_succ_apply', act_xtime hf hp, ih, Function.iterate_succ_apply']

theorem act_mul (a b v : BitVec w) : act f (act (xtime p) a b) v = act f a (act f b v) :=
  ((act_polynomial_linear f v).combine _ a w).trans (combine_congr a fun i _ => act_iterate_xtime hf hp i b v)

end root

def xpow (p : BitVec w) : ℕ → ℕ → BitVec w
  | 0, _ => 1
  | k + 1, n =>
    let s := act (xtime p) (xpow p k (n / 2)) (xpow p k (n / 2))
    if n % 2 = 1 then xtime p s else s

theorem act_xpow (hw : 0 < w) (hf : Linear f) (hp : Root p f) {k n : ℕ} (hn : n < 2 ^ k) (v : BitVec w) :
    act f (xpow p k n) v = f^[n] v := by
  induction k generalizing n v with
  | zero =>
    obtain rfl : n = 0 := by simpa using hn
    obtain ⟨m, rfl⟩ : ∃ m, w = m + 1 := ⟨w - 1, by omega⟩
    exact combine_one _ hw m
  | succ k ih =>
    have hhalf : n / 2 < 2 ^ k := by omega
    have hsquare : act f (act (xtime p) (xpow p k (n / 2)) (xpow p k (n / 2))) v = f^[n / 2 + n / 2] v := by
      rw [act_mul hf hp, ih hhalf, ih hhalf, ← Function.iterate_add_apply]
    dsimp only [xpow]
    split_ifs with hodd
    · rw [act_xtime hf hp, hsquare, ← Function.iterate_succ_apply' f]
      congr 2
      omega
    · rw [hsquare]
      congr 2
      omega

end Lfsr

end Rv32Emu
