import Mathlib.Algebra.Group.Nat.Defs
import Mathlib.Data.Int.Notation
import Mathlib.Data.Nat.Notation
import Mathlib.Logic.Function.Basic
import Rv32Emu.Lib.ForRange

namespace Rv32Emu

/-- Every datum of the machine is a 32-bit pattern; floats are kept as their IEEE-754 bits. -/
abbrev Word := BitVec 32

abbrev Tid := Fin 3

abbrev Bank := Fin 2

-- Named, so that a numeral or a membership test refers to them and not to a proof of its own.
instance neZeroTwo : @NeZero ℕ Zero.ofOfNat0 2 := ⟨by decide⟩

instance neZeroThree : @NeZero ℕ Zero.ofOfNat0 3 := ⟨by decide⟩

instance neZeroFour : @NeZero ℕ Zero.ofOfNat0 4 := ⟨by decide⟩

instance neZeroEight : @NeZero ℕ Zero.ofOfNat0 8 := ⟨by decide⟩

instance neZeroSixteen : @NeZero ℕ Zero.ofOfNat0 16 := ⟨by decide⟩

instance lawfulBEqWord : @LawfulBEq Word instBEqOfDecidableEq := inferInstance

abbrev Bytes := ℕ → BitVec 8

abbrev Grid := ℕ → ℕ → Word

def bits (w : Word) (shift : ℕ) (mask : Word) : Word := (w >>> shift) &&& mask

def bit (w : Word) (i : ℕ) : Bool := w.getLsbD i

def w32 (n : ℕ) : Word := BitVec.ofNat 32 n

@[simp] theorem w32_toNat (w : Word) : w32 w.toNat = w := by rw [w32, BitVec.ofNat_toNat, BitVec.setWidth_eq]

theorem w32_add (a b : ℕ) : w32 (a + b) = w32 a + w32 b := BitVec.ofNat_add ..

theorem w32_mul (a b : ℕ) : w32 (a * b) = w32 a * w32 b := BitVec.ofNat_mul ..

theorem and_mask_toNat (w : Word) (n : ℕ) {mask : Word} (h : mask.toNat = 2 ^ n - 1) :
    (w &&& mask).toNat = w.toNat % 2 ^ n := by
  rw [BitVec.toNat_and, h, Nat.and_two_pow_sub_one_eq_mod]

theorem bits_mask_toNat (w : Word) (shift n : ℕ) {mask : Word} (h : mask.toNat = 2 ^ n - 1) :
    (bits w shift mask).toNat = w.toNat / 2 ^ shift % 2 ^ n := by
  rw [bits, and_mask_toNat _ n h, BitVec.toNat_ushiftRight, Nat.shiftRight_eq_div_pow]

def Grid.set (g : Grid) (row col : ℕ) (x : Word) : Grid :=
  fun r c => if r = row ∧ c = col then x else g r c

namespace Word

def toFloat (w : Word) : Float32 := Float32.ofBits ⟨w⟩

def ofFloat (f : Float32) : Word := f.toBits.toBitVec

def fadd (a b : Word) : Word := ofFloat (toFloat a + toFloat b)

def fsub (a b : Word) : Word := ofFloat (toFloat a - toFloat b)

def fmul (a b : Word) : Word := ofFloat (toFloat a * toFloat b)

def fneg (a : Word) : Word := a ^^^ 0x80000000

def fabs (a : Word) : Word := a &&& 0x7FFFFFFF

def flt (a b : Word) : Bool := toFloat a < toFloat b

def ofIntF (i : ℤ) : Word := ofFloat (Float32.ofInt i)

def ofNatF (n : ℕ) : Word := ofFloat (Float32.ofNat n)

end Word

def byteOf (w : Word) (i : ℕ) : BitVec 8 := (w >>> (8 * i)).setWidth 8

namespace Bytes

def set (m : Bytes) (a : ℕ) (b : BitVec 8) : Bytes := Function.update m a b

def load (m : Bytes) (a : ℕ) (n : ℕ) : Word :=
  forRange n 0 fun w i => w ||| ((m (a + i)).setWidth 32 <<< (8 * i))

def store (m : Bytes) (a : ℕ) (n : ℕ) (w : Word) : Bytes :=
  forRange n m fun m i => m.set (a + i) ((w >>> (8 * i)).setWidth 8)

theorem load_congr {m m' : Bytes} {a n : ℕ} (h : ∀ i < n, m (a + i) = m' (a + i)) :
    load m a n = load m' a n := by
  apply forRange_congr
  intro i hi w
  rw [h i hi]

theorem store_apply (m : Bytes) (a n : ℕ) (w : Word) (x : ℕ) :
    store m a n w x = if a ≤ x ∧ x < a + n then byteOf w (x - a) else m x := by
  unfold store
  by_cases h : a ≤ x ∧ x < a + n
  · rw [if_pos h]
    refine forRange_writes (fun m : Bytes => m x) (j := x - a) (by omega) (fun m => ?_) fun i _ hi m => ?_
    · have hx : a + (x - a) = x := by omega
      rw [hx]
      exact Function.update_self ..
    · exact Function.update_of_ne (by omega) ..
  · rw [if_neg h]
    refine forRange_keeps (fun m : Bytes => m x) fun i hi m => ?_
    exact Function.update_of_ne (by omega) ..

theorem load_getLsbD (m : Bytes) (a n k : ℕ) (hn : n ≤ 4) :
    (load m a n).getLsbD k = (decide (k < 8 * n) && (m (a + k / 8)).getLsbD (k % 8)) := by
  induction n with
  | zero => simp [load, forRange]
  | succ n ih =>
    have hstep : load m a (n + 1) = load m a n ||| ((m (a + n)).setWidth 32 <<< (8 * n)) := by
      unfold load forRange
      rw [List.range_succ, List.foldl_append]
      rfl
    rw [hstep, BitVec.getLsbD_or, ih (by omega), BitVec.getLsbD_shiftLeft, BitVec.getLsbD_setWidth]
    by_cases hlt : k < 8 * n
    · simp [hlt, show k < 8 * (n + 1) by omega]
    · by_cases hin : k < 8 * (n + 1)
      · have hdiv : k / 8 = n := by omega
        have hmod : k - 8 * n = k % 8 := by omega
        simp [hlt, hin, hdiv, hmod, show k < 32 by omega, show k % 8 < 32 by omega]
      · have hbig : (m (a + n)).getLsbD (k - 8 * n) = false := BitVec.getLsbD_of_ge _ _ (by omega)
        simp [hlt, hin, hbig]

theorem byteOf_load (m : Bytes) (a : ℕ) {n i : ℕ} (hn : n ≤ 4) (hi : i < n) :
    byteOf (load m a n) i = m (a + i) := by
  apply BitVec.eq_of_getLsbD_eq
  intro k hk
  have hdiv : (8 * i + k) / 8 = i := by omega
  have hmod : (8 * i + k) % 8 = k := by omega
  simp [byteOf, BitVec.getLsbD_ushiftRight, load_getLsbD m a n _ hn, hdiv, hmod, hk,
    show 8 * i + k < 8 * n by omega]

theorem load_store_of_lt (m : Bytes) (a : ℕ) {n : ℕ} (hn : n ≤ 4) {w : Word} (hw : w.toNat < 2 ^ (8 * n)) :
    (m.store a n w).load a n = w := by
  apply BitVec.eq_of_getLsbD_eq
  intro k hk
  rw [load_getLsbD _ _ _ _ hn, store_apply]
  by_cases hin : k < 8 * n
  · have hbyte : a + k / 8 - a = k / 8 := by omega
    have hbit : 8 * (k / 8) + k % 8 = k := by omega
    rw [if_pos (by omega), hbyte]
    simp [byteOf, BitVec.getLsbD_ushiftRight, hbit, hin, Nat.mod_lt]
  · have hhigh : w.getLsbD k = false :=
      Nat.testBit_lt_two_pow (Nat.lt_of_lt_of_le hw (Nat.pow_le_pow_right (by decide) (Nat.le_of_not_lt hin)))
    simp [hin, hhigh]

theorem load_store_self (m : Bytes) (a : ℕ) (w : Word) : (m.store a 4 w).load a 4 = w :=
  load_store_of_lt m a (Nat.le_refl 4) w.isLt

section apart

variable {a b n k : ℕ}

theorem load_store_apart (h : b + k ≤ a ∨ a + n ≤ b) (m : Bytes) (w : Word) :
    (m.store a n w).load b k = m.load b k := by
  apply load_congr
  intro i hi
  rw [store_apply, if_neg (by omega)]

theorem store_comm_apart (h : b + k ≤ a ∨ a + n ≤ b) (m : Bytes) (w v : Word) :
    (m.store a n w).store b k v = (m.store b k v).store a n w := by
  funext x
  simp only [store_apply]
  by_cases ha : a ≤ x ∧ x < a + n
  · rw [if_neg (by omega), if_pos ha, if_pos ha]
  · rw [if_neg ha, if_neg ha]

end apart

end Bytes

def tensixInsnOpcode (insn : Word) : Word := bits insn 24 0xFF

def tensixInsnParam (insn : Word) : Word := insn &&& 0x00FFFFFF

end Rv32Emu
