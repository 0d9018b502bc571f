import Mathlib.Data.List.Basic
import Mathlib.Data.Nat.Notation
import Mathlib.Tactic.Ring

namespace Rv32Emu

namespace Cells

def load (m : ℕ → BitVec 8) (a : ℕ) : ℕ → ℕ
  | 0 => 0
  | n + 1 => (m a).toNat + 256 * load m (a + 1) n

def store (m : ℕ → BitVec 8) (a n v : ℕ) : ℕ → BitVec 8 :=
  fun b => if a ≤ b ∧ b < a + n then BitVec.ofNat 8 (v / 256 ^ (b - a)) else m b

variable {m m' : ℕ → BitVec 8} {a b n v : ℕ}

theorem load_congr (h : ∀ b, a ≤ b → b < a + n → m b = m' b) : load m a n = load m' a n := by
  induction n generalizing a with
  | zero => rfl
  | succ n ih =>
    have htail : load m (a + 1) n = load m' (a + 1) n := ih fun b hab hb => h b (by omega) (by omega)
    rw [load, load, h a (Nat.le_refl a) (by omega), htail]

theorem load_zeros (h : ∀ b, a ≤ b → b < a + n → m b = 0) : load m a n = 0 := by
  induction n generalizing a with
  | zero => rfl
  | succ n ih =>
    have htail : load m (a + 1) n = 0 := ih fun b hab hb => h b (by omega) (by omega)
    rw [load, h a (Nat.le_refl a) (by omega), htail]
    rfl

theorem store_of_notMem (h : b < a ∨ a + n ≤ b) (v : ℕ) : store m a n v b = m b := by
  rw [store, if_neg]
  omega

theorem load_store (m : ℕ → BitVec 8) (a n v : ℕ) : load (store m a n v) a n = v % 256 ^ n := by
  induction n generalizing a v with
  | zero => simp [load, Nat.mod_one]
  | succ n ih =>
    have hhead : (store m a (n + 1) v a).toNat = v % 256 := by simp [store]
    have htail : load (store m a (n + 1) v) (a + 1) n = load (store m (a + 1) n (v / 256)) (a + 1) n := by
      refine load_congr fun b hab hb => ?_
      obtain ⟨k, rfl⟩ : ∃ k, b = a + 1 + k := ⟨b - (a + 1), by omega⟩
      have h₁ : a + 1 + k - a = k + 1 := by omega
      have h₂ : a + 1 + k - (a + 1) = k := by omega
      rw [store, store, if_pos (by omega), if_pos (by omega), h₁, h₂, Nat.pow_succ', Nat.div_div_eq_div_mul]
    rw [load, hhead, htail, ih, Nat.pow_succ', Nat.mod_mul]

theorem load_store_of_lt (m : ℕ → BitVec 8) (a : ℕ) (h : v < 256 ^ n) : load (store m a n v) a n = v := by
  rw [load_store, Nat.mod_eq_of_lt h]

end Cells

inductive Seg {α : Type*} (next : α → α) : α → List α → α → Prop
  | nil (a : α) : Seg next a [] a
  | cons {a b : α} {as : List α} : Seg next (next a) as b → Seg next a (a :: as) b

namespace Seg

variable {α : Type*} {next next' : α → α} {a b c : α} {as bs : List α}

theorem append (h : Seg next a as b) (k : Seg next b bs c) : Seg next a (as ++ bs) c := by
  induction h with
  | nil => exact k
  | cons _ ih => exact .cons (ih k)

theorem congr (h : Seg next a as b) (hn : ∀ x ∈ as, next' x = next x) : Seg next' a as b := by
  induction h with
  | nil a => exact .nil a
  | @cons a b as _ ih =>
    refine .cons ?_
    rw [hn a List.mem_cons_self]
    exact ih fun x hx => hn x (List.mem_cons_of_mem a hx)

theorem snoc (h : Seg next a as b) : Seg next a (as ++ [b]) (next b) := h.append (.cons (.nil _))

theorem eq_of_nil (h : Seg next a [] b) : a = b := by
  cases h
  rfl

theorem of_cons (h : Seg next a (b :: bs) c) : a = b ∧ Seg next (next b) bs c := by
  cases h with
  | cons h => exact ⟨rfl, h⟩

end Seg

end Rv32Emu
