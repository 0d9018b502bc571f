import Mathlib.Data.Nat.Notation
import Mathlib.Tactic.Basic

namespace Rv32Emu

def forRange {α : Type} (n : ℕ) (init : α) (body : α → ℕ → α) : α :=
  (List.range n).foldl body init

section forRange

variable {α β : Type} {n : ℕ} {init : α} {body : α → ℕ → α}

theorem forRange_induction {P : ℕ → α → Prop} (h0 : P 0 init)
    (hstep : ∀ i < n, ∀ a, P i a → P (i + 1) (body a i)) :
    P n (forRange n init body) := by
  induction n with
  | zero => exact h0
  | succ n ih =>
    rw [forRange, List.range_succ, List.foldl_append, List.foldl_cons, List.foldl_nil]
    exact hstep n (by omega) _ (ih fun i hi => hstep i (by omega))

theorem forRange_keeps (read : α → β) (h : ∀ i < n, ∀ a, read (body a i) = read a) :
    read (forRange n init body) = read init := by
  apply forRange_induction (P := fun _ a => read a = read init)
  · rfl
  · intro i hi a ha
    rw [h i hi, ha]

theorem forRange_frame (f : α → β) (n : ℕ) (init : α) {body : α → ℕ → α}
    (h : ∀ a i, f (body a i) = f a) : f (forRange n init body) = f init :=
  forRange_keeps f fun i _ a => h a i

theorem forRange_writes (read : α → β) {v : β} {j : ℕ} (hj : j < n) (hset : ∀ a, read (body a j) = v)
    (hkeep : ∀ i < n, i ≠ j → ∀ a, read (body a i) = read a) : read (forRange n init body) = v := by
  refine forRange_induction (P := fun i a => j < i → read a = v) (fun h => absurd h (by omega)) ?_ hj
  intro i hi a ha hji
  by_cases h : i = j
  · rw [h, hset]
  · rw [hkeep i hi h, ha (by omega)]

theorem forRange_rel {R : α → β → Prop} {f : α → ℕ → α} {g : β → ℕ → β} (n : ℕ)
    (hstep : ∀ a b i, R a b → R (f a i) (g b i)) {a : α} {b : β} (h : R a b) :
    R (forRange n a f) (forRange n b g) := by
  unfold forRange
  induction List.range n generalizing a b with
  | nil => exact h
  | cons i is ih => exact ih (hstep a b i h)

theorem forRange_congr {body' : α → ℕ → α} (h : ∀ i < n, ∀ a, body a i = body' a i) :
    forRange n init body = forRange n init body' := by
  induction n with
  | zero => rfl
  | succ n ih =>
    have hlast := h n (by omega)
    have hinit := ih fun i hi => h i (by omega)
    unfold forRange at hinit ⊢
    rw [List.range_succ, List.foldl_append, List.foldl_append, hinit, List.foldl_cons, List.foldl_cons,
      List.foldl_nil, List.foldl_nil, hlast]

end forRange

end Rv32Emu
