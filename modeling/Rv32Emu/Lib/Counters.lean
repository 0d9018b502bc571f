import Mathlib.Data.Nat.Notation
import Rv32Emu.Lib.Runs

namespace Rv32Emu

inductive CounterOp (b : ℕ)
  | inc
  | dec
  | assign (n : Fin (b + 1))

namespace CounterOp

variable {b : ℕ}

def apply (c : Fin (b + 1)) : CounterOp b → Fin (b + 1)
  | inc => ⟨min (c + 1) b, by omega⟩
  | dec => ⟨c - 1, by omega⟩
  | assign n => n

def applyIf (c : Fin (b + 1)) (o : Option (CounterOp b)) : Fin (b + 1) := o.elim c (apply c)

end CounterOp

section refinement

variable {σ α ι : Type} {b : ℕ} {step : σ → α → σ → Prop}

def counterAfter (op : α → Option (CounterOp b)) (c : Fin (b + 1)) (as : List α) : Fin (b + 1) :=
  (as.filterMap op).foldl CounterOp.apply c

theorem counterAfter_cons (op : α → Option (CounterOp b)) (c : Fin (b + 1)) (a : α) (as : List α) :
    counterAfter op c (a :: as) = counterAfter op (CounterOp.applyIf c (op a)) as := by
  unfold counterAfter
  cases h : op a with
  | none =>
    rw [List.filterMap_cons_none h]
    rfl
  | some o =>
    rw [List.filterMap_cons_some h]
    rfl

theorem counterAfter_unselected {op : α → Option (CounterOp b)} {as : List α} (h : ∀ a ∈ as, op a = none)
    (c : Fin (b + 1)) : counterAfter op c as = c := by
  unfold counterAfter
  rw [List.filterMap_eq_nil_iff.mpr h]
  rfl

theorem Run.counters (f : σ → ι → ℕ) {op : ι → α → Option (CounterOp b)}
    (hstep : ∀ s a t i (c : Fin (b + 1)), step s a t → f s i = c → f t i = CounterOp.applyIf c (op i a))
    {s t : σ} {as : List α} (h : Run step s as t) {i : ι} {c : Fin (b + 1)} (hc : f s i = c) :
    f t i = counterAfter (op i) c as := by
  induction h generalizing c with
  | nil => exact hc
  | cons hs _ ih => rw [counterAfter_cons, ih (hstep _ _ _ _ _ hs hc)]

end refinement

end Rv32Emu
