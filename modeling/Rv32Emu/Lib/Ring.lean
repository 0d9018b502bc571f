import Mathlib.Logic.Function.Basic
import Mathlib.Data.List.Range
import Mathlib.Data.Nat.ModEq

namespace Rv32Emu.Ring

variable {α : Type*}

def window (n : ℕ) (buf : ℕ → α) (head count : ℕ) : List α :=
  (List.range count).map (fun i => buf ((head + i) % n))

@[simp] theorem window_zero (n : ℕ) (buf : ℕ → α) (head : ℕ) : window n buf head 0 = [] := rfl

@[simp] theorem window_length (n : ℕ) (buf : ℕ → α) (head count : ℕ) :
    (window n buf head count).length = count := by simp [window]

theorem window_succ (n : ℕ) (buf : ℕ → α) (head count : ℕ) :
    window n buf head (count + 1) = window n buf head count ++ [buf ((head + count) % n)] := by
  simp [window, List.range_succ]

theorem window_mod (n : ℕ) (buf : ℕ → α) (head count : ℕ) :
    window n buf (head % n) count = window n buf head count := by
  simp [window, Nat.mod_add_mod]

theorem window_cons (n : ℕ) (buf : ℕ → α) (head count : ℕ) :
    window n buf head (count + 1) = buf (head % n) :: window n buf ((head + 1) % n) count := by
  rw [window_mod]
  simp only [window, List.range_succ_eq_map, List.map_cons, List.map_map, Nat.add_zero]
  congr 1
  apply List.map_congr_left
  intro i _
  simp only [Function.comp_apply, Nat.succ_eq_add_one]
  congr 2
  omega

theorem slot_injective {n head i j : ℕ} (hi : i < n) (hj : j < n)
    (h : (head + i) % n = (head + j) % n) : i = j := by
  have hm : i % n = j % n := Nat.ModEq.add_left_cancel' head h
  rwa [Nat.mod_eq_of_lt hi, Nat.mod_eq_of_lt hj] at hm

theorem window_push {n : ℕ} (buf : ℕ → α) (head count : ℕ) (x : α) (hc : count < n) :
    window n (Function.update buf ((head + count) % n) x) head (count + 1) =
      window n buf head count ++ [x] := by
  rw [window_succ, Function.update_self]
  congr 1
  apply List.map_congr_left
  intro i hi
  have hi' : i < count := List.mem_range.mp hi
  apply Function.update_of_ne
  intro h
  have := slot_injective (hi'.trans hc) hc h
  omega

theorem window_drop (n : ℕ) (buf : ℕ → α) (head count i : ℕ) (hi : i < count) :
    (window n buf head count).drop i =
      buf ((head + i) % n) :: (window n buf head count).drop (i + 1) := by
  rw [List.drop_eq_getElem_cons (by simpa using hi)]
  simp [window]

end Rv32Emu.Ring
