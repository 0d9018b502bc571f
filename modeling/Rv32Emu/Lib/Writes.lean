import Mathlib.Logic.Function.Basic
import Rv32Emu.Lib.ForRange

namespace Rv32Emu

variable {β : Type}

def applyWrites (m : ℕ → β) (ws : List (ℕ × β)) : ℕ → β := ws.foldl (fun m w => Function.update m w.1 w.2) m

theorem applyWrites_append (m : ℕ → β) (ws ws' : List (ℕ × β)) :
    applyWrites m (ws ++ ws') = applyWrites (applyWrites m ws) ws' :=
  List.foldl_append ..

theorem applyWrites_of_notMem {ws : List (ℕ × β)} {x : ℕ} (h : x ∉ ws.map Prod.fst) (m : ℕ → β) :
    applyWrites m ws x = m x := by
  unfold applyWrites
  induction ws generalizing m with
  | nil => rfl
  | cons w ws ih =>
    obtain ⟨hne, hrest⟩ := not_or.mp (fun hor => h (List.mem_cons.mpr hor))
    rw [List.foldl_cons, ih hrest]
    exact Function.update_of_ne hne ..

theorem forRange_applyWrites (n : ℕ) (m : ℕ → β) (ws : ℕ → List (ℕ × β)) :
    forRange n m (fun m i => applyWrites m (ws i)) = applyWrites m ((List.range n).flatMap ws) := by
  unfold forRange
  induction n with
  | zero => rfl
  | succ n ih =>
    rw [List.range_succ, List.foldl_append, ih, List.flatMap_append, applyWrites_append]
    simp

theorem flatMap_range_chunks (a k n : ℕ) :
    (List.range n).flatMap (fun i => List.range' (a + i * k) k) = List.range' a (n * k) := by
  induction n with
  | zero => simp
  | succ n ih =>
    rw [List.range_succ, List.flatMap_append, ih, Nat.add_mul, Nat.one_mul, ← List.range'_append_1]
    simp

section footprints

variable {γ : Type*} {S T : ℕ → Prop}

def ReadsOnly (S : ℕ → Prop) (g : (ℕ → β) → γ) : Prop := ∀ m m', (∀ x, S x → m' x = m x) → g m' = g m

/-- A change of the memory that neither writes outside the places `S` nor depends on what is outside. -/
structure WritesOnly (S : ℕ → Prop) (f : (ℕ → β) → ℕ → β) : Prop where
  frame : ∀ m x, ¬S x → f m x = m x
  reads : ∀ x, S x → ReadsOnly S fun m => f m x

theorem ReadsOnly.const (v : γ) : ReadsOnly S fun _ : ℕ → β => v := fun _ _ _ => rfl

theorem WritesOnly.id : WritesOnly S fun m : ℕ → β => m := ⟨fun _ _ _ => rfl, fun x hx _ _ h => h x hx⟩

theorem WritesOnly.mono {f : (ℕ → β) → ℕ → β} (h : WritesOnly S f) (hST : ∀ x, S x → T x) :
    WritesOnly T f := by
  refine ⟨fun m x hx => h.frame m x fun hS => hx (hST x hS), fun x hx m m' hagree => ?_⟩
  by_cases hS : S x
  · exact h.reads x hS m m' fun y hy => hagree y (hST y hy)
  · dsimp only
    rw [h.frame m x hS, h.frame m' x hS, hagree x hx]

theorem WritesOnly.comp {f f' : (ℕ → β) → ℕ → β} (h : WritesOnly S f) (h' : WritesOnly S f') :
    WritesOnly S fun m => f' (f m) := by
  refine ⟨fun m x hx => (h'.frame _ x hx).trans (h.frame m x hx), fun x hx m m' hagree => ?_⟩
  apply h'.reads x hx
  intro y hy
  exact h.reads y hy m m' hagree

end footprints

section wrapping

variable {modulus limit size addr n : ℕ}

theorem wrapped_check_iff (hsize : 0 < size) (hlimit : size ≤ limit) (hmod : limit + size ≤ modulus)
    (haddr : addr < modulus) :
    ((addr + size) % modulus ≤ limit → ∀ k < size, addr + k < limit) ↔ addr + size < modulus := by
  constructor
  · intro h
    by_contra hwrap
    have hend : (addr + size) % modulus = addr + size - modulus := by
      rw [Nat.mod_eq_sub_mod (Nat.le_of_not_lt hwrap), Nat.mod_eq_of_lt (by omega)]
    have hfirst := h (by omega) 0 hsize
    omega
  · intro hend hcheck k hk
    rw [Nat.mod_eq_of_lt hend] at hcheck
    omega

theorem wrapped_block_iff (hsize : 0 < size) (haddr : addr < modulus) :
    (∀ i < n, (addr + i * size) % modulus + size < modulus) ↔ n = 0 ∨ addr + n * size < modulus := by
  constructor
  · intro h
    by_contra hblock
    obtain ⟨hn, hwrap⟩ := not_or.mp hblock
    -- the access that reaches the end of the address space
    have hle := Nat.div_mul_le_self (modulus - 1 - addr) size
    have hgt := Nat.lt_div_mul_add (a := modulus - 1 - addr) hsize
    have hi : (modulus - 1 - addr) / size < n := by
      apply Nat.lt_of_mul_lt_mul_right (a := size)
      omega
    have hlast := h _ hi
    rw [Nat.mod_eq_of_lt (by omega)] at hlast
    omega
  · rintro (rfl | hblock) i hi
    · exact absurd hi (Nat.not_lt_zero i)
    · have hle : (i + 1) * size ≤ n * size := Nat.mul_le_mul_right size hi
      rw [Nat.add_mul, Nat.one_mul] at hle
      rw [Nat.mod_eq_of_lt (by omega)]
      omega

end wrapping

end Rv32Emu
