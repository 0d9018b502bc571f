import Rv32Emu.Lib.ForRange

namespace Rv32Emu

structure LaneView (σ G L : Type) where
  shared : σ → G
  lane : σ → ℕ → L

namespace LaneView

variable {σ G L α : Type} (V : LaneView σ G L)

structure Same (s s' : σ) (k : ℕ) : Prop where
  shared : V.shared s = V.shared s'
  lane : V.lane s k = V.lane s' k

def Own (f : σ → ℕ → α) : Prop := ∀ ⦃s s' : σ⦄ ⦃k : ℕ⦄, V.Same s s' k → f s k = f s' k

structure Local (f : σ → ℕ → σ) : Prop where
  shared : ∀ s k, V.shared (f s k) = V.shared s
  frame : ∀ {s k j}, j ≠ k → V.lane (f s k) j = V.lane s j
  own : ∀ {s s' k}, V.Same s s' k → V.lane (f s k) k = V.lane (f s' k) k

variable {V} {f g : σ → ℕ → σ} {s s' : σ} {k n : ℕ}

namespace Local

theorem same (h : V.Local f) (hs : V.Same s s' k) : V.Same (f s k) (f s' k) k :=
  ⟨by rw [h.shared, h.shared, hs.shared], h.own hs⟩

theorem skip : V.Local fun s _ => s := ⟨fun _ _ => rfl, fun _ => rfl, fun h => h.lane⟩

theorem comp (hg : V.Local g) (hf : V.Local f) : V.Local fun s k => g (f s k) k where
  shared _ _ := (hg.shared _ _).trans (hf.shared _ _)
  frame hj := (hg.frame hj).trans (hf.frame hj)
  own hs := hg.own (hf.same hs)

theorem bind {w : σ → ℕ → α} {g : α → σ → ℕ → σ} (hw : V.Own w) (hf : V.Local f) (hg : ∀ a, V.Local (g a)) :
    V.Local fun s k => g (w s k) (f s k) k where
  shared s k := ((hg (w s k)).shared _ _).trans (hf.shared _ _)
  frame hj := ((hg _).frame hj).trans (hf.frame hj)
  own {s s' k} hs := by
    rw [hw hs]
    exact (hg _).own (hf.same hs)

theorem ite {c : σ → ℕ → Prop} [∀ s k, Decidable (c s k)] (hc : V.Own c) (hf : V.Local f) (hg : V.Local g) :
    V.Local fun s k => if c s k then f s k else g s k where
  shared s k := by
    split
    · exact hf.shared s k
    · exact hg.shared s k
  frame {s k j} hj := by
    split
    · exact hf.frame hj
    · exact hg.frame hj
  own {s s' k} hs := by
    by_cases h : c s k
    · rw [if_pos h, if_pos (hc hs ▸ h)]
      exact hf.own hs
    · rw [if_neg h, if_neg (hc hs ▸ h)]
      exact hg.own hs

theorem forRange_shared (h : V.Local f) (n : ℕ) (s : σ) : V.shared (forRange n s f) = V.shared s :=
  forRange_frame V.shared n s h.shared

theorem forRange_outside (h : V.Local f) (hk : n ≤ k) : V.lane (forRange n s f) k = V.lane s k :=
  forRange_keeps (fun s => V.lane s k) fun _ hi _ => h.frame (by omega)

theorem forRange_lane (h : V.Local f) (hk : k < n) : V.lane (forRange n s f) k = V.lane (f s k) k := by
  have hloop : V.shared (forRange n s f) = V.shared s ∧
      V.lane (forRange n s f) k = if k < n then V.lane (f s k) k else V.lane s k := by
    apply forRange_induction (P := fun i t => V.shared t = V.shared s ∧
      V.lane t k = if k < i then V.lane (f s k) k else V.lane s k)
    · exact ⟨rfl, rfl⟩
    · rintro i - t ⟨hshared, hlane⟩
      refine ⟨(h.shared t i).trans hshared, ?_⟩
      by_cases hik : k = i
      · subst hik
        rw [if_neg (Nat.lt_irrefl k)] at hlane
        rw [if_pos (Nat.lt_succ_self k)]
        exact h.own ⟨hshared, hlane⟩
      · rw [h.frame hik, hlane]
        by_cases hki : k < i
        · rw [if_pos hki, if_pos (by omega)]
        · rw [if_neg hki, if_neg (by omega)]
  rw [hloop.2, if_pos hk]

end Local

end LaneView

end Rv32Emu
