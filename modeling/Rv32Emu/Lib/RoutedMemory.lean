import Mathlib.Logic.Basic

namespace Rv32Emu

/-- The state is `σ`, a write is `ω`, the routes are `ρ`, and each address in `A` holds a value in `B`. -/
structure RoutedMemory (σ ω ρ A B : Type*) where
  read : σ → ρ → A → B
  write : σ → ω → σ
  route : ω → ρ
  covers : ω → A → Prop
  value : ω → A → B
  /-- Two routes lead to the same cell. -/
  same : ρ → ρ → A → Prop

namespace RoutedMemory

variable {σ ω ρ A B : Type*} (M : RoutedMemory σ ω ρ A B)

/-- A write changes what is read through its own cells, and nothing else, for the states, writes and
addresses in question. -/
structure Lawful (I : σ → Prop) (W : ω → Prop) (X : A → Prop) : Prop where
  keeps : ∀ {s w}, I s → W w → I (M.write s w)
  seen : ∀ {s w r a}, I s → W w → X a → M.covers w a → M.same (M.route w) r a →
    M.read (M.write s w) r a = M.value w a
  unseen : ∀ {s w r a}, I s → W w → X a → ¬(M.covers w a ∧ M.same (M.route w) r a) →
    M.read (M.write s w) r a = M.read s r a

def writeAll (s : σ) (ws : List ω) : σ := ws.foldl M.write s

def LastWrite (ws : List ω) (a : A) (w : ω) : Prop :=
  ∃ before after, ws = before ++ w :: after ∧ M.covers w a ∧ ∀ u ∈ after, ¬M.covers u a

variable {M} {I : σ → Prop} {W : ω → Prop} {X : A → Prop} {s : σ} {ws : List ω} {r : ρ} {a : A}

namespace Lawful

theorem writeAll_keeps (hM : M.Lawful I W X) (hi : I s) (hw : ∀ w ∈ ws, W w) : I (M.writeAll s ws) := by
  induction ws generalizing s with
  | nil => exact hi
  | cons w ws ih =>
    apply ih (hM.keeps hi (hw w List.mem_cons_self))
    exact fun u hu => hw u (List.mem_cons_of_mem _ hu)

theorem read_writeAll {b : B} (hM : M.Lawful I W X) (hi : I s) (hw : ∀ w ∈ ws, W w) (ha : X a)
    (h : M.read s r a = b) (hws : ∀ w ∈ ws, M.covers w a → M.same (M.route w) r a → M.value w a = b) :
    M.read (M.writeAll s ws) r a = b := by
  induction ws generalizing s with
  | nil => exact h
  | cons w ws ih =>
    have hww := hw w List.mem_cons_self
    apply ih (hM.keeps hi hww) fun u hu => hw u (List.mem_cons_of_mem _ hu)
    · by_cases hc : M.covers w a ∧ M.same (M.route w) r a
      · rw [hM.seen hi hww ha hc.1 hc.2, hws w List.mem_cons_self hc.1 hc.2]
      · rw [hM.unseen hi hww ha hc, h]
    · exact fun u hu => hws u (List.mem_cons_of_mem _ hu)

theorem read_lastWrite {w : ω} (hM : M.Lawful I W X) (hi : I s) (hw : ∀ w ∈ ws, W w) (ha : X a)
    (hlast : M.LastWrite ws a w) (hsame : M.same (M.route w) r a) :
    M.read (M.writeAll s ws) r a = M.value w a := by
  obtain ⟨before, after, rfl, hc, hno⟩ := hlast
  have hbefore : ∀ u ∈ before, W u := fun u hu => hw u (List.mem_append_left _ hu)
  have hafter : ∀ u ∈ after, W u := fun u hu => hw u (List.mem_append_right _ (List.mem_cons_of_mem _ hu))
  have hww : W w := hw w (List.mem_append_right _ List.mem_cons_self)
  have hi' := hM.writeAll_keeps hi hbefore
  have hsplit : M.writeAll s (before ++ w :: after) = M.writeAll (M.write (M.writeAll s before) w) after := by
    rw [writeAll, List.foldl_append]
    rfl
  rw [hsplit]
  apply hM.read_writeAll (hM.keeps hi' hww) hafter ha (hM.seen hi' hww ha hc hsame)
  exact fun u hu hcu => absurd hcu (hno u hu)

end Lawful

end RoutedMemory

end Rv32Emu
