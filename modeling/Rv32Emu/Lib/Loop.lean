import Mathlib.Data.Nat.Notation
import Mathlib.Data.Option.Basic
import Mathlib.Data.Sum.Basic
import Mathlib.Order.WellFounded
import Mathlib.Tactic.Basic
import Rv32Emu.Lib.Runs

/-!
Loops with fuel. A body either goes on with a new state or leaves with a result; it may itself
run out of fuel. `loop` is monotone in the fuel, has the invariant rule of a while loop, and
returns whenever its body does and a measure decreases.
-/

namespace Rv32Emu

variable {σ ρ : Type*}

def loop (body : σ → Option (σ ⊕ ρ)) : ℕ → σ → Option ρ
  | 0, _ => none
  | n + 1, s =>
    match body s with
    | none => none
    | some (.inl s') => loop body n s'
    | some (.inr r) => some r

namespace Loop

variable {body body' : σ → Option (σ ⊕ ρ)} {s : σ} {r : ρ}

theorem step {s' : σ} (h : body s = some (.inl s')) (n : ℕ) : loop body (n + 1) s = loop body n s' := by
  simp [loop, h]

theorem exit (h : body s = some (.inr r)) (n : ℕ) : loop body (n + 1) s = some r := by
  simp [loop, h]

theorem unfold {n : ℕ} (h : loop body n s = some r) :
    ∃ m, n = m + 1 ∧
      (body s = some (.inr r) ∨ ∃ s', body s = some (.inl s') ∧ loop body m s' = some r) := by
  cases n with
  | zero => cases h
  | succ n =>
    refine ⟨n, rfl, ?_⟩
    simp only [loop] at h
    split at h
    · cases h
    · exact .inr ⟨_, by assumption, h⟩
    · cases h
      exact .inl (by assumption)

theorem mono (hb : ∀ s x, body s = some x → body' s = some x) {n m : ℕ} (hnm : n ≤ m)
    (h : loop body n s = some r) : loop body' m s = some r := by
  induction n generalizing m s with
  | zero => cases h
  | succ n ih =>
    obtain ⟨m, rfl⟩ : ∃ k, m = k + 1 := ⟨m - 1, by omega⟩
    obtain ⟨_, hk, hx | ⟨s', hs, hl⟩⟩ := unfold h
    · exact exit (hb _ _ hx) m
    · cases hk
      rw [step (hb _ _ hs)]
      exact ih (by omega) hl

theorem invariant {I : σ → Prop} {Q : ρ → Prop}
    (hstep : ∀ s s', I s → body s = some (.inl s') → I s')
    (hexit : ∀ s r, I s → body s = some (.inr r) → Q r)
    {n : ℕ} (h : loop body n s = some r) (hi : I s) : Q r := by
  induction n generalizing s with
  | zero => cases h
  | succ n ih =>
    obtain ⟨_, hk, hx | ⟨s', hs, hl⟩⟩ := unfold h
    · exact hexit _ _ hi hx
    · cases hk
      exact ih hl (hstep _ _ hi hs)

theorem rel {σ' ρ' : Type*} {R : σ → σ' → Prop} {Q : ρ → ρ' → Prop} {body' : σ' → Option (σ' ⊕ ρ')}
    (hbody : ∀ s s', R s s' → Option.Rel (Sum.LiftRel R Q) (body s) (body' s')) {s' : σ'} (h : R s s')
    (n : ℕ) :
    Option.Rel Q (loop body n s) (loop body' n s') := by
  induction n generalizing s s' with
  | zero => exact .none
  | succ n ih =>
    unfold loop
    generalize body s = x, body' s' = x', hbody s s' h = hx
    cases hx with
    | none => exact .none
    | some hx =>
      cases hx with
      | inl hs => exact ih hs
      | inr hr => exact .some hr

theorem returns {I : σ → Prop} (μ : σ → ℕ)
    (hbody : ∀ s, I s → (∃ r, body s = some (.inr r)) ∨
      ∃ s', body s = some (.inl s') ∧ I s' ∧ μ s' < μ s)
    (hi : I s) : ∃ r, loop body (μ s + 1) s = some r := by
  induction hn : μ s using Nat.strongRecOn generalizing s with
  | ind n ih =>
    obtain ⟨r, hr⟩ | ⟨s', hs, hi', hlt⟩ := hbody s hi
    · exact ⟨r, exit hr _⟩
    · obtain ⟨r, hr⟩ := ih (μ s') (hn ▸ hlt) hi' rfl
      refine ⟨r, ?_⟩
      rw [step hs]
      exact mono (fun _ _ h => h) (by omega) hr

section visits

def Visits (body : σ → Option (σ ⊕ ρ)) : σ → List σ → σ → Prop :=
  Run fun s a t => a = s ∧ body s = some (.inl t)

variable {u : σ} {ss : List σ}

theorem Visits.loop_eq (h : Visits body s ss u) (n : ℕ) : loop body (n + ss.length) s = loop body n u := by
  induction h with
  | nil => rfl
  | cons hs _ ih => exact (step hs.2 _).trans ih

theorem Visits.guarded {p : σ → Bool} {n : ℕ}
    (h : (loop (fun s => if p s then body s else none) n s).isSome = true) :
    ∀ ss u, Visits body s ss u → p u = true := by
  induction n generalizing s with
  | zero => cases h
  | succ n ih =>
    obtain ⟨r, hr⟩ := Option.isSome_iff_exists.mp h
    have hs : p s = true := by
      by_contra hp
      simp [loop, hp] at hr
    intro ss u hv
    cases hv with
    | nil => exact hs
    | cons hstep hv =>
      rw [step (by rw [if_pos hs, hstep.2])] at h
      exact ih h _ _ hv

theorem diverges {I : σ → Prop} (hbody : ∀ s, I s → ∃ s', body s = some (.inl s') ∧ I s') (hi : I s) (n : ℕ) :
    loop body n s = none := by
  induction n generalizing s with
  | zero => rfl
  | succ n ih =>
    obtain ⟨s', hs, hi'⟩ := hbody s hi
    rw [step hs]
    exact ih hi'

variable {β : Type*} [Preorder β] [WellFoundedLT β] {I U : σ → Prop} {μ : σ → β}

theorem returns_of_never (hbody : ∀ s, I s → (∃ r, body s = some (.inr r)) ∨
      ∃ s', body s = some (.inl s') ∧ I s' ∧ (¬U s → μ s' < μ s))
    (hi : I s) (hu : ∀ ss u, Visits body s ss u → ¬U u) : ∃ n r, loop body n s = some r := by
  induction hb : μ s using WellFoundedLT.induction generalizing s with
  | ind b ih =>
    obtain ⟨r, hr⟩ | ⟨s', hs, hi', hlt⟩ := hbody s hi
    · exact ⟨1, r, exit hr 0⟩
    · have hdecr : μ s' < b := hb ▸ hlt (hu [] s (.nil s))
      obtain ⟨n, r, hr⟩ := ih (μ s') hdecr hi' (fun ss u h => hu (s :: ss) u (.cons ⟨rfl, hs⟩ h)) rfl
      exact ⟨n + 1, r, (step hs n).trans hr⟩

end visits

end Loop

end Rv32Emu
