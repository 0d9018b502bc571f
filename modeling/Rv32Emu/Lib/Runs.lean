import Mathlib.Logic.Relation

namespace Rv32Emu

variable {σ τ α : Type*}

inductive Run (step : σ → α → σ → Prop) : σ → List α → σ → Prop
  | nil (s : σ) : Run step s [] s
  | cons {s u t : σ} {a : α} {as : List α} : step s a u → Run step u as t → Run step s (a :: as) t

namespace Run

variable {step : σ → α → σ → Prop}

theorem single {s t : σ} {a : α} : Run step s [a] t ↔ step s a t := by
  constructor
  · intro h
    cases h with
    | cons hs hr =>
      cases hr
      exact hs
  · exact fun h => .cons h (.nil t)

theorem append {s u t : σ} {as bs : List α} (h : Run step s as u) (k : Run step u bs t) :
    Run step s (as ++ bs) t := by
  induction h with
  | nil s => exact k
  | cons hs _ ih => exact .cons hs (ih k)

theorem split {s t : σ} {as bs : List α} (h : Run step s (as ++ bs) t) :
    ∃ u, Run step s as u ∧ Run step u bs t := by
  induction as generalizing s with
  | nil => exact ⟨s, .nil s, h⟩
  | cons a as ih =>
    cases h with
    | cons hs hr =>
      obtain ⟨u, h₁, h₂⟩ := ih hr
      exact ⟨u, .cons hs h₁, h₂⟩

theorem imp {step' : σ → α → σ → Prop} {s t : σ} {as : List α} (h : Run step s as t)
    (hi : ∀ s t, ∀ a ∈ as, step s a t → step' s a t) : Run step' s as t := by
  induction h with
  | nil s => exact .nil s
  | cons hs _ ih =>
    exact .cons (hi _ _ _ List.mem_cons_self hs) (ih fun s t a ha => hi s t a (List.mem_cons_of_mem _ ha))

theorem map {β : Type*} {step' : σ → β → σ → Prop} {f : α → β} (hf : ∀ s a t, step s a t → step' s (f a) t)
    {s t : σ} {as : List α} (h : Run step s as t) : Run step' s (as.map f) t := by
  induction h with
  | nil s => exact .nil s
  | cons hs _ ih => exact .cons (hf _ _ _ hs) ih

theorem invariant {I : σ → Prop} (hstep : ∀ s a t, I s → step s a t → I t)
    {s t : σ} {as : List α} (h : Run step s as t) (hi : I s) : I t := by
  induction h with
  | nil => exact hi
  | cons hs _ ih => exact ih (hstep _ _ _ hi hs)

theorem visits {I : σ → Prop} (hstep : ∀ s a t, I s → step s a t → I t) {s t : σ} {as : List α}
    (h : Run step s as t) (hi : I s) : Run (fun s a t => I s ∧ step s a t ∧ I t) s as t := by
  induction h with
  | nil s => exact .nil s
  | cons hs _ ih =>
    have hu := hstep _ _ _ hi hs
    exact .cons ⟨hi, hs, hu⟩ (ih hu)

theorem forall_mem {Q : α → Prop} (hq : ∀ s a t, step s a t → Q a) {s t : σ} {as : List α}
    (h : Run step s as t) :
    ∀ a ∈ as, Q a := by
  induction h with
  | nil => simp
  | cons hs _ ih => exact List.forall_mem_cons.mpr ⟨hq _ _ _ hs, ih⟩

theorem exists_change {β : Type*} (f : σ → β) {s t : σ} {as : List α} (h : Run step s as t)
    (hne : f t ≠ f s) :
    ∃ a ∈ as, ∃ u v, step u a v ∧ f v ≠ f u := by
  induction h with
  | nil s => exact absurd rfl hne
  | @cons s u t a as hs _ ih =>
    by_cases hu : f u = f s
    · obtain ⟨b, hb, hchange⟩ := ih (hu ▸ hne)
      exact ⟨b, List.mem_cons_of_mem _ hb, hchange⟩
    · exact ⟨a, List.mem_cons_self, s, u, hs, hu⟩

theorem history {I : List α → σ → Prop}
    (hstep : ∀ as s a t, I as s → step s a t → I (as ++ [a]) t)
    {s t : σ} {as bs : List α} (h : Run step s bs t) (hi : I as s) : I (as ++ bs) t := by
  induction h generalizing as with
  | nil => simpa using hi
  | cons hs _ ih => simpa using ih (hstep _ _ _ _ hi hs)

theorem weakSimulation {β γ : Type*} {step' : τ → β → τ → Prop} {R : σ → τ → Prop} {f : α → Option γ}
    {g : β → Option γ}
    (hstep : ∀ s a t s', R s s' → step s a t → ∃ bs t', Run step' s' bs t' ∧ R t t' ∧
      bs.filterMap g = (f a).toList)
    {s t : σ} {s' : τ} {as : List α} (h : Run step s as t) (hr : R s s') :
    ∃ bs t', Run step' s' bs t' ∧ R t t' ∧ bs.filterMap g = as.filterMap f := by
  induction h generalizing s' with
  | nil => exact ⟨[], s', .nil s', hr, rfl⟩
  | @cons _ _ _ a as hs _ ih =>
    obtain ⟨bs, u', h₁, hu, hobs⟩ := hstep _ _ _ _ hr hs
    obtain ⟨cs, t', h₂, ht, hobs'⟩ := ih hu
    refine ⟨bs ++ cs, t', h₁.append h₂, ht, ?_⟩
    rw [List.filterMap_append, hobs, hobs', List.filterMap_cons]
    cases f a <;> rfl

end Run

end Rv32Emu
