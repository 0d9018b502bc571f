import Rv32Emu.Cop.Expansion

namespace Rv32Emu

variable {n m : ℕ} {v : CopView} {tid : Tid} {x : Bool × CopView}

theorem Outcome.andThen_mono {r r' : Outcome} {k k' : CopView → Outcome} (hr : ∀ x, r = some x → r' = some x)
    (hk : ∀ u x, k u = some x → k' u = some x) (h : r.andThen k = some x) : r'.andThen k' = some x := by
  obtain ⟨ok, v'⟩ := x
  obtain ⟨hb, rfl⟩ | ⟨u, hu, hl⟩ := Outcome.andThen_eq_some h
  · rw [hr _ hb]
    rfl
  · rw [hr _ hu]
    exact hk u _ hl

theorem drainIfExpanding_mono (hnm : n ≤ m) (h : drainIfExpanding n v tid = some x) :
    drainIfExpanding m v tid = some x := by
  unfold drainIfExpanding at h ⊢
  split_ifs at h ⊢
  · exact Loop.mono (fun _ _ h => h) hnm h
  · exact h

theorem mopTurn_mono (hnm : n ≤ m) {y : CopView ⊕ (Bool × CopView)} (h : mopTurn n tid v = some y) :
    mopTurn m tid v = some y := by
  unfold mopTurn at h ⊢
  split at h
  · exact h
  · next insn st hgen =>
    cases hstep : tensixCopStep ((v.setMopState st).feed insn) tid with
    | mk ok u =>
      cases ok with
      | false => simpa [hstep] using h
      | true =>
        simp only [hstep, Bool.not_true, Bool.false_eq_true, if_false] at h ⊢
        cases hd : drainIfExpanding n u tid with
        | none => simp [hd] at h
        | some r =>
          rw [drainIfExpanding_mono hnm hd]
          rwa [hd] at h

theorem mopRetry_mono (hnm : n ≤ m) (h : mopRetry n v tid = some x) : mopRetry m v tid = some x := by
  unfold mopRetry at h ⊢
  dsimp only at h ⊢
  split_ifs at h ⊢
  · exact h
  · exact drainIfExpanding_mono hnm h
  · exact h

theorem mopContinueExecution_mono (hnm : n ≤ m) (h : mopContinueExecution n v tid = some x) :
    mopContinueExecution m v tid = some x := by
  apply Outcome.andThen_mono (fun _ => drainIfExpanding_mono hnm) ?_ h
  intro u y hu
  apply Outcome.andThen_mono (fun _ => mopRetry_mono hnm) ?_ hu
  intro u y hu
  exact Loop.mono (fun _ _ => mopTurn_mono hnm) hnm hu

section returns

variable {ws : List Word} (tid)

theorem drainIfExpanding_returns (he : Expansion v ws) : ∃ fuel r, drainIfExpanding fuel v tid = some r := by
  cases hx : v.replay.expanding with
  | false => exact ⟨0, (true, v), by simp [drainIfExpanding, hx]⟩
  | true =>
    obtain ⟨fuel, r, hr⟩ := drainReplayExpansion_returns tid he hx
    exact ⟨fuel, r, by simpa [drainIfExpanding, hx] using hr⟩

theorem mopTurn_returns (he : Expansion v ws) (hv : v.Settled) : ∃ fuel y, mopTurn fuel tid v = some y := by
  cases hgen : mopGenerateNext v.thread.mopCfg v.thread.mopState with
  | mk w st =>
    cases w with
    | none => exact ⟨0, .inr (true, mopFinish (v.setMopState st)), by simp only [mopTurn, hgen]⟩
    | some insn =>
      obtain ⟨ws', rfl, hg⟩ := he.generates.tail_of_some hgen
      cases hstep : tensixCopStep ((v.setMopState st).feed insn) tid with
      | mk ok u =>
        obtain ⟨hres, -⟩ := he.step_template hv hg hstep
        obtain ⟨fuel, ⟨done, v'⟩, hd⟩ := drainIfExpanding_returns tid hres.expansion
        refine ⟨fuel, if ok then (if done then .inl v' else .inr (false, v')) else .inr (false, u), ?_⟩
        simp only [mopTurn, hgen, hstep]
        cases ok <;> cases done <;> simp [hd]

theorem mopLoop_returns (he : Expansion v ws) (hv : v.Settled) :
    ∃ fuel r, loop (mopTurn fuel tid) fuel v = some r := by
  induction hn : ws.length generalizing v ws with
  | zero =>
    obtain ⟨fuel, y, hy⟩ := mopTurn_returns tid he hv
    cases mopTurn_spec he hv hy with
    | exit => exact ⟨fuel + 1, _, Loop.exit (mopTurn_mono (by omega) hy) fuel⟩
    | next hws => simp [hws] at hn
  | succ n ih =>
    obtain ⟨fuel, y, hy⟩ := mopTurn_returns tid he hv
    cases mopTurn_spec he hv hy with
    | exit => exact ⟨fuel + 1, _, Loop.exit (mopTurn_mono (by omega) hy) fuel⟩
    | next hws hr hs =>
      subst hws
      obtain ⟨fuel', r, hl⟩ := ih hr.expansion hs (by simpa using hn)
      refine ⟨max fuel fuel' + 1, r, ?_⟩
      rw [Loop.step (mopTurn_mono (by omega) hy)]
      exact Loop.mono (fun _ _ => mopTurn_mono (by omega)) (by omega) hl

theorem mopRetry_returns (he : Expansion v ws) : ∃ fuel r, mopRetry fuel v tid = some r := by
  cases hc : v.thread.currentInsn with
  | none => exact ⟨0, (true, v), by simp [mopRetry, hc]⟩
  | some insn =>
    cases hstep : tensixCopStep v tid with
    | mk ok u =>
      obtain ⟨hres, -, -, hcur⟩ := he.step_pending hc hstep
      cases ok with
      | false => exact ⟨0, (false, u), by simp [mopRetry, hc, hstep]⟩
      | true =>
        obtain ⟨fuel, r, hr⟩ := drainIfExpanding_returns tid hres.expansion
        exact ⟨fuel, r, by simpa [mopRetry, hc, hstep, CopView.setThread_current hcur] using hr⟩

theorem Outcome.andThen_returns {r : ℕ → Outcome} {k : ℕ → CopView → Outcome}
    (hr : ∀ n m x, n ≤ m → r n = some x → r m = some x)
    (hk : ∀ n m u x, n ≤ m → k n u = some x → k m u = some x) (hret : ∃ fuel x, r fuel = some x)
    (hnext : ∀ fuel u, r fuel = some (true, u) → ∃ fuel' x, k fuel' u = some x) :
    ∃ fuel x, (r fuel).andThen (k fuel) = some x := by
  obtain ⟨fuel, ⟨ok, u⟩, h⟩ := hret
  cases ok with
  | false => exact ⟨fuel, (false, u), by rw [h]; rfl⟩
  | true =>
    obtain ⟨fuel', x, h'⟩ := hnext fuel u h
    refine ⟨max fuel fuel', x, ?_⟩
    rw [hr _ _ _ (le_max_left _ _) h]
    exact hk _ _ _ _ (le_max_right _ _) h'

theorem mopLoop_mono {n m : ℕ} (hnm : n ≤ m) (h : loop (mopTurn n tid) n v = some x) :
    loop (mopTurn m tid) m v = some x := Loop.mono (fun _ _ => mopTurn_mono hnm) hnm h

theorem mopContinueExecution_returns (he : Expansion v ws) :
    ∃ fuel x, mopContinueExecution fuel v tid = some x := by
  have hretry {u : CopView} (hu : Expansion u ws) (hx : u.replay.expanding = false) :
      ∃ fuel x, (mopRetry fuel u tid).andThen (fun v => loop (mopTurn fuel tid) fuel v) = some x := by
    refine Outcome.andThen_returns (fun _ _ _ => mopRetry_mono) ?_ (mopRetry_returns tid hu) ?_
    · exact fun _ _ _ _ => mopLoop_mono tid
    intro fuel w hw
    have hd := mopRetry_spec hu hx hw
    exact mopLoop_returns tid hd.resumes.expansion ⟨(hd.settled rfl).1, (hd.settled rfl).2⟩
  refine Outcome.andThen_returns (fun _ _ _ => drainIfExpanding_mono) ?_ (drainIfExpanding_returns tid he) ?_
  · intro n m u x hnm hu
    exact Outcome.andThen_mono (fun _ => mopRetry_mono hnm) (fun _ _ => mopLoop_mono tid hnm) hu
  · intro fuel u hu
    cases hx : v.replay.expanding with
    | false =>
      simp only [drainIfExpanding, hx, Bool.false_eq_true, if_false] at hu
      cases hu
      exact hretry he hx
    | true =>
      have hd := drainIfExpanding_spec he (by simp [hx]) hu
      exact hretry hd.resumes.expansion (hd.settled rfl).2

end returns

end Rv32Emu
