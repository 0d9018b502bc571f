import Rv32Emu.Cop.Queue

namespace Rv32Emu

namespace CopView

def issued (v : CopView) (insn : Word) : CopView :=
  v.setThread { v.thread with log := v.thread.log ++ [.issued insn] }

def finish (v : CopView) : CopView :=
  v.setThread { v.thread with
    directInsn := none, state := .running, insnExecuted := v.thread.insnExecuted + 1 }

def waitAt (v : CopView) (counted : Bool) : CopView :=
  let v := v.setThread { v.thread with state := .waiting }
  if counted then v.countWaiting else v

end CopView

theorem Outcome.andThen_eq_some {r : Outcome} {k : CopView → Outcome} {ok : Bool} {v' : CopView}
    (h : r.andThen k = some (ok, v')) :
    (r = some (false, v') ∧ ok = false) ∨ ∃ u, r = some (true, u) ∧ k u = some (ok, v') := by
  match r, h with
  | some (true, u), h => exact .inr ⟨u, rfl, h⟩
  | some (false, u), h =>
    cases h
    exact .inl ⟨rfl, rfl⟩

def Verdict.toDirect (fuel : ℕ) (insn : Word) (tid : Tid) : Verdict → Outcome
  | .held counted u => some (false, u.waitAt counted)
  | .passed u =>
    if tensixInsnOpcode insn = opcodeMopCfg ∨ isWaitOpcode (tensixInsnOpcode insn) then
      some (true, (u.issued insn).finish)
    else if tensixInsnOpcode insn = opcodeMop then mopContinueExecution fuel (u.issued insn) tid
    else (drainIfExpanding fuel (u.issued insn) tid).andThen fun v => some (true, v.finish)

theorem directInsn_eq (fuel : ℕ) {v : CopView} {insn : Word} (tid : Tid)
    (hr : tensixInsnOpcode insn ≠ opcodeMopCfg → v.replay.recording = false) :
    directInsn fuel v insn tid = (verdict v insn tid).toDirect fuel insn tid := by
  have hgate : (v.thread.waitGate.active && waitGateMatches v.thread.waitGate (tensixInsnOpcode insn)) =
      meetsGate v insn := rfl
  by_cases hc : tensixInsnOpcode insn = opcodeMopCfg
  · simp only [directInsn, verdict, hc, if_true, Verdict.toDirect, true_or]
    rfl
  have hpast (v : CopView) : (pastGate v insn tid).toDirect fuel insn tid =
      if isWaitOpcode (tensixInsnOpcode insn) then
        some (true, ((v.setGate (waitGateLatch v.thread.waitGate insn)).issued insn).finish)
      else if notReady v.core insn then some (false, v.waitAt false)
      else if !(tensixExecuteInsn v insn tid).1 then
        some (false, (tensixExecuteInsn v insn tid).2.waitAt true)
      else if tensixInsnOpcode insn = opcodeMop then
        mopContinueExecution fuel ((tensixExecuteInsn v insn tid).2.issued insn) tid
      else (drainIfExpanding fuel ((tensixExecuteInsn v insn tid).2.issued insn) tid).andThen
        fun v => some (true, v.finish) := by
    unfold pastGate
    cases hw : isWaitOpcode (tensixInsnOpcode insn) with
    | true => simp [Verdict.toDirect, hw]
    | false =>
      cases hx : (tensixExecuteInsn v insn tid).1 with
      | true => cases notReady v.core insn <;> simp [Verdict.toDirect, hc, hw]
      | false =>
        rw [execute_refused v tid hx]
        cases notReady v.core insn <;> simp [Verdict.toDirect]
  unfold directInsn verdict
  dsimp only
  simp only [ite_chain, hgate, passGate, if_neg hc, hr hc, Bool.false_eq_true, if_false]
  cases meetsGate v insn <;> cases waitGateCheck v.thread.waitGate v.core <;>
    simp only [Bool.not_true, Bool.not_false, Bool.and_true, Bool.and_false, Bool.false_eq_true, if_true,
      if_false, hpast] <;> rfl

structure CopView.Quiet (v : CopView) : Prop where
  current : v.thread.currentInsn = none
  fifo : v.thread.insnFifo.pop = none
  mop : v.thread.mopState.active = false
  recording : v.replay.recording = false
  expanding : v.replay.expanding = false

theorem CopView.Quiet.setDirect {v : CopView} (h : v.Quiet) (insn : Word) : (v.setDirect insn).Quiet :=
  ⟨h.current, h.fifo, h.mop, h.recording, h.expanding⟩

theorem CopView.Quiet.idle {v : CopView} (h : v.Quiet) : v.idle.Quiet :=
  ⟨h.current, h.fifo, h.mop, h.recording, h.expanding⟩

theorem tensixCopStep_empty {v : CopView} {tid : Tid} (hh : v.halted = false)
    (hc : v.thread.currentInsn = none) (hf : v.thread.insnFifo.pop = none) :
    tensixCopStep v tid = (false, v.idle) := by
  simp [tensixCopStep, hh, CopView.fetch, hc, hf]

theorem drainFifo_empty {v : CopView} {tid : Tid} (hh : v.halted = false)
    (hc : v.thread.currentInsn = none) (hf : v.thread.insnFifo.pop = none) (fuel : ℕ) :
    drainFifo (fuel + 1) v tid = some v.idle := by
  unfold drainFifo
  exact Loop.exit (by simp only [tensixCopStep_empty hh hc hf]) fuel

section quiet

variable {v : CopView} {tid : Tid} (insn : Word)

theorem tensixCopStepDirect_halted (hh : v.halted = true) (fuel : ℕ) :
    tensixCopStepDirect fuel (tensixCopSetDirect v insn) tid = some (false, v.setDirect insn) := by
  rw [tensixCopStepDirect, if_pos (by exact hh)]
  rfl

theorem tensixCopStepDirect_inactive (hh : v.halted = false) (hm : v.thread.mopState.active = false)
    (fuel : ℕ) :
    tensixCopStepDirect fuel (tensixCopSetDirect v insn) tid =
      directAfterMop fuel (v.setDirect insn) insn tid := by
  have hh' : (v.setDirect insn).halted = false := hh
  have hm' : (v.setDirect insn).thread.mopState.active = false := hm
  simp only [tensixCopStepDirect, tensixCopSetDirect, hh', hm', Bool.not_false, if_true, Bool.false_eq_true,
    if_false]
  rfl

theorem tensixCopStepDirect_active (hh : v.halted = false) (hm : v.thread.mopState.active = true) (fuel : ℕ) :
    tensixCopStepDirect fuel (tensixCopSetDirect v insn) tid =
      match mopContinueExecution fuel (v.setDirect insn) tid with
      | none => none
      | some (false, u) => some (false, u.setDirect insn)
      | some (true, u) =>
        if tensixInsnOpcode insn = opcodeMop then some (true, u)
        else directAfterMop fuel (u.setDirect insn) insn tid := by
  have hh' : (v.setDirect insn).halted = false := hh
  have hm' : (v.setDirect insn).thread.mopState.active = true := hm
  simp only [tensixCopStepDirect, tensixCopSetDirect, hh', hm', Bool.not_true, Bool.false_eq_true, if_false]
  rfl

theorem tensixCopStepDirect_zero (hh : v.halted = false) (hm : v.thread.mopState.active = false) :
    tensixCopStepDirect 0 (tensixCopSetDirect v insn) tid = none := by
  rw [tensixCopStepDirect_inactive insn hh hm]
  rfl

theorem tensixCopStepDirect_empty (hh : v.halted = false) (hc : v.thread.currentInsn = none)
    (hf : v.thread.insnFifo.pop = none) (hm : v.thread.mopState.active = false) (fuel : ℕ) :
    tensixCopStepDirect (fuel + 1) (tensixCopSetDirect v insn) tid =
      directInsn (fuel + 1) (v.setDirect insn).idle insn tid := by
  have hh' : (v.setDirect insn).halted = false := hh
  have hm' : (v.setDirect insn).idle.thread.mopState.active = false := hm
  rw [tensixCopStepDirect_inactive insn hh hm, directAfterMop, drainFifo_empty hh' hc hf]
  simp only [hm', Bool.not_false, if_true]

theorem tensixCopStepDirect_quiet (hq : v.Quiet) (hh : v.halted = false) (fuel : ℕ) :
    tensixCopStepDirect (fuel + 1) (tensixCopSetDirect v insn) tid =
      (verdict (v.setDirect insn).idle insn tid).toDirect (fuel + 1) insn tid := by
  have hr : (v.setDirect insn).idle.replay.recording = false := hq.recording
  rw [tensixCopStepDirect_empty insn hh hq.current hq.fifo hq.mop, directInsn_eq (fuel + 1) tid fun _ => hr]

def Verdict.toAttempt : Verdict → Bool × CopView
  | .held counted u => (false, u.waitAt counted)
  | .passed u => (true, (u.issued insn).finish)

theorem Verdict.toDirect_plain {fuel : ℕ} {x : Verdict} (hm : tensixInsnOpcode insn ≠ opcodeMop)
    (he : x.view.replay.expanding = false) : x.toDirect fuel insn tid = some (x.toAttempt insn) := by
  cases x with
  | held counted u => rfl
  | passed u =>
    have hd : drainIfExpanding fuel (u.issued insn) tid = some (true, u.issued insn) :=
      if_neg (Bool.eq_false_iff.mp he)
    simp only [toDirect, if_neg hm, hd, Outcome.andThen, ite_self, toAttempt]

def directAttempt (v : CopView) (insn : Word) (tid : Tid) : Bool × CopView :=
  if v.halted then (false, v.setDirect insn)
  else (verdict (v.setDirect insn).idle insn tid).toAttempt insn

variable {insn} {v' : CopView} {ok : Bool}

theorem verdict_replay (hr : tensixInsnOpcode insn ≠ opcodeReplay) :
    (verdict v insn tid).view.replay = v.replay := by
  cases hx : verdict v insn tid with
  | held counted u => exact (verdict_held_thread hx).2.2.1
  | passed u => exact (verdict_passed hx).replay hr

theorem issue_iff (hm : tensixInsnOpcode insn ≠ opcodeMop) (hr : tensixInsnOpcode insn ≠ opcodeReplay)
    (hq : v.Quiet) : ThreadActs tid v (.issue insn) ok v' ↔ directAttempt v insn tid = (ok, v') := by
  cases hh : v.halted with
  | true =>
    simp only [ThreadActs, tensixCopStepDirect_halted insn hh, directAttempt, hh, if_true, exists_const,
      Option.some.injEq]
  | false =>
    have hexp : (verdict (v.setDirect insn).idle insn tid).view.replay.expanding = false := by
      rw [verdict_replay hr]
      exact hq.expanding
    have hstep (fuel : ℕ) : tensixCopStepDirect (fuel + 1) (tensixCopSetDirect v insn) tid =
        some (directAttempt v insn tid) := by
      rw [tensixCopStepDirect_quiet insn hq hh, Verdict.toDirect_plain insn hm hexp, directAttempt,
        if_neg (by simp [hh])]
    constructor
    · rintro ⟨fuel, h⟩
      cases fuel with
      | zero => simp [tensixCopStepDirect_zero insn hh hq.mop] at h
      | succ fuel => exact Option.some.inj ((hstep fuel).symm.trans h)
    · intro h
      exact ⟨1, by rw [hstep 0, h]⟩

end quiet

end Rv32Emu
