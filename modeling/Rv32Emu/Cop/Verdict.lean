import Rv32Emu.Cop.Effects

namespace Rv32Emu

inductive Verdict
  | held (counted : Bool) (v : CopView)
  | passed (v : CopView)

namespace Verdict

def ok : Verdict → Bool
  | .held _ _ => false
  | .passed _ => true

def view : Verdict → CopView
  | .held _ v => v
  | .passed v => v

end Verdict

def meetsGate (v : CopView) (insn : Word) : Bool :=
  v.thread.waitGate.active && waitGateMatches v.thread.waitGate (tensixInsnOpcode insn)

def passGate (v : CopView) (insn : Word) : Option CopView :=
  if !meetsGate v insn then some v
  else if waitGateCheck v.thread.waitGate v.core then some (v.setGate waitGateClear)
  else none

def notReady (core : Tensix) (insn : Word) : Bool :=
  let opcode := tensixInsnOpcode insn
  insnNeedsSrca opcode && !core.srcaReady || insnNeedsSrcb opcode && !core.srcbReady ||
    insnNeedsDest opcode && !core.destDvalid ||
    opcode = opcodeUnpacr && !bit insn 23 && core.srcaDvalid core.unpSrcaBank ||
    opcode = opcodeUnpacr && bit insn 23 && core.srcbDvalid core.unpSrcbBank

def pastGate (v : CopView) (insn : Word) (tid : Tid) : Verdict :=
  if isWaitOpcode (tensixInsnOpcode insn) then .passed (v.setGate (waitGateLatch v.thread.waitGate insn))
  else if notReady v.core insn then .held false v
  else if (tensixExecuteInsn v insn tid).1 then .passed (tensixExecuteInsn v insn tid).2
  else .held true v

def verdict (v : CopView) (insn : Word) (tid : Tid) : Verdict :=
  if tensixInsnOpcode insn = opcodeMopCfg then .passed (v.setZmask insn)
  else
    match passGate v insn with
    | none => .held true v
    | some v => pastGate v insn tid

def CopView.heldAt (v : CopView) (insn : Word) (counted : Bool) : CopView :=
  if counted then (v.hold insn).countWaiting else v.hold insn

theorem ite_chain {α : Type} (p q r x y : Bool) (a b : α) :
    (if p then a else if q then a else if r then a else if x then a else if y then a else b) =
      if p || q || r || x || y then a else b := by
  cases p <;> cases q <;> cases r <;> cases x <;> simp

def Verdict.toStep (insn : Word) : Verdict → Bool × CopView
  | .held counted u => (false, u.heldAt insn counted)
  | .passed u => (true, u.complete (.ran u.thread.currentOrigin insn))

theorem stepInsn_eq (v : CopView) (insn : Word) (tid : Tid) :
    stepInsn v insn tid = (verdict v insn tid).toStep insn := by
  have hgate : (v.thread.waitGate.active && waitGateMatches v.thread.waitGate (tensixInsnOpcode insn)) =
      meetsGate v insn := rfl
  have hpast (v : CopView) : (pastGate v insn tid).toStep insn =
      if isWaitOpcode (tensixInsnOpcode insn) then
        (true, (v.setGate (waitGateLatch v.thread.waitGate insn)).complete
          (.ran (v.setGate (waitGateLatch v.thread.waitGate insn)).thread.currentOrigin insn))
      else if notReady v.core insn then (false, v.hold insn)
      else if (tensixExecuteInsn v insn tid).1 then
        (true, (tensixExecuteInsn v insn tid).2.complete
          (.ran (tensixExecuteInsn v insn tid).2.thread.currentOrigin insn))
      else (false, ((tensixExecuteInsn v insn tid).2.hold insn).countWaiting) := by
    unfold pastGate
    by_cases hx : (tensixExecuteInsn v insn tid).1
    · split_ifs <;> rfl
    · rw [execute_refused v tid (by simpa using hx)]
      split_ifs <;> rfl
  unfold stepInsn verdict
  dsimp only
  simp only [ite_chain, hgate, passGate]
  by_cases hc : tensixInsnOpcode insn = opcodeMopCfg
  · simp only [if_pos hc, Verdict.toStep]
  simp only [if_neg hc]
  cases meetsGate v insn <;> cases waitGateCheck v.thread.waitGate v.core <;>
    simp only [Bool.not_true, Bool.not_false, Bool.and_true, Bool.and_false, Bool.false_eq_true, if_true,
      if_false, hpast] <;> rfl

section execute

variable (v : CopView) {insn : Word} (tid : Tid)

theorem execute_thread (hm : tensixInsnOpcode insn ≠ opcodeMop)
    (hc : tensixInsnOpcode insn ≠ opcodeMopCfg) : (tensixExecuteInsn v insn tid).2.thread = v.thread := by
  by_cases hr : tensixInsnOpcode insn = opcodeReplay
  · rw [execute_replay v tid hr]
    rfl
  · rw [execute_plain v tid ⟨hm, hc, hr⟩]
    rfl

theorem execute_replay_eq (hr : tensixInsnOpcode insn ≠ opcodeReplay) :
    (tensixExecuteInsn v insn tid).2.replay = v.replay := by
  by_cases hm : tensixInsnOpcode insn = opcodeMop
  · rw [execute_mop v tid hm]
    rfl
  by_cases hc : tensixInsnOpcode insn = opcodeMopCfg
  · rw [execute_mopCfg v tid hc]
    rfl
  · rw [execute_plain v tid ⟨hm, hc, hr⟩]
    rfl

theorem execute_halted : (tensixExecuteInsn v insn tid).2.halted = v.halted := by
  by_cases hm : tensixInsnOpcode insn = opcodeMop
  · rw [execute_mop v tid hm]
    rfl
  by_cases hc : tensixInsnOpcode insn = opcodeMopCfg
  · rw [execute_mopCfg v tid hc]
    rfl
  by_cases hr : tensixInsnOpcode insn = opcodeReplay
  · rw [execute_replay v tid hr]
    rfl
  · rw [execute_plain v tid ⟨hm, hc, hr⟩]
    rfl

theorem execute_log : (tensixExecuteInsn v insn tid).2.thread.log = v.thread.log := by
  by_cases hm : tensixInsnOpcode insn = opcodeMop
  · rw [execute_mop v tid hm]
    rfl
  by_cases hc : tensixInsnOpcode insn = opcodeMopCfg
  · rw [execute_mopCfg v tid hc]
    simp only [CopView.setThread, ttmopCfg]
    split_ifs <;> rfl
  · rw [execute_thread v tid hm hc]

theorem execute_gate : (tensixExecuteInsn v insn tid).2.thread.waitGate = v.thread.waitGate := by
  by_cases hm : tensixInsnOpcode insn = opcodeMop
  · rw [execute_mop v tid hm]
    rfl
  by_cases hc : tensixInsnOpcode insn = opcodeMopCfg
  · rw [execute_mopCfg v tid hc]
    simp only [CopView.setThread, ttmopCfg]
    split_ifs <;> rfl
  · rw [execute_thread v tid hm hc]

end execute

structure Passed (v : CopView) (insn : Word) (u : CopView) : Prop where
  halted : u.halted = v.halted
  fifo : u.thread.insnFifo = v.thread.insnFifo
  direct : u.thread.directInsn = v.thread.directInsn
  origin : u.thread.currentOrigin = v.thread.currentOrigin
  log : u.thread.log = v.thread.log
  mopCfg : u.thread.mopCfg = v.thread.mopCfg
  current : v.thread.currentInsn = none → u.thread.currentInsn = none
  mopState : tensixInsnOpcode insn ≠ opcodeMop → u.thread.mopState = v.thread.mopState
  mopStart : tensixInsnOpcode insn = opcodeMop →
    u.thread.mopState = mopStart v.thread.mopCfg v.thread.zmaskHi16 (tensixInsnParam insn)
  zmask : tensixInsnOpcode insn ≠ opcodeMopCfg → u.thread.zmaskHi16 = v.thread.zmaskHi16
  replay : tensixInsnOpcode insn ≠ opcodeReplay → u.replay = v.replay
  replayed : tensixInsnOpcode insn = opcodeReplay → u.replay = ttreplay v.replay (tensixInsnParam insn)

namespace Passed

variable {v u : CopView} {insn : Word} {tid : Tid}

theorem of_thread {thread : TensixThreadCop} (hm : tensixInsnOpcode insn ≠ opcodeMop)
    (hr : tensixInsnOpcode insn ≠ opcodeReplay)
    (h : thread = { v.thread with waitGate := thread.waitGate, zmaskHi16 := thread.zmaskHi16 })
    (hz : tensixInsnOpcode insn ≠ opcodeMopCfg → thread.zmaskHi16 = v.thread.zmaskHi16) :
    Passed v insn (v.setThread thread) := by
  rw [h]
  exact ⟨rfl, rfl, rfl, rfl, rfl, rfl, id, fun _ => rfl, fun h => absurd h hm, hz, fun _ => rfl,
    fun h => absurd h hr⟩

theorem execute (hc : tensixInsnOpcode insn ≠ opcodeMopCfg) :
    Passed v insn (tensixExecuteInsn v insn tid).2 := by
  by_cases hm : tensixInsnOpcode insn = opcodeMop
  · have hr : tensixInsnOpcode insn ≠ opcodeReplay := by rw [hm]; decide
    rw [execute_mop v tid hm]
    exact ⟨rfl, rfl, rfl, rfl, rfl, rfl, fun _ => rfl, fun h => absurd hm h, fun _ => rfl, fun _ => rfl,
      fun _ => rfl, fun h => absurd h hr⟩
  · have ht := execute_thread v tid hm hc
    refine ⟨execute_halted v tid, by rw [ht], by rw [ht], by rw [ht], by rw [ht], by rw [ht],
      by rw [ht]; exact id, fun _ => by rw [ht], fun h => absurd h hm, fun _ => by rw [ht],
      execute_replay_eq v tid, fun h => ?_⟩
    rw [execute_replay v tid h]
    rfl

theorem setGate_left {gate : TensixWaitGate} (h : Passed (v.setGate gate) insn u) : Passed v insn u :=
  ⟨h.halted, h.fifo, h.direct, h.origin, h.log, h.mopCfg, h.current, h.mopState, h.mopStart, h.zmask,
    h.replay, h.replayed⟩

end Passed

section verdict

variable {v u : CopView} {insn : Word} {tid : Tid}

theorem passGate_cases (h : passGate v insn = some u) :
    u = v ∧ meetsGate v insn = false ∨
      u = v.setGate waitGateClear ∧ meetsGate v insn = true ∧
        waitGateCheck v.thread.waitGate v.core = true := by
  unfold passGate at h
  split_ifs at h with hm hw
  · cases h
    exact .inl ⟨rfl, by simpa using hm⟩
  · cases h
    exact .inr ⟨rfl, by simpa using hm, hw⟩

theorem Passed.of_passGate {x : CopView} (hg : passGate v insn = some u) (h : Passed u insn x) :
    Passed v insn x := by
  obtain ⟨rfl, _⟩ | ⟨rfl, _⟩ := passGate_cases hg
  · exact h
  · exact h.setGate_left

theorem isWaitOpcode_ne {op : Word} (h : isWaitOpcode op = true) :
    op ≠ opcodeMop ∧ op ≠ opcodeMopCfg ∧ op ≠ opcodeReplay := by
  simp only [isWaitOpcode, Bool.or_eq_true, decide_eq_true_eq] at h
  obtain (rfl | rfl) | rfl := h <;> decide

theorem pastGate_passed (hc : tensixInsnOpcode insn ≠ opcodeMopCfg)
    (h : pastGate v insn tid = .passed u) : Passed v insn u := by
  unfold pastGate at h
  split_ifs at h with hw hr hx
  · cases h
    obtain ⟨hm, _, hr⟩ := isWaitOpcode_ne hw
    exact Passed.of_thread hm hr rfl fun _ => rfl
  · cases h
    exact Passed.execute hc

theorem verdict_passed (h : verdict v insn tid = .passed u) : Passed v insn u := by
  unfold verdict at h
  split_ifs at h with hc
  · cases h
    exact Passed.of_thread (by rw [hc]; decide) (by rw [hc]; decide) rfl fun h => absurd hc h
  · split at h
    · cases h
    · next x hg => exact (pastGate_passed hc h).of_passGate hg

theorem verdict_passed_core (h : verdict v insn tid = .passed u) :
    (u.core = v.core ∧ (tensixInsnOpcode insn = opcodeMopCfg ∨ isWaitOpcode (tensixInsnOpcode insn) = true)) ∨
      ∃ x, x.core = v.core ∧ (tensixExecuteInsn x insn tid).1 = true ∧
        u = (tensixExecuteInsn x insn tid).2 := by
  unfold verdict at h
  split_ifs at h with hc
  · cases h
    exact .inl ⟨rfl, .inl hc⟩
  · split at h
    · cases h
    · next x hg =>
      have hcore : x.core = v.core := by
        obtain ⟨rfl, -⟩ | ⟨rfl, -⟩ := passGate_cases hg <;> rfl
      unfold pastGate at h
      split_ifs at h with hw
      · cases h
        exact .inl ⟨hcore, .inr hw⟩
      · cases h
        exact .inr ⟨x, hcore, by assumption, rfl⟩

theorem pastGate_held {counted : Bool} (h : pastGate v insn tid = .held counted u) : u = v := by
  unfold pastGate at h
  split_ifs at h <;> cases h <;> rfl

theorem verdict_held {counted : Bool} (h : verdict v insn tid = .held counted u) :
    u = v ∨ u = v.setGate waitGateClear ∧ meetsGate v insn = true ∧
      waitGateCheck v.thread.waitGate v.core = true := by
  unfold verdict at h
  split_ifs at h with hc
  split at h
  · cases h
    exact .inl rfl
  · next x hg =>
    rw [pastGate_held h]
    obtain ⟨rfl, _⟩ | hx := passGate_cases hg
    · exact .inl rfl
    · exact .inr hx

theorem meetsGate_clear {v : CopView} (h : v.thread.waitGate = waitGateClear) (insn : Word) :
    meetsGate v insn = false := by
  rw [meetsGate, h]
  rfl

theorem meetsGate_mopCfg {v : CopView} {insn : Word} (h : meetsGate v insn = true) :
    tensixInsnOpcode insn ≠ opcodeMopCfg := by
  intro hc
  simp only [meetsGate, waitGateMatches, hc] at h
  simp [opcodeMopCfg, opcodeNop, insnGetBlockBits] at h

theorem verdict_expander (hx : tensixInsnOpcode insn = opcodeMop ∨ tensixInsnOpcode insn = opcodeReplay) :
    verdict v insn tid = .passed (tensixExecuteInsn v insn tid).2 := by
  have hmeet : meetsGate v insn = false := by
    simp only [meetsGate, waitGateMatches]
    obtain hx | hx := hx <;> rw [hx] <;> simp [opcodeMop, opcodeReplay, opcodeNop, insnGetBlockBits]
  have hok : (tensixExecuteInsn v insn tid).1 = true := by
    obtain hx | hx := hx
    · rw [execute_mop v tid hx]
    · rw [execute_replay v tid hx]
  have hpast : pastGate v insn tid = .passed (tensixExecuteInsn v insn tid).2 := by
    have hready : notReady v.core insn = false := by
      simp only [notReady]
      obtain hx | hx := hx <;> rw [hx] <;> rfl
    have hwait : isWaitOpcode (tensixInsnOpcode insn) = false := by
      obtain hx | hx := hx <;> rw [hx] <;> rfl
    simp [pastGate, hready, hwait, hok]
  have hne : tensixInsnOpcode insn ≠ opcodeMopCfg := by
    obtain hx | hx := hx <;> rw [hx] <;> decide
  simp only [verdict, if_neg hne, passGate, hmeet, Bool.not_false, if_true, hpast]

end verdict

end Rv32Emu
