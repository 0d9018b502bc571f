import Rv32Emu.Cop.Step

namespace Rv32Emu

/-- The result of code with loops: `none` without enough fuel, else whether it went through. -/
abbrev Outcome := Option (Bool × CopView)

def Outcome.andThen (r : Outcome) (k : CopView → Outcome) : Outcome :=
  match r with
  | some (true, v) => k v
  | r => r

namespace CopView

def feed (v : CopView) (insn : Word) : CopView :=
  v.setThread { v.thread with currentInsn := some insn, currentOrigin := .expander }

def setDirect (v : CopView) (insn : Word) : CopView :=
  v.setThread { v.thread with directInsn := some insn }

def clearDirect (v : CopView) : CopView := v.setThread { v.thread with directInsn := none }

def setMopState (v : CopView) (st : MopExpandState) : CopView :=
  v.setThread { v.thread with mopState := st }

end CopView

def replayTurn (tid : Tid) (v : CopView) : Option (CopView ⊕ (Bool × CopView)) :=
  if !v.replay.expanding then some (.inr (true, v))
  else
    let (ok, v) := if v.thread.currentInsn.isSome then tensixCopStep v tid else (true, v)
    if !ok then some (.inr (false, v))
    else if v.replay.expandCurrent ≥ v.replay.expandCount then
      some (.inr (true, v.setReplay { v.replay with expanding := false }))
    else
      let insn := v.replay.buffer ((v.replay.expandStart + v.replay.expandCurrent) % 32)
      let v := v.setReplay { v.replay with expandCurrent := v.replay.expandCurrent + 1 }
      let (ok, v) := tensixCopStep (v.feed insn) tid
      if ok then some (.inl v) else some (.inr (false, v))

def drainReplayExpansion (fuel : ℕ) (v : CopView) (tid : Tid) : Outcome := loop (replayTurn tid) fuel v

def drainIfExpanding (fuel : ℕ) (v : CopView) (tid : Tid) : Outcome :=
  if v.replay.expanding then drainReplayExpansion fuel v tid else some (true, v)

/-- The end of a MOP: the expander stops and the direct instruction is done. -/
def mopFinish (v : CopView) : CopView :=
  v.setThread { v.thread with
    mopState := { v.thread.mopState with active := false }
    directInsn := none
    state := .running
    insnExecuted := v.thread.insnExecuted + 1 }

def mopTurn (fuel : ℕ) (tid : Tid) (v : CopView) : Option (CopView ⊕ (Bool × CopView)) :=
  match mopGenerateNext v.thread.mopCfg v.thread.mopState with
  | (none, st) => some (.inr (true, mopFinish (v.setMopState st)))
  | (some insn, st) =>
    let (ok, v) := tensixCopStep ((v.setMopState st).feed insn) tid
    if !ok then some (.inr (false, v))
    else
      match drainIfExpanding fuel v tid with
      | none => none
      | some (true, v) => some (.inl v)
      | some (false, v) => some (.inr (false, v))

def mopRetry (fuel : ℕ) (v : CopView) (tid : Tid) : Outcome :=
  if v.thread.currentInsn.isSome then
    let (ok, v) := tensixCopStep v tid
    if !ok then some (false, v)
    else drainIfExpanding fuel (v.setThread { v.thread with currentInsn := none }) tid
  else some (true, v)

def mopContinueExecution (fuel : ℕ) (v : CopView) (tid : Tid) : Outcome :=
  (drainIfExpanding fuel v tid).andThen fun v =>
    (mopRetry fuel v tid).andThen fun v => loop (mopTurn fuel tid) fuel v

def drainFifo (fuel : ℕ) (v : CopView) (tid : Tid) : Option CopView :=
  loop (fun v =>
    match tensixCopStep v tid with
    | (true, v) => some (.inl v)
    | (false, v) => some (.inr v)) fuel v

def mopFinishAll (fuel : ℕ) (v : CopView) (tid : Tid) : Outcome :=
  loop (fun v =>
    if !v.thread.mopState.active then some (.inr (true, v))
    else
      match mopContinueExecution fuel v tid with
      | none => none
      | some (true, v) => some (.inl v)
      | some (false, v) => some (.inr (false, v))) fuel v

/-- Stores the instruction in the replay buffer, and runs its handler in execute-while-loading
mode without looking at the handler's result. -/
def recordInsn (v : CopView) (insn : Word) (tid : Tid) : CopView :=
  let r := v.replay
  let left := (r.left + 2 ^ 32 - 1) % 2 ^ 32
  let v := v.setReplay { r with
    buffer := Function.update r.buffer (r.index % 32) insn
    index := r.index + 1
    left := left
    recording := left ≠ 0 }
  let v := if r.executeWhileLoading then (tensixExecuteInsn v insn tid).2 else v
  v.clearDirect.complete (.recorded insn)

def directInsn (fuel : ℕ) (v : CopView) (insn : Word) (tid : Tid) : Outcome :=
  let opcode := tensixInsnOpcode insn
  let issue := fun v : CopView => v.setThread { v.thread with log := v.thread.log ++ [.issued insn] }
  let finish := fun v : CopView => v.setThread { v.thread with
    directInsn := none, state := .running, insnExecuted := v.thread.insnExecuted + 1 }
  let waiting := fun v : CopView => v.setThread { v.thread with state := .waiting }
  let gate := v.thread.waitGate
  if opcode = opcodeMopCfg then some (true, finish (issue (v.setZmask insn)))
  else if v.replay.recording then some (true, recordInsn v insn tid)
  else if gate.active && waitGateMatches gate opcode && !waitGateCheck gate v.core then
    some (false, (waiting v).countWaiting)
  else
    let v := if gate.active && waitGateMatches gate opcode then v.setGate waitGateClear else v
    if isWaitOpcode opcode then
      some (true, finish (issue (v.setGate (waitGateLatch v.thread.waitGate insn))))
    else if insnNeedsSrca opcode && !v.core.srcaReady then some (false, waiting v)
    else if insnNeedsSrcb opcode && !v.core.srcbReady then some (false, waiting v)
    else if insnNeedsDest opcode && !v.core.destDvalid then some (false, waiting v)
    else if opcode = opcodeUnpacr && !bit insn 23 && v.core.srcaDvalid v.core.unpSrcaBank then
      some (false, waiting v)
    else if opcode = opcodeUnpacr && bit insn 23 && v.core.srcbDvalid v.core.unpSrcbBank then
      some (false, waiting v)
    else
      let (ok, v) := tensixExecuteInsn v insn tid
      if !ok then some (false, (waiting v).countWaiting)
      else if opcode = opcodeMop then mopContinueExecution fuel (issue v) tid
      else
        (drainIfExpanding fuel (issue v) tid).andThen fun v => some (true, finish v)

def tensixCopSetDirect (v : CopView) (insn : Word) : CopView := v.setDirect insn

def directAfterMop (fuel : ℕ) (v : CopView) (saved : Word) (tid : Tid) : Outcome :=
  match drainFifo fuel v tid with
  | none => none
  | some v =>
    if !v.thread.mopState.active then directInsn fuel v saved tid
    else
      match mopFinishAll fuel v tid with
      | none => none
      | some (ok, v) =>
        if ok then directInsn fuel (v.setDirect saved) saved tid else some (false, v.setDirect saved)

def tensixCopStepDirect (fuel : ℕ) (v : CopView) (tid : Tid) : Outcome :=
  if v.halted then some (false, v)
  else
    match v.thread.directInsn with
    | none => some (true, v)
    | some saved =>
      if !v.thread.mopState.active then directAfterMop fuel v saved tid
      else
        match mopContinueExecution fuel v tid with
        | none => none
        | some (false, v) => some (false, v.setDirect saved)
        | some (true, v) =>
          -- a direct MOP is the one that has just completed
          if tensixInsnOpcode saved = opcodeMop then some (true, v)
          else directAfterMop fuel (v.setDirect saved) saved tid

end Rv32Emu
