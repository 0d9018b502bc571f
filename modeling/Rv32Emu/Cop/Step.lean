import Rv32Emu.Cop.WaitGate

namespace Rv32Emu

namespace CopView

def hold (v : CopView) (insn : Word) : CopView :=
  v.setThread { v.thread with currentInsn := some insn, state := .waiting }

def countWaiting (v : CopView) : CopView :=
  v.setThread { v.thread with cyclesWaiting := v.thread.cyclesWaiting + 1 }

def complete (v : CopView) (e : Event) : CopView :=
  v.setThread { v.thread with
    state := .running
    insnExecuted := v.thread.insnExecuted + 1
    log := v.thread.log ++ [e] }

def setGate (v : CopView) (gate : TensixWaitGate) : CopView :=
  v.setThread { v.thread with waitGate := gate }

def setZmask (v : CopView) (insn : Word) : CopView :=
  v.setThread { v.thread with zmaskHi16 := insn &&& 0x00FFFFFF }

def fetch (v : CopView) : Option (Word × CopView) :=
  match v.thread.currentInsn with
  | some insn => some (insn, v.setThread { v.thread with currentInsn := none })
  | none =>
    match v.thread.insnFifo.pop with
    | some (insn, fifo) =>
      some (insn, v.setThread { v.thread with insnFifo := fifo, currentOrigin := .fifo })
    | none => none

def idle (v : CopView) : CopView :=
  v.setThread { v.thread with state := .idle, cyclesIdle := v.thread.cyclesIdle + 1 }

end CopView

def tensixCopPush (v : CopView) (insn : Word) : Bool × CopView :=
  let (ok, fifo) := v.thread.insnFifo.push insn
  if ok then (true, v.setThread { v.thread with insnFifo := fifo, log := v.thread.log ++ [.pushed insn] })
  else (false, v)

def stepInsn (v : CopView) (insn : Word) (tid : Tid) : Bool × CopView :=
  let opcode := tensixInsnOpcode insn
  let done := fun v : CopView => (true, v.complete (.ran v.thread.currentOrigin insn))
  let gate := v.thread.waitGate
  -- MOP_CFG does not go through the gate
  if opcode = opcodeMopCfg then done (v.setZmask insn)
  else if gate.active && waitGateMatches gate opcode && !waitGateCheck gate v.core then
    (false, (v.hold insn).countWaiting)
  else
    let v := if gate.active && waitGateMatches gate opcode then v.setGate waitGateClear else v
    if isWaitOpcode opcode then done (v.setGate (waitGateLatch v.thread.waitGate insn))
    else if insnNeedsSrca opcode && !v.core.srcaReady then (false, v.hold insn)
    else if insnNeedsSrcb opcode && !v.core.srcbReady then (false, v.hold insn)
    else if insnNeedsDest opcode && !v.core.destDvalid then (false, v.hold insn)
    else if opcode = opcodeUnpacr && !bit insn 23 && v.core.srcaDvalid v.core.unpSrcaBank then
      (false, v.hold insn)
    else if opcode = opcodeUnpacr && bit insn 23 && v.core.srcbDvalid v.core.unpSrcbBank then
      (false, v.hold insn)
    else
      let (ok, v) := tensixExecuteInsn v insn tid
      if ok then done v else (false, (v.hold insn).countWaiting)

def tensixCopStep (v : CopView) (tid : Tid) : Bool × CopView :=
  if v.halted then (false, v)
  else
    match v.fetch with
    | none => (false, v.idle)
    | some (insn, v) => stepInsn v insn tid

end Rv32Emu
