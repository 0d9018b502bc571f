import Rv32Emu.Cop.DirectPath
import Rv32Emu.Cop.IssueState

namespace Rv32Emu

structure Alike (v w : CopView) : Prop where
  issue : v.core.issueState = w.core.issueState
  replay : v.replay = w.replay
  thread : v.thread = w.thread
  halted : v.halted = w.halted

def ResultAlike (r r' : Bool × CopView) : Prop := r.1 = r'.1 ∧ Alike r.2 r'.2

inductive VerdictAlike : Verdict → Verdict → Prop
  | held (counted : Bool) {v w : CopView} : Alike v w → VerdictAlike (.held counted v) (.held counted w)
  | passed {v w : CopView} : Alike v w → VerdictAlike (.passed v) (.passed w)

abbrev OutcomeAlike : Outcome → Outcome → Prop := Option.Rel ResultAlike

theorem OutcomeAlike.andThen {r r' : Outcome} (h : OutcomeAlike r r') {k k' : CopView → Outcome}
    (hk : ∀ v w, Alike v w → OutcomeAlike (k v) (k' w)) : OutcomeAlike (r.andThen k) (r'.andThen k') := by
  cases h with
  | none => exact .none
  | @some p q hpq =>
    obtain ⟨ok, v⟩ := p
    obtain ⟨ok', w⟩ := q
    obtain ⟨rfl, hvw⟩ : ok = ok' ∧ Alike v w := hpq
    cases ok with
    | false => exact .some ⟨rfl, hvw⟩
    | true => exact hk v w hvw

def Outcome.turn : Outcome → Option (CopView ⊕ (Bool × CopView))
  | none => none
  | some (true, v) => some (.inl v)
  | some (false, v) => some (.inr (false, v))

theorem OutcomeAlike.turn {r r' : Outcome} (h : OutcomeAlike r r') :
    Option.Rel (Sum.LiftRel Alike ResultAlike) r.turn r'.turn := by
  cases h with
  | none => exact .none
  | @some p q hpq =>
    obtain ⟨ok, v⟩ := p
    obtain ⟨ok', w⟩ := q
    obtain ⟨rfl, hvw⟩ : ok = ok' ∧ Alike v w := hpq
    cases ok with
    | false => exact .some (.inr ⟨rfl, hvw⟩)
    | true => exact .some (.inl hvw)

section core

variable {c c' : Tensix} (h : c.issueState = c'.issueState)

include h

theorem waitGateMet_congr (gate : TensixWaitGate) : waitGateMet gate c = waitGateMet gate c' := by
  have ha : c.srcaReady = c'.srcaReady := congrArg IssueState.srcaReady h
  have hb : c.srcbReady = c'.srcbReady := congrArg IssueState.srcbReady h
  have hua : c.srcaDvalid c.unpSrcaBank = c'.srcaDvalid c'.unpSrcaBank :=
    congrArg (fun s : IssueState => s.srcaDvalid s.unpSrcaBank) h
  have hub : c.srcbDvalid c.unpSrcbBank = c'.srcbDvalid c'.unpSrcbBank :=
    congrArg (fun s : IssueState => s.srcbDvalid s.unpSrcbBank) h
  have hs : c.sem = c'.sem := congrArg IssueState.sem h
  have hm : c.semMax = c'.semMax := congrArg IssueState.semMax h
  simp only [waitGateMet, ha, hb, hua, hub, hs, hm]

theorem waitGateCheck_congr (gate : TensixWaitGate) : waitGateCheck gate c = waitGateCheck gate c' := by
  simp only [waitGateCheck, waitGateMet_congr h]

theorem notReady_congr (insn : Word) : notReady c insn = notReady c' insn := by
  have ha : c.srcaReady = c'.srcaReady := congrArg IssueState.srcaReady h
  have hb : c.srcbReady = c'.srcbReady := congrArg IssueState.srcbReady h
  have hd : c.destDvalid = c'.destDvalid := congrArg IssueState.destDvalid h
  have hua : c.srcaDvalid c.unpSrcaBank = c'.srcaDvalid c'.unpSrcaBank :=
    congrArg (fun s : IssueState => s.srcaDvalid s.unpSrcaBank) h
  have hub : c.srcbDvalid c.unpSrcbBank = c'.srcbDvalid c'.unpSrcbBank :=
    congrArg (fun s : IssueState => s.srcbDvalid s.unpSrcbBank) h
  simp only [notReady, ha, hb, hd, hua, hub]

end core

namespace Alike

variable {v w : CopView} (h : Alike v w) (insn : Word) (tid : Tid)

include h

theorem setThread (f : TensixThreadCop → TensixThreadCop) :
    Alike (v.setThread (f v.thread)) (w.setThread (f w.thread)) :=
  ⟨h.issue, h.replay, congrArg f h.thread, h.halted⟩

theorem setReplay (f : Replay → Replay) : Alike (v.setReplay (f v.replay)) (w.setReplay (f w.replay)) :=
  ⟨h.issue, congrArg f h.replay, h.thread, h.halted⟩

theorem execute : ResultAlike (tensixExecuteInsn v insn tid) (tensixExecuteInsn w insn tid) := by
  by_cases hm : tensixInsnOpcode insn = opcodeMop
  · rw [execute_mop v tid hm, execute_mop w tid hm]
    exact ⟨rfl, h.setThread fun thread => tensixCopMopExpand thread (tensixInsnParam insn)⟩
  by_cases hc : tensixInsnOpcode insn = opcodeMopCfg
  · rw [execute_mopCfg v tid hc, execute_mopCfg w tid hc]
    exact ⟨rfl, h.setThread fun thread => ttmopCfg thread (tensixInsnParam insn)⟩
  by_cases hr : tensixInsnOpcode insn = opcodeReplay
  · rw [execute_replay v tid hr, execute_replay w tid hr]
    exact ⟨rfl, h.setReplay fun r => ttreplay r (tensixInsnParam insn)⟩
  have hseen : seen (runCoreImpl (insnImpl insn) v.core v.thread.mopCfg (tensixInsnParam insn) tid) =
      seen (runCoreImpl (insnImpl insn) w.core w.thread.mopCfg (tensixInsnParam insn) tid) := by
    rw [runCoreImpl_issue, runCoreImpl_issue, h.issue]
  rw [execute_plain v tid ⟨hm, hc, hr⟩, execute_plain w tid ⟨hm, hc, hr⟩]
  obtain ⟨hok, hcore⟩ := Prod.mk.inj hseen
  exact ⟨hok, hcore, h.replay, h.thread, h.halted⟩

theorem passGate : Option.Rel Alike (passGate v insn) (passGate w insn) := by
  have hm : meetsGate v insn = meetsGate w insn := by rw [meetsGate, meetsGate, h.thread]
  have hg : waitGateCheck v.thread.waitGate v.core = waitGateCheck w.thread.waitGate w.core := by
    rw [h.thread, waitGateCheck_congr h.issue]
  unfold Rv32Emu.passGate
  rw [hm, hg]
  split_ifs
  · exact .some h
  · exact .some (h.setThread fun thread => { thread with waitGate := waitGateClear })
  · exact .none

theorem pastGate : VerdictAlike (pastGate v insn tid) (pastGate w insn tid) := by
  obtain ⟨hok, hx⟩ := h.execute insn tid
  unfold Rv32Emu.pastGate
  rw [notReady_congr h.issue, hok]
  split_ifs
  · exact .passed (h.setThread fun thread => { thread with waitGate := waitGateLatch thread.waitGate insn })
  · exact .held false h
  · exact .passed hx
  · exact .held true h

theorem verdict : VerdictAlike (verdict v insn tid) (verdict w insn tid) := by
  unfold Rv32Emu.verdict
  split_ifs
  · exact .passed (h.setThread fun thread => { thread with zmaskHi16 := insn &&& 0x00FFFFFF })
  · generalize Rv32Emu.passGate v insn = x, Rv32Emu.passGate w insn = y, h.passGate insn = hxy
    cases hxy with
    | none => exact .held true h
    | some h' => exact h'.pastGate insn tid

theorem stepInsn : ResultAlike (stepInsn v insn tid) (stepInsn w insn tid) := by
  rw [stepInsn_eq, stepInsn_eq]
  generalize Rv32Emu.verdict v insn tid = x, Rv32Emu.verdict w insn tid = y, h.verdict insn tid = hxy
  cases hxy with
  | held counted h' =>
    cases counted with
    | false =>
      exact ⟨rfl, h'.setThread fun thread => { thread with currentInsn := some insn, state := .waiting }⟩
    | true =>
      exact ⟨rfl, h'.setThread fun thread => { thread with
        currentInsn := some insn, state := .waiting, cyclesWaiting := thread.cyclesWaiting + 1 }⟩
  | passed h' =>
    exact ⟨rfl, h'.setThread fun thread => { thread with
      state := .running
      insnExecuted := thread.insnExecuted + 1
      log := thread.log ++ [.ran thread.currentOrigin insn] }⟩

theorem fetch : Option.Rel (fun p q => p.1 = q.1 ∧ Alike p.2 q.2) v.fetch w.fetch := by
  unfold CopView.fetch
  rw [h.thread]
  split
  · exact .some ⟨rfl, h.issue, h.replay, rfl, h.halted⟩
  · split
    · exact .some ⟨rfl, h.issue, h.replay, rfl, h.halted⟩
    · exact .none

theorem push : ResultAlike (tensixCopPush v insn) (tensixCopPush w insn) := by
  unfold tensixCopPush
  rw [h.thread]
  dsimp only
  split_ifs
  · exact ⟨rfl, h.issue, h.replay, rfl, h.halted⟩
  · exact ⟨rfl, h⟩

theorem step : ResultAlike (tensixCopStep v tid) (tensixCopStep w tid) := by
  unfold tensixCopStep
  rw [h.halted]
  split_ifs
  · exact ⟨rfl, h⟩
  · generalize v.fetch = x, w.fetch = y, h.fetch = hxy
    cases hxy with
    | none =>
      exact ⟨rfl, h.setThread fun thread =>
        { thread with state := .idle, cyclesIdle := thread.cyclesIdle + 1 }⟩
    | @some p q hpq =>
      obtain ⟨insn, v'⟩ := p
      obtain ⟨insn', w'⟩ := q
      obtain ⟨rfl, h'⟩ := hpq
      exact h'.stepInsn insn tid

theorem feed : Alike (v.feed insn) (w.feed insn) :=
  h.setThread fun thread => { thread with currentInsn := some insn, currentOrigin := .expander }

theorem setDirect : Alike (v.setDirect insn) (w.setDirect insn) :=
  h.setThread fun thread => { thread with directInsn := some insn }

theorem replayTurn :
    Option.Rel (Sum.LiftRel Alike ResultAlike) (replayTurn tid v) (replayTurn tid w) := by
  have hretry : ResultAlike (if v.thread.currentInsn.isSome then tensixCopStep v tid else (true, v))
      (if w.thread.currentInsn.isSome then tensixCopStep w tid else (true, w)) := by
    rw [h.thread]
    split_ifs
    · exact h.step tid
    · exact ⟨rfl, h⟩
  unfold Rv32Emu.replayTurn
  rw [h.replay]
  by_cases he : (!w.replay.expanding) = true
  · rw [if_pos he, if_pos he]
    exact .some (.inr ⟨rfl, h⟩)
  · rw [if_neg he, if_neg he]
    generalize (if v.thread.currentInsn.isSome then tensixCopStep v tid else (true, v)) = r,
      (if w.thread.currentInsn.isSome then tensixCopStep w tid else (true, w)) = r' at hretry ⊢
    obtain ⟨ok, v'⟩ := r
    obtain ⟨ok', w'⟩ := r'
    obtain ⟨rfl, h'⟩ : ok = ok' ∧ Alike v' w' := hretry
    have hstep := ((h'.setReplay fun r => { r with expandCurrent := r.expandCurrent + 1 }).feed
      (w'.replay.buffer ((w'.replay.expandStart + w'.replay.expandCurrent) % 32))).step tid
    rw [h'.replay] at hstep
    dsimp only
    rw [h'.replay, hstep.1]
    split_ifs
    · exact .some (.inr ⟨rfl, h'⟩)
    · exact .some (.inr ⟨rfl, h'.issue, rfl, h'.thread, h'.halted⟩)
    · exact .some (.inl hstep.2)
    · exact .some (.inr ⟨rfl, hstep.2⟩)

theorem drainIfExpanding (fuel : ℕ) :
    OutcomeAlike (drainIfExpanding fuel v tid) (drainIfExpanding fuel w tid) := by
  unfold Rv32Emu.drainIfExpanding
  rw [h.replay]
  split_ifs
  · exact Loop.rel (fun _ _ h' => h'.replayTurn tid) h fuel
  · exact .some ⟨rfl, h⟩

theorem setMopState (st : MopExpandState) : Alike (v.setMopState st) (w.setMopState st) :=
  h.setThread fun thread => { thread with mopState := st }

theorem mopFinish : Alike (mopFinish v) (mopFinish w) :=
  h.setThread fun thread => { thread with
    mopState := { thread.mopState with active := false }
    directInsn := none
    state := .running
    insnExecuted := thread.insnExecuted + 1 }

theorem mopTurn (fuel : ℕ) :
    Option.Rel (Sum.LiftRel Alike ResultAlike) (mopTurn fuel tid v) (mopTurn fuel tid w) := by
  unfold Rv32Emu.mopTurn
  rw [h.thread]
  generalize mopGenerateNext w.thread.mopCfg w.thread.mopState = g
  obtain ⟨emitted, st⟩ := g
  cases emitted with
  | none => exact .some (.inr ⟨rfl, (h.setMopState st).mopFinish⟩)
  | some insn =>
    have hstep := ((h.setMopState st).feed insn).step tid
    dsimp only
    rw [hstep.1]
    split_ifs
    · exact .some (.inr ⟨rfl, hstep.2⟩)
    · exact (hstep.2.drainIfExpanding tid fuel).turn

theorem mopRetry (fuel : ℕ) : OutcomeAlike (mopRetry fuel v tid) (mopRetry fuel w tid) := by
  have hstep := h.step tid
  unfold Rv32Emu.mopRetry
  dsimp only
  rw [h.thread, hstep.1]
  split_ifs
  · exact .some ⟨rfl, hstep.2⟩
  · exact (hstep.2.setThread fun thread => { thread with currentInsn := none }).drainIfExpanding tid fuel
  · exact .some ⟨rfl, h⟩

theorem mopContinueExecution (fuel : ℕ) :
    OutcomeAlike (mopContinueExecution fuel v tid) (mopContinueExecution fuel w tid) := by
  refine (h.drainIfExpanding tid fuel).andThen fun v w h => ?_
  refine (h.mopRetry tid fuel).andThen fun v w h => ?_
  exact Loop.rel (fun _ _ h' => h'.mopTurn tid fuel) h fuel

theorem drainFifo (fuel : ℕ) : Option.Rel Alike (drainFifo fuel v tid) (drainFifo fuel w tid) := by
  refine Loop.rel (fun v w h => ?_) h fuel
  have hstep := h.step tid
  generalize tensixCopStep v tid = r, tensixCopStep w tid = r' at hstep ⊢
  obtain ⟨ok, v'⟩ := r
  obtain ⟨ok', w'⟩ := r'
  obtain ⟨rfl, h'⟩ : ok = ok' ∧ Alike v' w' := hstep
  cases ok with
  | false => exact .some (.inr h')
  | true => exact .some (.inl h')

theorem mopFinishAll (fuel : ℕ) : OutcomeAlike (mopFinishAll fuel v tid) (mopFinishAll fuel w tid) := by
  refine Loop.rel (fun v w h => ?_) h fuel
  rw [h.thread]
  split_ifs
  · exact .some (.inr ⟨rfl, h⟩)
  · exact (h.mopContinueExecution tid fuel).turn

theorem complete (e : Event) : Alike (v.complete e) (w.complete e) :=
  h.setThread fun thread => { thread with
    state := .running
    insnExecuted := thread.insnExecuted + 1
    log := thread.log ++ [e] }

theorem recordInsn : Alike (recordInsn v insn tid) (recordInsn w insn tid) := by
  have hstored := h.setReplay fun r => { r with
    buffer := Function.update r.buffer (r.index % 32) insn
    index := r.index + 1
    left := (r.left + 2 ^ 32 - 1) % 2 ^ 32
    recording := (r.left + 2 ^ 32 - 1) % 2 ^ 32 ≠ 0 }
  have hclear {v w : CopView} (h : Alike v w) : Alike v.clearDirect w.clearDirect :=
    h.setThread fun thread => { thread with directInsn := none }
  unfold Rv32Emu.recordInsn
  dsimp only at hstored ⊢
  rw [h.replay] at hstored ⊢
  apply Alike.complete
  apply hclear
  split_ifs
  · exact (hstored.execute insn tid).2
  · exact hstored

theorem toDirect (fuel : ℕ) : OutcomeAlike ((Rv32Emu.verdict v insn tid).toDirect fuel insn tid)
    ((Rv32Emu.verdict w insn tid).toDirect fuel insn tid) := by
  have hissued {v w : CopView} (h : Alike v w) : Alike (v.issued insn) (w.issued insn) :=
    h.setThread fun thread => { thread with log := thread.log ++ [.issued insn] }
  have hfinish {v w : CopView} (h : Alike v w) : Alike v.finish w.finish :=
    h.setThread fun thread => { thread with
      directInsn := none, state := .running, insnExecuted := thread.insnExecuted + 1 }
  generalize Rv32Emu.verdict v insn tid = x, Rv32Emu.verdict w insn tid = y, h.verdict insn tid = hxy
  cases hxy with
  | held counted h' =>
    cases counted with
    | false => exact .some ⟨rfl, h'.setThread fun thread => { thread with state := .waiting }⟩
    | true =>
      exact .some ⟨rfl, h'.setThread fun thread => { thread with
        state := .waiting, cyclesWaiting := thread.cyclesWaiting + 1 }⟩
  | passed h' =>
    unfold Verdict.toDirect
    dsimp only
    split_ifs
    · exact .some ⟨rfl, hfinish (hissued h')⟩
    · exact (hissued h').mopContinueExecution tid fuel
    · exact ((hissued h').drainIfExpanding tid fuel).andThen fun v w h => .some ⟨rfl, hfinish h⟩

theorem directInsn (fuel : ℕ) : OutcomeAlike (directInsn fuel v insn tid) (directInsn fuel w insn tid) := by
  by_cases hr : tensixInsnOpcode insn ≠ opcodeMopCfg → w.replay.recording = false
  · rw [directInsn_eq fuel tid (h.replay ▸ hr), directInsn_eq fuel tid hr]
    exact h.toDirect insn tid fuel
  · -- the instruction is recorded
    obtain ⟨hc, hrec⟩ := Classical.not_imp.mp hr
    have hrec' : w.replay.recording = true := by simpa using hrec
    have hrecord {v : CopView} (hv : v.replay.recording = true) :
        Rv32Emu.directInsn fuel v insn tid = some (true, Rv32Emu.recordInsn v insn tid) := by
      unfold Rv32Emu.directInsn
      dsimp only
      rw [if_neg hc, if_pos hv]
    rw [hrecord hrec', hrecord (h.replay ▸ hrec')]
    exact .some ⟨rfl, h.recordInsn insn tid⟩

theorem directAfterMop (fuel : ℕ) :
    OutcomeAlike (directAfterMop fuel v insn tid) (directAfterMop fuel w insn tid) := by
  have hdrain := h.drainFifo tid fuel
  unfold Rv32Emu.directAfterMop
  generalize Rv32Emu.drainFifo fuel v tid = x, Rv32Emu.drainFifo fuel w tid = y at hdrain ⊢
  cases hdrain with
  | none => exact .none
  | @some v' w' h' =>
    dsimp only
    rw [h'.thread]
    split_ifs
    · exact h'.directInsn insn tid fuel
    · have hall := h'.mopFinishAll tid fuel
      generalize Rv32Emu.mopFinishAll fuel v' tid = x, Rv32Emu.mopFinishAll fuel w' tid = y at hall ⊢
      cases hall with
      | none => exact .none
      | @some p q hpq =>
        obtain ⟨ok, v''⟩ := p
        obtain ⟨ok', w''⟩ := q
        obtain ⟨rfl, h''⟩ : ok = ok' ∧ Alike v'' w'' := hpq
        dsimp only
        split_ifs
        · exact (h''.setDirect insn).directInsn insn tid fuel
        · exact .some ⟨rfl, h''.setDirect insn⟩

theorem stepDirect (fuel : ℕ) :
    OutcomeAlike (tensixCopStepDirect fuel v tid) (tensixCopStepDirect fuel w tid) := by
  have hmop := h.mopContinueExecution tid fuel
  unfold tensixCopStepDirect
  rw [h.halted, h.thread]
  generalize Rv32Emu.mopContinueExecution fuel v tid = x,
    Rv32Emu.mopContinueExecution fuel w tid = y at hmop ⊢
  cases w.halted with
  | true => exact .some ⟨rfl, h⟩
  | false =>
    cases w.thread.directInsn with
    | none => exact .some ⟨rfl, h⟩
    | some saved =>
      cases w.thread.mopState.active with
      | false => exact h.directAfterMop saved tid fuel
      | true =>
        cases hmop with
        | none => exact .none
        | @some p q hpq =>
          obtain ⟨ok, v'⟩ := p
          obtain ⟨ok', w'⟩ := q
          obtain ⟨rfl, h'⟩ : ok = ok' ∧ Alike v' w' := hpq
          cases ok with
          | false => exact .some ⟨rfl, h'.setDirect saved⟩
          | true =>
            by_cases hm : tensixInsnOpcode saved = opcodeMop
            · simp only [hm, if_true, Bool.false_eq_true, Bool.not_true, if_false]
              exact .some ⟨rfl, h'⟩
            · simp only [hm, Bool.false_eq_true, Bool.not_true, if_false]
              exact (h'.setDirect saved).directAfterMop saved tid fuel

theorem acts {a : ThreadAction} {ok : Bool} {v' : CopView} (hv : ThreadActs tid v a ok v') :
    ∃ w', ThreadActs tid w a ok w' ∧ Alike v' w' := by
  cases a with
  | push insn =>
    obtain ⟨hok, h'⟩ := h.push insn
    rw [show tensixCopPush v insn = (ok, v') from hv] at hok h'
    exact ⟨(tensixCopPush w insn).2, Prod.ext hok.symm rfl, h'⟩
  | step =>
    obtain ⟨hok, h'⟩ := h.step tid
    rw [show tensixCopStep v tid = (ok, v') from hv] at hok h'
    exact ⟨(tensixCopStep w tid).2, Prod.ext hok.symm rfl, h'⟩
  | issue insn =>
    obtain ⟨fuel, hv⟩ := hv
    have hrel := (h.setDirect insn).stepDirect tid fuel
    rw [show tensixCopStepDirect fuel (v.setDirect insn) tid = some (ok, v') from hv] at hrel
    generalize hr : tensixCopStepDirect fuel (w.setDirect insn) tid = r at hrel
    cases hrel with
    | @some _ q hq =>
      obtain ⟨ok', w'⟩ := q
      obtain ⟨rfl, h'⟩ : ok = ok' ∧ Alike v' w' := hq
      exact ⟨w', ⟨fuel, hr⟩, h'⟩

end Alike

structure CopAlike (cop cop₁ : TensixCop) : Prop where
  issue : cop.core.issueState = cop₁.core.issueState
  replay : cop.replay = cop₁.replay
  threads : cop.threads = cop₁.threads
  halted : cop.halted = cop₁.halted

theorem CopAlike.view {cop cop₁ : TensixCop} (h : CopAlike cop cop₁) (t : Tid) :
    Alike (cop.view t) (cop₁.view t) :=
  ⟨h.issue, congrFun h.replay t, congrFun h.threads t, h.halted⟩

theorem CopAlike.acts {cop cop₁ cop' : TensixCop} {l : Label} (h : CopAlike cop cop₁) (ha : Acts cop l cop') :
    ∃ cop₁', Acts cop₁ l cop₁' ∧ CopAlike cop' cop₁' := by
  obtain ⟨v, hv, rfl⟩ := ha
  obtain ⟨w, hw, hvw⟩ := (h.view l.tid).acts l.tid hv
  refine ⟨cop₁.putView l.tid w, ⟨w, hw, rfl⟩, hvw.issue, ?_, ?_, h.halted⟩
  · show Function.update cop.replay l.tid v.replay = Function.update cop₁.replay l.tid w.replay
    rw [h.replay, hvw.replay]
  · show Function.update cop.threads l.tid v.thread = Function.update cop₁.threads l.tid w.thread
    rw [h.threads, hvw.thread]

/-- The two coprocessors take the same action with the same result, and have executed the same instructions in
the same order. -/
def ActsTogether (p : TensixCop × TensixCop) (l : Label) (q : TensixCop × TensixCop) : Prop :=
  Acts p.1 l q.1 ∧ Acts p.2 l q.2 ∧ ∀ t, (q.1.threads t).log = (q.2.threads t).log

theorem CopAlike.run {s s' s₁ : TensixCop} {ls : List Label} (h : CopAlike s s₁) (hr : CopRun s ls s') :
    ∃ s₁', Run ActsTogether (s, s₁) ls (s', s₁') := by
  induction hr generalizing s₁ with
  | nil s => exact ⟨s₁, .nil _⟩
  | cons ha _ ih =>
    obtain ⟨u₁, ha₁, hu⟩ := h.acts ha
    obtain ⟨s₁', hrun⟩ := ih hu
    exact ⟨s₁', .cons ⟨ha, ha₁, fun t => by rw [hu.threads]⟩ hrun⟩

def tensixCopInitThread (thread : TensixThreadCop) : TensixThreadCop :=
  { TensixThreadCop.init with mopCfg := thread.mopCfg, zmaskHi16 := thread.zmaskHi16 }

/-- The reset of the coprocessor and of the core. It leaves the replay state, the marks of zeroed SrcB banks,
the counters, the registers of the threads, the vector unit and memory. -/
def tensixReset (cop : TensixCop) : TensixCop where
  threads := fun t => tensixCopInitThread (cop.threads t)
  replay := cop.replay
  core := { cop.core with
    srca := fun _ _ _ => 0
    srcb := fun _ _ _ => 0
    dest := fun _ _ => 0
    srcaDvalid := fun _ => false
    srcbDvalid := fun _ => false
    unpSrcaBank := 0
    unpSrcbBank := 0
    mathSrcaBank := 0
    mathSrcbBank := 0
    destDvalid := false
    packL1WriteOffset := 0
    packL1DestAddrRaw := 0
    mutex := fun _ => mutexNone
    sem := fun _ => 0 }
  halted := false

/-- The states agree in what a reset is meant to keep: memory, the configuration, the MOP configuration with
its mask, and the semaphore maxima. -/
structure KeptAlike (cop cop₁ : TensixCop) : Prop where
  mem : cop.core.mem = cop₁.core.mem
  thdReg : cop.core.thdReg = cop₁.core.thdReg
  mopCfg : ∀ t, (cop.threads t).mopCfg = (cop₁.threads t).mopCfg
  zmask : ∀ t, (cop.threads t).zmaskHi16 = (cop₁.threads t).zmaskHi16
  semMax : cop.core.semMax = cop₁.core.semMax

/-- The states agree in what a reset forgets to clear and issue reads: the replay state, the marks of zeroed
SrcB banks and the X counters of unpacker 1. -/
structure LeftAlike (cop cop₁ : TensixCop) : Prop where
  replay : cop.replay = cop₁.replay
  srcbZeroed : cop.core.srcbZeroed = cop₁.core.srcbZeroed
  ch0X : cop.core.issueState.ch0X = cop₁.core.issueState.ch0X
  ch1X : cop.core.issueState.ch1X = cop₁.core.issueState.ch1X

theorem tensixReset_alike {cop cop₁ : TensixCop} (hk : KeptAlike cop cop₁) (hl : LeftAlike cop cop₁) :
    CopAlike (tensixReset cop) (tensixReset cop₁) := by
  refine ⟨?_, hl.replay, funext fun t => ?_, rfl⟩
  · simp only [Tensix.issueState, tensixReset, hk.mem, hk.semMax, hl.srcbZeroed]
    exact congrArg₂ _ hl.ch0X hl.ch1X
  · simp only [tensixReset, tensixCopInitThread, hk.mopCfg, hk.zmask]

theorem reset_discards_work {cop cop₁ cop' : TensixCop} {ls : List Label} (hk : KeptAlike cop cop₁)
    (hl : LeftAlike cop cop₁) (h : CopRun (tensixReset cop) ls cop') :
    ∃ cop₁', Run ActsTogether (tensixReset cop, tensixReset cop₁) ls (cop', cop₁') :=
  (tensixReset_alike hk hl).run h

def blockedTrace : List (Tid × ThreadAction) := [(1, .push 0x26000000), (1, .push 0x26000000), (1, .step)]

theorem reset_discards_work_blocked :
    CopRun powerUp [⟨1, .push 0x26000000, true⟩, ⟨1, .push 0x26000000, true⟩, ⟨1, .step, false⟩]
        (powerUp.after 3 blockedTrace) ∧
      ∃ cop₁', Run ActsTogether (tensixReset (powerUp.after 3 blockedTrace), tensixReset powerUp)
        [⟨1, .issue 0x02000000, true⟩]
        ((tensixReset (powerUp.after 3 blockedTrace)).after 3 [(1, .issue 0x02000000)], cop₁') := by
  have hkept : KeptAlike (powerUp.after 3 blockedTrace) powerUp :=
    ⟨rfl, rfl, fun | 0 => rfl | 1 => rfl | 2 => rfl, fun | 0 => rfl | 1 => rfl | 2 => rfl, rfl⟩
  have hleft : LeftAlike (powerUp.after 3 blockedTrace) powerUp :=
    ⟨funext fun | 0 => rfl | 1 => rfl | 2 => rfl, rfl, rfl, rfl⟩
  have hrun : CopRun (tensixReset (powerUp.after 3 blockedTrace)) [⟨1, .issue 0x02000000, true⟩]
      ((tensixReset (powerUp.after 3 blockedTrace)).after 3 [(1, .issue 0x02000000)]) :=
    TensixCop.exec_after (by decide)
  exact ⟨TensixCop.exec_after (by decide), reset_discards_work hkept hleft hrun⟩

def recordingTrace : List (Tid × ThreadAction) := [(0, .issue 0x04000011)]

theorem reset_keeps_recording :
    CopRun powerUp [⟨0, .issue 0x04000011, true⟩] (powerUp.after 3 recordingTrace) ∧
      KeptAlike (powerUp.after 3 recordingTrace) powerUp ∧
      CopRun (tensixReset (powerUp.after 3 recordingTrace)) [⟨0, .issue 0x02000000, true⟩]
        ((tensixReset (powerUp.after 3 recordingTrace)).after 3 [(0, .issue 0x02000000)]) ∧
      CopRun (tensixReset powerUp) [⟨0, .issue 0x02000000, true⟩]
        ((tensixReset powerUp).after 3 [(0, .issue 0x02000000)]) ∧
      (((tensixReset (powerUp.after 3 recordingTrace)).after 3 [(0, .issue 0x02000000)]).threads 0).log =
        [.recorded 0x02000000] ∧
      (((tensixReset powerUp).after 3 [(0, .issue 0x02000000)]).threads 0).log = [.issued 0x02000000] := by
  have hkept : KeptAlike (powerUp.after 3 recordingTrace) powerUp :=
    ⟨rfl, rfl, fun | 0 => rfl | 1 => rfl | 2 => rfl, fun | 0 => rfl | 1 => rfl | 2 => rfl, rfl⟩
  exact ⟨TensixCop.exec_after (by decide), hkept, TensixCop.exec_after (by decide),
    TensixCop.exec_after (by decide), by decide, by decide⟩

end Rv32Emu
