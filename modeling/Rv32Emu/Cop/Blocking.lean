import Rv32Emu.Cop.Queue

namespace Rv32Emu

/-- The architectural state before one thread: the core with its registers, banks, memories and
semaphores, and the thread's replay and MOP state. -/
@[ext] structure Arch where
  core : Tensix
  replay : Replay
  mopState : MopExpandState
  mopCfg : ℕ → Word
  zmaskHi16 : Word

def CopView.arch (v : CopView) : Arch :=
  ⟨v.core, v.replay, v.thread.mopState, v.thread.mopCfg, v.thread.zmaskHi16⟩

structure SameVerdict (x y : Verdict) : Prop where
  ok : x.ok = y.ok
  arch : x.view.arch = y.view.arch
  gate : x.view.thread.waitGate = y.view.thread.waitGate

section congruence

variable {v w : CopView} (insn : Word) (tid : Tid)

theorem execute_congr (h : v.arch = w.arch) :
    (tensixExecuteInsn v insn tid).1 = (tensixExecuteInsn w insn tid).1 ∧
      (tensixExecuteInsn v insn tid).2.arch = (tensixExecuteInsn w insn tid).2.arch := by
  simp only [CopView.arch, Arch.mk.injEq] at h
  obtain ⟨hcore, hreplay, hstate, hcfg, hz⟩ := h
  by_cases hm : tensixInsnOpcode insn = opcodeMop
  · rw [execute_mop v tid hm, execute_mop w tid hm]
    simp [CopView.arch, CopView.setThread, tensixCopMopExpand, *]
  by_cases hc : tensixInsnOpcode insn = opcodeMopCfg
  · rw [execute_mopCfg v tid hc, execute_mopCfg w tid hc]
    simp only [CopView.arch, CopView.setThread, ttmopCfg]
    split_ifs <;> simp [*]
  by_cases hr : tensixInsnOpcode insn = opcodeReplay
  · rw [execute_replay v tid hr, execute_replay w tid hr]
    simp [CopView.arch, CopView.setReplay, *]
  · rw [execute_plain v tid ⟨hm, hc, hr⟩, execute_plain w tid ⟨hm, hc, hr⟩, hcore, hcfg]
    simp [CopView.arch, CopView.setCore, *]

theorem pastGate_congr (h : v.arch = w.arch) (hg : v.thread.waitGate = w.thread.waitGate) :
    SameVerdict (pastGate v insn tid) (pastGate w insn tid) := by
  have hcore : v.core = w.core := congrArg Arch.core h
  obtain ⟨hx, ha⟩ := execute_congr insn tid h
  unfold pastGate
  rw [hcore, hx, hg]
  split_ifs
  · exact ⟨rfl, h, rfl⟩
  · exact ⟨rfl, h, hg⟩
  · exact ⟨rfl, ha, by simp only [Verdict.view, execute_gate, hg]⟩
  · exact ⟨rfl, h, hg⟩

theorem verdict_congr (h : v.arch = w.arch) (hg : v.thread.waitGate = w.thread.waitGate) :
    SameVerdict (verdict v insn tid) (verdict w insn tid) := by
  have hcore : v.core = w.core := congrArg Arch.core h
  have hmeet : meetsGate v insn = meetsGate w insn := by simp only [meetsGate, hg]
  unfold verdict passGate
  rw [hmeet, hg, hcore]
  split_ifs
  · refine ⟨rfl, ?_, hg⟩
    simp only [CopView.arch, Arch.mk.injEq] at h
    simp [Verdict.view, CopView.arch, CopView.setZmask, CopView.setThread, h]
  · exact pastGate_congr insn tid h hg
  · exact pastGate_congr insn tid h rfl
  · exact ⟨rfl, h, hg⟩

end congruence

@[simp] theorem CopView.heldAt_arch (v : CopView) (insn : Word) (counted : Bool) :
    (v.heldAt insn counted).arch = v.arch := by
  cases counted <;> rfl

@[simp] theorem CopView.complete_arch (v : CopView) (e : Event) : (v.complete e).arch = v.arch := rfl

theorem FetchCase.arch {v u : CopView} {insn : Word} (h : FetchCase v insn u) : u.arch = v.arch := by
  cases h <;> rfl

theorem verdict_held_arch {v x : CopView} {insn : Word} {tid : Tid} {counted : Bool}
    (h : verdict v insn tid = .held counted x) : x.arch = v.arch := by
  obtain rfl | ⟨rfl, _⟩ := verdict_held h <;> rfl

theorem tensixCopStep_blocked_arch {v v' : CopView} {tid : Tid} (h : tensixCopStep v tid = (false, v')) :
    v'.arch = v.arch := by
  cases StepCase.of_eq h with
  | halted => rfl
  | empty => rfl
  | @held insn u x counted hh hf hx => rw [CopView.heldAt_arch, verdict_held_arch hx, hf.arch]

def TensixThreadCop.next (thread : TensixThreadCop) : Option (Word × TensixFifo) :=
  match thread.currentInsn with
  | some insn => some (insn, thread.insnFifo)
  | none => thread.insnFifo.pop

theorem FetchCase.next {v u : CopView} {insn : Word} (h : FetchCase v insn u) :
    v.thread.next = some (insn, u.thread.insnFifo) := by
  cases h with
  | pending h => simp [TensixThreadCop.next, h, CopView.setThread]
  | popped h hp => simp [TensixThreadCop.next, h, hp, CopView.setThread]

/-- `v` differs from `w` by blocked attempts only. They may have opened a gate that the next
instruction meets. -/
structure Retried (v w : CopView) : Prop where
  halted : v.halted = w.halted
  arch : v.arch = w.arch
  next : v.thread.next = w.thread.next
  gate : v.thread.waitGate = w.thread.waitGate ∨
    v.thread.waitGate = waitGateClear ∧
      ∀ insn fifo, w.thread.next = some (insn, fifo) → meetsGate w insn = true

namespace Retried

variable {v w v' w' : CopView} {tid : Tid}

theorem refl (v : CopView) : Retried v v := ⟨rfl, rfl, rfl, .inl rfl⟩

theorem blocked (hr : Retried v w) (h : tensixCopStep v tid = (false, v')) : Retried v' w := by
  have harch := (tensixCopStep_blocked_arch h).trans hr.arch
  cases StepCase.of_eq h with
  | halted => exact hr
  | empty => exact ⟨hr.halted, harch, hr.next, hr.gate⟩
  | @held insn u x counted hh hf hx =>
    obtain ⟨hxh, -, -, hxt⟩ := verdict_held_thread hx
    have hnext : w.thread.next = some (insn, u.thread.insnFifo) := hr.next.symm.trans hf.next
    refine ⟨by simp [hxh, hf.halted, hr.halted], harch, ?_, ?_⟩
    · rw [hnext, TensixThreadCop.next, CopView.heldAt_current, CopView.heldAt_fifo, hxt]
    · rw [CopView.heldAt_gate]
      obtain rfl | ⟨rfl, hm, -⟩ := verdict_held hx
      · rw [hf.gate]
        exact hr.gate
      · refine .inr ⟨rfl, fun insn' fifo hi => ?_⟩
        obtain ⟨rfl, -⟩ : insn = insn' ∧ u.thread.insnFifo = fifo := by simpa [hnext] using hi
        -- an open gate is met by nothing, so this one was still as it is in `w`
        obtain hg | ⟨hg, -⟩ := hr.gate
        · rwa [meetsGate, hf.gate, hg] at hm
        · rw [meetsGate, hf.gate, hg] at hm
          cases hm

end Retried

theorem verdict_opened {v w : CopView} {insn : Word} (tid : Tid) (h : v.arch = w.arch)
    (hv : v.thread.waitGate = waitGateClear) (hm : meetsGate w insn = true)
    (hw : waitGateCheck w.thread.waitGate w.core = true) :
    SameVerdict (verdict v insn tid) (verdict w insn tid) := by
  have hc := meetsGate_mopCfg hm
  have hpv : verdict v insn tid = pastGate v insn tid := by
    simp [verdict, passGate, hc, meetsGate_clear hv]
  have hpw : verdict w insn tid = pastGate (w.setGate waitGateClear) insn tid := by
    simp [verdict, passGate, hc, hm, hw]
  rw [hpv, hpw]
  exact pastGate_congr insn tid h hv

/-- A success after blocked attempts, compared with the attempt made alone: either both succeed with
the same effect, or the gate that a blocked attempt had found satisfied is closed again. -/
theorem Retried.success {v w v' w' : CopView} {tid : Tid} {ok : Bool} (hr : Retried v w)
    (hv : tensixCopStep v tid = (true, v')) (hw : tensixCopStep w tid = (ok, w')) :
    (ok = true → v'.arch = w'.arch ∧ v'.thread.waitGate = w'.thread.waitGate) ∧
      (ok = false → v.thread.waitGate = waitGateClear ∧ w.thread.waitGate.active = true ∧
        waitGateCheck w.thread.waitGate w.core = false) := by
  obtain ⟨insn, u, x, hh, hf, hx, rfl⟩ := StepCase.of_true hv
  have hnext := hr.next.symm.trans hf.next
  have agree {u₁ : CopView} (hu₁ : FetchCase w insn u₁) :
      SameVerdict (verdict u insn tid) (verdict u₁ insn tid) ∨
        v.thread.waitGate = waitGateClear ∧ meetsGate w insn = true ∧
          waitGateCheck w.thread.waitGate w.core = false := by
    have harch : u.arch = u₁.arch := by rw [hf.arch, hu₁.arch, hr.arch]
    obtain hg | ⟨hg, hm⟩ := hr.gate
    · exact .inl (verdict_congr insn tid harch (by rw [hf.gate, hu₁.gate, hg]))
    · have hm := hm _ _ hnext
      cases hc : waitGateCheck w.thread.waitGate w.core with
      | false => exact .inr ⟨hg, hm, rfl⟩
      | true =>
        have hcore : u₁.core = w.core := congrArg Arch.core hu₁.arch
        refine .inl (verdict_opened tid harch (by rw [hf.gate, hg]) ?_ ?_)
        · rwa [meetsGate, hu₁.gate]
        · rwa [hu₁.gate, hcore]
  cases StepCase.of_eq hw with
  | halted hh' => simp [← hr.halted, hh] at hh'
  | empty _ hc hp => simp [TensixThreadCop.next, hc, hp] at hnext
  | @held insn' u₁ x₁ counted _ hf₁ hx₁ =>
    obtain rfl : insn = insn' := by simpa using congrArg (Option.map Prod.fst) (hnext.symm.trans hf₁.next)
    refine ⟨by simp, fun _ => ?_⟩
    obtain hs | ⟨hg, hm, hc⟩ := agree hf₁
    · have := hs.ok
      rw [hx, hx₁] at this
      cases this
    · simp only [meetsGate, Bool.and_eq_true] at hm
      exact ⟨hg, hm.1, hc⟩
  | @passed insn' u₁ x₁ _ hf₁ hx₁ =>
    obtain rfl : insn = insn' := by simpa using congrArg (Option.map Prod.fst) (hnext.symm.trans hf₁.next)
    refine ⟨fun _ => ?_, by simp⟩
    obtain hs | ⟨hg, hm, hc⟩ := agree hf₁
    · rw [hx, hx₁] at hs
      exact ⟨hs.arch, hs.gate⟩
    · -- an unsatisfied gate would have held the attempt made alone
      have hcore : u₁.core = w.core := congrArg Arch.core hf₁.arch
      have hm₁ : meetsGate u₁ insn = true := by rwa [meetsGate, hf₁.gate]
      simp [verdict, passGate, meetsGate_mopCfg hm, hm₁, hf₁.gate, hcore, hc] at hx₁

theorem Retried.setCore {v w : CopView} (h : Retried v w) (core : Tensix) :
    Retried (v.setCore core) (w.setCore core) := by
  have ha := h.arch
  simp only [CopView.arch, Arch.mk.injEq] at ha
  exact ⟨h.halted, by simp [CopView.arch, CopView.setCore, ha], h.next, h.gate⟩

theorem CopRun.drop_blocked {t : Tid} {cop cop' cop₁ : TensixCop} {ls : List Label} (h : CopRun cop ls cop')
    (hb : ∀ l ∈ ls, l.tid = t → l.act = .step ∧ l.ok = false) (ho : AgreeOff t cop cop₁)
    (hr : Retried (cop.view t) (cop₁.view t)) :
    ∃ cop₁', CopRun cop₁ (ls.filter (·.tid ≠ t)) cop₁' ∧ AgreeOff t cop' cop₁' ∧
      Retried (cop'.view t) (cop₁'.view t) := by
  induction h generalizing cop₁ with
  | nil cop => exact ⟨cop₁, .nil _, ho, hr⟩
  | @cons cop mid cop' l ls hs _ ih =>
    have ih := fun {cop₁} => @ih cop₁ fun l hl => hb l (List.mem_cons_of_mem _ hl)
    by_cases hl : l.tid = t
    · obtain ⟨tid, a, ok⟩ := l
      obtain rfl : tid = t := hl
      obtain ⟨rfl, rfl⟩ : a = .step ∧ ok = false := hb _ List.mem_cons_self rfl
      obtain ⟨v, hv, rfl⟩ := hs
      have hr' := hr.blocked hv
      have hview : (cop.putView tid v).view tid = v :=
        cop.view_putView tid v (hr'.halted.trans hr.halted.symm)
      simpa using ih (ho.putView_left (congrArg Arch.core hr'.arch)) (by rw [hview]; exact hr')
    · obtain ⟨mid₁, hs₁, ho₁, hv, hv₁⟩ := ho.acts hl hs
      obtain ⟨cop₁', hrun, ho', hr'⟩ := ih ho₁ (by rw [hv, hv₁]; exact hr.setCore _)
      refine ⟨cop₁', ?_, ho', hr'⟩
      rw [List.filter_cons_of_pos (by simpa using hl)]
      exact .cons hs₁ hrun

/-- A refused or blocked instruction has changed nothing of the architectural state, so blocked
retries cannot be told from no attempt at all: in the run without them the same success has the
same effect, and only a gate that they found satisfied, and that closed again, can hold it back. -/
theorem blocking_is_side_effect_free :
    (∀ v insn tid, (tensixExecuteInsn v insn tid).1 = false → (tensixExecuteInsn v insn tid).2 = v) ∧
      (∀ v v' tid, tensixCopStep v tid = (false, v') → v'.arch = v.arch) ∧
      ∀ t cop cop' ls, CopRun cop ls cop' →
        (∀ l ∈ ls, l.tid = t → l.act = .step ∧ l.ok = false) →
        ∃ cop₁, CopRun cop (ls.filter (·.tid ≠ t)) cop₁ ∧
          (∀ u, (cop'.view u).arch = (cop₁.view u).arch) ∧
          ∀ v w ok, tensixCopStep (cop'.view t) t = (true, v) → tensixCopStep (cop₁.view t) t = (ok, w) →
            (ok = true → v.arch = w.arch ∧ v.thread.waitGate = w.thread.waitGate) ∧
            (ok = false → (cop'.threads t).waitGate = waitGateClear ∧
              (cop₁.threads t).waitGate.active = true ∧
              waitGateCheck (cop₁.threads t).waitGate cop₁.core = false) := by
  refine ⟨fun v insn tid => execute_refused v tid, fun v v' tid => tensixCopStep_blocked_arch, ?_⟩
  intro t cop cop' ls h hb
  obtain ⟨cop₁, hrun, ho, hr⟩ := h.drop_blocked hb (.refl t cop) (.refl _)
  refine ⟨cop₁, hrun, fun u => ?_, fun v w ok hv hw => hr.success hv hw⟩
  by_cases hu : u = t
  · subst hu
    exact hr.arch
  · rw [ho.view hu]

def pacrQueued : TensixCop := powerUp.putView 2 (tensixCopPush (powerUp.view 2) 0x41000000).2

def pacrRetryTrace : List Label :=
  [⟨2, .step, false⟩, ⟨1, .push 0xA4000004, true⟩, ⟨2, .step, false⟩, ⟨1, .step, true⟩]

theorem blocking_is_side_effect_free_pacr :
    ∃ cop' cop₁, CopRun pacrQueued pacrRetryTrace cop' ∧
      CopRun pacrQueued [⟨1, .push 0xA4000004, true⟩, ⟨1, .step, true⟩] cop₁ ∧
      ∀ u, (cop'.view u).arch = (cop₁.view u).arch := by
  have h : CopRun pacrQueued pacrRetryTrace
      (pacrQueued.after 0 (pacrRetryTrace.map fun l => (l.tid, l.act))) := TensixCop.exec_after (by decide)
  obtain ⟨cop₁, h₁, ha, -⟩ := blocking_is_side_effect_free.2.2 2 _ _ _ h (by decide)
  exact ⟨_, cop₁, h, h₁, ha⟩

def gatedPacr : TensixCop :=
  powerUp.after 0 [(1, .push 0xA3210004), (1, .step), (2, .push 0xA6020005), (2, .step),
    (2, .push 0x41000000)]

def closeGateTrace : List Label :=
  [⟨1, .push 0xA5000004, true⟩, ⟨1, .step, true⟩, ⟨1, .push 0xA4000008, true⟩, ⟨1, .step, true⟩]

theorem blocked_attempt_releases_gate :
    (∃ cop, CopRun gatedPacr (⟨2, .step, false⟩ :: closeGateTrace ++ [⟨2, .step, true⟩]) cop ∧
      .ran .fifo 0x41000000 ∈ (cop.threads 2).log) ∧
    ∃ cop, CopRun gatedPacr (closeGateTrace ++ [⟨2, .step, false⟩]) cop ∧
      .ran .fifo 0x41000000 ∉ (cop.threads 2).log := by
  have hretried : CopRun gatedPacr (⟨2, .step, false⟩ :: closeGateTrace ++ [⟨2, .step, true⟩])
      (gatedPacr.after 0 ((2, .step) :: (closeGateTrace.map fun l => (l.tid, l.act)) ++ [(2, .step)])) :=
    TensixCop.exec_after (by decide)
  have halone : CopRun gatedPacr (closeGateTrace ++ [⟨2, .step, false⟩])
      (gatedPacr.after 0 ((closeGateTrace.map fun l => (l.tid, l.act)) ++ [(2, .step)])) :=
    TensixCop.exec_after (by decide)
  exact ⟨⟨_, hretried, by decide⟩, _, halone, by decide⟩

end Rv32Emu
