import Rv32Emu.Cop.Frames
import Rv32Emu.Cop.History

namespace Rv32Emu

/-- What belongs to one thread: its record in the coprocessor (FIFO, held and direct instruction,
wait gate, MOP expander with its configuration and mask), its replay state, and its configuration,
DMA registers and counters in the core. -/
structure Private where
  thread : TensixThreadCop
  replay : Replay
  own : (ℕ → Word) × (ℕ → Word) × Rwc

def TensixCop.priv (cop : TensixCop) (j : Tid) : Private := ⟨cop.threads j, cop.replay j, cop.core.own j⟩

theorem Completes.own {tid j : Tid} {core core' : Tensix} {insn : Word} (h : Completes tid core insn core')
    (hj : j ≠ tid) : core'.own j = core.own j := by
  obtain ⟨cfg, h⟩ := h
  obtain rfl : (runCoreImpl (insnImpl insn) core cfg (tensixInsnParam insn) tid).2 = core' := by rw [h]
  generalize insnImpl insn = impl
  have hothers : (runCoreImpl impl core cfg (tensixInsnParam insn) tid).2.others tid = core.others tid := by
    by_cases hi : impl = .ttseminit
    · rw [hi]
      rfl
    by_cases hp : impl = .ttsempost
    · rw [hp]
      rfl
    by_cases hg : impl = .ttsemget
    · rw [hg]
      rfl
    by_cases ha : impl = .ttatgetm
    · rw [ha]
      exact ttatgetm_others core _ tid
    by_cases hr : impl = .ttatrelm
    · rw [hr]
      exact ttatrelm_others core _ tid
    exact congrArg Beyond.others (runCoreImpl_beyond core cfg (tensixInsnParam insn) tid hi hp hg ha hr)
  exact congrFun hothers ⟨j, hj⟩

theorem CoreStep.own {core core' : Tensix} {i : Item} {j : Tid} (h : CoreStep core i core') (hj : j ≠ i.tid) :
    core'.own j = core.own j := by
  have hr := h.reaches
  cases hx : i.executed with
  | none =>
    rw [hx] at hr
    exact congrArg (Tensix.own · j) hr
  | some insn =>
    rw [hx] at hr
    exact hr.own hj

theorem Traced.own {tid j : Tid} {v v' : CopView} (h : Traced tid v v') (hj : j ≠ tid) :
    v'.core.own j = v.core.own j := by
  obtain ⟨is, htid, -, hrun⟩ := h
  generalize v.core = core at hrun
  generalize v'.core = core' at hrun
  induction hrun with
  | nil core => rfl
  | cons hs _ ih =>
    rw [ih fun i hi => htid i (List.mem_cons_of_mem _ hi)]
    apply hs.own
    rwa [htid _ List.mem_cons_self]

theorem Acts.priv {cop cop' : TensixCop} {l : Label} {j : Tid} (h : Acts cop l cop') (hj : j ≠ l.tid) :
    cop'.priv j = cop.priv j := by
  obtain ⟨v, hv, rfl⟩ := h
  have hown := hv.traced.own hj
  simp only [TensixCop.priv, cop.putView_thread_ne v hj, cop.putView_replay_ne v hj, TensixCop.putView_core,
    hown]
  rfl

theorem thread_isolation {cop cop' : TensixCop} {ls : List Label} {j : Tid} (h : CopRun cop ls cop')
    (hj : ∀ l ∈ ls, l.tid ≠ j) : cop'.priv j = cop.priv j := by
  induction h with
  | nil => rfl
  | cons ha _ ih =>
    rw [ih fun l hl => hj l (List.mem_cons_of_mem _ hl)]
    exact ha.priv (hj _ List.mem_cons_self).symm

def otherThreadsTrace : List (Tid × ThreadAction) :=
  [(0, .push 0x45000100), (0, .step), (2, .issue 0xB2010005)]

theorem thread_isolation_setdmareg :
    CopRun powerUp
        [⟨0, .push 0x45000100, true⟩, ⟨0, .step, true⟩, ⟨2, .issue 0xB2010005, true⟩]
        (powerUp.after 3 otherThreadsTrace) ∧
      (powerUp.after 3 otherThreadsTrace).priv 1 = powerUp.priv 1 := by
  have hrun : CopRun powerUp
      [⟨0, .push 0x45000100, true⟩, ⟨0, .step, true⟩, ⟨2, .issue 0xB2010005, true⟩]
      (powerUp.after 3 otherThreadsTrace) := TensixCop.exec_after (by decide)
  exact ⟨hrun, thread_isolation hrun (by decide)⟩

end Rv32Emu
