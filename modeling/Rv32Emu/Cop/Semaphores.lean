import Rv32Emu.Cop.Frames

namespace Rv32Emu

def Tensix.semaphores (tt : Tensix) : (Fin 8 → Word) × (Fin 8 → Word) := (tt.sem, tt.semMax)

theorem Tensix.semaphores_of_beyond {tid : Tid} {tt tt' : Tensix} (h : tt'.beyond tid = tt.beyond tid) :
    tt'.semaphores = tt.semaphores :=
  Prod.ext (congrArg Beyond.sem h) (congrArg Beyond.semMax h)

theorem ttatgetm_semaphores (tt : Tensix) (imm : Word) (tid : Tid) :
    (ttatgetm tt imm tid).semaphores = tt.semaphores := by
  unfold ttatgetm
  split <;> rfl

theorem ttatrelm_semaphores (tt : Tensix) (imm : Word) (tid : Tid) :
    (ttatrelm tt imm tid).semaphores = tt.semaphores := by
  unfold ttatrelm
  split <;> rfl

theorem runCoreImpl_semaphores {impl : InsnImpl} (tt : Tensix) (mopCfg : ℕ → Word) (imm : Word) (tid : Tid)
    (hi : impl ≠ .ttseminit) (hp : impl ≠ .ttsempost) (hg : impl ≠ .ttsemget) :
    (runCoreImpl impl tt mopCfg imm tid).2.semaphores = tt.semaphores := by
  by_cases ha : impl = .ttatgetm
  · subst ha
    exact ttatgetm_semaphores tt imm tid
  by_cases hr : impl = .ttatrelm
  · subst hr
    exact ttatrelm_semaphores tt imm tid
  exact Tensix.semaphores_of_beyond (runCoreImpl_beyond tt mopCfg imm tid hi hp hg ha hr)

def opcodeSeminit : Word := 0xA3
def opcodeSempost : Word := 0xA4
def opcodeSemget : Word := 0xA5

def isSemOpcode (opcode : Word) : Bool :=
  opcode = opcodeSeminit || opcode = opcodeSempost || opcode = opcodeSemget

theorem ttJumpTable_sem :
    ∀ op : Fin 256,
      (ttJumpTable.getD op .unimp = .ttseminit ↔ op = 0xA3) ∧
      (ttJumpTable.getD op .unimp = .ttsempost ↔ op = 0xA4) ∧
      (ttJumpTable.getD op .unimp = .ttsemget ↔ op = 0xA5) := by
  decide +kernel

theorem insnImpl_eq_ttseminit (insn : Word) :
    insnImpl insn = .ttseminit ↔ tensixInsnOpcode insn = opcodeSeminit :=
  insnImpl_eq_iff (by decide) (fun op => (ttJumpTable_sem op).1) insn

theorem insnImpl_eq_ttsempost (insn : Word) :
    insnImpl insn = .ttsempost ↔ tensixInsnOpcode insn = opcodeSempost :=
  insnImpl_eq_iff (by decide) (fun op => (ttJumpTable_sem op).2.1) insn

theorem insnImpl_eq_ttsemget (insn : Word) :
    insnImpl insn = .ttsemget ↔ tensixInsnOpcode insn = opcodeSemget :=
  insnImpl_eq_iff (by decide) (fun op => (ttJumpTable_sem op).2.2) insn

section verdict

variable {v x : CopView} {insn : Word} {tid : Tid}

theorem execute_semaphores (h : isSemOpcode (tensixInsnOpcode insn) = false) :
    (tensixExecuteInsn v insn tid).2.core.semaphores = v.core.semaphores := by
  simp only [isSemOpcode, Bool.or_eq_false_iff, decide_eq_false_iff_not] at h
  by_cases hm : tensixInsnOpcode insn = opcodeMop
  · rw [execute_mop v tid hm]
    rfl
  by_cases hc : tensixInsnOpcode insn = opcodeMopCfg
  · rw [execute_mopCfg v tid hc]
    rfl
  by_cases hr : tensixInsnOpcode insn = opcodeReplay
  · rw [execute_replay v tid hr]
    rfl
  rw [execute_plain v tid ⟨hm, hc, hr⟩]
  exact runCoreImpl_semaphores v.core _ _ tid (mt (insnImpl_eq_ttseminit insn).mp h.1.1)
    (mt (insnImpl_eq_ttsempost insn).mp h.1.2) (mt (insnImpl_eq_ttsemget insn).mp h.2)

theorem execute_sempost (h : tensixInsnOpcode insn = opcodeSempost) :
    (tensixExecuteInsn v insn tid).2.core = ttsempost v.core (tensixInsnParam insn) tid := by
  have hp : IsPlain insn := by
    refine ⟨?_, ?_, ?_⟩ <;> rw [h] <;> decide
  rw [execute_plain v tid hp, (insnImpl_eq_ttsempost insn).mpr h]
  rfl

theorem execute_semget (h : tensixInsnOpcode insn = opcodeSemget) :
    (tensixExecuteInsn v insn tid).2.core = ttsemget v.core (tensixInsnParam insn) := by
  have hp : IsPlain insn := by
    refine ⟨?_, ?_, ?_⟩ <;> rw [h] <;> decide
  rw [execute_plain v tid hp, (insnImpl_eq_ttsemget insn).mpr h]
  rfl

theorem verdict_passed_semaphores (h : verdict v insn tid = .passed x)
    (hs : isSemOpcode (tensixInsnOpcode insn) = false) : x.core.semaphores = v.core.semaphores := by
  obtain ⟨hcore, -⟩ | ⟨u, hcore, -, rfl⟩ := verdict_passed_core h
  · rw [hcore]
  · rw [execute_semaphores hs, hcore]

theorem verdict_passed_sempost (h : verdict v insn tid = .passed x)
    (hs : tensixInsnOpcode insn = opcodeSempost) : x.core = ttsempost v.core (tensixInsnParam insn) tid := by
  obtain ⟨-, hc | hw⟩ | ⟨u, hcore, -, rfl⟩ := verdict_passed_core h
  · rw [hs] at hc
    exact absurd hc (by decide)
  · rw [hs] at hw
    exact absurd hw (by decide)
  · rw [execute_sempost hs, hcore]

theorem verdict_passed_semget (h : verdict v insn tid = .passed x)
    (hs : tensixInsnOpcode insn = opcodeSemget) : x.core = ttsemget v.core (tensixInsnParam insn) := by
  obtain ⟨-, hc | hw⟩ | ⟨u, hcore, -, rfl⟩ := verdict_passed_core h
  · rw [hs] at hc
    exact absurd hc (by decide)
  · rw [hs] at hw
    exact absurd hw (by decide)
  · rw [execute_semget hs, hcore]

end verdict

end Rv32Emu
