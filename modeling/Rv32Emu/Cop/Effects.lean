import Rv32Emu.Cop.Direct

namespace Rv32Emu

def RefusesCleanly (tt : Tensix) (r : Bool × Tensix) : Prop := r.1 = false → r.2 = tt

section handlers

variable (tt : Tensix) (imm : Word) (tid : Tid)

theorem ttmova2d_clean : RefusesCleanly tt (ttmova2d tt imm tid) := by
  unfold RefusesCleanly ttmova2d
  split <;> simp_all

theorem ttmvmul_clean (cfg : ℕ → Word) : RefusesCleanly tt (ttmvmul tt cfg imm tid) := by
  unfold RefusesCleanly ttmvmul
  split
  · simp
  · split <;> simp

theorem elementwise_clean (value : Word → Word → Word → Word) :
    RefusesCleanly tt (elementwise tt imm tid value) := by
  unfold RefusesCleanly elementwise
  split
  · simp
  · split <;> simp

theorem ttelwmul_clean : RefusesCleanly tt (ttelwmul tt imm tid) := by
  unfold ttelwmul
  apply elementwise_clean

theorem ttelwadd_clean : RefusesCleanly tt (ttelwadd tt imm tid) := by
  unfold ttelwadd
  apply elementwise_clean

theorem ttelwsub_clean : RefusesCleanly tt (ttelwsub tt imm tid) := by
  unfold ttelwsub
  apply elementwise_clean

theorem ttgmpool_clean : RefusesCleanly tt (ttgmpool tt imm tid) := by
  unfold RefusesCleanly ttgmpool
  split <;> simp

theorem ttgapool_clean : RefusesCleanly tt (ttgapool tt imm tid) := by
  unfold RefusesCleanly ttgapool
  split <;> simp

theorem ttsetrwc_clean : RefusesCleanly tt (ttsetrwc tt imm tid) := by
  unfold RefusesCleanly ttsetrwc
  dsimp only
  split
  · simp
  · split <;> simp

theorem ttunpacr_clean : RefusesCleanly tt (ttunpacr tt imm tid) := by
  unfold RefusesCleanly ttunpacr
  dsimp only
  split
  · simp
  · split
    · simp
    · split
      · simp
      · split <;> simp

theorem ttunpacrNop_clean : RefusesCleanly tt (ttunpacrNop tt imm) := by
  unfold RefusesCleanly ttunpacrNop
  dsimp only
  split
  · split <;> simp
  · split <;> simp

end handlers

theorem runCoreImpl_clean (tt : Tensix) (mopCfg : ℕ → Word) (imm : Word) (tid : Tid) (impl : InsnImpl) :
    RefusesCleanly tt (runCoreImpl impl tt mopCfg imm tid) := by
  cases impl with
  | ttmova2d => exact ttmova2d_clean tt imm tid
  | ttmvmul => exact ttmvmul_clean tt imm tid mopCfg
  | ttelwmul => exact ttelwmul_clean tt imm tid
  | ttelwadd => exact ttelwadd_clean tt imm tid
  | ttelwsub => exact ttelwsub_clean tt imm tid
  | ttgmpool => exact ttgmpool_clean tt imm tid
  | ttgapool => exact ttgapool_clean tt imm tid
  | ttsetrwc => exact ttsetrwc_clean tt imm tid
  | ttunpacr => exact ttunpacr_clean tt imm tid
  | ttunpacrNop => exact ttunpacrNop_clean tt imm
  | _ => exact fun h => Bool.noConfusion h

theorem ttJumpTable_special :
    ∀ op : Fin 256,
      (ttJumpTable.getD op .unimp = .ttmop ↔ op = 1) ∧
      (ttJumpTable.getD op .unimp = .ttmopCfg ↔ op = 3) ∧
      (ttJumpTable.getD op .unimp = .ttreplay ↔ op = 4) := by
  decide +kernel

theorem tensixInsnOpcode_lt (insn : Word) : (tensixInsnOpcode insn).toNat < 256 := by
  have h : (tensixInsnOpcode insn).toNat ≤ (0xFF : Word).toNat := by
    simp only [tensixInsnOpcode, bits, BitVec.toNat_and]
    exact Nat.and_le_right
  exact Nat.lt_succ_of_le h

theorem insnImpl_eq_iff {impl : InsnImpl} {n : ℕ} (hn : n < 256)
    (h : ∀ op : Fin 256, ttJumpTable.getD op .unimp = impl ↔ op = ⟨n, hn⟩) (insn : Word) :
    insnImpl insn = impl ↔ tensixInsnOpcode insn = BitVec.ofNat 32 n := by
  refine (h ⟨_, tensixInsnOpcode_lt insn⟩).trans ?_
  rw [Fin.mk.injEq, ← BitVec.toNat_inj, BitVec.toNat_ofNat, Nat.mod_eq_of_lt (by omega)]

theorem insnImpl_eq_ttmop (insn : Word) : insnImpl insn = .ttmop ↔ tensixInsnOpcode insn = opcodeMop :=
  insnImpl_eq_iff (by decide) (fun op => (ttJumpTable_special op).1) insn

theorem insnImpl_eq_ttmopCfg (insn : Word) :
    insnImpl insn = .ttmopCfg ↔ tensixInsnOpcode insn = opcodeMopCfg :=
  insnImpl_eq_iff (by decide) (fun op => (ttJumpTable_special op).2.1) insn

theorem insnImpl_eq_ttreplay (insn : Word) :
    insnImpl insn = .ttreplay ↔ tensixInsnOpcode insn = opcodeReplay :=
  insnImpl_eq_iff (by decide) (fun op => (ttJumpTable_special op).2.2) insn

def IsPlain (insn : Word) : Prop :=
  tensixInsnOpcode insn ≠ opcodeMop ∧ tensixInsnOpcode insn ≠ opcodeMopCfg ∧
    tensixInsnOpcode insn ≠ opcodeReplay

instance (insn : Word) : Decidable (IsPlain insn) := inferInstanceAs (Decidable (_ ∧ _))

section execute

variable (v : CopView) {insn : Word} (tid : Tid)

theorem execute_mop (h : tensixInsnOpcode insn = opcodeMop) :
    tensixExecuteInsn v insn tid = (true, v.setThread
      (tensixCopMopExpand v.thread (tensixInsnParam insn))) := by
  rw [tensixExecuteInsn, (insnImpl_eq_ttmop insn).mpr h]
  rfl

theorem execute_mopCfg (h : tensixInsnOpcode insn = opcodeMopCfg) :
    tensixExecuteInsn v insn tid = (true, v.setThread (ttmopCfg v.thread (tensixInsnParam insn))) := by
  rw [tensixExecuteInsn, (insnImpl_eq_ttmopCfg insn).mpr h]
  rfl

theorem execute_replay (h : tensixInsnOpcode insn = opcodeReplay) :
    tensixExecuteInsn v insn tid = (true, v.setReplay (ttreplay v.replay (tensixInsnParam insn))) := by
  rw [tensixExecuteInsn, (insnImpl_eq_ttreplay insn).mpr h]
  rfl

theorem execute_plain (h : IsPlain insn) :
    tensixExecuteInsn v insn tid =
      ((runCoreImpl (insnImpl insn) v.core v.thread.mopCfg (tensixInsnParam insn) tid).1,
        v.setCore (runCoreImpl (insnImpl insn) v.core v.thread.mopCfg (tensixInsnParam insn) tid).2) := by
  have hmop := mt (insnImpl_eq_ttmop insn).mp h.1
  have hcfg := mt (insnImpl_eq_ttmopCfg insn).mp h.2.1
  have hreplay := mt (insnImpl_eq_ttreplay insn).mp h.2.2
  rw [tensixExecuteInsn, runImpl]
  · exact hmop
  · exact hcfg
  · exact hreplay

theorem execute_refused (h : (tensixExecuteInsn v insn tid).1 = false) :
    (tensixExecuteInsn v insn tid).2 = v := by
  by_cases hm : tensixInsnOpcode insn = opcodeMop
  · rw [execute_mop v tid hm] at h
    cases h
  by_cases hc : tensixInsnOpcode insn = opcodeMopCfg
  · rw [execute_mopCfg v tid hc] at h
    cases h
  by_cases hr : tensixInsnOpcode insn = opcodeReplay
  · rw [execute_replay v tid hr] at h
    cases h
  rw [execute_plain v tid ⟨hm, hc, hr⟩] at h ⊢
  simp only [runCoreImpl_clean _ _ _ _ _ h]
  rfl

end execute

end Rv32Emu
