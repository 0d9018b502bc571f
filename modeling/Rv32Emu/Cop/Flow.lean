import Rv32Emu.Cop.Expansion

namespace Rv32Emu

def flows (tid : Tid) : CopView → List Word → Bool
  | _, [] => true
  | v, insn :: insns =>
    match verdict v insn tid with
    | .passed u => flows tid u insns
    | .held _ _ => false

structure SameLocal (v w : CopView) : Prop where
  core : v.core = w.core
  gate : v.thread.waitGate = w.thread.waitGate
  mopCfg : v.thread.mopCfg = w.thread.mopCfg

section congruence

variable {v w : CopView} (insn : Word) (tid : Tid)

theorem execute_local (h : SameLocal v w) :
    (tensixExecuteInsn v insn tid).1 = (tensixExecuteInsn w insn tid).1 ∧
      SameLocal (tensixExecuteInsn v insn tid).2 (tensixExecuteInsn w insn tid).2 := by
  by_cases hm : tensixInsnOpcode insn = opcodeMop
  · rw [execute_mop v tid hm, execute_mop w tid hm]
    exact ⟨rfl, h.core, h.gate, h.mopCfg⟩
  by_cases hc : tensixInsnOpcode insn = opcodeMopCfg
  · rw [execute_mopCfg v tid hc, execute_mopCfg w tid hc]
    refine ⟨rfl, h.core, ?_, ?_⟩ <;> simp only [CopView.setThread, ttmopCfg] <;> split_ifs
    · exact h.gate
    · exact h.gate
    · exact h.gate
    · simp only [h.mopCfg]
    · exact h.mopCfg
    · exact h.mopCfg
  by_cases hr : tensixInsnOpcode insn = opcodeReplay
  · rw [execute_replay v tid hr, execute_replay w tid hr]
    exact ⟨rfl, h.core, h.gate, h.mopCfg⟩
  · rw [execute_plain v tid ⟨hm, hc, hr⟩, execute_plain w tid ⟨hm, hc, hr⟩, h.core, h.mopCfg]
    exact ⟨rfl, rfl, h.gate, h.mopCfg⟩

theorem pastGate_local (h : SameLocal v w) :
    (pastGate v insn tid).ok = (pastGate w insn tid).ok ∧
      SameLocal (pastGate v insn tid).view (pastGate w insn tid).view := by
  obtain ⟨hx, hs⟩ := execute_local insn tid h
  unfold pastGate
  rw [h.core, hx, h.gate]
  split_ifs
  · exact ⟨rfl, h.core, rfl, h.mopCfg⟩
  · exact ⟨rfl, h⟩
  · exact ⟨rfl, hs⟩
  · exact ⟨rfl, h⟩

theorem verdict_local (h : SameLocal v w) :
    (verdict v insn tid).ok = (verdict w insn tid).ok ∧
      SameLocal (verdict v insn tid).view (verdict w insn tid).view := by
  have hmeet : meetsGate v insn = meetsGate w insn := by simp only [meetsGate, h.gate]
  unfold verdict passGate
  rw [hmeet, h.gate, h.core]
  split_ifs
  · exact ⟨rfl, h.core, h.gate, h.mopCfg⟩
  · exact pastGate_local insn tid h
  · exact pastGate_local insn tid ⟨h.core, rfl, h.mopCfg⟩
  · exact ⟨rfl, h⟩

end congruence

theorem flows_cons (tid : Tid) (v : CopView) (insn : Word) (insns : List Word) :
    flows tid v (insn :: insns) = ((verdict v insn tid).ok && flows tid (verdict v insn tid).view insns) := by
  rw [flows]
  cases verdict v insn tid <;> rfl

theorem flows_local (tid : Tid) {v w : CopView} (h : SameLocal v w) (insns : List Word) :
    flows tid v insns = flows tid w insns := by
  induction insns generalizing v w with
  | nil => rfl
  | cons insn insns ih =>
    obtain ⟨hok, hs⟩ := verdict_local insn tid h
    rw [flows_cons, flows_cons, hok, ih hs]

theorem FetchCase.sameLocal {v u : CopView} {insn : Word} (h : FetchCase v insn u) : SameLocal v u := by
  cases h <;> exact ⟨rfl, rfl, rfl⟩

theorem tensixCopStep_flows {v v' : CopView} {insn : Word} {tid : Tid} {ok : Bool} (hh : v.halted = false)
    (hc : v.thread.currentInsn = some insn) (h : tensixCopStep v tid = (ok, v')) (insns : List Word) :
    flows tid v (insn :: insns) = (ok && flows tid v' insns) := by
  cases StepCase.of_eq h with
  | halted hh' => simp [hh] at hh'
  | empty _ hc' => simp [hc] at hc'
  | @held w u x counted _ hf hx =>
    cases hf with
    | popped hc' => simp [hc] at hc'
    | pending hc' =>
      cases hc.symm.trans hc'
      obtain ⟨hok, -⟩ := verdict_local insn tid (FetchCase.pending hc).sameLocal
      rw [hx] at hok
      rw [flows_cons, hok]
      rfl
  | @passed w u x _ hf hx =>
    cases hf with
    | popped hc' => simp [hc] at hc'
    | pending hc' =>
      cases hc.symm.trans hc'
      obtain ⟨hok, hs⟩ := verdict_local insn tid (FetchCase.pending hc).sameLocal
      rw [hx] at hok hs
      have hs' : SameLocal (verdict v insn tid).view (x.complete (.ran x.thread.currentOrigin insn)) :=
        ⟨hs.core, hs.gate, hs.mopCfg⟩
      rw [flows_cons, hok, flows_local tid hs' insns]
      rfl

end Rv32Emu
