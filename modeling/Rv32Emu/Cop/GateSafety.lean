import Rv32Emu.Cop.Queue

namespace Rv32Emu

def GateInv (gate : TensixWaitGate) : Prop := gate.active = true → 0x1FF &&& gate.blockMask ≠ 0

theorem gateInv_clear : GateInv waitGateClear := by simp [GateInv, waitGateClear]

theorem waitGateLatch_active (gate : TensixWaitGate) (insn : Word) :
    (waitGateLatch gate insn).active = true := by
  unfold waitGateLatch
  dsimp only
  split_ifs <;> rfl

theorem waitGateLatch_blockMask (gate : TensixWaitGate) {insn : Word}
    (hw : isWaitOpcode (tensixInsnOpcode insn) = true) :
    (waitGateLatch gate insn).blockMask =
      if bits (tensixInsnParam insn) 15 0x1FF = 0 then 0x40 else bits (tensixInsnParam insn) 15 0x1FF := by
  simp only [isWaitOpcode, Bool.or_eq_true, decide_eq_true_eq] at hw
  unfold waitGateLatch
  dsimp only
  obtain (h | h) | h := hw <;> rw [h]
  · rfl
  · rw [if_neg (by decide), if_pos rfl]
    split_ifs <;> rfl
  · rfl

theorem gateInv_latch (gate : TensixWaitGate) {insn : Word}
    (hw : isWaitOpcode (tensixInsnOpcode insn) = true) : GateInv (waitGateLatch gate insn) := by
  intro _
  rw [waitGateLatch_blockMask gate hw]
  split_ifs with h
  · decide
  · rwa [bits, BitVec.and_comm, BitVec.and_assoc, BitVec.and_self]

theorem meetsGate_wait {v : CopView} {insn : Word} (hw : isWaitOpcode (tensixInsnOpcode insn) = true)
    (hi : GateInv v.thread.waitGate) (ha : v.thread.waitGate.active = true) : meetsGate v insn = true := by
  have hbits : insnGetBlockBits (tensixInsnOpcode insn) = 0x1FF ∧ tensixInsnOpcode insn ≠ opcodeNop := by
    simp only [isWaitOpcode, Bool.or_eq_true, decide_eq_true_eq] at hw
    obtain (h | h) | h := hw <;> rw [h] <;> decide
  simp only [meetsGate, ha, waitGateMatches, hbits.1, hbits.2, false_and, if_false, Bool.true_and,
    decide_eq_true_eq]
  exact hi ha

theorem waitGateCheck_met {gate : TensixWaitGate} {core : Tensix} (ha : gate.active = true)
    (h : waitGateCheck gate core = true) : waitGateMet gate core = true := by
  simpa [waitGateCheck, ha] using h

section verdict

variable {v x : CopView} {insn : Word} {tid : Tid}

theorem meetsGate_active (h : meetsGate v insn = true) : v.thread.waitGate.active = true := by
  simp only [meetsGate, Bool.and_eq_true] at h
  exact h.1

theorem verdict_passed_met (h : verdict v insn tid = .passed x) (hm : meetsGate v insn = true) :
    waitGateMet v.thread.waitGate v.core = true := by
  unfold verdict at h
  rw [if_neg (meetsGate_mopCfg hm)] at h
  split at h
  · cases h
  · next y hy =>
    obtain ⟨-, hn⟩ | ⟨-, -, hcheck⟩ := passGate_cases hy
    · simp [hn] at hm
    · exact waitGateCheck_met (meetsGate_active hm) hcheck

theorem pastGate_gate (h : pastGate v insn tid = .passed x) :
    x.thread.waitGate = v.thread.waitGate ∨
      isWaitOpcode (tensixInsnOpcode insn) = true ∧
        x.thread.waitGate = waitGateLatch v.thread.waitGate insn := by
  unfold pastGate at h
  split_ifs at h with hw hr hx
  · cases h
    exact .inr ⟨hw, rfl⟩
  · cases h
    exact .inl (execute_gate v tid)

theorem verdict_passed_gate (h : verdict v insn tid = .passed x) :
    x.thread.waitGate = v.thread.waitGate ∧ meetsGate v insn = false ∨
      x.thread.waitGate = waitGateClear ∧ meetsGate v insn = true ∨
      isWaitOpcode (tensixInsnOpcode insn) = true ∧
        ∃ gate, (gate = v.thread.waitGate ∨ gate = waitGateClear) ∧
          x.thread.waitGate = waitGateLatch gate insn := by
  unfold verdict at h
  split_ifs at h with hc
  · cases h
    exact .inl ⟨rfl, Bool.eq_false_iff.mpr fun hm => meetsGate_mopCfg hm hc⟩
  · split at h
    · cases h
    · next y hy =>
      obtain ⟨rfl, hn⟩ | ⟨rfl, hm, -⟩ := passGate_cases hy
      · obtain hk | ⟨hw, hl⟩ := pastGate_gate h
        · exact .inl ⟨hk, hn⟩
        · exact .inr (.inr ⟨hw, _, .inl rfl, hl⟩)
      · obtain hk | ⟨hw, hl⟩ := pastGate_gate h
        · exact .inr (.inl ⟨hk, hm⟩)
        · exact .inr (.inr ⟨hw, _, .inr rfl, hl⟩)

theorem verdict_passed_wait (h : verdict v insn tid = .passed x)
    (hw : isWaitOpcode (tensixInsnOpcode insn) = true) :
    ∃ gate, x.thread.waitGate = waitGateLatch gate insn := by
  obtain ⟨-, hc, -⟩ := isWaitOpcode_ne hw
  unfold verdict at h
  rw [if_neg hc] at h
  split at h
  · cases h
  · next y hy =>
    simp only [pastGate, hw, if_true, Verdict.passed.injEq] at h
    rw [← h]
    exact ⟨y.thread.waitGate, rfl⟩

end verdict

section step

variable {v v' : CopView} {tid : Tid} {ok : Bool}

theorem tensixCopStep_gate (h : tensixCopStep v tid = (ok, v')) (hi : GateInv v.thread.waitGate) :
    GateInv v'.thread.waitGate ∧
      (v'.thread.waitGate = v.thread.waitGate ∨
        (v.thread.waitGate.active = true → waitGateMet v.thread.waitGate v.core = true)) := by
  cases StepCase.of_eq h with
  | halted => exact ⟨hi, .inl rfl⟩
  | empty => exact ⟨hi, .inl rfl⟩
  | @held insn u x counted _ hf hx =>
    rw [CopView.heldAt_gate]
    obtain rfl | ⟨rfl, -, hcheck⟩ := verdict_held hx
    · rw [hf.gate]
      exact ⟨hi, .inl rfl⟩
    · rw [hf.gate, hf.core] at hcheck
      exact ⟨gateInv_clear, .inr fun ha => waitGateCheck_met ha hcheck⟩
  | @passed insn u x _ hf hx =>
    show GateInv x.thread.waitGate ∧ (x.thread.waitGate = _ ∨ _)
    have hmet (hm : meetsGate u insn = true) : waitGateMet v.thread.waitGate v.core = true := by
      have := verdict_passed_met hx hm
      rwa [hf.gate, hf.core] at this
    obtain ⟨hk, -⟩ | ⟨hk, hm⟩ | ⟨hw, gate, -, hk⟩ := verdict_passed_gate hx
    · rw [hk, hf.gate]
      exact ⟨hi, .inl rfl⟩
    · rw [hk]
      exact ⟨gateInv_clear, .inr fun _ => hmet hm⟩
    · rw [hk]
      refine ⟨gateInv_latch gate hw, .inr fun ha => hmet (meetsGate_wait hw ?_ ?_)⟩
      · rwa [hf.gate]
      · rwa [hf.gate]

theorem tensixCopStep_ran (h : tensixCopStep v tid = (true, v')) :
    ∃ insn, ranWords v'.thread.log = ranWords v.thread.log ++ [insn] ∧
      (v.thread.waitGate.active = true → waitGateMatches v.thread.waitGate (tensixInsnOpcode insn) = true →
        waitGateMet v.thread.waitGate v.core = true) ∧
      (isWaitOpcode (tensixInsnOpcode insn) = true →
        ∃ gate, v'.thread.waitGate = waitGateLatch gate insn) := by
  obtain ⟨insn, u, x, -, hf, hx, rfl⟩ := StepCase.of_true h
  have hlatch := verdict_passed_wait hx
  refine ⟨insn, ?_, fun ha hm => ?_, hlatch⟩
  · show ranWords (x.thread.log ++ _) = _
    rw [(verdict_passed hx).log, hf.log]
    simp [ranWords]
  · have := verdict_passed_met hx (by simp [meetsGate, hf.gate, ha, hm])
    rwa [hf.gate, hf.core] at this

end step

section run

variable {cop cop' : TensixCop} {l : Label} {ls : List Label} {t : Tid}

theorem tensixCopPush_gate {v v' : CopView} {insn : Word} {ok : Bool} (h : tensixCopPush v insn = (ok, v')) :
    v'.thread.waitGate = v.thread.waitGate := by
  unfold tensixCopPush at h
  split at h
  split_ifs at h <;> cases h <;> rfl

theorem acts_gate (h : Acts cop l cop') (hl : l.isFifo) (t : Tid) (hi : GateInv (cop.threads t).waitGate) :
    GateInv (cop'.threads t).waitGate ∧
      ((cop'.threads t).waitGate = (cop.threads t).waitGate ∨
        ((cop.threads t).waitGate.active = true → waitGateMet (cop.threads t).waitGate cop.core = true)) := by
  obtain ⟨tid, a, ok⟩ := l
  obtain ⟨v, hv, rfl⟩ := h
  by_cases ht : t = tid
  · subst ht
    rw [cop.putView_thread_self]
    cases a with
    | push insn =>
      rw [tensixCopPush_gate hv]
      exact ⟨hi, .inl rfl⟩
    | step => exact tensixCopStep_gate hv hi
    | issue insn => cases hl
  · rw [cop.putView_thread_ne v ht]
    exact ⟨hi, .inl rfl⟩

theorem CopRun.gateInv (h : CopRun cop ls cop') (hf : ∀ l ∈ ls, l.isFifo) (t : Tid)
    (hi : GateInv (cop.threads t).waitGate) : GateInv (cop'.threads t).waitGate := by
  induction h with
  | nil => exact hi
  | cons hs _ ih =>
    exact ih (fun l hl => hf l (List.mem_cons_of_mem _ hl)) (acts_gate hs (hf _ List.mem_cons_self) t hi).1

theorem CopRun.gate_until_met (h : CopRun cop ls cop') (hf : ∀ l ∈ ls, l.isFifo)
    (hi : GateInv (cop.threads t).waitGate) (ha : (cop.threads t).waitGate.active = true) :
    (cop'.threads t).waitGate = (cop.threads t).waitGate ∨
      ∃ ls₁ ls₂ mid, ls = ls₁ ++ ls₂ ∧ CopRun cop ls₁ mid ∧ CopRun mid ls₂ cop' ∧
        waitGateMet (cop.threads t).waitGate mid.core = true := by
  induction h with
  | nil => exact .inl rfl
  | @cons cop next cop' l ls hs hrun ih =>
    obtain ⟨hi', hk | hmet⟩ := acts_gate hs (hf _ List.mem_cons_self) t hi
    · rw [hk] at ih hi'
      obtain hk' | ⟨ls₁, ls₂, mid, rfl, h₁, h₂, hm⟩ :=
        ih (fun l hl => hf l (List.mem_cons_of_mem _ hl)) hi' ha
      · exact .inl hk'
      · exact .inr ⟨l :: ls₁, ls₂, mid, rfl, .cons hs h₁, h₂, hm⟩
    · exact .inr ⟨[], l :: ls, cop, rfl, .nil _, .cons hs hrun, hmet ha⟩

end run

def TensixCop.setGate (cop : TensixCop) (t : Tid) (gate : TensixWaitGate) : TensixCop :=
  cop.putView t ((cop.view t).setGate gate)

theorem acts_setGate {cop cop' : TensixCop} {l : Label} {u : Tid} (hu : u ≠ l.tid) (gate : TensixWaitGate)
    (h : Acts cop l cop') : Acts (cop.setGate u gate) l (cop'.setGate u gate) := by
  obtain ⟨v, hv, rfl⟩ := h
  have hview : (cop.setGate u gate).view l.tid = cop.view l.tid :=
    cop.view_putView_ne _ hu.symm
  refine ⟨v, hview ▸ hv, ?_⟩
  simp only [TensixCop.setGate, TensixCop.putView, TensixCop.view, CopView.setGate, CopView.setThread,
    Function.update_of_ne hu, Function.update_comm hu]

/-- Along every run of pushes and steps: an instruction that a latched gate blocks runs only after the
latched condition was true; nothing of the thread runs before an instruction that is held; a gate
changes only in a state in which its condition is true; and no thread reads or writes the gate
of another. -/
theorem wait_gate_safety (core : Tensix) (replay : Tid → Replay) {ls : List Label} {cop : TensixCop}
    (h : CopRun (tensixCopInit core replay) ls cop) (hf : ∀ l ∈ ls, l.isFifo) (t : Tid) :
    (∀ latch cop₁ ls' cop₂ cop₃ insn,
      Acts cop ⟨t, .step, true⟩ cop₁ → isWaitOpcode (tensixInsnOpcode latch) = true →
      ranWords (cop₁.threads t).log = ranWords (cop.threads t).log ++ [latch] →
      CopRun cop₁ ls' cop₂ → (∀ l ∈ ls', l.isFifo) → Acts cop₂ ⟨t, .step, true⟩ cop₃ →
      ranWords (cop₃.threads t).log = ranWords (cop₂.threads t).log ++ [insn] →
      waitGateMatches (cop₁.threads t).waitGate (tensixInsnOpcode insn) = true →
      ∃ ls₁ ls₂ mid, ls' = ls₁ ++ ls₂ ∧ CopRun cop₁ ls₁ mid ∧ CopRun mid ls₂ cop₂ ∧
        waitGateMet (cop₁.threads t).waitGate mid.core = true) ∧
    (∀ cop₁ insn ls' cop₂,
      Acts cop ⟨t, .step, false⟩ cop₁ → (cop₁.threads t).currentInsn = some insn →
      CopRun cop₁ ls' cop₂ → (∀ l ∈ ls', l.isFifo) →
      ∃ more, ranWords (cop₂.threads t).log = ranWords (cop₁.threads t).log ++ more ∧
        (more = [] ∨ ∃ rest, more = insn :: rest)) ∧
    (∀ l cop₁, Acts cop l cop₁ → l.isFifo → (cop.threads t).waitGate.active = true →
      (cop₁.threads t).waitGate ≠ (cop.threads t).waitGate →
      waitGateMet (cop.threads t).waitGate cop.core = true) ∧
    (∀ u gate l cop₁, u ≠ l.tid → Acts cop l cop₁ →
      (cop₁.threads u).waitGate = (cop.threads u).waitGate ∧
        Acts (cop.setGate u gate) l (cop₁.setGate u gate)) := by
  have hi : GateInv (cop.threads t).waitGate := h.gateInv hf t gateInv_clear
  have hw : (cop.threads t).insnFifo.WellFormed := 
    (queueRun t h (fun l hl _ => hf l hl) TensixThreadCop.init_wellFormed).wellFormed
  refine ⟨?_, ?_, ?_, ?_⟩
  · intro latch cop₁ ls' cop₂ cop₃ insn hlatch hwait hran hrun hf' hexec hran' hmatch
    have hi₁ := (acts_gate hlatch rfl t hi).1
    obtain ⟨v, hv, rfl⟩ := hlatch
    obtain ⟨w, hw₁, -, hl⟩ := tensixCopStep_ran hv
    rw [cop.putView_thread_self] at hran
    obtain rfl : w = latch := by simpa using hw₁.symm.trans hran
    have ha : ((cop.putView t v).threads t).waitGate.active = true := by
      obtain ⟨gate, hgate⟩ := hl hwait
      rw [cop.putView_thread_self, hgate, waitGateLatch_active]
    obtain hk | hmet := hrun.gate_until_met hf' hi₁ ha
    · refine ⟨ls', [], cop₂, by simp, hrun, .nil _, ?_⟩
      obtain ⟨v₃, hv₃, rfl⟩ := hexec
      obtain ⟨w₃, hw₃, hm, -⟩ := tensixCopStep_ran hv₃
      rw [cop₂.putView_thread_self] at hran'
      obtain rfl : w₃ = insn := by simpa using hw₃.symm.trans hran'
      rw [TensixCop.view_thread, hk] at hm
      exact hm ha hmatch
    · exact hmet
  · intro cop₁ insn ls' cop₂ hheld hc hrun hf'
    have hw₁ := (queueRun_step t (fun _ => rfl) hw hheld).wellFormed
    obtain ⟨-, more, hlog, hq⟩ := queueRun t hrun (fun l hl _ => hf' l hl) hw₁
    refine ⟨more, hlog, ?_⟩
    cases more with
    | nil => exact .inl rfl
    | cons w more =>
      simp only [CopView.queue, TensixCop.view_thread, hc, Option.toList_some, List.cons_append,
        List.cons.injEq] at hq
      exact .inr ⟨more, by rw [hq.1]⟩
  · intro l cop₁ hl hfl ha hne
    obtain ⟨-, hk | hmet⟩ := acts_gate hl hfl t hi
    · exact absurd hk hne
    · exact hmet ha
  · intro u gate l cop₁ hu hl
    refine ⟨?_, acts_setGate hu gate hl⟩
    obtain ⟨v, -, rfl⟩ := hl
    rw [cop.putView_thread_ne v hu]

def semwaitNext : TensixCop :=
  powerUp.after 0 [(0, .push 0xA3A00004), (0, .push 0xA6FF8005), (0, .push 0x02000001), (0, .step)]

theorem wait_gate_safety_nop :
    ∃ ls₁ ls₂ mid, [⟨0, .step, false⟩, ⟨1, .push 0xA4000004, true⟩, ⟨1, .step, true⟩] = ls₁ ++ ls₂ ∧
      CopRun (semwaitNext.after 0 [(0, .step)]) ls₁ mid ∧
      waitGateMet ((semwaitNext.after 0 [(0, .step)]).threads 0).waitGate mid.core = true := by
  have h : CopRun powerUp [⟨0, .push 0xA3A00004, true⟩, ⟨0, .push 0xA6FF8005, true⟩,
      ⟨0, .push 0x02000001, true⟩, ⟨0, .step, true⟩] semwaitNext := TensixCop.exec_after (by decide)
  have hlatch : Acts semwaitNext ⟨0, .step, true⟩ (semwaitNext.after 0 [(0, .step)]) :=
    Run.single.mp (TensixCop.exec_after (by decide))
  let acts : List (Tid × ThreadAction) := [(0, .step), (1, .push 0xA4000004), (1, .step)]
  have hrun : CopRun (semwaitNext.after 0 [(0, .step)])
      [⟨0, .step, false⟩, ⟨1, .push 0xA4000004, true⟩, ⟨1, .step, true⟩]
      ((semwaitNext.after 0 [(0, .step)]).after 0 acts) := TensixCop.exec_after (by decide)
  have hexec : Acts ((semwaitNext.after 0 [(0, .step)]).after 0 acts) ⟨0, .step, true⟩
      (((semwaitNext.after 0 [(0, .step)]).after 0 acts).after 0 [(0, .step)]) :=
    Run.single.mp (TensixCop.exec_after (by decide))
  obtain ⟨ls₁, ls₂, mid, hls, h₁, -, hm⟩ := (wait_gate_safety _ _ h (by decide) 0).1 0xA6FF8005 _ _ _ _
    0x02000001 hlatch (by decide) (by decide) hrun (by decide) hexec (by decide) (by decide)
  exact ⟨ls₁, ls₂, mid, hls, h₁, hm⟩

end Rv32Emu
