import Rv32Emu.Cop.System

namespace Rv32Emu

inductive FetchCase (v : CopView) : Word → CopView → Prop
  | pending {insn : Word} (h : v.thread.currentInsn = some insn) :
      FetchCase v insn (v.setThread { v.thread with currentInsn := none })
  | popped {insn : Word} {fifo : TensixFifo} (h : v.thread.currentInsn = none)
      (hp : v.thread.insnFifo.pop = some (insn, fifo)) :
      FetchCase v insn (v.setThread { v.thread with insnFifo := fifo, currentOrigin := .fifo })

inductive StepCase (v : CopView) (tid : Tid) : Bool → CopView → Prop
  | halted (hh : v.halted = true) : StepCase v tid false v
  | empty (hh : v.halted = false) (hc : v.thread.currentInsn = none)
      (hf : v.thread.insnFifo.pop = none) : StepCase v tid false v.idle
  | held {insn : Word} {u x : CopView} {counted : Bool} (hh : v.halted = false)
      (hf : FetchCase v insn u) (hx : verdict u insn tid = .held counted x) :
      StepCase v tid false (x.heldAt insn counted)
  | passed {insn : Word} {u x : CopView} (hh : v.halted = false)
      (hf : FetchCase v insn u) (hx : verdict u insn tid = .passed x) :
      StepCase v tid true (x.complete (.ran x.thread.currentOrigin insn))

theorem fetch_cases (v : CopView) :
    v.fetch = none ∧ v.thread.currentInsn = none ∧ v.thread.insnFifo.pop = none ∨
      ∃ insn u, v.fetch = some (insn, u) ∧ FetchCase v insn u := by
  unfold CopView.fetch
  cases hc : v.thread.currentInsn with
  | some insn => exact .inr ⟨_, _, rfl, .pending hc⟩
  | none =>
    cases hp : v.thread.insnFifo.pop with
    | none => exact .inl ⟨rfl, rfl, rfl⟩
    | some p => exact .inr ⟨_, _, rfl, .popped hc hp⟩

theorem tensixCopStep_case (v : CopView) (tid : Tid) :
    StepCase v tid (tensixCopStep v tid).1 (tensixCopStep v tid).2 := by
  unfold tensixCopStep
  cases hh : v.halted with
  | true => exact .halted hh
  | false =>
    simp only [Bool.false_eq_true, if_false]
    obtain ⟨hf, hc, hp⟩ | ⟨insn, u, hf, hu⟩ := fetch_cases v
    · simp only [hf]
      exact .empty hh hc hp
    · simp only [hf, stepInsn_eq]
      cases hx : verdict u insn tid with
      | held counted x => exact .held hh hu hx
      | passed x => exact .passed hh hu hx

theorem StepCase.of_eq {v v' : CopView} {tid : Tid} {ok : Bool} (h : tensixCopStep v tid = (ok, v')) :
    StepCase v tid ok v' := by
  have := tensixCopStep_case v tid
  rwa [h] at this

theorem StepCase.of_true {v v' : CopView} {tid : Tid} (h : tensixCopStep v tid = (true, v')) :
    ∃ insn u x, v.halted = false ∧ FetchCase v insn u ∧ verdict u insn tid = .passed x ∧
      v' = x.complete (.ran x.thread.currentOrigin insn) := by
  cases StepCase.of_eq h with
  | passed hh hf hx => exact ⟨_, _, _, hh, hf, hx, rfl⟩

namespace CopView

def queue (v : CopView) : List Word := v.thread.currentInsn.toList ++ v.thread.insnFifo.contents

end CopView

namespace FetchCase

variable {v u : CopView} {insn : Word}

theorem current (h : FetchCase v insn u) : u.thread.currentInsn = none := by
  cases h with
  | pending => rfl
  | popped h => exact h

theorem log (h : FetchCase v insn u) : u.thread.log = v.thread.log := by
  cases h <;> rfl

theorem halted (h : FetchCase v insn u) : u.halted = v.halted := by
  cases h <;> rfl

theorem core (h : FetchCase v insn u) : u.core = v.core := by
  cases h <;> rfl

theorem gate (h : FetchCase v insn u) : u.thread.waitGate = v.thread.waitGate := by
  cases h <;> rfl

theorem wellFormed (h : FetchCase v insn u) (hw : v.thread.insnFifo.WellFormed) :
    u.thread.insnFifo.WellFormed := by
  cases h with
  | pending => exact hw
  | popped _ hp => exact hw.pop hp

theorem queue (h : FetchCase v insn u) (hw : v.thread.insnFifo.WellFormed) :
    v.queue = insn :: u.thread.insnFifo.contents := by
  cases h with
  | pending h => simp [CopView.queue, h, CopView.setThread]
  | popped h hp => simp [CopView.queue, h, CopView.setThread, hw.pop_contents hp]

end FetchCase

theorem verdict_held_thread {v x : CopView} {insn : Word} {tid : Tid} {counted : Bool}
    (h : verdict v insn tid = .held counted x) :
    x.halted = v.halted ∧ x.core = v.core ∧ x.replay = v.replay ∧
      x.thread = { v.thread with waitGate := x.thread.waitGate } := by
  obtain rfl | ⟨rfl, _⟩ := verdict_held h
  · exact ⟨rfl, rfl, rfl, rfl⟩
  · exact ⟨rfl, rfl, rfl, rfl⟩

namespace CopView

variable (v : CopView) (insn : Word) (counted : Bool)

@[simp] theorem heldAt_halted : (v.heldAt insn counted).halted = v.halted := by
  cases counted <;> rfl

@[simp] theorem heldAt_core : (v.heldAt insn counted).core = v.core := by
  cases counted <;> rfl

@[simp] theorem heldAt_replay : (v.heldAt insn counted).replay = v.replay := by
  cases counted <;> rfl

@[simp] theorem heldAt_gate : (v.heldAt insn counted).thread.waitGate = v.thread.waitGate := by
  cases counted <;> rfl

@[simp] theorem heldAt_fifo : (v.heldAt insn counted).thread.insnFifo = v.thread.insnFifo := by
  cases counted <;> rfl

@[simp] theorem heldAt_log : (v.heldAt insn counted).thread.log = v.thread.log := by
  cases counted <;> rfl

@[simp] theorem heldAt_origin : (v.heldAt insn counted).thread.currentOrigin = v.thread.currentOrigin := by
  cases counted <;> rfl

@[simp] theorem heldAt_mopState : (v.heldAt insn counted).thread.mopState = v.thread.mopState := by
  cases counted <;> rfl

@[simp] theorem heldAt_mopCfg : (v.heldAt insn counted).thread.mopCfg = v.thread.mopCfg := by
  cases counted <;> rfl

@[simp] theorem heldAt_zmask : (v.heldAt insn counted).thread.zmaskHi16 = v.thread.zmaskHi16 := by
  cases counted <;> rfl

@[simp] theorem heldAt_direct : (v.heldAt insn counted).thread.directInsn = v.thread.directInsn := by
  cases counted <;> rfl

@[simp] theorem heldAt_current : (v.heldAt insn counted).thread.currentInsn = some insn := by
  cases counted <;> rfl

end CopView

def ranWords (log : List Event) : List Word :=
  log.filterMap fun e => match e with
    | .ran _ insn => some insn
    | _ => none

@[simp] theorem ranWords_append (l l' : List Event) : ranWords (l ++ l') = ranWords l ++ ranWords l' := by
  simp [ranWords]

@[simp] theorem ranWords_map (o : Origin) (insns : List Word) : ranWords (insns.map (.ran o)) = insns := by
  simp [ranWords, List.filterMap_map]

theorem tensixCopStep_queue {v v' : CopView} {tid : Tid} {ok : Bool} (hw : v.thread.insnFifo.WellFormed)
    (h : tensixCopStep v tid = (ok, v')) :
    v'.thread.insnFifo.WellFormed ∧ v'.halted = v.halted ∧
      if ok then ∃ o insn, v.queue = insn :: v'.queue ∧ v'.thread.log = v.thread.log ++ [.ran o insn]
      else v'.queue = v.queue ∧ v'.thread.log = v.thread.log := by
  cases StepCase.of_eq h with
  | halted => exact ⟨hw, rfl, rfl, rfl⟩
  | empty => exact ⟨hw, rfl, rfl, rfl⟩
  | @held insn u x counted hh hf hx =>
    obtain ⟨hxh, -, -, hxt⟩ := verdict_held_thread hx
    have hfifo : x.thread.insnFifo = u.thread.insnFifo := by rw [hxt]
    have hlog : x.thread.log = u.thread.log := by rw [hxt]
    refine ⟨?_, ?_, ?_, ?_⟩
    · rw [CopView.heldAt_fifo, hfifo]
      exact hf.wellFormed hw
    · rw [CopView.heldAt_halted, hxh, hf.halted]
    · rw [hf.queue hw, CopView.queue, CopView.heldAt_current, CopView.heldAt_fifo, hfifo]
      rfl
    · rw [CopView.heldAt_log, hlog, hf.log]
  | @passed insn u x hh hf hx =>
    have hp := verdict_passed hx
    refine ⟨?_, hp.halted.trans hf.halted, x.thread.currentOrigin, insn, ?_, ?_⟩
    · show x.thread.insnFifo.WellFormed
      exact hp.fifo ▸ hf.wellFormed hw
    · rw [hf.queue hw, ← hp.fifo]
      simp [CopView.queue, CopView.complete, CopView.setThread, hp.current hf.current]
    · show x.thread.log ++ _ = _
      rw [hp.log, hf.log]

theorem tensixCopPush_queue {v v' : CopView} {insn : Word} {ok : Bool} (hw : v.thread.insnFifo.WellFormed)
    (h : tensixCopPush v insn = (ok, v')) :
    v'.thread.insnFifo.WellFormed ∧ v'.halted = v.halted ∧
      if ok then v'.queue = v.queue ++ [insn] ∧ v'.thread.log = v.thread.log ++ [.pushed insn]
      else v' = v := by
  unfold tensixCopPush at h
  cases hp : (v.thread.insnFifo.push insn).1 with
  | false =>
    simp only [hp, Bool.false_eq_true, if_false, Prod.mk.injEq] at h
    obtain ⟨rfl, rfl⟩ := h
    exact ⟨hw, rfl, rfl⟩
  | true =>
    simp only [hp, if_true, Prod.mk.injEq] at h
    obtain ⟨rfl, rfl⟩ := h
    refine ⟨hw.push insn, rfl, ?_, rfl⟩
    simp [CopView.queue, CopView.setThread, hw.push_contents hp]

theorem tensixCopPush_refused (v : CopView) (insn : Word) :
    (tensixCopPush v insn).1 = false ↔ tensixFifoSize ≤ v.thread.insnFifo.count := by
  simp only [tensixCopPush, TensixFifo.push, TensixFifo.isFull, decide_eq_true_eq]
  by_cases h : tensixFifoSize ≤ v.thread.insnFifo.count
  · simp [h]
  · simp [h]

def acceptedPushes (t : Tid) (ls : List Label) : List Word :=
  ls.filterMap fun l => match l.act with
    | .push insn => if l.tid = t ∧ l.ok then some insn else none
    | _ => none

theorem acceptedPushes_append (t : Tid) (ls ls' : List Label) :
    acceptedPushes t (ls ++ ls') = acceptedPushes t ls ++ acceptedPushes t ls' := by
  simp [acceptedPushes]

structure QueueRun (t : Tid) (ls : List Label) (cop cop' : TensixCop) : Prop where
  wellFormed : (cop'.threads t).insnFifo.WellFormed
  conserved : ∃ more, ranWords (cop'.threads t).log = ranWords (cop.threads t).log ++ more ∧
    more ++ (cop'.view t).queue = (cop.view t).queue ++ acceptedPushes t ls

theorem QueueRun.trans {t : Tid} {ls ls' : List Label} {cop mid cop' : TensixCop} (h : QueueRun t ls cop mid)
    (k : QueueRun t ls' mid cop') : QueueRun t (ls ++ ls') cop cop' := by
  obtain ⟨-, more₁, hlog₁, hq₁⟩ := h
  obtain ⟨hw, more₂, hlog₂, hq₂⟩ := k
  refine ⟨hw, more₁ ++ more₂, by rw [hlog₂, hlog₁, List.append_assoc], ?_⟩
  rw [List.append_assoc, hq₂, ← List.append_assoc, hq₁, List.append_assoc, acceptedPushes_append]

theorem queueRun_step (t : Tid) {cop cop' : TensixCop} {l : Label} (hl : l.tid = t → l.isFifo)
    (hw : (cop.threads t).insnFifo.WellFormed) (h : Acts cop l cop') : QueueRun t [l] cop cop' := by
  obtain ⟨tid, a, ok⟩ := l
  obtain ⟨v, hv, rfl⟩ := h
  by_cases ht : t = tid
  · subst ht
    cases a with
    | push insn =>
      obtain ⟨hw', -, hq⟩ := tensixCopPush_queue hw hv
      refine ⟨by simpa using hw', [], ?_⟩
      simp only [CopView.queue, TensixCop.view_thread, TensixCop.putView_thread_self] at hq ⊢
      cases ok with
      | false =>
        obtain rfl := hq
        simp [acceptedPushes]
      | true =>
        obtain ⟨hq, hlog⟩ := hq
        simp [hq, hlog, acceptedPushes, ranWords]
    | step =>
      obtain ⟨hw', -, hq⟩ := tensixCopStep_queue hw hv
      refine ⟨by simpa using hw', ?_⟩
      simp only [CopView.queue, TensixCop.view_thread, TensixCop.putView_thread_self] at hq ⊢
      cases ok with
      | false => exact ⟨[], by simp [hq.2], by simp [hq.1, acceptedPushes]⟩
      | true =>
        obtain ⟨o, insn, hq, hlog⟩ := hq
        exact ⟨[insn], by simp [hlog, ranWords], by simp [hq, acceptedPushes]⟩
    | issue insn => cases hl rfl
  · have hnone : acceptedPushes t [⟨tid, a, ok⟩] = [] := by
      cases a <;> simp [acceptedPushes, Ne.symm ht]
    refine ⟨by rwa [cop.putView_thread_ne v ht], [], ?_⟩
    simp [CopView.queue, cop.putView_thread_ne v ht, hnone]

theorem queueRun (t : Tid) {cop cop' : TensixCop} {ls : List Label} (h : CopRun cop ls cop')
    (hf : ∀ l ∈ ls, l.tid = t → l.isFifo) (hw : (cop.threads t).insnFifo.WellFormed) :
    QueueRun t ls cop cop' := by
  induction h with
  | nil => exact ⟨hw, [], by simp [acceptedPushes]⟩
  | @cons _ _ _ l ls hs _ ih =>
    have hstep := queueRun_step t (hf l List.mem_cons_self) hw hs
    exact hstep.trans (ih (fun l hl => hf l (List.mem_cons_of_mem _ hl)) hstep.wellFormed)

/-- Pushed is executed, then held, then queued, in every state that pushes and steps reach; the ring
is well formed; a push fails on a full ring only; and a step succeeds exactly when it executes the
head of the queue. -/
theorem fifo_path_conserves_queue (core : Tensix) (replay : Tid → Replay) {ls : List Label}
    {cop : TensixCop} (h : CopRun (tensixCopInit core replay) ls cop) (hf : ∀ l ∈ ls, l.isFifo) (t : Tid) :
    acceptedPushes t ls = ranWords (cop.threads t).log ++
        ((cop.threads t).currentInsn.toList ++ (cop.threads t).insnFifo.contents) ∧
      (cop.threads t).insnFifo.count ≤ 32 ∧
      (cop.threads t).insnFifo.tail = ((cop.threads t).insnFifo.head + (cop.threads t).insnFifo.count) % 32 ∧
      (∀ insn, (tensixCopPush (cop.view t) insn).1 = false ↔ (cop.threads t).insnFifo.contents.length = 32) ∧
      ∀ ok v, tensixCopStep (cop.view t) t = (ok, v) →
        (ok = true ↔ ∃ insn, (cop.view t).queue = insn :: v.queue ∧
          ranWords v.thread.log = ranWords (cop.threads t).log ++ [insn]) := by
  have hi := queueRun t h (fun l hl _ => hf l hl) TensixThreadCop.init_wellFormed
  have hconserved : acceptedPushes t ls = ranWords (cop.threads t).log ++ (cop.view t).queue := by
    obtain ⟨more, hlog, hq⟩ := hi.conserved
    rw [show ranWords (cop.threads t).log = more from hlog, hq]
    rfl
  refine ⟨hconserved, hi.wellFormed.count_le, hi.wellFormed.tail_eq, fun insn => ?_, fun ok v hv => ?_⟩
  · have hle := hi.wellFormed.count_le
    rw [tensixCopPush_refused, TensixFifo.contents, Ring.window_length]
    simp only [TensixCop.view_thread, tensixFifoSize] at hle ⊢
    omega
  · obtain ⟨-, -, hq⟩ := tensixCopStep_queue hi.wellFormed hv
    cases ok with
    | false =>
      simp only [Bool.false_eq_true, if_false, false_iff] at hq ⊢
      rintro ⟨insn, hq', -⟩
      rw [hq.1] at hq'
      exact absurd (congrArg List.length hq') (by simp)
    | true =>
      obtain ⟨o, insn, hq, hlog⟩ := hq
      refine ⟨fun _ => ⟨insn, hq, ?_⟩, fun _ => rfl⟩
      rw [hlog]
      simp [ranWords]

def heldNopTrace : List Label :=
  [⟨0, .push 0xA3A00004, true⟩, ⟨0, .push 0xA6FF8005, true⟩, ⟨0, .push 0x02000001, true⟩,
    ⟨0, .step, true⟩, ⟨0, .step, true⟩, ⟨0, .step, false⟩]

theorem fifo_path_conserves_queue_heldNop :
    ∃ cop, CopRun powerUp heldNopTrace cop ∧ (∀ l ∈ heldNopTrace, l.isFifo) ∧
      acceptedPushes 0 heldNopTrace = ranWords (cop.threads 0).log ++
        ((cop.threads 0).currentInsn.toList ++ (cop.threads 0).insnFifo.contents) := by
  have hf : ∀ l ∈ heldNopTrace, l.isFifo := by decide
  have h : CopRun powerUp heldNopTrace (powerUp.after 0 (heldNopTrace.map fun l => (l.tid, l.act))) :=
    TensixCop.exec_after (by decide)
  exact ⟨_, h, hf, (fifo_path_conserves_queue _ _ h hf 0).1⟩

end Rv32Emu
