import Rv32Emu.Cop.Blocking
import Rv32Emu.Cop.DirectPath

namespace Rv32Emu

structure Abreast (insn : Word) (v w : CopView) : Prop where
  halted : v.halted = w.halted
  arch : v.arch = w.arch
  gate : v.thread.waitGate = w.thread.waitGate
  next : ∃ fifo, v.thread.next = some (insn, fifo)
  quiet : w.Quiet

theorem Abreast.setCore {insn : Word} {v w : CopView} (h : Abreast insn v w) (core : Tensix) :
    Abreast insn (v.setCore core) (w.setCore core) := by
  have ha := h.arch
  simp only [CopView.arch, Arch.mk.injEq] at ha
  have hq := h.quiet
  exact ⟨h.halted, by simp [CopView.arch, CopView.setCore, ha], h.gate, h.next,
    ⟨hq.current, hq.fifo, hq.mop, hq.recording, hq.expanding⟩⟩

section attempt

variable {insn : Word} {v v' w w' : CopView} {tid : Tid} {ok : Bool}

@[simp] theorem CopView.waitAt_arch (v : CopView) (counted : Bool) : (v.waitAt counted).arch = v.arch := by
  cases counted <;> rfl

@[simp] theorem CopView.waitAt_halted (v : CopView) (counted : Bool) :
    (v.waitAt counted).halted = v.halted := by
  cases counted <;> rfl

@[simp] theorem CopView.waitAt_gate (v : CopView) (counted : Bool) :
    (v.waitAt counted).thread.waitGate = v.thread.waitGate := by
  cases counted <;> rfl

theorem CopView.Quiet.waitAt {v : CopView} (h : v.Quiet) (counted : Bool) : (v.waitAt counted).Quiet := by
  cases counted <;> exact ⟨h.current, h.fifo, h.mop, h.recording, h.expanding⟩

theorem CopView.Quiet.held {counted : Bool} (h : v.Quiet) (hx : verdict v insn tid = .held counted v') :
    v'.Quiet := by
  obtain rfl | ⟨rfl, -⟩ := verdict_held hx
  · exact h
  · exact ⟨h.current, h.fifo, h.mop, h.recording, h.expanding⟩

theorem Abreast.attempt {r : Bool × CopView} (h : Abreast insn v w)
    (hs : tensixCopStep v tid = (ok, v')) (hd : directAttempt w insn tid = r) :
    r.1 = ok ∧ v'.halted = v.halted ∧ r.2.halted = w.halted ∧ v'.arch = r.2.arch ∧
      v'.thread.waitGate = r.2.thread.waitGate ∧ (ok = false → Abreast insn v' r.2) := by
  obtain ⟨fifo, hnext⟩ := h.next
  have hq := (h.quiet.setDirect insn).idle
  have hverdict {u : CopView} (hf : FetchCase v insn u) :
      SameVerdict (verdict u insn tid) (verdict (w.setDirect insn).idle insn tid) :=
    verdict_congr insn tid (hf.arch.trans h.arch) (hf.gate.trans h.gate)
  cases StepCase.of_eq hs with
  | halted hh =>
    rw [directAttempt, if_pos (h.halted ▸ hh)] at hd
    subst hd
    exact ⟨rfl, rfl, rfl, h.arch, h.gate, fun _ => ⟨h.halted, h.arch, h.gate, h.next, h.quiet.setDirect insn⟩⟩
  | empty _ hc hf => simp [TensixThreadCop.next, hc, hf] at hnext
  | @held insn' u x counted hh hf hx =>
    obtain rfl : insn = insn' := by simpa using congrArg (Option.map Prod.fst) (hnext.symm.trans hf.next)
    have hsame := hverdict hf
    rw [directAttempt, if_neg (by simp [← h.halted, hh])] at hd
    cases hy : verdict (w.setDirect insn).idle insn tid with
    | passed y => simpa [hx, hy, Verdict.ok] using hsame.ok
    | held counted' y =>
      rw [hx, hy] at hsame
      rw [hy] at hd
      subst hd
      have hxh : x.halted = v.halted := (verdict_held_thread hx).1.trans hf.halted
      have hyh : y.halted = w.halted := (verdict_held_thread hy).1
      have harch : (x.heldAt insn counted).arch = (y.waitAt counted').arch := by
        rw [CopView.heldAt_arch, CopView.waitAt_arch]
        exact hsame.arch
      have hgate : (x.heldAt insn counted).thread.waitGate = (y.waitAt counted').thread.waitGate := by
        rw [CopView.heldAt_gate, CopView.waitAt_gate]
        exact hsame.gate
      refine ⟨rfl, by simp [hxh], by simp [Verdict.toAttempt, hyh], harch, hgate, fun _ => ?_⟩
      exact ⟨by simp [Verdict.toAttempt, hxh, hyh, h.halted], harch, hgate,
        ⟨x.thread.insnFifo, by simp [TensixThreadCop.next]⟩, (hq.held hy).waitAt counted'⟩
  | @passed insn' u x hh hf hx =>
    obtain rfl : insn = insn' := by simpa using congrArg (Option.map Prod.fst) (hnext.symm.trans hf.next)
    have hsame := hverdict hf
    rw [directAttempt, if_neg (by simp [← h.halted, hh])] at hd
    cases hy : verdict (w.setDirect insn).idle insn tid with
    | held counted y => simpa [hx, hy, Verdict.ok] using hsame.ok
    | passed y =>
      rw [hx, hy] at hsame
      rw [hy] at hd
      subst hd
      exact ⟨rfl, (verdict_passed hx).halted.trans hf.halted, (verdict_passed hy).halted, hsame.arch,
        hsame.gate, by simp⟩

end attempt

structure OnBothPaths (t : Tid) (insn : Word) (copF copD : TensixCop) : Prop where
  off : AgreeOff t copF copD
  view : Abreast insn (copF.view t) (copD.view t)

structure SameEffect (t : Tid) (copF copD : TensixCop) : Prop where
  off : AgreeOff t copF copD
  arch : (copF.view t).arch = (copD.view t).arch
  gate : (copF.threads t).waitGate = (copD.threads t).waitGate

namespace OnBothPaths

variable {t : Tid} {insn : Word} {copF copD copF' copD' : TensixCop} {ok : Bool} {l : Label}

theorem attempt (h : OnBothPaths t insn copF copD) {v : CopView}
    (hs : tensixCopStep (copF.view t) t = (ok, v)) :
    (directAttempt (copD.view t) insn t).1 = ok ∧
      SameEffect t (copF.putView t v) (copD.putView t (directAttempt (copD.view t) insn t).2) ∧
      (ok = false →
        OnBothPaths t insn (copF.putView t v) (copD.putView t (directAttempt (copD.view t) insn t).2)) := by
  obtain ⟨hok, hvh, hdh, harch, hgate, hheld⟩ := h.view.attempt hs rfl
  have hoff := h.off.putView (congrArg Arch.core harch)
  refine ⟨hok, ⟨hoff, ?_, ?_⟩, fun ho => ⟨hoff, ?_⟩⟩
  · rwa [copF.view_putView t v hvh, copD.view_putView t _ hdh]
  · rwa [copF.putView_thread_self, copD.putView_thread_self]
  · rw [copF.view_putView t v hvh, copD.view_putView t _ hdh]
    exact hheld ho

variable (hm : tensixInsnOpcode insn ≠ opcodeMop) (hr : tensixInsnOpcode insn ≠ opcodeReplay)
include hm hr

theorem step (h : OnBothPaths t insn copF copD) (hs : Acts copF ⟨t, .step, ok⟩ copF') :
    ∃ copD', Acts copD ⟨t, .issue insn, ok⟩ copD' ∧ SameEffect t copF' copD' ∧
      (ok = false → OnBothPaths t insn copF' copD') := by
  obtain ⟨v, hv, rfl⟩ := hs
  obtain ⟨hok, hsame, hheld⟩ := h.attempt hv
  exact ⟨_, ⟨_, (issue_iff hm hr h.view.quiet).mpr (Prod.ext hok rfl), rfl⟩, hsame, hheld⟩

theorem issue (h : OnBothPaths t insn copF copD) (hs : Acts copD ⟨t, .issue insn, ok⟩ copD') :
    ∃ copF', Acts copF ⟨t, .step, ok⟩ copF' ∧ SameEffect t copF' copD' ∧
      (ok = false → OnBothPaths t insn copF' copD') := by
  obtain ⟨w, hw, rfl⟩ := hs
  have hd := (issue_iff hm hr h.view.quiet).mp hw
  obtain ⟨hok, hsame, hheld⟩ := h.attempt (Prod.mk.eta (p := tensixCopStep (copF.view t) t)).symm
  simp only [hd] at hok hsame hheld
  subst hok
  exact ⟨_, ⟨_, rfl, rfl⟩, hsame, hheld⟩

end OnBothPaths

def Label.viaDirect (t : Tid) (insn : Word) (l : Label) : Label :=
  if l.tid = t then { l with act := .issue insn } else l

def Label.viaFifo (t : Tid) (l : Label) : Label :=
  if l.tid = t then { l with act := .step } else l

section runs

variable {t : Tid} {insn : Word} {copF copD cop' : TensixCop} {ls : List Label}
variable (hm : tensixInsnOpcode insn ≠ opcodeMop) (hr : tensixInsnOpcode insn ≠ opcodeReplay)
include hm hr

theorem CopRun.viaDirect (h : CopRun copF ls cop')
    (hb : ∀ l ∈ ls, l.tid = t → l.act = .step ∧ l.ok = false) (hi : OnBothPaths t insn copF copD) :
    ∃ copD', CopRun copD (ls.map (Label.viaDirect t insn)) copD' ∧ OnBothPaths t insn cop' copD' := by
  induction h generalizing copD with
  | nil => exact ⟨copD, .nil _, hi⟩
  | @cons copF mid cop' l ls hs _ ih =>
    have ih := fun {copD} => @ih copD fun l hl => hb l (List.mem_cons_of_mem _ hl)
    by_cases hl : l.tid = t
    · obtain ⟨tid, a, ok⟩ := l
      obtain rfl : tid = t := hl
      obtain ⟨rfl, rfl⟩ : a = .step ∧ ok = false := hb _ List.mem_cons_self rfl
      obtain ⟨mid', hs', -, hi'⟩ := hi.step hm hr hs
      obtain ⟨copD', hrun, hi''⟩ := ih (hi' rfl)
      refine ⟨copD', .cons ?_ hrun, hi''⟩
      simpa [Label.viaDirect] using hs'
    · obtain ⟨mid', hs', hoff, hv, hv'⟩ := hi.off.acts hl hs
      obtain ⟨copD', hrun, hi''⟩ := ih ⟨hoff, by rw [hv, hv']; exact hi.view.setCore _⟩
      refine ⟨copD', .cons ?_ hrun, hi''⟩
      simpa [Label.viaDirect, hl] using hs'

theorem CopRun.viaFifo (h : CopRun copD ls cop')
    (hb : ∀ l ∈ ls, l.tid = t → l.act = .issue insn ∧ l.ok = false) (hi : OnBothPaths t insn copF copD) :
    ∃ copF', CopRun copF (ls.map (Label.viaFifo t)) copF' ∧ OnBothPaths t insn copF' cop' := by
  induction h generalizing copF with
  | nil => exact ⟨copF, .nil _, hi⟩
  | @cons copD mid cop' l ls hs _ ih =>
    have ih := fun {copF} => @ih copF fun l hl => hb l (List.mem_cons_of_mem _ hl)
    by_cases hl : l.tid = t
    · obtain ⟨tid, a, ok⟩ := l
      obtain rfl : tid = t := hl
      obtain ⟨rfl, rfl⟩ : a = .issue insn ∧ ok = false := hb _ List.mem_cons_self rfl
      obtain ⟨mid', hs', -, hi'⟩ := hi.issue hm hr hs
      obtain ⟨copF', hrun, hi''⟩ := ih (hi' rfl)
      refine ⟨copF', .cons ?_ hrun, hi''⟩
      simpa [Label.viaFifo] using hs'
    · obtain ⟨mid', hs', hoff, hv, hv'⟩ := hi.off.symm.acts hl hs
      obtain ⟨copF', hrun, hi''⟩ := ih ⟨hoff.symm, by rw [hv, hv']; exact hi.view.setCore _⟩
      refine ⟨copF', .cons ?_ hrun, hi''⟩
      simpa [Label.viaFifo, hl] using hs'

end runs

theorem push_empty {v : CopView} (insn : Word) (hq : v.Quiet) (hw : v.thread.insnFifo.WellFormed) :
    (tensixCopPush v insn).1 = true ∧ Abreast insn (tensixCopPush v insn).2 v ∧
      (tensixCopPush v insn).2.core = v.core := by
  have hcount : v.thread.insnFifo.count = 0 := by
    have := hq.fifo
    simp only [TensixFifo.pop, TensixFifo.isEmpty, decide_eq_true_eq] at this
    split at this
    · assumption
    · cases this
  have hpush : (v.thread.insnFifo.push insn).1 = true := by
    simp [TensixFifo.push, TensixFifo.isFull, hcount, tensixFifoSize]
  have hpop : (v.thread.insnFifo.push insn).2.contents = [insn] := by
    rw [hw.push_contents hpush, TensixFifo.pop_eq_none hq.fifo]
    rfl
  have hres : tensixCopPush v insn = (true, v.setThread { v.thread with
      insnFifo := (v.thread.insnFifo.push insn).2, log := v.thread.log ++ [.pushed insn] }) := by
    simp [tensixCopPush, hpush]
  rw [hres]
  refine ⟨rfl, ⟨rfl, rfl, rfl, ?_, hq⟩, rfl⟩
  cases hp : (v.thread.insnFifo.push insn).2.pop with
  | none => simp [TensixFifo.pop_eq_none hp] at hpop
  | some p =>
    obtain ⟨w, fifo⟩ := p
    rw [(hw.push insn).pop_contents hp, List.cons.injEq] at hpop
    refine ⟨fifo, ?_⟩
    simp [TensixThreadCop.next, CopView.setThread, hq.current, hp, hpop.1]

/-- Pushing an instruction that starts no expansion and stepping, and issuing it directly, are the
same from every state in which the thread has nothing to do: after any blocked attempts
and any actions of other threads the next attempt has the same result, the same effect on
the machine and leaves the same gate. -/
theorem fifo_and_direct_paths_agree (t : Tid) (insn : Word) {cop : TensixCop}
    (hm : tensixInsnOpcode insn ≠ opcodeMop) (hr : tensixInsnOpcode insn ≠ opcodeReplay)
    (hq : (cop.view t).Quiet) (hw : (cop.threads t).insnFifo.WellFormed) :
    ∃ copP, Acts cop ⟨t, .push insn, true⟩ copP ∧
      (∀ ls copF ok copF', CopRun copP ls copF →
        (∀ l ∈ ls, l.tid = t → l.act = .step ∧ l.ok = false) → Acts copF ⟨t, .step, ok⟩ copF' →
        ∃ copD copD', CopRun cop (ls.map (Label.viaDirect t insn)) copD ∧
          Acts copD ⟨t, .issue insn, ok⟩ copD' ∧ SameEffect t copF' copD') ∧
      (∀ ls copD ok copD', CopRun cop ls copD →
        (∀ l ∈ ls, l.tid = t → l.act = .issue insn ∧ l.ok = false) → Acts copD ⟨t, .issue insn, ok⟩ copD' →
        ∃ copF copF', CopRun copP (ls.map (Label.viaFifo t)) copF ∧
          Acts copF ⟨t, .step, ok⟩ copF' ∧ SameEffect t copF' copD') := by
  obtain ⟨hok, habreast, hcore⟩ := push_empty insn hq hw
  have hboth : OnBothPaths t insn (cop.putView t (tensixCopPush (cop.view t) insn).2) cop := by
    refine ⟨(AgreeOff.refl t cop).putView_left hcore, ?_⟩
    rwa [cop.view_putView t _ habreast.halted]
  refine ⟨_, ⟨_, Prod.ext hok rfl, rfl⟩, ?_, ?_⟩
  · intro ls copF ok copF' hrun hb hs
    obtain ⟨copD, hrun', hi⟩ := hrun.viaDirect hm hr hb hboth
    obtain ⟨copD', hs', hsame, -⟩ := hi.step hm hr hs
    exact ⟨copD, copD', hrun', hs', hsame⟩
  · intro ls copD ok copD' hrun hb hs
    obtain ⟨copF, hrun', hi⟩ := hrun.viaFifo hm hr hb hboth
    obtain ⟨copF', hs', hsame, -⟩ := hi.issue hm hr hs
    exact ⟨copF, copF', hrun', hs', hsame⟩

/-- MVMUL waits for its operands, which thread 0 unpacks. -/
def mvmulTrace : List Label :=
  [⟨1, .issue 0x26000000, false⟩, ⟨0, .issue 0x42000040, true⟩, ⟨1, .issue 0x26000000, false⟩,
    ⟨0, .issue 0x42800040, true⟩]

def mvmulReady : TensixCop := powerUp.after 9 (mvmulTrace.map fun l => (l.tid, l.act))

theorem fifo_and_direct_paths_agree_mvmul :
    ∃ copP, Acts powerUp ⟨1, .push 0x26000000, true⟩ copP ∧ ∃ copF copF',
      CopRun copP [⟨1, .step, false⟩, ⟨0, .issue 0x42000040, true⟩, ⟨1, .step, false⟩,
        ⟨0, .issue 0x42800040, true⟩] copF ∧
      Acts copF ⟨1, .step, true⟩ copF' ∧
      SameEffect 1 copF' (mvmulReady.after 9 [(1, .issue 0x26000000)]) := by
  have hq : (powerUp.view 1).Quiet := ⟨rfl, rfl, rfl, rfl, rfl⟩
  obtain ⟨copP, hp, -, h⟩ := fifo_and_direct_paths_agree 1 0x26000000 (by decide) (by decide) hq
    TensixThreadCop.init_wellFormed
  have hrun : CopRun powerUp mvmulTrace mvmulReady := TensixCop.exec_after (by decide)
  have hlast : Acts mvmulReady ⟨1, .issue 0x26000000, true⟩
      (mvmulReady.after 9 [(1, .issue 0x26000000)]) :=
    Run.single.mp (TensixCop.exec_after (by decide))
  exact ⟨copP, hp, h _ _ _ _ hrun (by decide) hlast⟩

end Rv32Emu
