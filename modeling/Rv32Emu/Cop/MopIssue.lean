import Rv32Emu.Cop.Fuel

namespace Rv32Emu

def CopView.mopIssued (v : CopView) (insn : Word) : CopView :=
  (((v.setDirect insn).idle).setThread
    (tensixCopMopExpand (v.setDirect insn).idle.thread (tensixInsnParam insn))).issued insn

def mopIterator (thread : TensixThreadCop) (insn : Word) : MopExpandState :=
  mopStart thread.mopCfg thread.zmaskHi16 (tensixInsnParam insn)

theorem mopStart_active (cfg : ℕ → Word) (zmaskHi16 param : Word) :
    (mopStart cfg zmaskHi16 param).active = true := by
  unfold mopStart
  dsimp only
  split_ifs <;> rfl

section issue

variable {v v' : CopView} {insn : Word} {ws : List Word} {tid : Tid} {ok : Bool} {fuel : ℕ}

theorem tensixCopStepDirect_mop (hop : tensixInsnOpcode insn = opcodeMop) (hh : v.halted = false)
    (hq : v.Quiet) :
    tensixCopStepDirect (fuel + 1) (tensixCopSetDirect v insn) tid =
      mopContinueExecution (fuel + 1) (v.mopIssued insn) tid := by
  have hne : ¬(tensixInsnOpcode insn = opcodeMopCfg ∨ isWaitOpcode (tensixInsnOpcode insn) = true) := by
    rw [hop]
    decide
  rw [tensixCopStepDirect_quiet insn hq hh, verdict_expander (.inl hop), Verdict.toDirect, if_neg hne,
    if_pos hop, execute_mop _ tid hop]
  rfl

theorem tensixCopStepDirect_resume (hop : tensixInsnOpcode insn = opcodeMop) (hh : v.halted = false)
    (hm : v.thread.mopState.active = true) :
    tensixCopStepDirect fuel (tensixCopSetDirect v insn) tid =
      (mopContinueExecution fuel (v.setDirect insn) tid).map
        fun r => (r.1, if r.1 then r.2 else r.2.setDirect insn) := by
  rw [tensixCopStepDirect_active insn hh hm]
  simp only [hop, if_true]
  match mopContinueExecution fuel (v.setDirect insn) tid with
  | none => rfl
  | some (true, u) => rfl
  | some (false, u) => rfl

theorem CopView.Quiet.mopIssued_expansion (hq : v.Quiet) (hh : v.halted = false)
    (hg : Generates v.thread.mopCfg (mopIterator v.thread insn) ws)
    (hw : ∀ w ∈ ws, TemplateWord v.replay.buffer w) : Expansion (v.mopIssued insn) ws := by
  refine ⟨hh, hg, hw, fun w hw => (by cases hw), fun w hw => ?_⟩
  have hrest : (v.mopIssued insn).replay.rest = [] := Replay.rest_eq_nil hq.expanding
  simp [hrest] at hw

theorem CopView.Quiet.mopIssued_todo (hq : v.Quiet) :
    (v.mopIssued insn).todo ws = ws.flatMap (withWindow v.replay.buffer) := by
  have hrest : (v.mopIssued insn).replay.rest = [] := Replay.rest_eq_nil hq.expanding
  rw [CopView.todo, hrest]
  rfl

end issue

section suspended

variable {u v v' : CopView} {insn : Word} {ws : List Word} {tid : Tid} {ok : Bool} {fuel : ℕ}

theorem Suspended.setCore (h : Suspended u ws v) (core : Tensix) : Suspended u ws (v.setCore core) := by
  obtain ⟨hc, hm, ws', he, hd, done, hx, ht⟩ := h
  exact ⟨hc, hm, ws', ⟨he.running, he.generates, he.template, he.pending, he.window⟩, hd, done,
    ⟨hx.halted, hx.fifo, hx.mopCfg, hx.buffer, hx.recording, hx.zmask, hx.log⟩, ht⟩

theorem Suspended.setCore_left (core : Tensix) (h : Suspended (u.setCore core) ws v) : Suspended u ws v := by
  obtain ⟨hc, hm, ws', he, hd, done, hx, ht⟩ := h
  exact ⟨hc, hm, ws', he, hd, done,
    ⟨hx.halted, hx.fifo, hx.mopCfg, hx.buffer, hx.recording, hx.zmask, hx.log⟩, ht⟩

theorem Suspended.setDirect (insn : Word) (h : Suspended u ws v) (hu : u.thread.directInsn = some insn) :
    Suspended u ws (v.setDirect insn) := by
  obtain ⟨hc, hm, ws', he, hd, done, hx, ht⟩ := h
  exact ⟨hc, hm, ws', ⟨he.running, he.generates, he.template, he.pending, he.window⟩, hu.symm, done,
    ⟨hx.halted, hx.fifo, hx.mopCfg, hx.buffer, hx.recording, hx.zmask, hx.log⟩, ht⟩

theorem Suspended.continued (h : Suspended u ws v)
    (hk : mopContinueExecution fuel v tid = some (ok, v')) : Continued u ws ok v' := by
  obtain ⟨-, hm, ws', hr⟩ := h
  exact hr.continued (mopContinueExecution_spec hr.expansion hm hk)

theorem Continued.setCore_left (core : Tensix) (h : Continued (u.setCore core) ws ok v) :
    Continued u ws ok v := by
  cases ok with
  | false => exact Suspended.setCore_left core h
  | true =>
    obtain ⟨hx, hd, hs, hm⟩ := h
    exact ⟨⟨hx.halted, hx.fifo, hx.mopCfg, hx.buffer, hx.recording, hx.zmask, hx.log⟩, hd, hs, hm⟩

end suspended

def MopAt (v₀ : CopView) (insn : Word) (ws : List Word) (v : CopView) : Prop :=
  v = v₀.setCore v.core ∨ Suspended (v₀.mopIssued insn) ws v

section phases

variable {v₀ v v' : CopView} {insn : Word} {ws : List Word} {tid : Tid} {ok : Bool}

theorem MopAt.setCore (h : MopAt v₀ insn ws v) (core : Tensix) : MopAt v₀ insn ws (v.setCore core) := by
  obtain h | h := h
  · exact .inl (by rw [h]; rfl)
  · exact .inr (h.setCore core)

theorem MopAt.halted (hh : v₀.halted = false) (h : MopAt v₀ insn ws v) : v.halted = false := by
  obtain h | ⟨-, -, _, hr⟩ := h
  · rw [h]
    exact hh
  · exact hr.expansion.running

variable (hop : tensixInsnOpcode insn = opcodeMop) (hh : v₀.halted = false) (hq : v₀.Quiet)
  (hg : Generates v₀.thread.mopCfg (mopIterator v₀.thread insn) ws)
  (hw : ∀ w ∈ ws, TemplateWord v₀.replay.buffer w)

include hh hq hg hw

theorem MopAt.start (hv : v = v₀.setCore v.core) :
    v.halted = false ∧ v.Quiet ∧ Expansion (v.mopIssued insn) ws := by
  rw [hv]
  have hvq : (v₀.setCore v.core).Quiet := ⟨hq.current, hq.fifo, hq.mop, hq.recording, hq.expanding⟩
  exact ⟨hh, hvq, hvq.mopIssued_expansion hh hg hw⟩

include hop

theorem MopAt.attempt (hv : MopAt v₀ insn ws v) (h : ThreadActs tid v (.issue insn) ok v') :
    Continued (v₀.mopIssued insn) ws ok v' := by
  obtain ⟨fuel, h⟩ := h
  obtain hv | hv := hv
  · obtain ⟨hvh, hvq, hve⟩ := MopAt.start hh hq hg hw hv
    cases fuel with
    | zero => simp [tensixCopStepDirect_zero insn hvh hvq.mop] at h
    | succ fuel =>
      rw [tensixCopStepDirect_mop hop hvh hvq] at h
      have hc := mopContinueExecution_spec hve (mopStart_active _ _ _) h
      rw [hv] at hc
      exact Continued.setCore_left v.core hc
  · obtain ⟨hm, ws', hr⟩ := hv.2
    rw [tensixCopStepDirect_resume hop hr.expansion.running hm] at h
    obtain ⟨⟨done, u⟩, hu, hx⟩ := Option.map_eq_some_iff.mp h
    have hc := (hv.setDirect insn rfl).continued hu
    cases done with
    | true =>
      cases hx
      exact hc
    | false =>
      cases hx
      exact Suspended.setDirect insn hc rfl

theorem MopAt.returns (tid : Tid) (hv : MopAt v₀ insn ws v) :
    ∃ ok v', ThreadActs tid v (.issue insn) ok v' := by
  obtain hv | hv := hv
  · obtain ⟨hvh, hvq, hve⟩ := MopAt.start hh hq hg hw hv
    obtain ⟨fuel, ⟨ok, v'⟩, hr⟩ := mopContinueExecution_returns tid hve
    refine ⟨ok, v', fuel + 1, ?_⟩
    rw [tensixCopStepDirect_mop hop hvh hvq]
    exact mopContinueExecution_mono (Nat.le_succ fuel) hr
  · obtain ⟨hm, ws', hr⟩ := (hv.setDirect insn rfl).2
    obtain ⟨fuel, x, hc⟩ := mopContinueExecution_returns tid hr.expansion
    have hvh : v.halted = false := hr.expansion.running
    refine ⟨x.1, if x.1 then x.2 else x.2.setDirect insn, fuel, ?_⟩
    rw [tensixCopStepDirect_resume hop hvh hm, hc]
    rfl

theorem MopAt.run {t : Tid} {cop cop' : TensixCop} {ls : List Label} (h : CopRun cop ls cop')
    (hls : ∀ l ∈ ls, l.tid = t → l.act = .issue insn ∧ l.ok = false) (hv : MopAt v₀ insn ws (cop.view t)) :
    MopAt v₀ insn ws (cop'.view t) := by
  induction h with
  | nil => exact hv
  | @cons cop mid cop' l ls hs _ ih =>
    refine ih (fun l hl => hls l (List.mem_cons_of_mem _ hl)) ?_
    obtain ⟨tid, a, ok⟩ := l
    obtain ⟨v, hact, rfl⟩ := hs
    by_cases ht : tid = t
    · obtain ⟨rfl, rfl⟩ := hls _ List.mem_cons_self ht
      subst ht
      have hnext : MopAt v₀ insn ws v := .inr (hv.attempt hop hh hq hg hw hact)
      rw [cop.view_putView tid v ((hnext.halted hh).trans (hv.halted hh).symm)]
      exact hnext
    · rw [cop.view_putView_ne v (Ne.symm ht)]
      exact hv.setCore v.core

end phases

/-- A direct MOP, issued until it goes through while the other threads go on, executes exactly the words
that its iterator enumerates, each REPLAY followed by its window, and leaves the thread quiet. -/
theorem direct_mop_exactly_once (t : Tid) {insn : Word} {cop : TensixCop}
    (hop : tensixInsnOpcode insn = opcodeMop) (hh : cop.halted = false) (hq : (cop.view t).Quiet) :
    (∃ ws, Generates (cop.threads t).mopCfg (mopIterator (cop.threads t) insn) ws) ∧
      ∀ ws, Generates (cop.threads t).mopCfg (mopIterator (cop.threads t) insn) ws →
        (∀ w ∈ ws, TemplateWord (cop.replay t).buffer w) →
        ∀ ls cop', CopRun cop ls cop' → (∀ l ∈ ls, l.tid = t → l.act = .issue insn ∧ l.ok = false) →
          (∃ ok cop'', Acts cop' ⟨t, .issue insn, ok⟩ cop'') ∧
          ∀ cop'', Acts cop' ⟨t, .issue insn, true⟩ cop'' →
            (cop''.threads t).log = (cop.threads t).log ++ .issued insn ::
              (ws.flatMap (withWindow (cop.replay t).buffer)).map (.ran .expander) ∧
            (cop''.view t).Quiet ∧ (cop''.threads t).directInsn = none := by
  refine ⟨generates_exists _ _, fun ws hg hw ls cop' hrun hls => ?_⟩
  have hat : MopAt (cop.view t) insn ws (cop'.view t) := MopAt.run hop hh hq hg hw hrun hls (.inl rfl)
  constructor
  · obtain ⟨ok, v', hv⟩ := hat.returns hop hh hq hg hw t
    exact ⟨ok, _, v', hv, rfl⟩
  · rintro cop'' ⟨v', hv, rfl⟩
    have hc : Completed ((cop.view t).mopIssued insn) ws v' := hat.attempt hop hh hq hg hw hv
    have hlog : v'.thread.log = _ := hc.executes.log
    rw [hq.mopIssued_todo] at hlog
    simp only [TensixCop.putView_thread_self]
    refine ⟨by rw [hlog]; simp [CopView.mopIssued, CopView.issued, CopView.setThread, CopView.setDirect,
      CopView.idle, tensixCopMopExpand], ⟨?_, ?_, ?_, ?_, ?_⟩, hc.direct⟩
    · simpa using hc.settled.current
    · simp only [TensixCop.view_thread, TensixCop.putView_thread_self, hc.executes.fifo]
      exact hq.fifo
    · simpa using hc.mop
    · simp only [TensixCop.view_replay, TensixCop.putView_replay_self, hc.executes.recording]
      exact hq.recording
    · simpa using hc.settled.expanding

def gatedMop : TensixCop :=
  TensixCop.after 0
    { powerUp with
      threads := fun _ => { TensixThreadCop.init with mopCfg := fun i => if i = 3 then 0x04000010 else 0 }
      replay := fun _ => { Replay.init with buffer := fun _ => 0x02000000 } }
    [(2, .push 0xA3A00004), (2, .step), (2, .push 0xA6FF8005), (2, .step)]

def gatedMopTrace : List Label :=
  [⟨2, .issue 0x01000000, false⟩, ⟨1, .push 0xA4000004, true⟩, ⟨2, .issue 0x01000000, false⟩,
    ⟨1, .step, true⟩]

theorem direct_mop_exactly_once_gated :
    ∃ cop' cop'', CopRun gatedMop gatedMopTrace cop' ∧ Acts cop' ⟨2, .issue 0x01000000, true⟩ cop'' ∧
      (cop''.threads 2).log = (gatedMop.threads 2).log ++
        [.issued 0x01000000, .ran .expander 0x04000010, .ran .expander 0x02000000] := by
  have hq : (gatedMop.view 2).Quiet := ⟨by decide, rfl, by decide, by decide, by decide⟩
  have hrun : CopRun gatedMop gatedMopTrace (gatedMop.after 9 (gatedMopTrace.map fun l => (l.tid, l.act))) :=
    TensixCop.exec_after (by decide)
  have hlast : Acts (gatedMop.after 9 (gatedMopTrace.map fun l => (l.tid, l.act)))
      ⟨2, .issue 0x01000000, true⟩
      ((gatedMop.after 9 (gatedMopTrace.map fun l => (l.tid, l.act))).after 9 [(2, .issue 0x01000000)]) :=
    Run.single.mp (TensixCop.exec_after (by decide))
  have hg : Generates (gatedMop.threads 2).mopCfg (mopIterator (gatedMop.threads 2) 0x01000000)
      [0x04000010] :=
    .next rfl (.done rfl)
  have hwindow : replayWindow (gatedMop.replay 2).buffer 0x04000010 = [0x02000000] := rfl
  have hw : ∀ w ∈ [0x04000010], TemplateWord (gatedMop.replay 2).buffer w := by
    simp only [List.mem_singleton, forall_eq]
    refine ⟨by decide, by decide, fun _ => ?_⟩
    simp only [hwindow, List.mem_singleton, forall_eq]
    exact ⟨by decide, by decide⟩
  obtain ⟨hlog, -⟩ := ((direct_mop_exactly_once 2 (by decide) (by decide) hq).2 _ hg hw _ _ hrun
    (by decide)).2 _ hlast
  exact ⟨_, _, hrun, hlast, hlog⟩

end Rv32Emu
