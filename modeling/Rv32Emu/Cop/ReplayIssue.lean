import Rv32Emu.Cop.Flow
import Rv32Emu.Cop.Fuel

namespace Rv32Emu

def CopView.replayIssued (v : CopView) (insn : Word) : CopView :=
  (v.setReplay (ttreplay v.replay (tensixInsnParam insn))).issued insn

structure ReplayAt (insn : Word) (v : CopView) : Prop where
  running : v.halted = false
  fifo : v.thread.insnFifo.pop = none
  mop : v.thread.mopState.active = false
  recording : v.replay.recording = false
  pending : ∀ w, v.thread.currentInsn = some w → Ordinary w ∧ v.thread.currentOrigin = .expander
  window : ∀ w ∈ replayWindow v.replay.buffer insn, Ordinary w

section issue

variable {v v' d : CopView} {insn : Word} {tid : Tid} {ok : Bool} {fuel : ℕ}

theorem ReplayAt.setDirect (h : ReplayAt insn v) : ReplayAt insn (v.setDirect insn) :=
  ⟨h.running, h.fifo, h.mop, h.recording, h.pending, h.window⟩

theorem ReplayAt.setCore (h : ReplayAt insn v) (core : Tensix) : ReplayAt insn (v.setCore core) :=
  ⟨h.running, h.fifo, h.mop, h.recording, h.pending, h.window⟩

theorem ReplayAt.idle (h : ReplayAt insn v) : ReplayAt insn v.idle :=
  ⟨h.running, h.fifo, h.mop, h.recording, h.pending, h.window⟩

theorem ReplayAt.issued_expansion (h : ReplayAt insn v) (hl : bit (tensixInsnParam insn) 0 = false) :
    Expansion (v.replayIssued insn) [] ∧ (v.replayIssued insn).replay.expanding = true ∧
      (v.replayIssued insn).todo [] = v.thread.currentInsn.toList ++ replayWindow v.replay.buffer insn := by
  obtain ⟨hb, -, hx, hrest⟩ := ttreplay_rest v.replay hl
  have hrest' : (v.replayIssued insn).replay.rest = replayWindow v.replay.buffer insn := hrest
  refine ⟨⟨h.running, .of_inactive h.mop, by simp, h.pending, ?_⟩, hx, ?_⟩
  · rw [hrest']
    exact h.window
  · rw [CopView.todo, hrest']
    simp [CopView.replayIssued, CopView.issued, CopView.setThread, CopView.setReplay]

theorem directInsn_replay (hop : tensixInsnOpcode insn = opcodeReplay)
    (hl : bit (tensixInsnParam insn) 0 = false) (h : ReplayAt insn v) :
    directInsn fuel v insn tid =
      (drainReplayExpansion fuel (v.replayIssued insn) tid).andThen fun v => some (true, v.finish) := by
  have hne : ¬(tensixInsnOpcode insn = opcodeMopCfg ∨ isWaitOpcode (tensixInsnOpcode insn) = true) := by
    rw [hop]
    decide
  have hm : tensixInsnOpcode insn ≠ opcodeMop := by
    rw [hop]
    decide
  rw [directInsn_eq fuel tid fun _ => h.recording, verdict_expander (.inr hop), Verdict.toDirect, if_neg hne,
    if_neg hm, execute_replay v tid hop, drainIfExpanding]
  exact congrArg (Outcome.andThen · _) (if_pos (h.issued_expansion hl).2.1)

theorem ReplayAt.drainFifo (h : ReplayAt insn v) (hd : drainFifo fuel v tid = some d) :
    ReplayAt insn d ∧ d.replay = v.replay ∧ (v.thread.currentInsn = none → SameLocal v d) ∧
      ∃ out, d.thread.log = v.thread.log ++ out.map (.ran .expander) ∧
        v.thread.currentInsn.toList = out ++ d.thread.currentInsn.toList := by
  have hempty {u d : CopView} {n : ℕ} (hu : ReplayAt insn u) (hc : u.thread.currentInsn = none)
      (hd : Rv32Emu.drainFifo n u tid = some d) : d = u.idle := by
    cases n with
    | zero => cases hd
    | succ n =>
      rw [drainFifo_empty hu.running hc hu.fifo] at hd
      exact (Option.some.inj hd).symm
  cases hc : v.thread.currentInsn with
  | none =>
    obtain rfl := hempty h hc hd
    exact ⟨h.idle, rfl, fun _ => ⟨rfl, rfl, rfl⟩, [], (List.append_nil _).symm,
      by rw [show v.idle.thread.currentInsn = none from hc]; rfl⟩
  | some w =>
    obtain ⟨hord, horigin⟩ := h.pending w hc
    cases hstep : tensixCopStep v tid with
    | mk ok u =>
      have hs := tensixCopStep_pending h.running hc hord.1 hstep
      have hreplay := hs.replay hord.2
      have hu : ReplayAt insn u := by
        refine ⟨hs.halted.trans h.running, by rw [hs.fifo]; exact h.fifo, by rw [hs.mopState]; exact h.mop,
          by rw [hreplay]; exact h.recording, fun w' hw' => ?_, by rw [hreplay]; exact h.window⟩
        rw [hs.current] at hw'
        cases ok with
        | true => cases hw'
        | false =>
          cases hw'
          exact ⟨hord, hs.origin.trans horigin⟩
      obtain ⟨n, rfl, hx | ⟨u', hu', hl⟩⟩ := Loop.unfold hd
      · rw [hstep] at hx
        cases ok with
        | true => cases hx
        | false =>
          cases hx
          exact ⟨hu, hreplay, by simp, [], by rw [hs.log]; simp, by rw [hs.current]; rfl⟩
      · rw [hstep] at hu'
        cases ok with
        | false => cases hu'
        | true =>
          cases hu'
          have hcur : u.thread.currentInsn = none := hs.current
          obtain rfl := hempty hu hcur hl
          refine ⟨hu.idle, hreplay, by simp,
            [w], ?_, by rw [show u.idle.thread.currentInsn = none from hcur]; rfl⟩
          show u.thread.log = _
          rw [hs.log, horigin]
          rfl

theorem feedEntry_flows (hh : v.halted = false) (hx : v.replay.expanding = true)
    (hlt : v.replay.expandCurrent < v.replay.expandCount) (h : tensixCopStep v.feedEntry tid = (ok, v')) :
    flows tid v v.replay.rest = (ok && flows tid v' v.feedEntry.replay.rest) := by
  have hs : SameLocal v v.feedEntry := ⟨rfl, rfl, rfl⟩
  have hh' : v.feedEntry.halted = false := hh
  rw [v.rest_feedEntry hx hlt, flows_local tid hs]
  exact tensixCopStep_flows hh' rfl h _

theorem drainReplayExpansion_flows (he : Expansion v []) (hx : v.replay.expanding = true)
    (hc : v.thread.currentInsn = none) (h : drainReplayExpansion fuel v tid = some (ok, v')) :
    ok = flows tid v v.replay.rest := by
  have hloop := Loop.invariant
    (I := fun s => (s.replay.expanding = true ∧ Expansion s [] ∧ s.thread.currentInsn = none) ∧
      flows tid v v.replay.rest = flows tid s s.replay.rest)
    (Q := fun r => r.1 = flows tid v v.replay.rest) ?_ ?_ h ⟨⟨hx, he, hc⟩, rfl⟩
  · exact hloop
  · rintro s s' ⟨⟨hsx, hse, hsc⟩, hf⟩ hturn
    rw [replayTurn_eq tid hsx hsc] at hturn
    split_ifs at hturn with hge
    · cases hturn
    have hfeed := hse.feed_window hsx hsc (not_le.mp hge)
    cases hstep : tensixCopStep s.feedEntry tid with
    | mk done u =>
      rw [hstep] at hturn
      cases done with
      | false => cases hturn
      | true =>
        cases hturn
        obtain ⟨hres, -, hreplay, hcur⟩ := hfeed.expansion.step_pending rfl hstep
        refine ⟨⟨by rw [hreplay]; exact hsx, hres.expansion, hcur⟩, ?_⟩
        rw [hf, feedEntry_flows hse.running hsx (not_le.mp hge) hstep, hreplay, Bool.true_and]
  · rintro s r ⟨⟨hsx, hse, hsc⟩, hf⟩ hturn
    rw [replayTurn_eq tid hsx hsc] at hturn
    split_ifs at hturn with hge
    · cases hturn
      rw [hf, Replay.rest_of_ge hge]
      rfl
    cases hstep : tensixCopStep s.feedEntry tid with
    | mk done u =>
      rw [hstep] at hturn
      cases done with
      | true => cases hturn
      | false =>
        cases hturn
        rw [hf, feedEntry_flows hse.running hsx (not_le.mp hge) hstep, Bool.false_and]

theorem ReplayAt.attempt (hop : tensixInsnOpcode insn = opcodeReplay)
    (hl : bit (tensixInsnParam insn) 0 = false) (h : ReplayAt insn v)
    (hact : ThreadActs tid v (.issue insn) ok v') :
    v'.halted = false ∧ v'.replay.buffer = v.replay.buffer ∧
      (v.thread.currentInsn = none → ok = flows tid v (replayWindow v.replay.buffer insn)) ∧
      if ok then ranWords v'.thread.log =
        ranWords v.thread.log ++ (v.thread.currentInsn.toList ++ replayWindow v.replay.buffer insn)
      else ReplayAt insn v' ∧ v'.thread.currentInsn ≠ none ∧
        ∃ more, ranWords v'.thread.log = ranWords v.thread.log ++ more := by
  obtain ⟨fuel, hact⟩ := hact
  rw [tensixCopStepDirect_inactive insn h.running h.mop, directAfterMop] at hact
  split at hact
  · cases hact
  next d hd =>
  obtain ⟨hat, hreplay, hlocal, out, hlog, hout⟩ := h.setDirect.drainFifo hd
  simp only [hat.mop, Bool.not_false, if_true, directInsn_replay hop hl hat] at hact
  obtain ⟨he, hx, htodo⟩ := hat.issued_expansion hl
  have hbuf : d.replay.buffer = v.replay.buffer := by rw [hreplay]; rfl
  have hran : ranWords (d.replayIssued insn).thread.log = ranWords v.thread.log ++ out := by
    show ranWords (d.thread.log ++ [.issued insn]) = _
    rw [hlog, ranWords_append, ranWords_append, ranWords_map]
    exact List.append_nil _
  have hcurrent : v.thread.currentInsn.toList = out ++ d.thread.currentInsn.toList := hout
  have hflows (hc : v.thread.currentInsn = none) (done : Bool) (u : CopView)
      (hu : drainReplayExpansion fuel (d.replayIssued insn) tid = some (done, u)) :
      done = flows tid v (replayWindow v.replay.buffer insn) := by
    have hdc : d.thread.currentInsn = none := by
      rw [hc] at hcurrent
      simpa using (List.append_eq_nil_iff.mp hcurrent.symm).2
    have hs : SameLocal (d.replayIssued insn) v :=
      ⟨(hlocal hc).core.symm, (hlocal hc).gate.symm, (hlocal hc).mopCfg.symm⟩
    have hrest : (d.replayIssued insn).replay.rest = replayWindow d.replay.buffer insn :=
      (ttreplay_rest d.replay hl).2.2.2
    rw [drainReplayExpansion_flows he hx hdc hu, hrest, hbuf, flows_local tid hs]
  obtain ⟨hb, rfl⟩ | ⟨u, hu, hv⟩ := Outcome.andThen_eq_some hact
  · have hdr := drainReplayExpansion_spec he hx hb
    obtain ⟨more, hm, htodo'⟩ := hdr.resumes.executes
    have hbuf' : v'.replay.buffer = v.replay.buffer :=
      hm.buffer.trans ((ttreplay_rest d.replay hl).1.trans hbuf)
    have hmop : v'.thread.mopState = d.thread.mopState := hdr.mopState
    refine ⟨hdr.resumes.expansion.running, hbuf', fun hc => hflows hc _ _ hb, ⟨hdr.resumes.expansion.running,
      by rw [hm.fifo]; exact hat.fifo, by rw [hmop]; exact hat.mop, ?_, hdr.resumes.expansion.pending,
      by rw [hbuf']; exact h.window⟩, hdr.blocked rfl, out ++ more, ?_⟩
    · rw [hm.recording]
      exact (ttreplay_rest d.replay hl).2.1.trans hat.recording
    · rw [hm.log, ranWords_append, ranWords_map, hran, List.append_assoc]
  · have hdr := drainReplayExpansion_spec he hx hu
    obtain ⟨more, hm, htodo'⟩ := hdr.resumes.executes
    obtain ⟨hcur, hexp⟩ := hdr.settled rfl
    have hmore : more = d.thread.currentInsn.toList ++ replayWindow v.replay.buffer insn := by
      rw [htodo, CopView.todo, hcur, Replay.rest_eq_nil hexp, hbuf] at htodo'
      simpa using htodo'.symm
    cases hv
    refine ⟨hdr.resumes.expansion.running, hm.buffer.trans ((ttreplay_rest d.replay hl).1.trans hbuf),
      fun hc => hflows hc _ _ hu, ?_⟩
    show ranWords u.thread.log = _
    rw [hm.log, ranWords_append, ranWords_map, hran, hmore, hcurrent]
    simp

end issue

structure ReplayAgain (insn : Word) (v₀ v : CopView) : Prop where
  at_ : ReplayAt insn v
  pending : v.thread.currentInsn ≠ none
  buffer : v.replay.buffer = v₀.replay.buffer
  ran : ∃ more, ranWords v.thread.log = ranWords v₀.thread.log ++ more

section run

variable {insn : Word} {v₀ : CopView} {t : Tid} {cop cop' : TensixCop} {ls : List Label}
  (hop : tensixInsnOpcode insn = opcodeReplay) (hl : bit (tensixInsnParam insn) 0 = false)

include hop hl

theorem ReplayAgain.of_blocked {v v' : CopView} (h : ReplayAt insn v)
    (hact : ThreadActs t v (.issue insn) false v') : ReplayAgain insn v v' := by
  obtain ⟨-, hb, -, hat, hp, hran⟩ := h.attempt hop hl hact
  exact ⟨hat, hp, hb, hran⟩

theorem ReplayAgain.blocked {v v' : CopView} (h : ReplayAgain insn v₀ v)
    (hact : ThreadActs t v (.issue insn) false v') : ReplayAgain insn v₀ v' := by
  obtain ⟨hat, hp, hb, more', hran'⟩ := ReplayAgain.of_blocked hop hl h.at_ hact
  obtain ⟨more, hran⟩ := h.ran
  exact ⟨hat, hp, hb.trans h.buffer, more ++ more', by rw [hran', hran, List.append_assoc]⟩

theorem ReplayAgain.run (h : CopRun cop ls cop')
    (hls : ∀ l ∈ ls, l.tid = t → l.act = .issue insn ∧ l.ok = false)
    (hv : ReplayAgain insn v₀ (cop.view t)) : ReplayAgain insn v₀ (cop'.view t) := by
  induction h with
  | nil => exact hv
  | @cons cop mid cop' l ls hs _ ih =>
    refine ih (fun l hl => hls l (List.mem_cons_of_mem _ hl)) ?_
    obtain ⟨tid, a, ok⟩ := l
    obtain ⟨v, hact, rfl⟩ := hs
    by_cases ht : tid = t
    · obtain ⟨rfl, rfl⟩ := hls _ List.mem_cons_self ht
      subst ht
      have hnext := hv.blocked hop hl hact
      rw [cop.view_putView tid v (hnext.at_.running.trans hv.at_.running.symm)]
      exact hnext
    · rw [cop.view_putView_ne v (Ne.symm ht)]
      exact ⟨hv.at_.setCore v.core, hv.pending, hv.buffer, hv.ran⟩

theorem ReplayAgain.last {v v' : CopView} (h : ReplayAgain insn v₀ v)
    (hact : ThreadActs t v (.issue insn) true v') :
    ∃ more entry, ranWords v'.thread.log =
      ranWords v₀.thread.log ++ (more ++ entry :: replayWindow v₀.replay.buffer insn) := by
  obtain ⟨-, -, -, hran⟩ := h.at_.attempt hop hl hact
  obtain ⟨more, hmore⟩ := h.ran
  obtain ⟨entry, hentry⟩ := Option.ne_none_iff_exists'.mp h.pending
  have hran : ranWords v'.thread.log = _ := hran
  refine ⟨more, entry, ?_⟩
  rw [hran, hmore, hentry, h.buffer]
  simp

end run

theorem direct_replay_exactly_once_iff (t : Tid) {insn : Word} {cop cop' : TensixCop} {ls : List Label}
    (hop : tensixInsnOpcode insn = opcodeReplay) (hl : bit (tensixInsnParam insn) 0 = false)
    (hh : cop.halted = false) (hq : (cop.view t).Quiet)
    (hw : ∀ w ∈ replayWindow (cop.replay t).buffer insn, Ordinary w)
    (hrun : CopRun cop (ls ++ [⟨t, .issue insn, true⟩]) cop')
    (hls : ∀ l ∈ ls, l.tid = t → l.act = .issue insn ∧ l.ok = false)
    (hfirst : ∀ l ∈ ls.head?, l.tid = t) :
    ranWords (cop'.threads t).log =
        ranWords (cop.threads t).log ++ replayWindow (cop.replay t).buffer insn ↔
      flows t (cop.view t) (replayWindow (cop.replay t).buffer insn) = true := by
  have hat : ReplayAt insn (cop.view t) :=
    ⟨hh, hq.fifo, hq.mop, hq.recording, fun w hc => absurd (hq.current.symm.trans hc) (by simp), hw⟩
  obtain ⟨mid, hmid, hlast⟩ := hrun.split
  obtain ⟨v', hact, rfl⟩ := Run.single.mp hlast
  rw [TensixCop.putView_thread_self]
  cases hmid with
  | nil =>
    obtain ⟨-, -, hflows, hran⟩ := hat.attempt hop hl hact
    have hran : ranWords v'.thread.log = _ := hran
    rw [hran, show (cop.view t).thread.currentInsn = none from hq.current]
    exact iff_of_true rfl (hflows hq.current).symm
  | @cons _ u _ l ls' hs hrest =>
    obtain ⟨tid, a, ok⟩ := l
    obtain rfl : tid = t := hfirst _ rfl
    obtain ⟨rfl, rfl⟩ := hls _ List.mem_cons_self rfl
    obtain ⟨v, hv, rfl⟩ := hs
    have hagain := ReplayAgain.of_blocked hop hl hat hv
    obtain ⟨-, -, hflows, -⟩ := hat.attempt hop hl hv
    rw [← cop.view_putView tid v (hagain.at_.running.trans hh.symm)] at hagain
    obtain ⟨more, entry, hran⟩ :=
      (hagain.run hop hl hrest fun l hl => hls l (List.mem_cons_of_mem _ hl)).last hop hl hact
    have hheld : false = flows tid (cop.view tid) (replayWindow (cop.replay tid).buffer insn) :=
      hflows hq.current
    refine iff_of_false (fun h => ?_) (by rw [← hheld]; exact Bool.false_ne_true)
    rw [hran] at h
    have hlen := congrArg List.length h
    simp at hlen
    omega

def nopReplay : TensixCop :=
  { powerUp with replay := fun _ => { Replay.init with buffer := fun _ => 0x02000000 } }

theorem nopReplay_window (cop : TensixCop) (h : (cop.replay 2).buffer = fun _ => 0x02000000) :
    replayWindow (cop.replay 2).buffer 0x04000010 = [0x02000000] := by
  rw [h]
  rfl

theorem nop_ordinary : ∀ w ∈ [(0x02000000 : Word)], Ordinary w := by
  simp only [List.mem_singleton, forall_eq]
  exact ⟨by decide, by decide⟩

def ringReplay : TensixCop :=
  { powerUp with replay := fun _ => { Replay.init with buffer := fun i => 0x02000000 + w32 i } }

/-- Four entries from 30 on, so the window goes past the end of the buffer. -/
theorem ringReplay_window :
    replayWindow (ringReplay.replay 2).buffer 0x04078040 =
      [0x0200001E, 0x0200001F, 0x02000000, 0x02000001] := rfl

theorem direct_replay_exactly_once_iff_ring :
    ∃ cop', CopRun ringReplay [⟨2, .issue 0x04078040, true⟩] cop' ∧
      ranWords (cop'.threads 2).log =
        ranWords (ringReplay.threads 2).log ++ [0x0200001E, 0x0200001F, 0x02000000, 0x02000001] := by
  have hrun : CopRun ringReplay ([] ++ [⟨2, .issue 0x04078040, true⟩])
      (ringReplay.after 9 [(2, .issue 0x04078040)]) := TensixCop.exec_after (by decide)
  have hord (w : Word) (hw : w ∈ replayWindow (ringReplay.replay 2).buffer 0x04078040) : Ordinary w := by
    have hnop : tensixInsnOpcode w = opcodeNop := by
      simp only [ringReplay_window, List.mem_cons, List.not_mem_nil, or_false] at hw
      obtain rfl | rfl | rfl | rfl := hw <;> decide
    exact ⟨by rw [hnop]; decide, by rw [hnop]; decide⟩
  have hflows : flows 2 (ringReplay.view 2) (replayWindow (ringReplay.replay 2).buffer 0x04078040) =
      true := by decide
  rw [← ringReplay_window]
  exact ⟨_, hrun, (direct_replay_exactly_once_iff 2 (by decide) (by decide) rfl ⟨rfl, rfl, rfl, rfl, rfl⟩ hord
    hrun (by simp) (by simp)).mpr hflows⟩

def gatedReplay : TensixCop :=
  nopReplay.after 0 [(2, .push 0xA3A00004), (2, .step), (2, .push 0xA6FF8005), (2, .step)]

def gatedReplayTrace : List Label :=
  [⟨2, .issue 0x04000010, false⟩, ⟨1, .push 0xA4000004, true⟩, ⟨1, .step, true⟩]

theorem direct_replay_executed_twice :
    ∃ cop', CopRun gatedReplay (gatedReplayTrace ++ [⟨2, .issue 0x04000010, true⟩]) cop' ∧
      (gatedReplay.view 2).Quiet ∧ (∀ w ∈ replayWindow (gatedReplay.replay 2).buffer 0x04000010, Ordinary w) ∧
      (∀ l ∈ gatedReplayTrace, l.tid = 2 → l.act = .issue 0x04000010 ∧ l.ok = false) ∧
      ranWords (cop'.threads 2).log = ranWords (gatedReplay.threads 2).log ++ [0x02000000, 0x02000000] ∧
      ranWords (cop'.threads 2).log ≠
        ranWords (gatedReplay.threads 2).log ++ replayWindow (gatedReplay.replay 2).buffer 0x04000010 := by
  have hrun : CopRun gatedReplay (gatedReplayTrace ++ [⟨2, .issue 0x04000010, true⟩])
      (gatedReplay.after 9 ((gatedReplayTrace.map fun l => (l.tid, l.act)) ++ [(2, .issue 0x04000010)])) :=
    TensixCop.exec_after (by decide)
  refine ⟨_, hrun, ⟨by decide, rfl, by decide, by decide, by decide⟩, ?_, by decide, by decide, ?_⟩
  · rw [nopReplay_window gatedReplay rfl]
    exact nop_ordinary
  · rw [nopReplay_window gatedReplay rfl]
    decide

end Rv32Emu
