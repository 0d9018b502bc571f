import Rv32Emu.Cop.MopIssue
import Rv32Emu.Cop.ProgramOrder
import Rv32Emu.Cop.ReplayIssue
import Rv32Emu.Cop.Stream

namespace Rv32Emu

def CopView.inProgress (v : CopView) : List Word :=
  if v.thread.mopState.active then
    v.thread.directInsn.toList.filter fun insn => tensixInsnOpcode insn = opcodeMop
  else []

def CopView.DirectStarted (v : CopView) : Prop :=
  ∀ insn, v.thread.directInsn = some insn → tensixInsnOpcode insn = opcodeMop →
    v.thread.mopState.active = true

theorem CopView.inProgress_inactive {v : CopView} (h : v.thread.mopState.active = false) :
    v.inProgress = [] := by
  simp [inProgress, h]

theorem CopView.inProgress_none {v : CopView} (h : v.thread.directInsn = none) : v.inProgress = [] := by
  simp [inProgress, h]

theorem CopView.inProgress_mop {v : CopView} {insn : Word} (hm : v.thread.mopState.active = true)
    (hd : v.thread.directInsn = some insn) (hop : tensixInsnOpcode insn = opcodeMop) :
    v.inProgress = [insn] := by
  simp [inProgress, hm, hd, hop]

theorem CopView.inProgress_ordinary {v : CopView} {insn : Word} (hd : v.thread.directInsn = some insn)
    (ho : Ordinary insn) : v.inProgress = [] := by
  simp [inProgress, hd, ho.1]

theorem CopView.inProgress_eq_singleton {v : CopView} {insn : Word} (h : v.inProgress = [insn]) :
    v.thread.mopState.active = true ∧ v.thread.directInsn = some insn ∧
      tensixInsnOpcode insn = opcodeMop := by
  unfold inProgress at h
  split_ifs at h with hm
  have hmem : insn ∈ v.thread.directInsn.toList.filter fun insn => tensixInsnOpcode insn = opcodeMop := by
    simp [h]
  simp only [List.mem_filter, Option.mem_toList, decide_eq_true_eq] at hmem
  exact ⟨hm, hmem⟩

inductive MayIssue (tid : Tid) (v : CopView) (insn : Word) : Prop
  /-- The direct MOP in progress is issued again. -/
  | again (h : v.inProgress = [insn])
  /-- A MOP from the FIFO is in progress and nothing is queued behind it. -/
  | behindMop (hm : v.thread.mopState.active = true) (hp : v.inProgress = [])
      (hf : v.thread.insnFifo.contents = []) (ho : Ordinary insn)
  /-- The window of a REPLAY from the FIFO is ahead of a direct MOP. -/
  | behindReplay (hm : v.thread.mopState.active = false) (hq : v.queue = [])
      (hop : tensixInsnOpcode insn = opcodeMop) (hz : ∀ w ∈ v.replay.rest, tensixInsnOpcode w ≠ opcodeMopCfg)
  /-- Nothing is being expanded, and only the last queued instruction may start an expansion. -/
  | drain {qs ms : List Word} (hm : v.thread.mopState.active = false) (hx : v.replay.expanding = false)
      (hq : v.queue = qs ++ ms) (hqs : ∀ w ∈ qs, Ordinary w)
      (hms : ms = [] ∧ tensixInsnOpcode insn ≠ opcodeReplay ∨
        (∃ m, ms = [m] ∧ tensixInsnOpcode m = opcodeMop) ∧ Ordinary insn)
      (ho : overtakes tid insn v v.queue = false)
  /-- A direct REPLAY whose window goes through. -/
  | replay (hm : v.thread.mopState.active = false) (hx : v.replay.expanding = false) (hq : v.queue = [])
      (hop : tensixInsnOpcode insn = opcodeReplay) (hl : bit (tensixInsnParam insn) 0 = false)
      (hw : flows tid v (replayWindow v.replay.buffer insn) = true)

def Issued (v : CopView) (ahead : List Word) (insn : Word) (ok : Bool) (v' : CopView) : Prop :=
  v'.DirectStarted ∧ ∃ ahead' insns, Streams v ahead insns v' ahead' ∧
    v.inProgress ++ insns = (if ok then [insn] else []) ++ v'.inProgress

section direct

variable {v v' d u x : CopView} {insn : Word} {ahead ws : List Word} {tid : Tid} {ok : Bool} {fuel : ℕ}

theorem Tracked.vacant (hv : Tracked v ahead) (hc : v.thread.currentInsn = none)
    (hm : v.thread.mopState.active = false) (hf : v.thread.insnFifo.contents = []) :
    Expansion v [] ∧ ahead = v.todo [] := by
  cases hv.stream with
  | held hc' => cases hc.symm.trans hc'
  | expanding he hu =>
    obtain rfl := he.generates.nil_of_inactive hm
    rw [hf] at hu
    cases hu
    exact ⟨he, by rw [List.append_nil, plain_todo he]⟩

theorem Tracked.issued_passed (hv : Tracked d ahead) (hc : d.thread.currentInsn = none)
    (hf : d.thread.insnFifo.contents = []) (hmay : MayTake d insn) (hexp : Expandable insn)
    (hx : verdict d insn tid = .passed x) :
    ∃ ws, Expansion (x.issued insn) ws ∧ Streams d ahead [insn] (x.issued insn) (plain (x.todo ws)) := by
  obtain ⟨he, rfl⟩ := hv.vacant hc hmay.1 hf
  have hp := verdict_passed hx
  have hz := verdict_passed_zmask hx
  obtain ⟨e, hexp⟩ := hexp.expands d.thread.mopCfg d.replay.buffer
      ((d.todo []).foldl zmaskAfter d.thread.zmaskHi16)
  obtain ⟨ws, hxe, hb, hrec, hsplit⟩ := hp.starts hv.templates he hc hmay hexp
  have hissued : Expansion (x.issued insn) ws :=
    ⟨hxe.running, hxe.generates, hxe.template, hxe.pending, hxe.window⟩
  have hfifo : x.thread.insnFifo.contents = [] := by rw [hp.fifo, hf]
  refine ⟨ws, hissued, ⟨hxe.running, ?_, hrec.trans hv.recording, ?_, ?_⟩, hp.mopCfg, hb, ?_, plain [insn], e,
    .single hexp, hsplit, ?_, ?_⟩
  · show x.thread.insnFifo.WellFormed
    rw [hp.fifo]
    exact hv.wellFormed
  · show Templates x.thread.mopCfg x.replay.buffer
    rw [hp.mopCfg, hb]
    exact hv.templates
  · have hu : Unfolds x.thread.mopCfg x.replay.buffer ((x.todo ws).foldl zmaskAfter x.thread.zmaskHi16)
        x.thread.insnFifo.contents [] := by
      rw [hfifo]
      exact .nil _
    have hstream := Stream.expanding hissued hu
    rwa [List.append_nil] at hstream
  · have hrest (hm : tensixInsnOpcode insn ≠ opcodeMop) : d.todo [] = [] := by
      have hexpanding := hmay.2.resolve_right fun h => hm h.1
      simp [CopView.todo, hc, Replay.rest_eq_nil hexpanding]
    exact ⟨[.issued insn], congrArg (· ++ _) hp.log, rfl, .single hrest⟩
  · show x.thread.zmaskHi16 = _
    rw [hz, foldl_plain]
    rfl
  · show executedWords (x.thread.log ++ [.issued insn]) = _
    rw [executedWords_append, hp.log]
    rfl

theorem finish_streams (hv : Tracked v ahead) : Streams v ahead [] v.finish ahead :=
  hv.same rfl rfl rfl rfl rfl rfl rfl rfl rfl

theorem waitAt_streams (hv : Tracked v ahead) {counted : Bool} (hx : verdict v insn tid = .held counted x) :
    Streams v ahead [] (x.waitAt counted) ahead ∧ (x.waitAt counted).thread.directInsn = v.thread.directInsn ∧
      (x.waitAt counted).thread.mopState = v.thread.mopState := by
  obtain rfl | ⟨rfl, -⟩ := verdict_held hx <;> cases counted <;>
    exact ⟨hv.same rfl rfl rfl rfl rfl rfl rfl rfl rfl, rfl, rfl⟩

def MopReturns (v : CopView) (ok : Bool) (v' : CopView) : Prop :=
  if ok then v'.thread.directInsn = none ∧ v'.thread.mopState.active = false ∧ v'.Settled ∧
    v'.thread.insnFifo = v.thread.insnFifo
  else v'.thread.directInsn = v.thread.directInsn ∧ v'.thread.mopState.active = true

theorem Tracked.mopContinue (hv : Tracked v ahead) (hm : v.thread.mopState.active = true)
    (h : mopContinueExecution fuel v tid = some (ok, v')) :
    (∃ ahead', Streams v ahead [] v' ahead') ∧ MopReturns v ok v' := by
  cases hv.stream with
  | held _ _ hm' => cases hm.symm.trans hm'
  | expanding he hu =>
    have hcont := mopContinueExecution_spec he hm h
    cases ok with
    | true =>
      have hcont : Completed v _ v' := hcont
      exact ⟨⟨_, hcont.streams hv hu⟩, hcont.direct, hcont.mop, hcont.settled, hcont.executes.fifo⟩
    | false =>
      obtain ⟨-, hm, ws', hr⟩ := hcont
      exact ⟨⟨_, hr.streams hv hu⟩, hr.direct, hm⟩

theorem Tracked.mopFinishAll (hv : Tracked v ahead) (hm : v.thread.mopState.active = true)
    (h : mopFinishAll fuel v tid = some (ok, v')) :
    (∃ ahead', Streams v ahead [] v' ahead') ∧ MopReturns v ok v' := by
  obtain ⟨n, rfl, hturn⟩ := Loop.unfold h
  cases hc : mopContinueExecution (n + 1) v tid with
  | none => simp [hm, hc] at hturn
  | some r =>
    obtain ⟨done, u⟩ := r
    have hcont := hv.mopContinue hm hc
    simp only [hm, hc, Bool.not_true, Bool.false_eq_true, if_false] at hturn
    cases done with
    | false =>
      obtain hturn | ⟨s, hturn, -⟩ := hturn <;> cases hturn
      exact hcont
    | true =>
      obtain hturn | ⟨s, hturn, hl⟩ := hturn <;> cases hturn
      -- the expander has stopped, so the loop ends with its second turn
      have hstop : u.thread.mopState.active = false := hcont.2.2.1
      obtain ⟨m, -, hturn | ⟨s, hturn, -⟩⟩ := Loop.unfold hl <;>
        simp only [hstop, Bool.not_false, if_true] at hturn <;> cases hturn
      exact hcont

theorem directInsn_held (hv : Tracked d ahead) (hd : d.thread.directInsn = some insn) (ho : Ordinary insn)
    (hx : (verdict d insn tid).ok = false) (h : directInsn fuel d insn tid = some (ok, v')) :
    Issued d ahead insn ok v' := by
  rw [directInsn_eq fuel tid fun _ => hv.recording] at h
  cases hw : verdict d insn tid with
  | passed x =>
    rw [hw] at hx
    cases hx
  | held counted x =>
    rw [hw] at h
    cases h
    obtain ⟨hstream, hdirect, -⟩ := waitAt_streams hv hw
    have hd' := hdirect.trans hd
    refine ⟨fun m hm hop => ?_, _, [], hstream, ?_⟩
    · cases hd'.symm.trans hm
      exact absurd hop ho.1
    · rw [CopView.inProgress_ordinary hd ho, CopView.inProgress_ordinary hd' ho]
      rfl

theorem directInsn_ordinary (hv : Tracked d ahead) (hd : d.thread.directInsn = some insn)
    (hc : d.thread.currentInsn = none) (hf : d.thread.insnFifo.contents = [])
    (hm : d.thread.mopState.active = false) (hx : d.replay.expanding = false) (ho : Ordinary insn)
    (h : directInsn fuel d insn tid = some (ok, v')) : Issued d ahead insn ok v' := by
  cases hw : verdict d insn tid with
  | held counted x => exact directInsn_held hv hd ho (by rw [hw]; rfl) h
  | passed x =>
    have hexpanding : (verdict d insn tid).view.replay.expanding = false := by rw [verdict_replay ho.2, hx]
    rw [directInsn_eq fuel tid fun _ => hv.recording, Verdict.toDirect_plain insn ho.1 hexpanding, hw] at h
    cases h
    obtain ⟨ws, he, hstream⟩ := hv.issued_passed hc hf ⟨hm, .inl hx⟩ (fun hr => absurd hr ho.2) hw
    refine ⟨fun _ hslot => (by cases hslot), _, [insn], hstream.trans (finish_streams hstream.tracked), ?_⟩
    rw [CopView.inProgress_inactive hm, CopView.inProgress_none rfl]
    rfl

theorem directInsn_mop (hv : Tracked d ahead) (hd : d.thread.directInsn = some insn)
    (hc : d.thread.currentInsn = none) (hf : d.thread.insnFifo.contents = []) (hmay : MayTake d insn)
    (hop : tensixInsnOpcode insn = opcodeMop) (h : directInsn fuel d insn tid = some (ok, v')) :
    Issued d ahead insn ok v' := by
  have hne : ¬(tensixInsnOpcode insn = opcodeMopCfg ∨ isWaitOpcode (tensixInsnOpcode insn) = true) := by
    rw [hop]
    decide
  have hw : verdict d insn tid = .passed (tensixExecuteInsn d insn tid).2 := verdict_expander (.inl hop)
  rw [directInsn_eq fuel tid fun _ => hv.recording, hw, Verdict.toDirect, if_neg hne, if_pos hop] at h
  have hp := verdict_passed hw
  obtain ⟨ws, he, hstream⟩ := hv.issued_passed hc hf hmay (by intro hr; cases hop.symm.trans hr) hw
  have hactive : ((tensixExecuteInsn d insn tid).2.issued insn).thread.mopState.active = true := by
    show (tensixExecuteInsn d insn tid).2.thread.mopState.active = true
    rw [hp.mopStart hop, mopStart_active]
  obtain ⟨⟨ahead', hcont⟩, hend⟩ := hstream.tracked.mopContinue hactive h
  have hinsns := hstream.trans hcont
  cases ok with
  | true =>
    refine ⟨fun m hm => ?_, _, _, hinsns, ?_⟩
    · cases hend.1.symm.trans hm
    · rw [CopView.inProgress_inactive hmay.1, CopView.inProgress_none hend.1]
      rfl
  | false =>
    have hd' : v'.thread.directInsn = some insn := hend.1.trans (hp.direct.trans hd)
    refine ⟨fun _ _ _ => hend.2, _, _, hinsns, ?_⟩
    rw [CopView.inProgress_inactive hmay.1, CopView.inProgress_mop hend.2 hd' hop]
    rfl

theorem TensixFifo.pop_eq_none_of_contents {f : TensixFifo} (h : f.contents = []) : f.pop = none := by
  cases hp : f.pop with
  | none => rfl
  | some r =>
    obtain ⟨hc, -, -⟩ := pop_eq_some (w := r.1) (g := r.2) hp
    have hlen : f.contents.length = f.count := Ring.window_length ..
    rw [h] at hlen
    exact absurd hlen hc.ne

theorem directInsn_window (hv : Tracked d ahead) (hc : d.thread.currentInsn = none)
    (hf : d.thread.insnFifo.contents = []) (hm : d.thread.mopState.active = false)
    (hx : d.replay.expanding = false) (hop : tensixInsnOpcode insn = opcodeReplay)
    (hl : bit (tensixInsnParam insn) 0 = false) (hw : flows tid d (replayWindow d.replay.buffer insn) = true)
    (h : directInsn fuel d insn tid = some (ok, v')) : Issued d ahead insn ok v' := by
  have hat : ReplayAt insn d := ⟨hv.running, TensixFifo.pop_eq_none_of_contents hf, hm, hv.recording,
    fun w hw => absurd (hc.symm.trans hw) (by simp), hv.templates.window insn⟩
  have hverdict : verdict d insn tid = .passed (d.setReplay (ttreplay d.replay (tensixInsnParam insn))) := by
    rw [verdict_expander (.inr hop), execute_replay d tid hop]
  obtain ⟨ws, he, hstream⟩ := hv.issued_passed hc hf ⟨hm, .inl hx⟩ (fun _ => hl) hverdict
  obtain rfl := he.generates.nil_of_inactive hm
  change Expansion (d.replayIssued insn) [] at he
  change Streams d ahead [insn] (d.replayIssued insn) (plain ((d.replayIssued insn).todo [])) at hstream
  obtain ⟨-, hexpanding, -⟩ := hat.issued_expansion hl
  have hrest : (d.replayIssued insn).replay.rest = replayWindow d.replay.buffer insn :=
    (ttreplay_rest d.replay hl).2.2.2
  have hlocal : SameLocal (d.replayIssued insn) d := ⟨rfl, rfl, rfl⟩
  rw [directInsn_replay hop hl hat] at h
  obtain ⟨hb, -⟩ | ⟨u, hu, hfin⟩ := Outcome.andThen_eq_some h
  · have hfalse := drainReplayExpansion_flows he hexpanding hc hb
    rw [hrest, flows_local tid hlocal, hw] at hfalse
    cases hfalse
  · cases hfin
    have hdr := drainReplayExpansion_spec he hexpanding hu
    have hfifo : (d.replayIssued insn).thread.insnFifo.contents = [] := hf
    have htracked := hstream.tracked
    rw [← List.append_nil (plain _)] at htracked hstream
    have hdrained := hdr.resumes.streams htracked (by rw [hfifo]; exact .nil _)
    refine ⟨fun _ hslot => (by cases hslot), _, _,
      (hstream.trans hdrained).trans (finish_streams hdrained.tracked), ?_⟩
    rw [CopView.inProgress_inactive hm, CopView.inProgress_none rfl]
    rfl

end direct

/-- During the drain of a queue of ordinary instructions that ends with the MOPs `ms`: nothing is being
expanded yet, or the queue is empty and the last of them is. -/
def Draining (ms : List Word) (v : CopView) : Prop :=
  (v.thread.mopState.active = false ∧ v.replay.expanding = false ∧
    ∃ qs, v.queue = qs ++ ms ∧ ∀ w ∈ qs, Ordinary w) ∨
  (v.queue = [] ∧ v.thread.mopState.active = true ∧ ms ≠ [])

section drain

variable {v v' d : CopView} {insn : Word} {ahead ms : List Word} {tid : Tid} {ok : Bool} {fuel : ℕ}

theorem Draining.mayStep (hd : Draining ms v) : MayStep v := by
  intro hc insn hi
  obtain ⟨hm, hx, -⟩ | ⟨hq, -⟩ := hd
  · exact ⟨hm, .inl hx⟩
  · rw [CopView.queue, hc] at hq
    simp [show v.thread.insnFifo.contents = [] from hq] at hi

theorem FetchCase.expander {u : CopView} (h : FetchCase v insn u) :
    u.thread.mopState = v.thread.mopState ∧ u.replay = v.replay := by
  cases h <;> exact ⟨rfl, rfl⟩

theorem Draining.step_passed {u x : CopView} (hms : ms = [] ∨ ∃ m, ms = [m] ∧ tensixInsnOpcode m = opcodeMop)
    (hd : Draining ms v) (hw : v.thread.insnFifo.WellFormed) (hf : FetchCase v insn u)
    (hx : verdict u insn tid = .passed x) : Draining ms (x.complete (.ran x.thread.currentOrigin insn)) := by
  have hp := verdict_passed hx
  have hvq := hf.queue hw
  have hq : (x.complete (.ran x.thread.currentOrigin insn)).queue = u.thread.insnFifo.contents := by
    simp [CopView.queue, CopView.complete, CopView.setThread, hp.current hf.current, hp.fifo]
  obtain ⟨hm, hexp, qs, hqs, hord⟩ | ⟨hempty, -⟩ := hd
  · obtain ⟨hum, hur⟩ := hf.expander
    cases qs with
    | cons w qs =>
      rw [hvq, List.cons_append, List.cons.injEq] at hqs
      obtain ⟨rfl, htail⟩ := hqs
      have ho := hord insn List.mem_cons_self
      refine .inl ⟨?_, ?_, qs, hq.trans htail, fun w hw => hord w (List.mem_cons_of_mem _ hw)⟩
      · show x.thread.mopState.active = false
        rw [hp.mopState ho.1, hum, hm]
      · show x.replay.expanding = false
        rw [hp.replay ho.2, hur, hexp]
    | nil =>
      obtain rfl | ⟨m, rfl, hop⟩ := hms
      · rw [hvq] at hqs
        cases hqs
      · rw [hvq, List.nil_append, List.cons.injEq] at hqs
        obtain ⟨rfl, htail⟩ := hqs
        refine .inr ⟨hq.trans htail, ?_, by simp⟩
        show x.thread.mopState.active = true
        rw [hp.mopStart hop, mopStart_active]
  · rw [hvq] at hempty
    cases hempty

theorem Draining.step (hms : ms = [] ∨ ∃ m, ms = [m] ∧ tensixInsnOpcode m = opcodeMop)
    (hd : Draining ms v) (hw : v.thread.insnFifo.WellFormed) (h : tensixCopStep v tid = (ok, v')) :
    Draining ms v' := by
  have hqueue := (tensixCopStep_queue hw h).2.2
  cases StepCase.of_eq h with
  | halted => exact hd
  | empty => exact hd
  | held hh hf hx =>
    obtain ⟨-, -, hreplay, hthread⟩ := verdict_held_thread hx
    obtain ⟨hum, hur⟩ := hf.expander
    refine hd.imp ?_ ?_
    · rintro ⟨hm, hexp, hqs⟩
      rw [CopView.heldAt_mopState, hthread, CopView.heldAt_replay, hreplay, hur, hqueue.1]
      exact ⟨by rw [← hm, ← hum], hexp, hqs⟩
    · rintro ⟨hempty, hm, hne⟩
      rw [hqueue.1, CopView.heldAt_mopState, hthread]
      exact ⟨hempty, by rw [← hm, ← hum], hne⟩
  | passed hh hf hx => exact hd.step_passed hms hw hf hx

theorem Tracked.drainFifo (hms : ms = [] ∨ ∃ m, ms = [m] ∧ tensixInsnOpcode m = opcodeMop)
    (hv : Tracked v ahead) (hd : Draining ms v) (h : drainFifo fuel v tid = some d) :
    (∃ ahead', Streams v ahead [] d ahead') ∧ Draining ms d ∧ d.thread.directInsn = v.thread.directInsn := by
  have hstep (s s' : CopView) (done : Bool)
      (hs : (∃ ahead', Streams v ahead [] s ahead') ∧ Draining ms s ∧
        s.thread.directInsn = v.thread.directInsn)
      (h : tensixCopStep s tid = (done, s')) :
      (∃ ahead', Streams v ahead [] s' ahead') ∧ Draining ms s' ∧
        s'.thread.directInsn = v.thread.directInsn := by
    obtain ⟨⟨mid, hstream⟩, hds, hdirect⟩ := hs
    obtain ⟨⟨ahead', hnext⟩, hdirect', -⟩ := hstream.tracked.step hds.mayStep h
    exact ⟨⟨ahead', hstream.trans hnext⟩, hds.step hms hstream.tracked.wellFormed h, hdirect'.trans hdirect⟩
  apply Loop.invariant
    (I := fun s => (∃ ahead', Streams v ahead [] s ahead') ∧ Draining ms s ∧
      s.thread.directInsn = v.thread.directInsn)
    (Q := fun s => (∃ ahead', Streams v ahead [] s ahead') ∧ Draining ms s ∧
      s.thread.directInsn = v.thread.directInsn) ?_ ?_ h ⟨⟨ahead, hv.refl⟩, hd, rfl⟩
  · intro s s' hs hturn
    cases hst : tensixCopStep s tid with
    | mk done u =>
      rw [hst] at hturn
      cases done <;> cases hturn
      exact hstep s s' true hs hst
  · intro s s' hs hturn
    cases hst : tensixCopStep s tid with
    | mk done u =>
      rw [hst] at hturn
      cases done <;> cases hturn
      exact hstep s s' false hs hst

end drain

section issue

variable {v v' d : CopView} {insn : Word} {ahead mid ms : List Word} {tid : Tid} {ok : Bool} {fuel : ℕ}

theorem Issued.after (hs : Streams v ahead [] d mid) (hin : d.inProgress = v.inProgress)
    (h : Issued d mid insn ok v') : Issued v ahead insn ok v' := by
  obtain ⟨hstarted, ahead', insns, hstream, hprog⟩ := h
  exact ⟨hstarted, ahead', insns, hs.trans hstream, by rw [← hin]; exact hprog⟩

theorem setDirect_streams (hv : Tracked v ahead) (insn : Word) :
    Streams v ahead [] (v.setDirect insn) ahead :=
  hv.same rfl rfl rfl rfl rfl rfl rfl rfl rfl

theorem CopView.queue_eq_nil (h : v.queue = []) :
    v.thread.currentInsn = none ∧ v.thread.insnFifo.contents = [] := by
  rw [queue, List.append_eq_nil_iff] at h
  exact ⟨by simpa using h.1, h.2⟩

theorem mopFinishAll_then_direct (hv : Tracked d ahead) (hd : d.thread.directInsn = some insn)
    (hf : d.thread.insnFifo.contents = []) (hm : d.thread.mopState.active = true) (ho : Ordinary insn)
    {u : CopView} {done : Bool} (hu : mopFinishAll fuel d tid = some (done, u))
    (h : (if done then directInsn fuel (u.setDirect insn) insn tid else some (false, u.setDirect insn)) =
      some (ok, v')) : Issued d ahead insn ok v' := by
  obtain ⟨⟨mid, hstream⟩, hret⟩ := hv.mopFinishAll hm hu
  have hset := hstream.trans (setDirect_streams hstream.tracked insn)
  have hslot : (u.setDirect insn).thread.directInsn = some insn := rfl
  have hin : (u.setDirect insn).inProgress = d.inProgress := by
    rw [CopView.inProgress_ordinary hd ho, CopView.inProgress_ordinary hslot ho]
  cases done with
  | false =>
    cases h
    refine ⟨fun m hm hop => ?_, _, _, hset, by simp [hin]⟩
    cases hm
    exact absurd hop ho.1
  | true =>
    obtain ⟨-, hstop, hsettled, hfifo⟩ := hret
    have hf' : (u.setDirect insn).thread.insnFifo.contents = [] := by
      rw [← hf, ← hfifo]
      rfl
    exact .after hset hin
      (directInsn_ordinary hset.tracked rfl hsettled.current hf' hstop hsettled.expanding ho h)

theorem directAfterMop_drain (hv : Tracked v ahead) (hdirect : v.thread.directInsn = some insn)
    (hm : v.thread.mopState.active = false) (hd : Draining ms v)
    (hms : ms = [] ∧ tensixInsnOpcode insn ≠ opcodeReplay ∨
      (∃ m, ms = [m] ∧ tensixInsnOpcode m = opcodeMop) ∧ Ordinary insn)
    (ho : overtakes tid insn v v.queue = false) (h : directAfterMop fuel v insn tid = some (ok, v')) :
    Issued v ahead insn ok v' := by
  unfold directAfterMop at h
  split at h
  · cases h
  next d hdr =>
  obtain ⟨⟨mid, hstream⟩, hdraining, hddirect⟩ := hv.drainFifo (hms.imp (·.1) (·.1)) hd hdr
  have hdd := hddirect.trans hdirect
  obtain ⟨hdm, hdx, -⟩ | ⟨hq, hdm, hne⟩ := hdraining
  · have hin : d.inProgress = v.inProgress := by
      rw [CopView.inProgress_inactive hm, CopView.inProgress_inactive hdm]
    simp only [hdm, Bool.not_false, if_true] at h
    refine .after hstream hin ?_
    obtain hq | ⟨-, hgo, -⟩ := drainFifo_overtakes hv.wellFormed hv.running ho hdr
    · obtain ⟨hc, hf⟩ := CopView.queue_eq_nil hq
      by_cases hop : tensixInsnOpcode insn = opcodeMop
      · exact directInsn_mop hstream.tracked hdd hc hf ⟨hdm, .inl hdx⟩ hop h
      · have hr : tensixInsnOpcode insn ≠ opcodeReplay := hms.elim (·.2) (·.2.2)
        exact directInsn_ordinary hstream.tracked hdd hc hf hdm hdx ⟨hop, hr⟩ h
    · have hok : (verdict d insn tid).ok = false := by
        rw [goesAhead, Bool.or_eq_false_iff] at hgo
        exact hgo.2
      have hord : Ordinary insn := by
        constructor <;> intro hop
        · rw [verdict_expander (.inl hop)] at hok
          cases hok
        · rw [verdict_expander (.inr hop)] at hok
          cases hok
      exact directInsn_held hstream.tracked hdd hord hok h
  · obtain ⟨-, hord⟩ := hms.resolve_left fun h => hne h.1
    have hin : d.inProgress = v.inProgress := by
      rw [CopView.inProgress_inactive hm, CopView.inProgress_ordinary hdd hord]
    simp only [hdm, Bool.not_true, Bool.false_eq_true, if_false] at h
    split at h
    · cases h
    next done u hu =>
    exact .after hstream hin
      (mopFinishAll_then_direct hstream.tracked hdd (CopView.queue_eq_nil hq).2 hdm hord hu h)

theorem issue_behindMop (hv : Tracked v ahead) (hm : v.thread.mopState.active = true) (hp : v.inProgress = [])
    (hf : v.thread.insnFifo.contents = []) (ho : Ordinary insn)
    (h : tensixCopStepDirect fuel (tensixCopSetDirect v insn) tid = some (ok, v')) :
    Issued v ahead insn ok v' := by
  rw [tensixCopStepDirect_active insn hv.running hm] at h
  have hset := setDirect_streams hv insn
  have hslot (u : CopView) : (u.setDirect insn).thread.directInsn = some insn := rfl
  have hin (u : CopView) : (u.setDirect insn).inProgress = v.inProgress := by
    rw [hp, CopView.inProgress_ordinary (hslot u) ho]
  split at h
  · cases h
  · next u hu =>
    cases h
    obtain ⟨⟨mid, hstream⟩, -⟩ := hset.tracked.mopContinue hm hu
    refine ⟨fun m hm hop => ?_, _, _, (hset.trans hstream).trans (setDirect_streams hstream.tracked insn),
      by simp [hin]⟩
    cases hm
    exact absurd hop ho.1
  · next u hu =>
    rw [if_neg ho.1] at h
    obtain ⟨⟨mid, hstream⟩, -, hstop, hsettled, hfifo⟩ := hset.tracked.mopContinue hm hu
    have hset' := (hset.trans hstream).trans (setDirect_streams hstream.tracked insn)
    have hempty : (u.setDirect insn).queue = [] := by
      have hf' : u.thread.insnFifo.contents = [] := by
        rw [← hf, hfifo]
        rfl
      simp [CopView.queue, CopView.setDirect, CopView.setThread, hsettled.current, hf']
    refine .after hset' (hin u) (directAfterMop_drain hset'.tracked rfl hstop
      (.inl ⟨hstop, hsettled.expanding, [], hempty, by simp⟩) (.inl ⟨rfl, ho.2⟩) ?_ h)
    rw [hempty]
    rfl

theorem issue_again (hv : Tracked v ahead) (hp : v.inProgress = [insn])
    (h : tensixCopStepDirect fuel (tensixCopSetDirect v insn) tid = some (ok, v')) :
    Issued v ahead insn ok v' := by
  obtain ⟨hm, -, hop⟩ := CopView.inProgress_eq_singleton hp
  rw [tensixCopStepDirect_active insn hv.running hm] at h
  have hset := setDirect_streams hv insn
  split at h
  · cases h
  · next u hu =>
    cases h
    obtain ⟨⟨mid, hstream⟩, -, hactive⟩ := hset.tracked.mopContinue hm hu
    refine ⟨fun _ _ _ => hactive, _, _, (hset.trans hstream).trans
      (setDirect_streams hstream.tracked insn), ?_⟩
    rw [hp, CopView.inProgress_mop (v := u.setDirect insn) hactive rfl hop]
    rfl
  · next u hu =>
    rw [if_pos hop] at h
    cases h
    obtain ⟨⟨mid, hstream⟩, hnone, -⟩ := hset.tracked.mopContinue hm hu
    refine ⟨fun m hm => ?_, _, _, hset.trans hstream, ?_⟩
    · cases hnone.symm.trans hm
    · rw [hp, CopView.inProgress_none hnone]
      rfl

theorem issue_streams (hv : Tracked v ahead) (hmay : MayIssue tid v insn)
    (h : ThreadActs tid v (.issue insn) ok v') : Issued v ahead insn ok v' := by
  obtain ⟨fuel, h⟩ := h
  have hset := setDirect_streams hv insn
  have hempty (hm : v.thread.mopState.active = false) (hq : v.queue = []) :
      directInsn fuel (v.setDirect insn).idle insn tid = some (ok, v') ∧
        Streams v ahead [] (v.setDirect insn).idle ahead ∧
        (v.setDirect insn).idle.inProgress = v.inProgress ∧
        v.thread.currentInsn = none ∧ v.thread.insnFifo.contents = [] := by
    obtain ⟨hc, hf⟩ := CopView.queue_eq_nil hq
    cases fuel with
    | zero => cases (tensixCopStepDirect_zero insn hv.running hm).symm.trans h
    | succ fuel =>
      rw [tensixCopStepDirect_empty insn hv.running hc (TensixFifo.pop_eq_none_of_contents hf) hm] at h
      refine ⟨h, hset.trans (hset.tracked.same rfl rfl rfl rfl rfl rfl rfl rfl rfl), ?_, hc, hf⟩
      rw [CopView.inProgress_inactive hm, CopView.inProgress_inactive (v := (v.setDirect insn).idle) hm]
  cases hmay with
  | again hp => exact issue_again hv hp h
  | behindMop hm hp hf ho => exact issue_behindMop hv hm hp hf ho h
  | behindReplay hm hq hop hz =>
    obtain ⟨h, hidle, hin, hc, hf⟩ := hempty hm hq
    exact .after hidle hin (directInsn_mop hidle.tracked rfl hc hf ⟨hm, .inr ⟨hop, hz⟩⟩ hop h)
  | drain hm hx hq hqs hms ho =>
    rw [tensixCopStepDirect_inactive insn hv.running hm] at h
    refine .after hset ?_ (directAfterMop_drain hset.tracked rfl hm (.inl ⟨hm, hx, _, hq, hqs⟩) hms ?_ h)
    · rw [CopView.inProgress_inactive hm, CopView.inProgress_inactive (v := v.setDirect insn) hm]
    · rw [← ho]
      exact overtakes_congr (v := v.setDirect insn) (w := v) rfl rfl v.queue
  | replay hm hx hq hop hl hw =>
    obtain ⟨h, hidle, hin, hc, hf⟩ := hempty hm hq
    have hlocal : SameLocal (v.setDirect insn).idle v := ⟨rfl, rfl, rfl⟩
    refine .after hidle hin (directInsn_window hidle.tracked hc hf hm hx hop hl ?_ h)
    rw [flows_local tid hlocal]
    exact hw

end issue

def programWords (t : Tid) (ls : List Label) : List Word :=
  ls.filterMap fun l => match l.act with
    | .push insn => if l.tid = t ∧ l.ok then some insn else none
    | .issue insn => if l.tid = t ∧ l.ok then some insn else none
    | .step => none

theorem programWords_cons (t : Tid) (l : Label) (ls : List Label) :
    programWords t (l :: ls) = programWords t [l] ++ programWords t ls := by
  rw [programWords, ← List.singleton_append, List.filterMap_append]
  rfl

/-- The condition on the expansions in progress. -/
def MayNest (tid : Tid) (v : CopView) : ThreadAction → Prop
  | .push insn => Expandable insn
  | .step => MayStep v
  | .issue insn => MayIssue tid v insn

def MayAct (tid : Tid) (v : CopView) : ThreadAction → Prop
  | .push insn => v.inProgress = [] ∧ Expandable insn
  | .step => MayStep v
  | .issue insn => MayIssue tid v insn

def ExpandingActs (t : Tid) (cop : TensixCop) (l : Label) (cop' : TensixCop) : Prop :=
  Acts cop l cop' ∧ (l.tid = t → MayAct t (cop.view t) l.act)

section run

variable {t : Tid} {cop cop' : TensixCop} {ls : List Label} {l : Label} {v v' : CopView} {ahead : List Word}

theorem MayAct.mayNest {a : ThreadAction} (h : MayAct t v a) : MayNest t v a := by
  cases a with
  | push => exact h.2
  | step => exact h
  | issue => exact h

theorem ThreadActs.streams {a : ThreadAction} {ok : Bool} (hv : Tracked v ahead) (hs : v.DirectStarted)
    (hmay : MayNest t v a) (h : ThreadActs t v a ok v') :
    v'.DirectStarted ∧ ∃ ahead' insns, Streams v ahead insns v' ahead' ∧
      ((∀ insn, a = .push insn → v.inProgress = []) →
        v.inProgress ++ insns = programWords t [⟨t, a, ok⟩] ++ v'.inProgress) := by
  cases a with
  | push insn =>
    obtain ⟨⟨ahead', hstream⟩, hd, hm⟩ := hv.push hmay h
    have hin : v'.inProgress = v.inProgress := by rw [CopView.inProgress, hd, hm]; rfl
    refine ⟨fun m hm' hop => ?_, _, _, hstream, fun hp => ?_⟩
    · rw [hm]
      exact hs m (hd.symm.trans hm') hop
    · rw [hin, hp insn rfl]
      cases ok <;> simp [programWords]
  | step =>
    obtain ⟨⟨ahead', hstream⟩, hd, hm⟩ := hv.step hmay h
    have hin : v'.inProgress = v.inProgress := by
      cases hactive : v.thread.mopState.active with
      | true => rw [CopView.inProgress, CopView.inProgress, hd, hm hactive, hactive]
      | false =>
        rw [CopView.inProgress_inactive hactive, CopView.inProgress, hd]
        split_ifs
        · -- no direct MOP waits in its slot before it has started
          refine List.filter_eq_nil_iff.mpr fun m hmem hop => ?_
          cases hactive.symm.trans (hs m (by simpa using hmem) (by simpa using hop))
        · rfl
    refine ⟨fun m hm' hop => hm (hs m (hd.symm.trans hm') hop), _, [], hstream, fun _ => ?_⟩
    rw [hin, List.append_nil]
    rfl
  | issue insn =>
    obtain ⟨hstarted, ahead', insns, hstream, hprog⟩ := issue_streams hv hmay h
    refine ⟨hstarted, ahead', insns, hstream, fun _ => ?_⟩
    rw [hprog]
    cases ok <;> simp [programWords]

theorem Acts.streams (h : Acts cop l cop') (hmay : l.tid = t → MayNest t (cop.view t) l.act)
    (hv : Tracked (cop.view t) ahead) (hs : (cop.view t).DirectStarted) :
    (cop'.view t).DirectStarted ∧ ∃ ahead' insns, Streams (cop.view t) ahead insns (cop'.view t) ahead' ∧
      ((∀ insn, l.tid = t → l.act = .push insn → (cop.view t).inProgress = []) →
        (cop.view t).inProgress ++ insns = programWords t [l] ++ (cop'.view t).inProgress) := by
  obtain ⟨tid, a, ok⟩ := l
  obtain ⟨v, hact, rfl⟩ := h
  by_cases ht : tid = t
  · subst ht
    obtain ⟨hstarted, ahead', insns, hstream, hprog⟩ := ThreadActs.streams hv hs (hmay rfl) hact
    rw [cop.view_putView tid v (hstream.tracked.running.trans hv.running.symm)]
    exact ⟨hstarted, ahead', insns, hstream, fun hp => hprog fun insn => hp insn rfl⟩
  · have hnone : programWords t [⟨tid, a, ok⟩] = [] := by
      cases a <;> simp [programWords, ht]
    rw [hnone, cop.view_putView_ne v (Ne.symm ht)]
    refine ⟨hs, ahead, [], hv.same rfl rfl rfl rfl rfl rfl rfl rfl rfl, fun _ => ?_⟩
    rw [List.append_nil]
    rfl

theorem ExpandingActs.run (h : Run (ExpandingActs t) cop ls cop') (hv : Tracked (cop.view t) ahead)
    (hs : (cop.view t).DirectStarted) :
    ∃ ahead' insns, Streams (cop.view t) ahead insns (cop'.view t) ahead' ∧
      (cop.view t).inProgress ++ insns = programWords t ls ++ (cop'.view t).inProgress := by
  induction h generalizing ahead with
  | nil => exact ⟨ahead, [], hv.refl, List.append_nil _⟩
  | @cons cop mid cop' l ls hl _ ih =>
    obtain ⟨hact, hmay⟩ := hl
    obtain ⟨hs', _, insns, hstream, hprog⟩ := hact.streams (fun ht => (hmay ht).mayNest) hv hs
    have hpush (insn : Word) (ht : l.tid = t) (ha : l.act = .push insn) : (cop.view t).inProgress = [] := by
      have h := hmay ht
      rw [ha] at h
      exact h.1
    obtain ⟨ahead', insns', hrest, hprog'⟩ := ih hstream.tracked hs'
    refine ⟨ahead', insns ++ insns', hstream.trans hrest, ?_⟩
    rw [programWords_cons, ← List.append_assoc, hprog hpush, List.append_assoc, hprog', List.append_assoc]

end run

/-- What thread `t` has executed from `cop` on is a first part of what its program stands for, the rest
is what it has ahead, and nothing is ahead of a quiet thread. -/
def ExpandsInOrder (t : Tid) (cop : TensixCop) (ls : List Label) (cop' : TensixCop) : Prop :=
  ∃ done ahead, Unfolds (cop.threads t).mopCfg (cop.replay t).buffer (cop.threads t).zmaskHi16
      (programWords t ls ++ (cop'.view t).inProgress) (done ++ ahead) ∧
    executedWords (cop'.threads t).log = executedWords (cop.threads t).log ++ done ∧
    Stream (cop'.view t) ahead ∧ ((cop'.view t).Quiet → ahead = [])

theorem Tracked.quiet {v : CopView} {ahead : List Word} (hv : Tracked v ahead) (hq : v.Quiet) :
    ahead = [] := by
  have hf := TensixFifo.pop_eq_none hq.fifo
  obtain ⟨-, rfl⟩ := hv.vacant hq.current hq.mop hf
  simp [CopView.todo, hq.current, Replay.rest_eq_nil hq.expanding]

/-- While nothing leaves the FIFO and no other direct instruction starts during an expansion, a thread
executes its program with every MOP and every REPLAY replaced by what it stands for. -/
theorem fifo_expansions_in_order (t : Tid) {cop cop' : TensixCop} {ls : List Label} (hh : cop.halted = false)
    (hq : (cop.view t).Quiet) (hw : (cop.threads t).insnFifo.WellFormed)
    (hd : (cop.threads t).directInsn = none) (ht : Templates (cop.threads t).mopCfg (cop.replay t).buffer)
    (hrun : Run (ExpandingActs t) cop ls cop') :
    ExpandsInOrder t cop ls cop' := by
  have hf : (cop.view t).thread.insnFifo.contents = [] := TensixFifo.pop_eq_none hq.fifo
  obtain ⟨he, htodo⟩ := CopView.Settled.expansion ⟨hq.current, hq.expanding⟩ hh hq.mop
  have hstream : Stream (cop.view t) [] := by
    have := Stream.expanding he (by rw [hf]; exact .nil _)
    rwa [htodo] at this
  obtain ⟨ahead, insns, hstreams, hprog⟩ :=
    ExpandingActs.run hrun ⟨hh, hw, hq.recording, ht, hstream⟩
      (fun m hm => absurd (hd.symm.trans hm) (by simp))
  obtain ⟨done, e, hu, hsplit, -, hlog⟩ := hstreams.executes
  rw [CopView.inProgress_inactive hq.mop, List.nil_append] at hprog
  refine ⟨done, ahead, ?_, hlog, hstreams.tracked.stream, hstreams.tracked.quiet⟩
  rw [← hprog, ← hsplit]
  exact hu

def nopTemplate : TensixCop :=
  { nopReplay with threads := fun _ =>
      { TensixThreadCop.init with mopCfg := fun i => if i = 3 then 0x02000003 else 0x02000000 } }

theorem nopTemplate_templates : Templates (nopTemplate.threads 0).mopCfg (nopTemplate.replay 0).buffer := by
  have hwords : templateWords (nopTemplate.threads 0).mopCfg =
      0x02000000 :: 0x02000003 :: List.replicate 5 0x02000000 := rfl
  refine ⟨fun w hw => ?_, fun i _ => ⟨?_, ?_⟩⟩
  · simp only [hwords, List.mem_cons, List.mem_replicate] at hw
    obtain rfl | rfl | ⟨-, rfl⟩ := hw <;> exact ⟨by decide, by decide⟩
  · show tensixInsnOpcode 0x02000000 ≠ opcodeMop
    decide
  · show tensixInsnOpcode 0x02000000 ≠ opcodeReplay
    decide

def queuedMop : TensixCop :=
  (nopTemplate.after 9 [(0, .push 0x02000001)]).after 9 [(0, .push 0x01000000)]

def queuedMopTrace : List Label :=
  [⟨0, .push 0x02000001, true⟩, ⟨0, .push 0x01000000, true⟩, ⟨0, .issue 0x02000002, true⟩]

theorem fifo_expansions_in_order_queuedMop :
    ∃ cop', CopRun nopTemplate queuedMopTrace cop' ∧ ExpandsInOrder 0 nopTemplate queuedMopTrace cop' ∧
      executedWords (cop'.threads 0).log = [0x02000001, 0x02000003, 0x02000002] := by
  have hnop : Acts nopTemplate ⟨0, .push 0x02000001, true⟩ (nopTemplate.after 9 [(0, .push 0x02000001)]) :=
    Run.single.mp (TensixCop.exec_after (by decide))
  have hmop : Acts (nopTemplate.after 9 [(0, .push 0x02000001)]) ⟨0, .push 0x01000000, true⟩
      ((nopTemplate.after 9 [(0, .push 0x02000001)]).after 9 [(0, .push 0x01000000)]) :=
    Run.single.mp (TensixCop.exec_after (by decide))
  have hissue : Acts queuedMop ⟨0, .issue 0x02000002, true⟩ (queuedMop.after 9 [(0, .issue 0x02000002)]) :=
    Run.single.mp (TensixCop.exec_after (by decide))
  have hmay : MayIssue 0 (queuedMop.view 0) 0x02000002 :=
    @MayIssue.drain _ _ _ [0x02000001] [0x01000000] (by decide) (by decide) (by decide)
      (by simpa only [List.mem_singleton, forall_eq] using ⟨by decide, by decide⟩)
      (.inr ⟨⟨_, rfl, by decide⟩, by decide⟩) (by decide)
  have hrun : Run (ExpandingActs 0) nopTemplate queuedMopTrace (queuedMop.after 9 [(0, .issue 0x02000002)]) :=
    .cons ⟨hnop, fun _ => ⟨by decide, by decide⟩⟩ (.cons ⟨hmop, fun _ => ⟨by decide, by decide⟩⟩
      (.cons ⟨hissue, fun _ => hmay⟩ (.nil _)))
  exact ⟨_, hrun.imp fun _ _ _ _ h => h.1, fifo_expansions_in_order 0 rfl ⟨rfl, rfl, rfl, rfl, rfl⟩
    ⟨by decide, by decide, by decide⟩ rfl nopTemplate_templates hrun, by decide⟩

theorem nopTemplate_mop :
    Expands (nopTemplate.threads 0).mopCfg (nopTemplate.replay 0).buffer 0 0x01000000 [0x02000003] := by
  have hg : Generates (nopTemplate.threads 0).mopCfg
      (mopStart (nopTemplate.threads 0).mopCfg 0 (tensixInsnParam 0x01000000)) [0x02000003] :=
    .next (Prod.ext (by decide) rfl) (.done (by decide))
  exact .mop (by decide) hg

theorem nopTemplate_nop (insn : Word) (h : tensixInsnOpcode insn = 0x02) :
    Expands (nopTemplate.threads 0).mopCfg (nopTemplate.replay 0).buffer 0 insn [insn] :=
  .ordinary ⟨by rw [h]; decide, by rw [h]; decide⟩

theorem ExpandsInOrder.of_unfolds {t : Tid} {cop cop' : TensixCop} {ls : List Label} {out : List Word}
    (h : ExpandsInOrder t cop ls cop')
    (hu : Unfolds (cop.threads t).mopCfg (cop.replay t).buffer (cop.threads t).zmaskHi16
      (programWords t ls ++ (cop'.view t).inProgress) out) (hlog : executedWords (cop.threads t).log = []) :
    executedWords (cop'.threads t).log <+: out ∧
      ((cop'.view t).Quiet → executedWords (cop'.threads t).log = out) := by
  obtain ⟨done, ahead, hu', hexec, -, hquiet⟩ := h
  rw [hlog, List.nil_append] at hexec
  rw [hu.unique hu', hexec]
  exact ⟨List.prefix_append done ahead, fun hq => by rw [hquiet hq, List.append_nil]⟩

def overtakenMopTrace : List Label :=
  [⟨0, .push 0x01000000, true⟩, ⟨0, .push 0x02000001, true⟩, ⟨0, .step, true⟩, ⟨0, .step, true⟩]

def lostMopTrace : List Label :=
  [⟨0, .push 0x01000000, true⟩, ⟨0, .push 0x01000000, true⟩, ⟨0, .issue 0x02000001, true⟩]

def swallowedMopTrace : List Label :=
  [⟨0, .push 0x01000000, true⟩, ⟨0, .step, true⟩, ⟨0, .issue 0x01000000, true⟩]

def overtakenReplayTrace : List Label :=
  [⟨0, .push 0x04000010, true⟩, ⟨0, .step, true⟩, ⟨0, .issue 0x02000001, true⟩]

def TensixCop.traced (cop : TensixCop) (ls : List Label) : TensixCop :=
  cop.after 9 (ls.map fun l => (l.tid, l.act))

theorem nopTemplate_not_inOrder {ls : List Label} {out : List Word}
    (hu : Unfolds (nopTemplate.threads 0).mopCfg (nopTemplate.replay 0).buffer 0 (programWords 0 ls) out)
    (hp : ((nopTemplate.traced ls).view 0).inProgress = [])
    (hne : ¬executedWords ((nopTemplate.traced ls).threads 0).log <+: out ∨
      ((nopTemplate.traced ls).view 0).Quiet ∧ executedWords ((nopTemplate.traced ls).threads 0).log ≠ out) :
    ¬ExpandsInOrder 0 nopTemplate ls (nopTemplate.traced ls) := by
  intro h
  obtain ⟨hfirst, hquiet⟩ := h.of_unfolds (by rw [hp, List.append_nil]; exact hu) rfl
  obtain hne | ⟨hq, hne⟩ := hne
  · exact hne hfirst
  · exact hne (hquiet hq)

theorem fifo_expansions_out_of_order :
    (CopRun nopTemplate overtakenMopTrace (nopTemplate.traced overtakenMopTrace) ∧
      ¬ExpandsInOrder 0 nopTemplate overtakenMopTrace (nopTemplate.traced overtakenMopTrace)) ∧
    (CopRun nopTemplate lostMopTrace (nopTemplate.traced lostMopTrace) ∧
      ¬ExpandsInOrder 0 nopTemplate lostMopTrace (nopTemplate.traced lostMopTrace)) ∧
    (CopRun nopTemplate swallowedMopTrace (nopTemplate.traced swallowedMopTrace) ∧
      ¬ExpandsInOrder 0 nopTemplate swallowedMopTrace (nopTemplate.traced swallowedMopTrace)) ∧
    (CopRun nopTemplate overtakenReplayTrace (nopTemplate.traced overtakenReplayTrace) ∧
      ¬ExpandsInOrder 0 nopTemplate overtakenReplayTrace (nopTemplate.traced overtakenReplayTrace)) := by
  have hmop := nopTemplate_mop
  have hnop := nopTemplate_nop 0x02000001 (by decide)
  have hreplay : Expands (nopTemplate.threads 0).mopCfg (nopTemplate.replay 0).buffer 0 0x04000010
      [0x02000000] := .replay (by decide) (by decide)
  refine ⟨⟨TensixCop.exec_after (by decide), ?_⟩, ⟨TensixCop.exec_after (by decide), ?_⟩,
    ⟨TensixCop.exec_after (by decide), ?_⟩, TensixCop.exec_after (by decide), ?_⟩
  · exact nopTemplate_not_inOrder (.cons hmop (.cons hnop (.nil _))) (by decide) (.inl (by decide))
  · exact nopTemplate_not_inOrder (.cons hmop (.cons hmop (.cons hnop (.nil _)))) (by decide)
      (.inr ⟨⟨by decide, rfl, by decide, by decide, by decide⟩, by decide⟩)
  · exact nopTemplate_not_inOrder (.cons hmop (.cons hmop (.nil _))) (by decide)
      (.inr ⟨⟨by decide, rfl, by decide, by decide, by decide⟩, by decide⟩)
  · exact nopTemplate_not_inOrder (.cons hreplay (.cons hnop (.nil _))) (by decide) (.inl (by decide))

end Rv32Emu
