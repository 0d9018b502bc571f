import Rv32Emu.Cop.DirectPath
import Rv32Emu.Cop.Generate

/-!
Suspended and resumed expansions. What a thread has still to execute is the instruction it holds, the
rest of the window being replayed, and the words that the MOP iterator has still to emit; each
function of the expander executes a part of this list, in order, and leaves the rest.
-/

namespace Rv32Emu

def Ordinary (insn : Word) : Prop :=
  tensixInsnOpcode insn ≠ opcodeMop ∧ tensixInsnOpcode insn ≠ opcodeReplay
  deriving Decidable

def replayWindow (buffer : ℕ → Word) (insn : Word) : List Word :=
  Ring.window 32 buffer (replayStart (tensixInsnParam insn)) (replayCount (tensixInsnParam insn))

def withWindow (buffer : ℕ → Word) (insn : Word) : List Word :=
  insn :: if tensixInsnOpcode insn = opcodeReplay then replayWindow buffer insn else []

structure TemplateWord (buffer : ℕ → Word) (insn : Word) : Prop where
  notMop : tensixInsnOpcode insn ≠ opcodeMop
  load : tensixInsnOpcode insn = opcodeReplay → bit (tensixInsnParam insn) 0 = false
  window : tensixInsnOpcode insn = opcodeReplay → ∀ w ∈ replayWindow buffer insn, Ordinary w

def Replay.rest (r : Replay) : List Word :=
  if r.expanding then (Ring.window 32 r.buffer r.expandStart r.expandCount).drop r.expandCurrent else []

def CopView.todo (v : CopView) (ws : List Word) : List Word :=
  v.thread.currentInsn.toList ++ v.replay.rest ++ ws.flatMap (withWindow v.replay.buffer)

structure Expansion (v : CopView) (ws : List Word) : Prop where
  running : v.halted = false
  generates : Generates v.thread.mopCfg v.thread.mopState ws
  template : ∀ w ∈ ws, TemplateWord v.replay.buffer w
  pending : ∀ w, v.thread.currentInsn = some w → Ordinary w ∧ v.thread.currentOrigin = .expander
  window : ∀ w ∈ v.replay.rest, Ordinary w

def zmaskAfter (zmask insn : Word) : Word :=
  if tensixInsnOpcode insn = opcodeMopCfg then insn &&& 0x00FFFFFF else zmask

theorem verdict_passed_zmask {v u : CopView} {insn : Word} {tid : Tid} (h : verdict v insn tid = .passed u) :
    u.thread.zmaskHi16 = zmaskAfter v.thread.zmaskHi16 insn := by
  by_cases hc : tensixInsnOpcode insn = opcodeMopCfg
  · rw [verdict, if_pos hc] at h
    cases h
    rw [zmaskAfter, if_pos hc]
    rfl
  · rw [(verdict_passed h).zmask hc, zmaskAfter, if_neg hc]

structure Executes (v v' : CopView) (done : List Word) : Prop where
  halted : v'.halted = v.halted
  fifo : v'.thread.insnFifo = v.thread.insnFifo
  mopCfg : v'.thread.mopCfg = v.thread.mopCfg
  buffer : v'.replay.buffer = v.replay.buffer
  recording : v'.replay.recording = v.replay.recording
  zmask : v'.thread.zmaskHi16 = done.foldl zmaskAfter v.thread.zmaskHi16
  log : v'.thread.log = v.thread.log ++ done.map (.ran .expander)

theorem Executes.refl (v : CopView) : Executes v v [] := ⟨rfl, rfl, rfl, rfl, rfl, rfl, by simp⟩

theorem Executes.trans {v u v' : CopView} {d d' : List Word} (h : Executes v u d) (k : Executes u v' d') :
    Executes v v' (d ++ d') :=
  ⟨k.halted.trans h.halted, k.fifo.trans h.fifo, k.mopCfg.trans h.mopCfg, k.buffer.trans h.buffer,
    k.recording.trans h.recording, by rw [k.zmask, h.zmask, List.foldl_append], by simp [k.log, h.log]⟩

structure Resolved (v : CopView) (insn : Word) (ok : Bool) (v' : CopView) : Prop where
  halted : v'.halted = v.halted
  fifo : v'.thread.insnFifo = v.thread.insnFifo
  direct : v'.thread.directInsn = v.thread.directInsn
  origin : v'.thread.currentOrigin = v.thread.currentOrigin
  mopCfg : v'.thread.mopCfg = v.thread.mopCfg
  mopState : v'.thread.mopState = v.thread.mopState
  zmask : v'.thread.zmaskHi16 = if ok then zmaskAfter v.thread.zmaskHi16 insn else v.thread.zmaskHi16
  log : v'.thread.log = v.thread.log ++ if ok then [.ran v.thread.currentOrigin insn] else []
  current : v'.thread.currentInsn = if ok then none else some insn
  replay : tensixInsnOpcode insn ≠ opcodeReplay → v'.replay = v.replay
  replayed : tensixInsnOpcode insn = opcodeReplay →
    ok = true ∧ v'.replay = ttreplay v.replay (tensixInsnParam insn)

theorem tensixCopStep_pending {v v' : CopView} {insn : Word} {tid : Tid} {ok : Bool} (hh : v.halted = false)
    (hc : v.thread.currentInsn = some insn) (hm : tensixInsnOpcode insn ≠ opcodeMop)
    (h : tensixCopStep v tid = (ok, v')) : Resolved v insn ok v' := by
  cases StepCase.of_eq h with
  | halted hh' => simp [hh] at hh'
  | empty _ hc' => simp [hc] at hc'
  | @held w u x counted _ hf hx =>
    cases hf with
    | popped hc' => simp [hc] at hc'
    | pending hc' =>
      cases hc.symm.trans hc'
      have hno : tensixInsnOpcode insn ≠ opcodeReplay := by
        intro hr
        cases (verdict_expander (.inr hr)).symm.trans hx
      obtain rfl | ⟨rfl, -⟩ := verdict_held hx <;> cases counted <;>
        exact ⟨rfl, rfl, rfl, rfl, rfl, rfl, rfl, (List.append_nil _).symm, rfl, fun _ => rfl,
          fun hr => absurd hr hno⟩
  | @passed w u x _ hf hx =>
    cases hf with
    | popped hc' => simp [hc] at hc'
    | pending hc' =>
      cases hc.symm.trans hc'
      have hp := verdict_passed hx
      have hz := verdict_passed_zmask hx
      refine ⟨hp.halted, hp.fifo, hp.direct, hp.origin, hp.mopCfg, hp.mopState hm, hz, ?_, hp.current rfl,
        hp.replay, fun hr => ⟨rfl, hp.replayed hr⟩⟩
      show x.thread.log ++ _ = _
      rw [hp.log, hp.origin]
      rfl

structure Resumes (v : CopView) (ws : List Word) (v' : CopView) (ws' : List Word) : Prop where
  expansion : Expansion v' ws'
  direct : v'.thread.directInsn = v.thread.directInsn
  executes : ∃ done, Executes v v' done ∧ v.todo ws = done ++ v'.todo ws'

theorem Resumes.refl {v : CopView} {ws : List Word} (he : Expansion v ws) : Resumes v ws v ws :=
  ⟨he, rfl, [], .refl v, rfl⟩

theorem Resumes.trans {v u v' : CopView} {ws us ws' : List Word} (h : Resumes v ws u us)
    (k : Resumes u us v' ws') : Resumes v ws v' ws' := by
  obtain ⟨-, hdirect, d, hd, htodo⟩ := h
  obtain ⟨he, hdirect', d', hd', htodo'⟩ := k
  exact ⟨he, hdirect'.trans hdirect, d ++ d', hd.trans hd', by rw [htodo, htodo', List.append_assoc]⟩

section resume

variable {v v' : CopView} {ws : List Word} {insn : Word} {tid : Tid} {ok : Bool}

theorem Expansion.step_pending (he : Expansion v ws) (hc : v.thread.currentInsn = some insn)
    (h : tensixCopStep v tid = (ok, v')) :
    Resumes v ws v' ws ∧ v'.thread.mopState = v.thread.mopState ∧ v'.replay = v.replay ∧
      v'.thread.currentInsn = if ok then none else some insn := by
  obtain ⟨hord, horigin⟩ := he.pending insn hc
  have hs := tensixCopStep_pending he.running hc hord.1 h
  have hreplay := hs.replay hord.2
  refine ⟨⟨⟨hs.halted.trans he.running, ?_, ?_, ?_, ?_⟩, hs.direct, if ok then [insn] else [],
    ⟨hs.halted, hs.fifo, hs.mopCfg, by rw [hreplay], by rw [hreplay], ?_, ?_⟩, ?_⟩, hs.mopState, hreplay,
      hs.current⟩
  · rw [hs.mopCfg, hs.mopState]
    exact he.generates
  · rw [hreplay]
    exact he.template
  · intro w hw
    rw [hs.current] at hw
    cases ok with
    | true => cases hw
    | false =>
      cases hw
      exact ⟨hord, hs.origin.trans horigin⟩
  · rw [hreplay]
    exact he.window
  · rw [hs.zmask]
    cases ok <;> rfl
  · rw [hs.log, horigin]
    cases ok <;> rfl
  · simp only [CopView.todo, hs.current, hc, hreplay]
    cases ok <;> simp

def CopView.feedEntry (v : CopView) : CopView :=
  (v.setReplay { v.replay with expandCurrent := v.replay.expandCurrent + 1 }).feed
    (v.replay.buffer ((v.replay.expandStart + v.replay.expandCurrent) % 32))

theorem CopView.rest_feedEntry (v : CopView) (hx : v.replay.expanding = true)
    (hlt : v.replay.expandCurrent < v.replay.expandCount) :
    v.replay.rest = v.replay.buffer ((v.replay.expandStart + v.replay.expandCurrent) % 32) ::
      v.feedEntry.replay.rest := by
  have hx' : v.feedEntry.replay.expanding = true := hx
  simp only [Replay.rest, hx, hx', if_true]
  exact Ring.window_drop 32 _ _ _ _ hlt

theorem Expansion.feed_window (he : Expansion v ws) (hx : v.replay.expanding = true)
    (hc : v.thread.currentInsn = none) (hlt : v.replay.expandCurrent < v.replay.expandCount) :
    Resumes v ws v.feedEntry ws := by
  have hrest := v.rest_feedEntry hx hlt
  refine ⟨⟨he.running, he.generates, he.template, fun w hw => ?_, fun w hw => ?_⟩, rfl, [],
    ⟨rfl, rfl, rfl, rfl, rfl, rfl, by simp [CopView.feedEntry, CopView.feed, CopView.setReplay,
      CopView.setThread]⟩, ?_⟩
  · cases hw
    exact ⟨he.window _ (by rw [hrest]; exact List.mem_cons_self), rfl⟩
  · exact he.window w (by rw [hrest]; exact List.mem_cons_of_mem _ hw)
  · simp [CopView.todo, hrest, hc, CopView.feedEntry, CopView.feed, CopView.setReplay, CopView.setThread]

theorem Replay.rest_of_ge {r : Replay} (h : r.expandCurrent ≥ r.expandCount) : r.rest = [] := by
  simp only [Replay.rest]
  split_ifs
  · exact List.drop_eq_nil_of_le (by simpa using h)
  · rfl

theorem Expansion.stop_window (he : Expansion v ws) (hge : v.replay.expandCurrent ≥ v.replay.expandCount) :
    Resumes v ws (v.setReplay { v.replay with expanding := false }) ws := by
  have hrest := Replay.rest_of_ge hge
  refine ⟨⟨he.running, he.generates, he.template, he.pending, fun w hw => ?_⟩, rfl, [],
    ⟨rfl, rfl, rfl, rfl, rfl, rfl, by simp [CopView.setReplay]⟩, ?_⟩
  · simp [CopView.setReplay, Replay.rest] at hw
  · simp only [CopView.todo, hrest, CopView.setReplay]
    simp [Replay.rest]

end resume

structure Drained (v : CopView) (ws : List Word) (ok : Bool) (v' : CopView) : Prop where
  resumes : Resumes v ws v' ws
  mopState : v'.thread.mopState = v.thread.mopState
  settled : ok = true → v'.thread.currentInsn = none ∧ v'.replay.expanding = false
  blocked : ok = false → v'.thread.currentInsn ≠ none

section drain

variable {v v' : CopView} {ws : List Word} {tid : Tid} {ok : Bool}

theorem Drained.after {u : CopView} (h : Resumes v ws u ws) (hm : u.thread.mopState = v.thread.mopState)
    (hd : Drained u ws ok v') : Drained v ws ok v' :=
  ⟨h.trans hd.resumes, hd.mopState.trans hm, hd.settled, hd.blocked⟩

theorem replayTurn_eq (tid : Tid) (hx : v.replay.expanding = true) (hc : v.thread.currentInsn = none) :
    replayTurn tid v =
      if v.replay.expandCurrent ≥ v.replay.expandCount then
        some (.inr (true, v.setReplay { v.replay with expanding := false }))
      else
        let (ok, u) := tensixCopStep v.feedEntry tid
        if ok then some (.inl u) else some (.inr (false, u)) := by
  rw [replayTurn, if_neg (by simp [hx])]
  simp only [hc, Option.isSome_none, Bool.false_eq_true, if_false, Bool.not_true]
  rfl

theorem replayTurn_empty (tid : Tid) (he : Expansion v ws) (hx : v.replay.expanding = true)
    (hc : v.thread.currentInsn = none) :
    (∃ ok v', replayTurn tid v = some (.inr (ok, v')) ∧ Drained v ws ok v') ∨
      ∃ v', replayTurn tid v = some (.inl v') ∧ Resumes v ws v' ws ∧
        v'.thread.mopState = v.thread.mopState ∧ v'.replay.expanding = true ∧
        v'.replay.expandCount - v'.replay.expandCurrent < v.replay.expandCount - v.replay.expandCurrent := by
  rw [replayTurn_eq tid hx hc]
  by_cases hge : v.replay.expandCurrent ≥ v.replay.expandCount
  · rw [if_pos hge]
    exact .inl ⟨true, _, rfl, he.stop_window hge, rfl, fun _ => ⟨hc, rfl⟩, by simp⟩
  rw [if_neg hge]
  have hfeed := he.feed_window hx hc (not_le.mp hge)
  cases hstep : tensixCopStep v.feedEntry tid with
  | mk ok u =>
    obtain ⟨hres, hmop, hreplay, hcur⟩ := hfeed.expansion.step_pending rfl hstep
    cases ok with
    | false => exact .inl ⟨false, u, rfl, hfeed.trans hres, hmop, by simp, fun _ => by rw [hcur]; simp⟩
    | true =>
      refine .inr ⟨u, rfl, hfeed.trans hres, hmop, by rw [hreplay]; exact hx, ?_⟩
      rw [hreplay]
      show v.replay.expandCount - (v.replay.expandCurrent + 1) < _
      omega

theorem replayTurn_cases (tid : Tid) (he : Expansion v ws) (hx : v.replay.expanding = true) :
    (∃ ok v', replayTurn tid v = some (.inr (ok, v')) ∧ Drained v ws ok v') ∨
      ∃ v', replayTurn tid v = some (.inl v') ∧ Resumes v ws v' ws ∧
        v'.thread.mopState = v.thread.mopState ∧ v'.replay.expanding = true ∧
        v'.replay.expandCount - v'.replay.expandCurrent < v.replay.expandCount - v.replay.expandCurrent := by
  cases hc : v.thread.currentInsn with
  | none => exact replayTurn_empty tid he hx hc
  | some insn =>
    cases hstep : tensixCopStep v tid with
    | mk ok u =>
      obtain ⟨hres, hmop, hreplay, hcur⟩ := he.step_pending hc hstep
      cases ok with
      | false =>
        refine .inl ⟨false, u, ?_, hres, hmop, by simp, fun _ => by rw [hcur]; simp⟩
        simp [replayTurn, hx, hc, hstep]
      | true =>
        -- once the held word is out, the turn is that of an empty slot
        have hux : u.replay.expanding = true := by rw [hreplay]; exact hx
        have hturn : replayTurn tid v = replayTurn tid u := by
          simp only [replayTurn, hx, hux, hc, hcur, hstep, Option.isSome_some, Option.isSome_none, if_true,
            Bool.not_true, Bool.false_eq_true, if_false]
        rw [hturn]
        obtain ⟨ok, v', h, hd⟩ | ⟨v', h, hr, hm, hx', hlt⟩ := replayTurn_empty tid hres.expansion hux hcur
        · exact .inl ⟨ok, v', h, hd.after hres hmop⟩
        · exact .inr ⟨v', h, hres.trans hr, hm.trans hmop, hx', by rwa [hreplay] at hlt⟩

theorem drainReplayExpansion_spec {fuel : ℕ} (he : Expansion v ws) (hx : v.replay.expanding = true)
    (h : drainReplayExpansion fuel v tid = some (ok, v')) : Drained v ws ok v' := by
  apply Loop.invariant (I := fun u => u.replay.expanding = true ∧ Resumes v ws u ws ∧
      u.thread.mopState = v.thread.mopState) (Q := fun r => Drained v ws r.1 r.2) ?_ ?_ h ⟨hx, .refl he, rfl⟩
  · rintro s s' ⟨hs, hr, hm⟩ hturn
    obtain ⟨ok, u, h, -⟩ | ⟨u, h, hr', hm', hx', -⟩ := replayTurn_cases tid hr.expansion hs <;>
      rw [h] at hturn <;> cases hturn
    exact ⟨hx', hr.trans hr', hm'.trans hm⟩
  · rintro s r ⟨hs, hr, hm⟩ hturn
    obtain ⟨ok, u, h, hd⟩ | ⟨u, h, -⟩ := replayTurn_cases tid hr.expansion hs <;>
      rw [h] at hturn <;> cases hturn
    exact hd.after hr hm

theorem drainReplayExpansion_returns (tid : Tid) (he : Expansion v ws) (hx : v.replay.expanding = true) :
    ∃ fuel r, drainReplayExpansion fuel v tid = some r := by
  have hturn : ∀ s, s.replay.expanding = true ∧ Expansion s ws →
      (∃ r, replayTurn tid s = some (.inr r)) ∨ ∃ s', replayTurn tid s = some (.inl s') ∧
        (s'.replay.expanding = true ∧ Expansion s' ws) ∧
        s'.replay.expandCount - s'.replay.expandCurrent < s.replay.expandCount - s.replay.expandCurrent := by
    rintro s ⟨hs, hes⟩
    obtain ⟨ok, u, h, -⟩ | ⟨u, h, hr, -, hx', hlt⟩ := replayTurn_cases tid hes hs
    · exact .inl ⟨_, h⟩
    · exact .inr ⟨u, h, ⟨hx', hr.expansion⟩, hlt⟩
  obtain ⟨r, hr⟩ := Loop.returns (fun u : CopView => u.replay.expandCount - u.replay.expandCurrent) hturn
      ⟨hx, he⟩
  exact ⟨_, r, hr⟩

end drain

structure CopView.Settled (v : CopView) : Prop where
  current : v.thread.currentInsn = none
  expanding : v.replay.expanding = false

theorem Replay.rest_eq_nil {r : Replay} (h : r.expanding = false) : r.rest = [] := by simp [Replay.rest, h]

section template

variable {v v' : CopView} {ws : List Word} {insn : Word} {st : MopExpandState} {tid : Tid} {ok : Bool}

theorem ttreplay_rest (r : Replay) (hl : bit (tensixInsnParam insn) 0 = false) :
    (ttreplay r (tensixInsnParam insn)).buffer = r.buffer ∧
      (ttreplay r (tensixInsnParam insn)).recording = r.recording ∧
      (ttreplay r (tensixInsnParam insn)).expanding = true ∧
      (ttreplay r (tensixInsnParam insn)).rest = replayWindow r.buffer insn := by
  simp [ttreplay, hl, Replay.rest, replayWindow]

theorem Expansion.step_template (he : Expansion v (insn :: ws)) (hv : v.Settled)
    (hg : Generates v.thread.mopCfg st ws)
    (h : tensixCopStep ((v.setMopState st).feed insn) tid = (ok, v')) :
    Resumes v (insn :: ws) v' ws ∧ v'.thread.mopState = st ∧
      v'.thread.currentInsn = if ok then none else some insn := by
  have hword := he.template insn List.mem_cons_self
  have hs : Resolved ((v.setMopState st).feed insn) insn ok v' :=
    tensixCopStep_pending he.running rfl hword.notMop h
  have hreplay : v'.replay.buffer = v.replay.buffer ∧ v'.replay.recording = v.replay.recording ∧
      insn :: v'.replay.rest = withWindow v.replay.buffer insn ∧ ∀ w ∈ v'.replay.rest, Ordinary w := by
    by_cases hr : tensixInsnOpcode insn = opcodeReplay
    · obtain ⟨-, hr'⟩ := hs.replayed hr
      obtain ⟨hb, hrec, -, hrest⟩ := ttreplay_rest v.replay (hword.load hr)
      rw [hr']
      refine ⟨hb, hrec, ?_, fun w hw => hword.window hr w (hrest ▸ hw)⟩
      rw [withWindow, if_pos hr]
      exact congrArg _ hrest
    · have hrest : v'.replay.rest = [] := by
        rw [hs.replay hr]
        exact Replay.rest_eq_nil hv.expanding
      have hr' : v'.replay = v.replay := hs.replay hr
      exact ⟨by rw [hr'], by rw [hr'], by rw [hrest, withWindow, if_neg hr], by simp [hrest]⟩
  obtain ⟨hbuf, hrec, hwith, hord⟩ := hreplay
  refine ⟨⟨⟨hs.halted.trans he.running, ?_, ?_, ?_, hord⟩, hs.direct, if ok then [insn] else [],
    ⟨hs.halted, hs.fifo, hs.mopCfg, hbuf, hrec, ?_, ?_⟩, ?_⟩, hs.mopState, hs.current⟩
  · rw [hs.mopCfg, hs.mopState]
    exact hg
  · intro w hw
    rw [hbuf]
    exact he.template w (List.mem_cons_of_mem _ hw)
  · intro w hw
    rw [hs.current] at hw
    cases ok with
    | true => cases hw
    | false =>
      cases hw
      have hno : tensixInsnOpcode insn ≠ opcodeReplay := fun hr => absurd (hs.replayed hr).1 (by decide)
      exact ⟨⟨hword.notMop, hno⟩, hs.origin⟩
  · rw [hs.zmask]
    cases ok <;> rfl
  · rw [hs.log]
    cases ok <;> rfl
  · rw [CopView.todo, hv.current, Replay.rest_eq_nil hv.expanding, CopView.todo, hs.current, hbuf,
      List.flatMap_cons, ← hwith]
    cases ok <;> simp

end template

structure Completed (v : CopView) (ws : List Word) (v' : CopView) : Prop where
  executes : Executes v v' (v.todo ws)
  direct : v'.thread.directInsn = none
  settled : v'.Settled
  mop : v'.thread.mopState.active = false

def Suspended (v : CopView) (ws : List Word) (v' : CopView) : Prop :=
  v'.thread.currentInsn ≠ none ∧ v'.thread.mopState.active = true ∧ ∃ ws', Resumes v ws v' ws'

section continuing

variable {v v' u : CopView} {ws us : List Word} {tid : Tid} {ok : Bool} {fuel : ℕ}

theorem Resumes.completed (h : Resumes v ws u us) (hc : Completed u us v') : Completed v ws v' := by
  obtain ⟨d, hd, htodo⟩ := h.executes
  exact ⟨by rw [htodo]; exact hd.trans hc.executes, hc.direct, hc.settled, hc.mop⟩

theorem Resumes.suspended (h : Resumes v ws u us) (hs : Suspended u us v') : Suspended v ws v' := by
  obtain ⟨hc, hm, ws', hr⟩ := hs
  exact ⟨hc, hm, ws', h.trans hr⟩

def Continued (v : CopView) (ws : List Word) (ok : Bool) (v' : CopView) : Prop :=
  if ok then Completed v ws v' else Suspended v ws v'

theorem Resumes.continued (h : Resumes v ws u us) (hc : Continued u us ok v') : Continued v ws ok v' := by
  cases ok with
  | true => exact h.completed hc
  | false => exact h.suspended hc

theorem drainIfExpanding_spec (he : Expansion v ws)
    (hc : v.replay.expanding = false → v.thread.currentInsn = none)
    (h : drainIfExpanding fuel v tid = some (ok, v')) : Drained v ws ok v' := by
  unfold drainIfExpanding at h
  split_ifs at h with hx
  · exact drainReplayExpansion_spec he hx h
  · cases h
    have hx' : v.replay.expanding = false := by simpa using hx
    exact ⟨.refl he, rfl, fun _ => ⟨hc hx', hx'⟩, by simp⟩

theorem mopFinish_completed {st : MopExpandState} (hv : v.Settled) :
    Completed v [] (mopFinish (v.setMopState st)) := by
  have htodo : v.todo [] = [] := by simp [CopView.todo, hv.current, Replay.rest_eq_nil hv.expanding]
  refine ⟨?_, rfl, ⟨hv.current, hv.expanding⟩, rfl⟩
  rw [htodo]
  exact ⟨rfl, rfl, rfl, rfl, rfl, rfl, (List.append_nil _).symm⟩

inductive MopTurn (v : CopView) (ws : List Word) : CopView ⊕ (Bool × CopView) → Prop
  | exit {ok : Bool} {v' : CopView} : Continued v ws ok v' → MopTurn v ws (.inr (ok, v'))
  | next {v' : CopView} {w : Word} {ws' : List Word} : ws = w :: ws' → Resumes v ws v' ws' → v'.Settled →
      MopTurn v ws (.inl v')

theorem mopTurn_spec (he : Expansion v ws) (hv : v.Settled) {x : CopView ⊕ (Bool × CopView)}
    (h : mopTurn fuel tid v = some x) : MopTurn v ws x := by
  unfold mopTurn at h
  split at h
  · next st hgen =>
    cases h
    obtain rfl := he.generates.nil_of_none hgen
    exact .exit (mopFinish_completed hv)
  · next insn st hgen =>
    obtain ⟨ws', rfl, hg⟩ := he.generates.tail_of_some hgen
    have hactive := (mopGenerateNext_some hgen).2
    cases hstep : tensixCopStep ((v.setMopState st).feed insn) tid with
    | mk ok u =>
      obtain ⟨hres, hmop, hcur⟩ := he.step_template hv hg hstep
      simp only [hstep] at h
      cases ok with
      | false =>
        cases h
        exact .exit ⟨by rw [hcur]; simp, by rw [hmop]; exact hactive, ws', hres⟩
      | true =>
        simp only [Bool.not_true, Bool.false_eq_true, if_false] at h
        split at h
        · cases h
        · next u' hd =>
          cases h
          have hd := drainIfExpanding_spec hres.expansion (fun _ => hcur) hd
          exact .next rfl (hres.trans hd.resumes) ⟨(hd.settled rfl).1, (hd.settled rfl).2⟩
        · next u' hd =>
          cases h
          have hd := drainIfExpanding_spec hres.expansion (fun _ => hcur) hd
          exact .exit ⟨hd.blocked rfl, by rw [hd.mopState, hmop]; exact hactive, ws', hres.trans hd.resumes⟩

theorem mopLoop_spec (he : Expansion v ws) (hv : v.Settled)
    (h : loop (mopTurn fuel tid) fuel v = some (ok, v')) : Continued v ws ok v' := by
  apply Loop.invariant (I := fun s => s.Settled ∧ ∃ us, Resumes v ws s us)
    (Q := fun r => Continued v ws r.1 r.2) ?_ ?_ h ⟨hv, ws, .refl he⟩
  · rintro s s' ⟨hs, us, hr⟩ hturn
    cases mopTurn_spec hr.expansion hs hturn with
    | next _ hr' hs' => exact ⟨hs', _, hr.trans hr'⟩
  · rintro s r ⟨hs, us, hr⟩ hturn
    cases mopTurn_spec hr.expansion hs hturn with
    | exit hc => exact hr.continued hc

theorem CopView.setThread_current (h : u.thread.currentInsn = none) :
    u.setThread { u.thread with currentInsn := none } = u := by
  rw [← h]
  rfl

theorem mopRetry_spec (he : Expansion v ws) (hx : v.replay.expanding = false)
    (h : mopRetry fuel v tid = some (ok, v')) : Drained v ws ok v' := by
  unfold mopRetry at h
  cases hc : v.thread.currentInsn with
  | none =>
    simp only [hc, Option.isSome_none, Bool.false_eq_true, if_false] at h
    cases h
    exact ⟨.refl he, rfl, fun _ => ⟨hc, hx⟩, by simp⟩
  | some insn =>
    cases hstep : tensixCopStep v tid with
    | mk done u =>
      obtain ⟨hres, hmop, hreplay, hcur⟩ := he.step_pending hc hstep
      simp only [hc, Option.isSome_some, if_true, hstep] at h
      cases done with
      | false =>
        cases h
        exact ⟨hres, hmop, by simp, fun _ => by rw [hcur]; simp⟩
      | true =>
        simp only [Bool.not_true, Bool.false_eq_true, if_false, CopView.setThread_current hcur] at h
        exact (drainIfExpanding_spec hres.expansion (fun _ => hcur) h).after hres hmop

theorem Drained.suspended (hd : Drained v ws false v') (hm : v.thread.mopState.active = true) :
    Suspended v ws v' :=
  ⟨hd.blocked rfl, by rw [hd.mopState]; exact hm, ws, hd.resumes⟩

theorem mopContinueExecution_spec (he : Expansion v ws) (hm : v.thread.mopState.active = true)
    (h : mopContinueExecution fuel v tid = some (ok, v')) : Continued v ws ok v' := by
  have hretry {u : CopView} (hu : Expansion u ws) (hum : u.thread.mopState.active = true)
      (hux : u.replay.expanding = false)
      (h : (mopRetry fuel u tid).andThen (fun v => loop (mopTurn fuel tid) fuel v) = some (ok, v')) :
      Continued u ws ok v' := by
    obtain ⟨hb, rfl⟩ | ⟨x, hx, hl⟩ := Outcome.andThen_eq_some h
    · exact (mopRetry_spec hu hux hb).suspended hum
    · have hd := mopRetry_spec hu hux hx
      have hs := hd.settled rfl
      exact hd.resumes.continued (mopLoop_spec hd.resumes.expansion ⟨hs.1, hs.2⟩ hl)
  cases hx : v.replay.expanding with
  | false =>
    simp only [mopContinueExecution, drainIfExpanding, hx, Bool.false_eq_true, if_false, Outcome.andThen] at h
    exact hretry he hm hx h
  | true =>
    obtain ⟨hb, rfl⟩ | ⟨u, hu, hk⟩ := Outcome.andThen_eq_some h
    · exact (drainIfExpanding_spec he (by simp [hx]) hb).suspended hm
    · have hd := drainIfExpanding_spec he (by simp [hx]) hu
      exact hd.resumes.continued
        (hretry hd.resumes.expansion (by rw [hd.mopState]; exact hm) (hd.settled rfl).2 hk)

end continuing

end Rv32Emu
