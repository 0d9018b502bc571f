import Rv32Emu.Cop.Unfolding

namespace Rv32Emu

inductive Stream (v : CopView) : List Word → Prop
  | held {insn : Word} {out : List Word} (hc : v.thread.currentInsn = some insn) (ho : Ordinary insn)
      (hm : v.thread.mopState.active = false) (hx : v.replay.expanding = false)
      (hu : Unfolds v.thread.mopCfg v.replay.buffer (zmaskAfter v.thread.zmaskHi16 insn)
        v.thread.insnFifo.contents out) : Stream v (insn :: out)
  | expanding {ws out : List Word} (he : Expansion v ws)
      (hu : Unfolds v.thread.mopCfg v.replay.buffer ((v.todo ws).foldl zmaskAfter v.thread.zmaskHi16)
        v.thread.insnFifo.contents out) : Stream v (plain (v.todo ws) ++ out)

structure Tracked (v : CopView) (ahead : List Word) : Prop where
  running : v.halted = false
  wellFormed : v.thread.insnFifo.WellFormed
  recording : v.replay.recording = false
  templates : Templates v.thread.mopCfg v.replay.buffer
  stream : Stream v ahead

def executedWords (log : List Event) : List Word :=
  plain (log.filterMap fun e => match e with
    | .ran _ insn => some insn
    | .issued insn => some insn
    | _ => none)

@[simp] theorem executedWords_append (l l' : List Event) :
    executedWords (l ++ l') = executedWords l ++ executedWords l' := by
  simp [executedWords]

theorem executedWords_map (o : Origin) (ws : List Word) : executedWords (ws.map (.ran o)) = plain ws := by
  simp [executedWords, List.filterMap_map]

/-- The program, in the order in which its instructions were pushed or went ahead on the direct path. -/
def startedWords (log : List Event) : List Word :=
  log.filterMap fun e => match e with
    | .pushed insn => some insn
    | .issued insn => some insn
    | _ => none

@[simp] theorem startedWords_append (l l' : List Event) :
    startedWords (l ++ l') = startedWords l ++ startedWords l' := by
  simp [startedWords]

@[simp] theorem startedWords_map (o : Origin) (ws : List Word) : startedWords (ws.map (.ran o)) = [] := by
  simp [startedWords, List.filterMap_map]

/-- No direct instruction but a MOP, whose words come behind, has gone ahead while something was ahead
of it. -/
def Complete (cfg buffer : ℕ → Word) (zmask : Word) (ahead : List Word) (es : List Event) : Prop :=
  ∀ es₁ insn es₂, es = es₁ ++ .issued insn :: es₂ → tensixInsnOpcode insn ≠ opcodeMop →
    ∃ e, Unfolds cfg buffer (ahead.foldl zmaskAfter zmask) (startedWords es₁) e ∧
      executedWords es₁ = ahead ++ e

section complete

variable {cfg buffer : ℕ → Word} {zmask insn : Word} {ahead : List Word} {es : List Event}

theorem Complete.of_none (h : ∀ insn, .issued insn ∉ es) : Complete cfg buffer zmask ahead es := by
  rintro es₁ insn es₂ rfl
  exact absurd (by simp) (h insn)

theorem Complete.single (h : tensixInsnOpcode insn ≠ opcodeMop → ahead = []) :
    Complete cfg buffer zmask ahead [.issued insn] := by
  intro es₁ w es₂ hes hw
  have hlen := congrArg List.length hes
  obtain rfl : es₁ = [] := List.eq_nil_of_length_eq_zero (by simp at hlen; omega)
  cases hes
  rw [h hw]
  exact ⟨[], .nil _, rfl⟩

theorem Complete.append {done e mid : List Word} {es' : List Event} (h : Complete cfg buffer zmask ahead es)
    (hu : Unfolds cfg buffer (ahead.foldl zmaskAfter zmask) (startedWords es) e)
    (hsplit : ahead ++ e = done ++ mid) (hdone : executedWords es = done)
    (k : Complete cfg buffer (done.foldl zmaskAfter zmask) mid es') :
    Complete cfg buffer zmask ahead (es ++ es') := by
  intro es₁ insn es₂ hes hne
  obtain ⟨a, rfl, hb⟩ | ⟨a, rfl, hb⟩ := List.append_eq_append_iff.mp hes
  · -- the instruction is one of the later events
    obtain ⟨e', hu', hexec⟩ := k a insn es₂ hb hne
    refine ⟨e ++ e', ?_, ?_⟩
    · rw [startedWords_append]
      refine hu.append ?_
      rwa [← List.foldl_append, hsplit, List.foldl_append]
    · rw [executedWords_append, hdone, hexec, ← List.append_assoc, ← hsplit, List.append_assoc]
  · cases a with
    | nil =>
      obtain ⟨e', hu', hexec⟩ := k [] insn es₂ (by simpa using hb.symm) hne
      cases hu'
      rw [List.append_nil] at hu hdone hexec
      obtain rfl : mid = [] := by simpa [executedWords] using hexec.symm
      exact ⟨e, hu, by rw [hdone, hsplit, List.append_nil]⟩
    | cons w a =>
      obtain ⟨rfl, -⟩ := List.cons.inj hb
      exact h es₁ insn a rfl hne

end complete

/-- From `v` to `v'` the program has grown by `insns`, and the thread has executed a part of what was
ahead of it and of what `insns` stand for. -/
structure Streams (v : CopView) (ahead insns : List Word) (v' : CopView) (ahead' : List Word) : Prop where
  tracked : Tracked v' ahead'
  mopCfg : v'.thread.mopCfg = v.thread.mopCfg
  buffer : v'.replay.buffer = v.replay.buffer
  events : ∃ es, v'.thread.log = v.thread.log ++ es ∧ startedWords es = insns ∧
    Complete v.thread.mopCfg v.replay.buffer v.thread.zmaskHi16 ahead es
  executes : ∃ done e, Unfolds v.thread.mopCfg v.replay.buffer (ahead.foldl zmaskAfter v.thread.zmaskHi16)
    insns e ∧
    ahead ++ e = done ++ ahead' ∧ v'.thread.zmaskHi16 = done.foldl zmaskAfter v.thread.zmaskHi16 ∧
    executedWords v'.thread.log = executedWords v.thread.log ++ done

theorem Streams.trans {v u v' : CopView} {ahead mid ahead' insns insns' : List Word}
    (h : Streams v ahead insns u mid) (k : Streams u mid insns' v' ahead') :
    Streams v ahead (insns ++ insns') v' ahead' := by
  obtain ⟨d, e, hu, hsplit, hz, hlog⟩ := h.executes
  obtain ⟨d', e', hu', hsplit', hz', hlog'⟩ := k.executes
  obtain ⟨es, hes, rfl, hcomplete⟩ := h.events
  obtain ⟨es', hes', rfl, hcomplete'⟩ := k.events
  have hdone : executedWords es = d := by
    rw [hes, executedWords_append] at hlog
    exact List.append_cancel_left hlog
  rw [h.mopCfg, h.buffer, hz] at hcomplete'
  refine ⟨k.tracked, k.mopCfg.trans h.mopCfg, k.buffer.trans h.buffer,
    ⟨es ++ es', by rw [hes', hes, List.append_assoc], startedWords_append es es',
      hcomplete.append hu hsplit hdone hcomplete'⟩,
    d ++ d', e ++ e', hu.append ?_, ?_, ?_, ?_⟩
  · rwa [← List.foldl_append, hsplit, List.foldl_append, ← hz, ← h.mopCfg, ← h.buffer]
  · rw [← List.append_assoc, hsplit, List.append_assoc, hsplit', List.append_assoc]
  · rw [hz', hz, List.foldl_append]
  · rw [hlog', hlog, List.append_assoc]

theorem Tracked.same {v v' : CopView} {ahead : List Word} (h : Tracked v ahead) (hh : v'.halted = v.halted)
    (hr : v'.replay = v.replay) (hf : v'.thread.insnFifo = v.thread.insnFifo)
    (hcur : v'.thread.currentInsn = v.thread.currentInsn)
    (horigin : v'.thread.currentOrigin = v.thread.currentOrigin) (hcfg : v'.thread.mopCfg = v.thread.mopCfg)
    (hz : v'.thread.zmaskHi16 = v.thread.zmaskHi16) (hm : v'.thread.mopState = v.thread.mopState)
    (hlog : v'.thread.log = v.thread.log) : Streams v ahead [] v' ahead := by
  have hexec : Unfolds v.thread.mopCfg v.replay.buffer (ahead.foldl zmaskAfter v.thread.zmaskHi16) [] [] :=
    .nil _
  refine ⟨⟨hh.trans h.running, hf ▸ h.wellFormed, hr ▸ h.recording, hcfg ▸ hr ▸ h.templates, ?_⟩, hcfg,
    by rw [hr], ⟨[], by simp [hlog], rfl, .of_none (by simp)⟩, [], [], hexec, by simp, hz, by simp [hlog]⟩
  cases h.stream with
  | held hc ho hmop hx hu =>
    refine .held (hcur.trans hc) ho (hm ▸ hmop) (hr ▸ hx) ?_
    rw [hcfg, hr, hz, hf]
    exact hu
  | @expanding ws out he hu =>
    have htodo : v'.todo ws = v.todo ws := by rw [CopView.todo, hcur, hr]; rfl
    rw [← htodo]
    refine .expanding ⟨hh.trans he.running, ?_, ?_, ?_, ?_⟩ ?_
    · rw [hcfg, hm]
      exact he.generates
    · rw [hr]
      exact he.template
    · rw [hcur, horigin]
      exact he.pending
    · rw [hr]
      exact he.window
    · rw [htodo, hcfg, hr, hz, hf]
      exact hu

theorem Tracked.refl {v : CopView} {ahead : List Word} (h : Tracked v ahead) : Streams v ahead [] v ahead :=
  h.same rfl rfl rfl rfl rfl rfl rfl rfl rfl

section expander

variable {v v' : CopView} {ws ws' out done : List Word} {tid : Tid} {ok : Bool} {fuel : ℕ}

theorem Executes.streams (hex : Executes v v' done) (hv : Tracked v (plain (v.todo ws) ++ out))
    (hu : Unfolds v.thread.mopCfg v.replay.buffer ((v.todo ws).foldl zmaskAfter v.thread.zmaskHi16)
      v.thread.insnFifo.contents out) (he : Expansion v' ws') (htodo : v.todo ws = done ++ v'.todo ws') :
    Streams v (plain (v.todo ws) ++ out) [] v' (plain (v'.todo ws') ++ out) := by
  refine ⟨⟨he.running, hex.fifo ▸ hv.wellFormed, hex.recording ▸ hv.recording, ?_, .expanding he ?_⟩,
    hex.mopCfg, hex.buffer, ⟨_, hex.log, startedWords_map .expander done, .of_none (by simp)⟩, plain done,
      [], .nil _, ?_, ?_, ?_⟩
  · rw [hex.mopCfg, hex.buffer]
    exact hv.templates
  · rw [hex.mopCfg, hex.buffer, hex.fifo, hex.zmask, ← List.foldl_append, ← htodo]
    exact hu
  · rw [htodo, plain_append, List.append_nil, List.append_assoc]
  · rw [hex.zmask, foldl_plain]
  · rw [hex.log, executedWords_append, executedWords_map]

theorem CopView.Settled.expansion (hs : v.Settled) (hh : v.halted = false)
    (hm : v.thread.mopState.active = false) : Expansion v [] ∧ v.todo [] = [] := by
  have hrest := Replay.rest_eq_nil hs.expanding
  refine ⟨⟨hh, .of_inactive hm, by simp, fun w hw => ?_, by simp [hrest]⟩, by simp [CopView.todo,
    hs.current, hrest]⟩
  cases hs.current.symm.trans hw

theorem Resumes.streams (hr : Resumes v ws v' ws') (hv : Tracked v (plain (v.todo ws) ++ out))
    (hu : Unfolds v.thread.mopCfg v.replay.buffer ((v.todo ws).foldl zmaskAfter v.thread.zmaskHi16)
      v.thread.insnFifo.contents out) :
    Streams v (plain (v.todo ws) ++ out) [] v' (plain (v'.todo ws') ++ out) := by
  obtain ⟨done, hex, htodo⟩ := hr.executes
  exact hex.streams hv hu hr.expansion htodo

theorem Completed.streams (hc : Completed v ws v') (hv : Tracked v (plain (v.todo ws) ++ out))
    (hu : Unfolds v.thread.mopCfg v.replay.buffer ((v.todo ws).foldl zmaskAfter v.thread.zmaskHi16)
      v.thread.insnFifo.contents out) :
    Streams v (plain (v.todo ws) ++ out) [] v' out := by
  obtain ⟨he, htodo⟩ := hc.settled.expansion (hc.executes.halted.trans hv.running) hc.mop
  have := hc.executes.streams hv hu he (by rw [htodo, List.append_nil])
  rwa [htodo] at this

end expander

/-- The instruction may be taken: nothing is being expanded, or it is a MOP and the window being replayed
leaves the mask alone. -/
def MayTake (v : CopView) (insn : Word) : Prop :=
  v.thread.mopState.active = false ∧ (v.replay.expanding = false ∨
    tensixInsnOpcode insn = opcodeMop ∧ ∀ w ∈ v.replay.rest, tensixInsnOpcode w ≠ opcodeMopCfg)

section take

variable {v v' u x : CopView} {insn : Word} {e out : List Word} {tid : Tid}

theorem Passed.starts (hp : Passed u insn x) (ht : Templates u.thread.mopCfg u.replay.buffer)
    (he : Expansion u []) (hc : u.thread.currentInsn = none) (hmay : MayTake u insn)
    (hexp : Expands u.thread.mopCfg u.replay.buffer ((u.todo []).foldl zmaskAfter u.thread.zmaskHi16) insn
      e) :
    ∃ ws, Expansion x ws ∧ x.replay.buffer = u.replay.buffer ∧ x.replay.recording = u.replay.recording ∧
      u.todo [] ++ e = plain [insn] ++ plain (x.todo ws) := by
  have hcur := hp.current hc
  have hpending (w : Word) (hw : x.thread.currentInsn = some w) :
      Ordinary w ∧ x.thread.currentOrigin = .expander := by
    cases hcur.symm.trans hw
  have hinactive (hm : tensixInsnOpcode insn ≠ opcodeMop) :
      Generates x.thread.mopCfg x.thread.mopState [] := .of_inactive (by rw [hp.mopState hm]; exact hmay.1)
  have htodo : u.todo [] = u.replay.rest := by simp [CopView.todo, hc]
  have hempty (hm : tensixInsnOpcode insn ≠ opcodeMop) : u.replay.rest = [] :=
    Replay.rest_eq_nil (hmay.2.resolve_right fun h => hm h.1)
  cases hexp with
  | ordinary ho =>
    have hreplay := hp.replay ho.2
    have hrest := hempty ho.1
    refine ⟨[], ⟨hp.halted.trans he.running, hinactive ho.1, by simp, hpending, by simp [hreplay, hrest]⟩,
      by rw [hreplay], by rw [hreplay], ?_⟩
    have hplain : plain [insn] = [insn] := plain_eq_self (by simpa using ho)
    simp [hrest, CopView.todo, hc, hcur, hreplay, hplain]
  | replay hr hl =>
    have hm : tensixInsnOpcode insn ≠ opcodeMop := by rw [hr]; decide
    obtain ⟨hb, hrec, -, hwindow⟩ := ttreplay_rest u.replay hl
    have hreplay := hp.replayed hr
    have hno : ¬Ordinary insn := fun ho => ho.2 hr
    have hord := ht.window insn
    refine ⟨[], ⟨hp.halted.trans he.running, hinactive hm, by simp, hpending, ?_⟩, by rw [hreplay, hb],
      by rw [hreplay, hrec], ?_⟩
    · rw [hreplay, hwindow]
      exact hord
    · rw [htodo, hempty hm, CopView.todo, hcur, hreplay, hwindow, plain_of_not hno]
      simp [plain_eq_self hord]
  | @mop ws hm hg =>
    have hreplay := hp.replay (by rw [hm]; decide)
    have hno : ¬Ordinary insn := fun ho => ho.1 hm
    have hz : (u.todo []).foldl zmaskAfter u.thread.zmaskHi16 = u.thread.zmaskHi16 := by
      rw [htodo]
      obtain hx | ⟨-, hz⟩ := hmay.2
      · rw [Replay.rest_eq_nil hx]
        rfl
      · exact foldl_zmaskAfter_self hz _
    rw [hz] at hg
    have htemplate := ht.generated hg
    refine ⟨ws, ⟨hp.halted.trans he.running, ?_, by rw [hreplay]; exact htemplate, hpending,
      by rw [hreplay]; exact he.window⟩, by rw [hreplay], by rw [hreplay], ?_⟩
    · rw [hp.mopCfg, hp.mopStart hm]
      exact hg
    · rw [htodo, CopView.todo, hcur, hreplay, plain_of_not hno]
      simp [plain_eq_self he.window, plain_template htemplate]

theorem Passed.foldl_todo {ws : List Word} {zmask : Word} (hz : x.thread.zmaskHi16 = zmaskAfter zmask insn)
    (h : u.todo [] ++ e = plain [insn] ++ plain (x.todo ws)) :
    (x.todo ws).foldl zmaskAfter x.thread.zmaskHi16 =
      e.foldl zmaskAfter ((u.todo []).foldl zmaskAfter zmask) := by
  rw [← List.foldl_append, h, List.foldl_append, foldl_plain, foldl_plain, hz]
  rfl

theorem plain_todo (he : Expansion v []) : plain (v.todo []) = v.todo [] := by
  refine plain_eq_self fun w hw => ?_
  simp only [CopView.todo, List.flatMap_nil, List.append_nil, List.mem_append, Option.mem_toList] at hw
  obtain hw | hw := hw
  · exact (he.pending w hw).1
  · exact he.window w hw

theorem Tracked.popped_passed (hv : Tracked v (plain (v.todo []) ++ (e ++ out))) (he : Expansion v [])
    (hc : v.thread.currentInsn = none) {fifo : TensixFifo} (hpop : v.thread.insnFifo.pop = some (insn, fifo))
    (hmay : MayTake v insn)
    (hexp : Expands v.thread.mopCfg v.replay.buffer ((v.todo []).foldl zmaskAfter v.thread.zmaskHi16) insn e)
    (hu : Unfolds v.thread.mopCfg v.replay.buffer
      (e.foldl zmaskAfter ((v.todo []).foldl zmaskAfter v.thread.zmaskHi16)) fifo.contents out)
    (hx : verdict (v.setThread { v.thread with insnFifo := fifo, currentOrigin := .fifo }) insn tid =
      .passed x) :
    ∃ ws, Streams v (plain (v.todo []) ++ (e ++ out)) [] (x.complete (.ran x.thread.currentOrigin insn))
      (plain (x.todo ws) ++ out) := by
  have hp := verdict_passed hx
  have hz := verdict_passed_zmask hx
  replace hz : x.thread.zmaskHi16 = zmaskAfter v.thread.zmaskHi16 insn := hz
  obtain ⟨ws, hxe, hb, hrec, hsplit⟩ := hp.starts hv.templates
    ⟨he.running, he.generates, he.template, fun w hw => absurd (hc.symm.trans hw) (by simp), he.window⟩ hc
      hmay hexp
  have hfold := Passed.foldl_todo hz hsplit
  refine ⟨ws, ⟨⟨hxe.running, ?_, hrec.trans hv.recording, ?_, ?_⟩, hp.mopCfg, hb, ?_, plain [insn], [],
    .nil _, ?_, ?_, ?_⟩⟩
  · show x.thread.insnFifo.WellFormed
    rw [hp.fifo]
    exact hv.wellFormed.pop hpop
  · show Templates x.thread.mopCfg x.replay.buffer
    rw [hp.mopCfg, hb]
    exact hv.templates
  · have hdone : Expansion (x.complete (.ran x.thread.currentOrigin insn)) ws :=
      ⟨hxe.running, hxe.generates, hxe.template, hxe.pending, hxe.window⟩
    refine .expanding hdone ?_
    show Unfolds x.thread.mopCfg x.replay.buffer ((x.todo ws).foldl zmaskAfter x.thread.zmaskHi16)
      x.thread.insnFifo.contents out
    rw [hp.mopCfg, hb, hfold, hp.fifo]
    exact hu
  · exact ⟨[.ran x.thread.currentOrigin insn], congrArg (· ++ _) hp.log, rfl, .of_none (by simp)⟩
  · rw [plain_todo he, List.append_nil, ← List.append_assoc, ← List.append_assoc]
    exact congrArg (· ++ out) hsplit
  · show x.thread.zmaskHi16 = _
    rw [hz, foldl_plain]
    rfl
  · show executedWords (x.thread.log ++ [.ran x.thread.currentOrigin insn]) = _
    rw [executedWords_append, hp.log]
    rfl

theorem Tracked.popped_held (hv : Tracked v (plain (v.todo []) ++ (e ++ out)))
    (hc : v.thread.currentInsn = none) {fifo : TensixFifo} (hpop : v.thread.insnFifo.pop = some (insn, fifo))
    (hmay : MayTake v insn)
    (hexp : Expands v.thread.mopCfg v.replay.buffer ((v.todo []).foldl zmaskAfter v.thread.zmaskHi16) insn e)
    (hu : Unfolds v.thread.mopCfg v.replay.buffer
      (e.foldl zmaskAfter ((v.todo []).foldl zmaskAfter v.thread.zmaskHi16)) fifo.contents out)
        {counted : Bool}
    (hx : verdict (v.setThread { v.thread with insnFifo := fifo, currentOrigin := .fifo }) insn tid =
      .held counted x) :
    Streams v (plain (v.todo []) ++ (e ++ out)) [] (x.heldAt insn counted) (insn :: out) := by
  have ho : Ordinary insn := by
    constructor <;> intro hop
    · cases (verdict_expander (.inl hop)).symm.trans hx
    · cases (verdict_expander (.inr hop)).symm.trans hx
  have hexpanding := hmay.2.resolve_right fun h => ho.1 h.1
  have htodo : v.todo [] = [] := by simp [CopView.todo, hc, Replay.rest_eq_nil hexpanding]
  obtain rfl := hexp.unique (.ordinary ho)
  obtain ⟨hh, -, hreplay, hthread⟩ := verdict_held_thread hx
  rw [htodo] at hu ⊢
  have hcfg : (x.heldAt insn counted).thread.mopCfg = v.thread.mopCfg := by
    rw [CopView.heldAt_mopCfg, hthread]
    rfl
  have hfifo : (x.heldAt insn counted).thread.insnFifo = fifo := by
    rw [CopView.heldAt_fifo, hthread]
    rfl
  have hz : (x.heldAt insn counted).thread.zmaskHi16 = v.thread.zmaskHi16 := by
    rw [CopView.heldAt_zmask, hthread]
    rfl
  have hr : (x.heldAt insn counted).replay = v.replay := by
    rw [CopView.heldAt_replay, hreplay]
    rfl
  refine ⟨⟨(CopView.heldAt_halted ..).trans (hh.trans hv.running), hfifo ▸ hv.wellFormed.pop hpop,
    by rw [hr]; exact hv.recording, by rw [hcfg, hr]; exact hv.templates,
    .held (CopView.heldAt_current ..) ho ?_ (by rw [hr]; exact hexpanding) ?_⟩,
      hcfg, by rw [hr], ?_, [], [], .nil _,
    by simp, hz, ?_⟩
  · rw [CopView.heldAt_mopState, hthread]
    exact hmay.1
  · rw [hcfg, hr, hz, hfifo]
    exact hu
  · refine ⟨[], ?_, rfl, .of_none (by simp)⟩
    rw [CopView.heldAt_log, hthread, List.append_nil]
    rfl
  · rw [CopView.heldAt_log, hthread]
    exact (List.append_nil _).symm

end take

def MayStep (v : CopView) : Prop :=
  v.thread.currentInsn = none → ∀ insn ∈ v.thread.insnFifo.contents.head?, MayTake v insn

section step

variable {v v' : CopView} {insn : Word} {ahead out : List Word} {tid : Tid} {ok : Bool}

theorem Tracked.step_held (hv : Tracked v (insn :: out)) (hc : v.thread.currentInsn = some insn)
    (ho : Ordinary insn) (hm : v.thread.mopState.active = false) (hx : v.replay.expanding = false)
    (hu : Unfolds v.thread.mopCfg v.replay.buffer (zmaskAfter v.thread.zmaskHi16 insn)
      v.thread.insnFifo.contents out) (h : tensixCopStep v tid = (ok, v')) :
    Streams v (insn :: out) [] v' (if ok then out else insn :: out) := by
  have hs := tensixCopStep_pending hv.running hc ho.1 h
  have hreplay := hs.replay ho.2
  have hm' : v'.thread.mopState.active = false := by rw [hs.mopState]; exact hm
  have hx' : v'.replay.expanding = false := by rw [hreplay]; exact hx
  have hh := hs.halted.trans hv.running
  refine ⟨⟨hh, hs.fifo ▸ hv.wellFormed, by rw [hreplay]; exact hv.recording,
    by rw [hs.mopCfg, hreplay]; exact hv.templates, ?_⟩, hs.mopCfg, by rw [hreplay],
    ⟨_, hs.log, by cases ok <;> rfl, .of_none (by cases ok <;> simp)⟩, if ok then [insn] else [], [],
    .nil _, by cases ok <;> simp, by rw [hs.zmask]; cases ok <;> rfl, ?_⟩
  · rw [← hs.mopCfg, ← hreplay, ← hs.fifo] at hu
    cases ok with
    | false =>
      refine .held hs.current ho hm' hx' ?_
      rw [hs.zmask]
      exact hu
    | true =>
      obtain ⟨he, htodo⟩ := CopView.Settled.expansion ⟨hs.current, hx'⟩ hh hm'
      rw [show (if true then out else insn :: out) = plain (v'.todo []) ++ out by rw [htodo]; rfl]
      refine .expanding he ?_
      rw [htodo, hs.zmask]
      exact hu
  · rw [hs.log, executedWords_append]
    cases ok with
    | false => rfl
    | true =>
      have hplain : plain [insn] = [insn] := plain_eq_self (by simpa using ho)
      exact congrArg _ hplain

theorem Tracked.step (hv : Tracked v ahead) (hmay : MayStep v) (h : tensixCopStep v tid = (ok, v')) :
    (∃ ahead', Streams v ahead [] v' ahead') ∧ v'.thread.directInsn = v.thread.directInsn ∧
      (v.thread.mopState.active = true → v'.thread.mopState.active = true) := by
  cases hv.stream with
  | held hc ho hm hx hu =>
    refine ⟨⟨_, hv.step_held hc ho hm hx hu h⟩, (tensixCopStep_pending hv.running hc ho.1 h).direct, ?_⟩
    simp [hm]
  | @expanding ws out he hu =>
    cases hc : v.thread.currentInsn with
    | some insn =>
      obtain ⟨hres, hmop, -⟩ := he.step_pending hc h
      exact ⟨⟨_, hres.streams hv hu⟩, hres.direct, by rw [hmop]; exact id⟩
    | none =>
      have hpop {insn : Word} {fifo : TensixFifo} (hp : v.thread.insnFifo.pop = some (insn, fifo)) :
          MayTake v insn ∧ ws = [] ∧ v.thread.insnFifo.contents = insn :: fifo.contents := by
        have hcontents := hv.wellFormed.pop_contents hp
        have ht := hmay hc insn (by rw [hcontents]; rfl)
        exact ⟨ht, he.generates.nil_of_inactive ht.1, hcontents⟩
      cases StepCase.of_eq h with
      | halted hh => cases hv.running.symm.trans hh
      | empty => exact ⟨⟨_, hv.same rfl rfl rfl rfl rfl rfl rfl rfl rfl⟩, rfl, id⟩
      | held hh hf hx =>
        cases hf with
        | pending hc' => cases hc.symm.trans hc'
        | popped _ hp =>
          obtain ⟨ht, rfl, hcontents⟩ := hpop hp
          rw [hcontents] at hu
          obtain ⟨-, -, -, hthread⟩ := verdict_held_thread hx
          cases hu with
          | cons hexp hrest =>
            refine ⟨⟨_, hv.popped_held hc hp ht hexp hrest hx⟩, ?_, by simp [ht.1]⟩
            rw [CopView.heldAt_direct, hthread]
            rfl
      | passed hh hf hx =>
        cases hf with
        | pending hc' => cases hc.symm.trans hc'
        | popped _ hp =>
          obtain ⟨ht, rfl, hcontents⟩ := hpop hp
          rw [hcontents] at hu
          cases hu with
          | cons hexp hrest =>
            obtain ⟨ws, hstream⟩ := hv.popped_passed he hc hp ht hexp hrest hx
            exact ⟨⟨_, hstream⟩, (verdict_passed hx).direct, by simp [ht.1]⟩

theorem Tracked.push (hv : Tracked v ahead) (hx : Expandable insn) (h : tensixCopPush v insn = (ok, v')) :
    (∃ ahead', Streams v ahead (if ok then [insn] else []) v' ahead') ∧
      v'.thread.directInsn = v.thread.directInsn ∧ v'.thread.mopState = v.thread.mopState := by
  unfold tensixCopPush at h
  cases hp : (v.thread.insnFifo.push insn).1 with
  | false =>
    simp only [hp, Bool.false_eq_true, if_false, Prod.mk.injEq] at h
    obtain ⟨rfl, rfl⟩ := h
    exact ⟨⟨_, hv.refl⟩, rfl, rfl⟩
  | true =>
    simp only [hp, if_true, Prod.mk.injEq] at h
    obtain ⟨rfl, rfl⟩ := h
    obtain ⟨e, hexp⟩ := hx.expands v.thread.mopCfg v.replay.buffer (ahead.foldl zmaskAfter v.thread.zmaskHi16)
    have hcontents := hv.wellFormed.push_contents hp
    have happend {zmask : Word} {out : List Word} (hz : out.foldl zmaskAfter zmask =
          ahead.foldl zmaskAfter v.thread.zmaskHi16)
        (hu : Unfolds v.thread.mopCfg v.replay.buffer zmask v.thread.insnFifo.contents out) :
        Unfolds v.thread.mopCfg v.replay.buffer zmask (v.thread.insnFifo.push insn).2.contents
          (out ++ e) := by
      rw [hcontents]
      exact hu.append (.single (by rw [hz]; exact hexp))
    refine ⟨⟨ahead ++ e, ⟨hv.running, hv.wellFormed.push insn, hv.recording, hv.templates, ?_⟩, rfl,
      rfl, ?_, [], e, .single hexp, rfl, rfl, ?_⟩, rfl, rfl⟩
    · cases hv.stream with
      | held hc ho hm hx hu => exact .held hc ho hm hx (happend rfl hu)
      | @expanding ws out he hu =>
        rw [List.append_assoc]
        refine @Stream.expanding _ ws _ ⟨he.running, he.generates, he.template, he.pending, he.window⟩
          (happend ?_ hu)
        rw [List.foldl_append, foldl_plain]
        rfl
    · exact ⟨[.pushed insn], rfl, rfl, .of_none (by simp)⟩
    · exact executedWords_append v.thread.log [.pushed insn]

end step

end Rv32Emu
