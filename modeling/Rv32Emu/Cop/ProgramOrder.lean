import Rv32Emu.Cop.Blocking
import Rv32Emu.Cop.Progress

namespace Rv32Emu

def goesAhead (v : CopView) (insn : Word) (tid : Tid) : Bool :=
  v.replay.recording || (verdict v insn tid).ok

def overtakes (tid : Tid) (insn : Word) : CopView → List Word → Bool
  | _, [] => false
  | v, w :: ws =>
    match verdict v w tid with
    | .passed u => overtakes tid insn u ws
    | .held _ u => goesAhead u insn tid

section overtakes

variable {v w x v' : CopView} {insn : Word} {tid : Tid} {counted : Bool} {fuel : ℕ}

theorem goesAhead_congr (h : v.arch = w.arch) (hg : v.thread.waitGate = w.thread.waitGate) :
    goesAhead v insn tid = goesAhead w insn tid := by
  have hreplay : v.replay = w.replay := congrArg Arch.replay h
  rw [goesAhead, goesAhead, (verdict_congr insn tid h hg).ok, hreplay]

theorem overtakes_cons (insn' : Word) (ws : List Word) :
    overtakes tid insn v (insn' :: ws) =
      if (verdict v insn' tid).ok then overtakes tid insn (verdict v insn' tid).view ws
      else goesAhead (verdict v insn' tid).view insn tid := by
  rw [overtakes]
  cases verdict v insn' tid <;> rfl

theorem overtakes_congr (h : v.arch = w.arch) (hg : v.thread.waitGate = w.thread.waitGate) (ws : List Word) :
    overtakes tid insn v ws = overtakes tid insn w ws := by
  induction ws generalizing v w with
  | nil => rfl
  | cons insn' ws ih =>
    have hs := verdict_congr insn' tid h hg
    rw [overtakes_cons, overtakes_cons, hs.ok, ih hs.arch hs.gate, goesAhead_congr hs.arch hs.gate]

theorem verdict_held_again (h : verdict v insn tid = .held counted x) : (verdict x insn tid).ok = false := by
  obtain rfl | ⟨rfl, hm, hc⟩ := verdict_held h
  · rw [h]
    rfl
  · have hno : meetsGate (v.setGate waitGateClear) insn = false := meetsGate_clear rfl insn
    have hmc := meetsGate_mopCfg hm
    simp only [verdict, if_neg hmc, passGate, hm, hc, Bool.not_true, Bool.false_eq_true, if_false,
      if_true] at h
    simp only [verdict, if_neg hmc, passGate, hno, Bool.not_false, if_true, h]
    rfl

theorem tensixCopStep_held_again (h : tensixCopStep v tid = (false, v')) (hc : v'.thread.currentInsn ≠ none) :
    (tensixCopStep v' tid).1 = false := by
  cases StepCase.of_eq h with
  | halted hh => simp [tensixCopStep, hh]
  | empty hh hc' => exact absurd hc' hc
  | @held insn u x counted hh hf hx =>
    cases hs : tensixCopStep (x.heldAt insn counted) tid with
    | mk ok w =>
      cases ok with
      | false => rfl
      | true =>
        obtain ⟨insn', u', y, -, hf', hy, -⟩ := StepCase.of_true hs
        cases hf' with
        | popped hc' => simp at hc'
        | pending hc' =>
          obtain rfl : insn = insn' := by simpa using hc'
          have hsame := verdict_congr insn tid (v := (x.heldAt insn counted).setThread
            { (x.heldAt insn counted).thread with currentInsn := none }) (w := x)
            (by cases counted <;> rfl) (by cases counted <;> rfl)
          have hok := hsame.ok
          rw [hy, verdict_held_again hx] at hok
          cases hok

theorem StepCase.overtakes {ok : Bool} (hs : StepCase v tid ok v') (hw : v.thread.insnFifo.WellFormed)
    (hh : v.halted = false) (insn : Word) :
    if ok then Rv32Emu.overtakes tid insn v v.queue = Rv32Emu.overtakes tid insn v' v'.queue
    else v'.queue = [] ∨ v'.thread.currentInsn ≠ none ∧
      Rv32Emu.overtakes tid insn v v.queue = goesAhead v' insn tid := by
  cases hs with
  | halted hh' => simp [hh] at hh'
  | empty _ hc hf =>
    refine .inl ?_
    simp [CopView.queue, CopView.idle, CopView.setThread, hc, TensixFifo.pop_eq_none hf]
  | @held insn' u x counted _ hf hx =>
    have hsame := verdict_congr insn' tid hf.arch.symm hf.gate.symm
    rw [hx] at hsame
    refine .inr ⟨by simp, ?_⟩
    rw [hf.queue hw, overtakes_cons, hsame.ok]
    exact goesAhead_congr (hsame.arch.trans (x.heldAt_arch insn' counted).symm)
      (hsame.gate.trans (x.heldAt_gate insn' counted).symm)
  | @passed insn' u x _ hf hx =>
    have hsame := verdict_congr insn' tid hf.arch.symm hf.gate.symm
    have hp := verdict_passed hx
    rw [hx] at hsame
    have hq : (x.complete (.ran x.thread.currentOrigin insn')).queue = u.thread.insnFifo.contents := by
      simp [CopView.queue, CopView.complete, CopView.setThread, hp.current hf.current, hp.fifo]
    show Rv32Emu.overtakes tid insn v v.queue = _
    rw [hf.queue hw, overtakes_cons, hsame.ok, hq]
    refine (if_pos rfl).trans ?_
    exact overtakes_congr (w := x.complete _) hsame.arch hsame.gate _

theorem drainFifo_overtakes (hw : v.thread.insnFifo.WellFormed) (hh : v.halted = false)
    (ho : overtakes tid insn v v.queue = false) (h : drainFifo fuel v tid = some v') :
    v'.queue = [] ∨ v'.thread.currentInsn ≠ none ∧ goesAhead v' insn tid = false ∧
      (tensixCopStep v' tid).1 = false := by
  apply Loop.invariant
    (I := fun s => s.thread.insnFifo.WellFormed ∧ s.halted = false ∧ overtakes tid insn s s.queue = false)
    (Q := fun r => r.queue = [] ∨ r.thread.currentInsn ≠ none ∧ goesAhead r insn tid = false ∧
      (tensixCopStep r tid).1 = false) ?_ ?_ h ⟨hw, hh, ho⟩
  · rintro s s' ⟨hsw, hsh, hso⟩ hturn
    cases hstep : tensixCopStep s tid with
    | mk done u =>
      rw [hstep] at hturn
      cases done <;> cases hturn
      obtain ⟨hw', hh', -⟩ := tensixCopStep_queue hsw hstep
      have hnext := (StepCase.of_eq hstep).overtakes hsw hsh insn
      exact ⟨hw', hh'.trans hsh, hnext.symm.trans hso⟩
  · rintro s r ⟨hsw, hsh, hso⟩ hturn
    cases hstep : tensixCopStep s tid with
    | mk done u =>
      rw [hstep] at hturn
      cases done <;> cases hturn
      obtain hq | ⟨hc, hgo⟩ := (StepCase.of_eq hstep).overtakes hsw hsh insn
      · exact .inl hq
      · exact .inr ⟨hc, hgo.symm.trans hso, tensixCopStep_held_again hstep hc⟩

theorem mopContinueExecution_stays (hc : v.thread.currentInsn ≠ none) (hs : (tensixCopStep v tid).1 = false)
    (n : ℕ) :
    ∃ u, mopContinueExecution (n + 1) v tid = some (false, u) := by
  have hsome : v.thread.currentInsn.isSome = true := Option.isSome_iff_ne_none.mpr hc
  refine ⟨(tensixCopStep v tid).2, ?_⟩
  cases hx : v.replay.expanding with
  | true =>
    have hturn : replayTurn tid v = some (.inr (false, (tensixCopStep v tid).2)) := by
      simp [replayTurn, hx, hsome, hs]
    simp only [mopContinueExecution, drainIfExpanding, hx, if_true, drainReplayExpansion, Loop.exit hturn]
    rfl
  | false =>
    simp only [mopContinueExecution, drainIfExpanding, hx, Bool.false_eq_true, if_false, Outcome.andThen,
      mopRetry, hsome, if_true, hs, Bool.not_false]

theorem mopFinishAll_stays (hm : v.thread.mopState.active = true) (hc : v.thread.currentInsn ≠ none)
    (hs : (tensixCopStep v tid).1 = false) (n : ℕ) : ∃ u, mopFinishAll (n + 1) v tid = some (false, u) := by
  obtain ⟨u, hu⟩ := mopContinueExecution_stays hc hs n
  exact ⟨u, Loop.exit (by simp [hm, hu]) n⟩

end overtakes

structure Logged (v v' : CopView) (pushes : List Word) : Prop where
  wellFormed : v'.thread.insnFifo.WellFormed
  log : ∃ es, v'.thread.log = v.thread.log ++ es ∧ InOrder v.outstanding es v'.outstanding ∧
    pushedWords es = pushes

namespace Logged

variable {v u v' : CopView} {ps ps' : List Word}

theorem trans (h : Logged v u ps) (k : Logged u v' ps') : Logged v v' (ps ++ ps') := by
  obtain ⟨es, hlog, hrun, hp⟩ := h.log
  obtain ⟨es', hlog', hrun', hp'⟩ := k.log
  refine ⟨k.wellFormed, es ++ es', by rw [hlog', hlog, List.append_assoc], hrun.append hrun', ?_⟩
  rw [← hp, ← hp', pushedWords, List.filterMap_append]
  rfl

theorem of_progress (h : Progress v v') (hw : v.thread.insnFifo.WellFormed) : Logged v v' [] := by
  obtain ⟨es, hlog, hrun, hran⟩ := h.ran hw
  exact ⟨h.wellFormed hw, es, hlog, hrun, pushedWords_ran hran⟩

theorem of_eq (hw : v.thread.insnFifo.WellFormed) (hf : v'.thread.insnFifo = v.thread.insnFifo)
    (hlog : v'.thread.log = v.thread.log) (ho : v'.outstanding = v.outstanding) : Logged v v' [] :=
  of_progress (.of_eq hf hlog ho) hw

theorem direct (e : Event) (he : e.isDirect = true) (hw : v.thread.insnFifo.WellFormed)
    (hf : v'.thread.insnFifo = v.thread.insnFifo) (hlog : v'.thread.log = v.thread.log ++ [e])
    (hv : v.outstanding = []) (hv' : v'.outstanding = []) : Logged v v' [] := by
  refine ⟨hf ▸ hw, [e], hlog, ?_, ?_⟩
  · rw [hv, hv']
    apply Run.single.mpr
    cases e with
    | issued insn => exact .issued insn
    | recorded insn => exact .recorded insn
    | pushed => cases he
    | ran => cases he
  · cases e with
    | issued => rfl
    | recorded => rfl
    | pushed => cases he
    | ran => cases he

end Logged

theorem Passed.outstanding {v u : CopView} {insn : Word} (h : Passed v insn u) (hv : v.outstanding = []) :
    u.outstanding = [] := by
  rw [CopView.outstanding, List.append_eq_nil_iff] at hv ⊢
  rw [h.fifo, h.origin]
  refine ⟨?_, hv.2⟩
  split_ifs with ho
  · have hc : v.thread.currentInsn = none := by simpa [ho] using hv.1
    rw [h.current hc]
    rfl
  · rfl

section issue

variable {v v' : CopView} {insn : Word} {tid : Tid} {ok : Bool} {fuel : ℕ}

theorem recordInsn_logged (hw : v.thread.insnFifo.WellFormed) (hv : v.outstanding = [])
    (hc : tensixInsnOpcode insn ≠ opcodeMopCfg) : Logged v (recordInsn v insn tid) [] := by
  unfold recordInsn
  dsimp only
  generalize hr : v.setReplay _ = u
  have hu : u.thread = v.thread := by rw [← hr]; rfl
  have huo : u.outstanding = [] := by rw [← hr]; exact hv
  split_ifs
  · have hp : Passed u insn (tensixExecuteInsn u insn tid).2 := .execute hc
    refine .direct (.recorded insn) rfl hw (by rw [← hu]; exact hp.fifo) ?_ hv (hp.outstanding huo)
    rw [← hu, ← hp.log]
    rfl
  · exact .direct (.recorded insn) rfl hw (by rw [← hu]; rfl) (by rw [← hu]; rfl) hv huo

theorem finish_logged (hw : v.thread.insnFifo.WellFormed) : Logged v v.finish [] := .of_eq hw rfl rfl rfl

theorem directInsn_logged (hw : v.thread.insnFifo.WellFormed)
    (hv : v.outstanding = [] ∨ goesAhead v insn tid = false)
    (h : directInsn fuel v insn tid = some (ok, v')) : Logged v v' [] := by
  by_cases hrec : tensixInsnOpcode insn ≠ opcodeMopCfg ∧ v.replay.recording = true
  · obtain ⟨hc, hr⟩ := hrec
    simp only [directInsn, if_neg hc, hr, if_true] at h
    cases h
    exact recordInsn_logged hw (hv.resolve_right (by simp [goesAhead, hr])) hc
  have hr (hc : tensixInsnOpcode insn ≠ opcodeMopCfg) : v.replay.recording = false := by
    simpa using fun hr => hrec ⟨hc, hr⟩
  rw [directInsn_eq fuel tid hr] at h
  cases hx : verdict v insn tid with
  | held counted u =>
    rw [hx] at h
    cases h
    obtain rfl | ⟨rfl, -⟩ := verdict_held hx <;> cases counted <;> exact .of_eq hw rfl rfl rfl
  | passed u =>
    have hp := verdict_passed hx
    have hempty : v.outstanding = [] := hv.resolve_right (by simp [goesAhead, hx, Verdict.ok])
    have hissued : Logged v (u.issued insn) [] :=
      .direct (.issued insn) rfl hw hp.fifo (by rw [← hp.log]; rfl) hempty (hp.outstanding hempty)
    rw [hx, Verdict.toDirect] at h
    split_ifs at h
    · cases h
      exact hissued.trans (finish_logged hissued.wellFormed)
    · exact hissued.trans (.of_progress (mopContinueExecution_progress h) hissued.wellFormed)
    · obtain ⟨hb, -⟩ | ⟨w, hw', hf⟩ := Outcome.andThen_eq_some h
      · exact hissued.trans (.of_progress (drainIfExpanding_progress hb).1 hissued.wellFormed)
      · cases hf
        have hdrain := hissued.trans (.of_progress (drainIfExpanding_progress hw').1 hissued.wellFormed)
        exact hdrain.trans (finish_logged hdrain.wellFormed)

/-- No pushed instruction is outstanding, or the instruction is a MOP that continues the one in
progress, or no MOP is in progress and the instruction does not overtake the queue. -/
def KeepsOrder (v : CopView) (insn : Word) (tid : Tid) : Prop :=
  v.outstanding = [] ∨ (v.thread.mopState.active = true ∧ tensixInsnOpcode insn = opcodeMop) ∨
    v.thread.mopState.active = false ∧ overtakes tid insn v v.queue = false

theorem CopView.outstanding_of_queue (h : v.queue = []) : v.outstanding = [] := by
  rw [queue, List.append_eq_nil_iff] at h
  rw [outstanding, h.1, h.2]
  split_ifs <;> rfl

theorem directAfterMop_logged (hw : v.thread.insnFifo.WellFormed)
    (hv : v.outstanding = [] ∨ v.halted = false ∧ overtakes tid insn v v.queue = false)
    (h : directAfterMop fuel v insn tid = some (ok, v')) : Logged v v' [] := by
  unfold directAfterMop at h
  split at h
  · cases h
  next d hd =>
  have hdrain := drainFifo_progress hd
  have hdw := hdrain.wellFormed hw
  have hlog : Logged v d [] := .of_progress hdrain hw
  have hcase : d.outstanding = [] ∨ d.thread.currentInsn ≠ none ∧ goesAhead d insn tid = false ∧
      (tensixCopStep d tid).1 = false := by
    obtain hv | ⟨hh, hv⟩ := hv
    · exact .inl (hdrain.empty hw hv)
    · exact (drainFifo_overtakes hw hh hv hd).imp CopView.outstanding_of_queue id
  split_ifs at h with hm
  · exact hlog.trans (directInsn_logged hdw (hcase.imp id fun h => h.2.1) h)
  · have hm : d.thread.mopState.active = true := by simpa using hm
    split at h
    · cases h
    next done w hf =>
    have hfin := mopFinishAll_progress hf
    have hlog' := hlog.trans (.of_progress hfin hdw)
    have hset : Logged w (w.setDirect insn) [] := .of_eq hlog'.wellFormed rfl rfl rfl
    cases done with
    | false =>
      cases h
      exact hlog'.trans hset
    | true =>
      obtain hd | ⟨hc, -, hs⟩ := hcase
      · exact (hlog'.trans hset).trans
          (directInsn_logged hset.wellFormed (.inl (hfin.empty hdw hd)) h)
      · obtain ⟨n, rfl, -⟩ := Loop.unfold hf
        obtain ⟨u, hu⟩ := mopFinishAll_stays hm hc hs n
        cases hf.symm.trans hu

theorem issue_logged (hw : v.thread.insnFifo.WellFormed) (hk : KeepsOrder v insn tid)
    (h : ThreadActs tid v (.issue insn) ok v') : Logged v v' [] := by
  obtain ⟨fuel, h⟩ := h
  have hset : Logged v (v.setDirect insn) [] := .of_eq hw rfl rfl rfl
  cases hh : v.halted with
  | true =>
    rw [tensixCopStepDirect_halted insn hh] at h
    cases h
    exact hset
  | false =>
    cases hm : v.thread.mopState.active with
    | false =>
      rw [tensixCopStepDirect_inactive insn hh hm] at h
      have hset_overtakes : overtakes tid insn (v.setDirect insn) (v.setDirect insn).queue =
          overtakes tid insn v v.queue := overtakes_congr (v := v.setDirect insn) (w := v) rfl rfl v.queue
      have hkeeps : v.outstanding = [] ∨ overtakes tid insn v v.queue = false := by
        simpa [KeepsOrder, hm] using hk
      refine hset.trans (directAfterMop_logged hset.wellFormed (hkeeps.imp id fun h => ⟨hh, ?_⟩) h)
      rw [hset_overtakes]
      exact h
    | true =>
      have hempty (hne : tensixInsnOpcode insn ≠ opcodeMop) : (v.setDirect insn).outstanding = [] := by
        have hnone : v.outstanding = [] := by simpa [KeepsOrder, hm, hne] using hk
        exact hnone
      rw [tensixCopStepDirect_active insn hh hm] at h
      split at h
      · cases h
      · next u hu =>
        cases h
        have hcont := hset.trans (.of_progress (mopContinueExecution_progress hu) hset.wellFormed)
        exact hcont.trans (.of_eq hcont.wellFormed rfl rfl rfl)
      · next u hu =>
        have hprog := mopContinueExecution_progress hu
        have hcont := hset.trans (.of_progress hprog hset.wellFormed)
        split_ifs at h with hop
        · cases h
          exact hcont
        · have hset' : Logged u (u.setDirect insn) [] := .of_eq hcont.wellFormed rfl rfl rfl
          exact (hcont.trans hset').trans
            (directAfterMop_logged hset'.wellFormed (.inl (hprog.empty hset.wellFormed (hempty hop))) h)

theorem push_logged (hw : v.thread.insnFifo.WellFormed) (h : tensixCopPush v insn = (ok, v')) :
    Logged v v' (if ok then [insn] else []) := by
  unfold tensixCopPush at h
  cases hp : (v.thread.insnFifo.push insn).1 with
  | false =>
    simp only [hp, Bool.false_eq_true, if_false, Prod.mk.injEq] at h
    obtain ⟨rfl, rfl⟩ := h
    exact .of_eq hw rfl rfl rfl
  | true =>
    simp only [hp, if_true, Prod.mk.injEq] at h
    obtain ⟨rfl, rfl⟩ := h
    refine ⟨hw.push insn, [.pushed insn], rfl, Run.single.mpr ?_, rfl⟩
    have hq : (v.setThread { v.thread with
        insnFifo := (v.thread.insnFifo.push insn).2, log := v.thread.log ++ [.pushed insn] }).outstanding =
        v.outstanding ++ [insn] := by
      rw [CopView.outstanding, CopView.outstanding, List.append_assoc, ← hw.push_contents hp]
      rfl
    rw [hq]
    exact .pushed v.outstanding insn

end issue

theorem Logged.congr {v u v' : CopView} {ps : List Word} (h : Logged v u ps) (ht : v'.thread = u.thread) :
    Logged v v' ps := by
  have ho : v'.outstanding = u.outstanding := by rw [CopView.outstanding, ht]; rfl
  refine ⟨ht ▸ h.wellFormed, ?_⟩
  rw [ho, ht]
  exact h.log

def OrderedActs (t : Tid) (cop : TensixCop) (l : Label) (cop' : TensixCop) : Prop :=
  Acts cop l cop' ∧ (l.tid = t → ∀ insn, l.act = .issue insn → KeepsOrder (cop.view t) insn t)

section run

variable {t : Tid} {cop cop' : TensixCop} {ls : List Label} {l : Label}

theorem OrderedActs.logged (h : OrderedActs t cop l cop') (hw : (cop.threads t).insnFifo.WellFormed) :
    Logged (cop.view t) (cop'.view t) (acceptedPushes t [l]) := by
  obtain ⟨tid, a, ok⟩ := l
  obtain ⟨⟨v, hv, rfl⟩, hk⟩ := h
  by_cases ht : tid = t
  · subst ht
    have hself : ((cop.putView tid v).view tid).thread = v.thread := by simp
    refine Logged.congr ?_ hself
    cases a with
    | push insn =>
      have hp := push_logged (v := cop.view tid) hw hv
      cases ok <;> simpa [acceptedPushes] using hp
    | step => exact .of_progress (tensixCopStep_progress hv).1 hw
    | issue insn => exact issue_logged hw (hk rfl insn rfl) hv
  · have hnone : acceptedPushes t [⟨tid, a, ok⟩] = [] := by
      cases a <;> simp [acceptedPushes, ht]
    rw [hnone, cop.view_putView_ne v (Ne.symm ht)]
    exact .of_eq hw rfl rfl rfl

theorem OrderedActs.run (h : Run (OrderedActs t) cop ls cop') (hw : (cop.threads t).insnFifo.WellFormed) :
    Logged (cop.view t) (cop'.view t) (acceptedPushes t ls) := by
  induction h with
  | nil => exact .of_eq hw rfl rfl rfl
  | @cons _ _ _ l ls hs _ ih =>
    have hstep := hs.logged hw
    have hsplit : acceptedPushes t (l :: ls) = acceptedPushes t [l] ++ acceptedPushes t ls :=
      acceptedPushes_append t [l] ls
    rw [hsplit]
    exact hstep.trans (ih hstep.wellFormed)

end run

def queuedPacr : TensixCop := powerUp.after 0 [(2, .push 0x41000000)]

theorem direct_overtakes_and_discards :
    (∃ cop', CopRun queuedPacr [⟨2, .issue 0x02000000, true⟩] cop' ∧
      (cop'.threads 2).log = (queuedPacr.threads 2).log ++ [.issued 0x02000000] ∧
      (queuedPacr.view 2).queue ≠ fifoWords [] ∧ (cop'.view 2).outstanding = [0x41000000]) ∧
    ∃ cop' es, CopRun queuedPacr [⟨2, .issue 0x01000000, true⟩] cop' ∧
      (cop'.threads 2).log = (queuedPacr.threads 2).log ++ es ∧
      (queuedPacr.view 2).queue = [0x41000000] ∧ fifoWords es = [] ∧ (cop'.view 2).outstanding = [] := by
  have hnop : CopRun queuedPacr [⟨2, .issue 0x02000000, true⟩]
      (queuedPacr.after 9 [(2, .issue 0x02000000)]) :=
    TensixCop.exec_after (by decide)
  have hmop : CopRun queuedPacr [⟨2, .issue 0x01000000, true⟩]
      (queuedPacr.after 9 [(2, .issue 0x01000000)]) :=
    TensixCop.exec_after (by decide)
  exact ⟨⟨_, hnop, by decide, by decide, by decide⟩,
    _, [.issued 0x01000000, .ran .expander 0], hmop, by decide, by decide, by decide, by decide⟩

end Rv32Emu
