import Rv32Emu.Cop.DirectPath

namespace Rv32Emu

def Completes (tid : Tid) (core : Tensix) (insn : Word) (core' : Tensix) : Prop :=
  ∃ mopCfg, runCoreImpl (insnImpl insn) core mopCfg (tensixInsnParam insn) tid = (true, core')

def Event.Executes : Event → Option Word → Prop
  | .pushed _, x => x = none
  | .ran _ insn, x => x = some insn
  | .issued insn, x => x = some insn
  | .recorded insn, x => x = none ∨ x = some insn

structure Item where
  tid : Tid
  event : Event
  executed : Option Word
  before : Tensix
  after : Tensix

def Reaches (tid : Tid) (core : Tensix) : Option Word → Tensix → Prop
  | none, core' => core' = core
  | some insn, core' => Completes tid core insn core'

structure CoreStep (core : Tensix) (i : Item) (core' : Tensix) : Prop where
  executes : i.event.Executes i.executed
  reaches : Reaches i.tid core i.executed core'
  before : i.before = core
  after : i.after = core'

def Traced (tid : Tid) (v v' : CopView) : Prop :=
  ∃ is : List Item, (∀ i ∈ is, i.tid = tid) ∧ v'.thread.log = v.thread.log ++ is.map Item.event ∧
    Run CoreStep v.core is v'.core

namespace Traced

variable {tid : Tid} {v u v' : CopView}

theorem of_eq (hcore : v'.core = v.core) (hlog : v'.thread.log = v.thread.log) : Traced tid v v' := by
  refine ⟨[], by simp, by simp [hlog], ?_⟩
  rw [hcore]
  exact .nil _

theorem refl (v : CopView) : Traced tid v v := .of_eq rfl rfl

theorem trans (h : Traced tid v u) (k : Traced tid u v') : Traced tid v v' := by
  obtain ⟨is, ht, hlog, hrun⟩ := h
  obtain ⟨js, ht', hlog', hrun'⟩ := k
  refine ⟨is ++ js, fun i hi => ?_, by rw [hlog', hlog, List.map_append, List.append_assoc],
    hrun.append hrun'⟩
  obtain hi | hi := List.mem_append.mp hi
  · exact ht i hi
  · exact ht' i hi

theorem event (e : Event) {x : Option Word} (hx : e.Executes x) (hlog : v'.thread.log = v.thread.log ++ [e])
    (hcore : Reaches tid v.core x v'.core) : Traced tid v v' :=
  ⟨[⟨tid, e, x, v.core, v'.core⟩], by simp, hlog, Run.single.mpr ⟨hx, hcore, rfl, rfl⟩⟩

end Traced

section completes

variable {v x : CopView} {insn : Word} {tid : Tid}

theorem Completes.of_idle {core : Tensix} (h : ∀ cfg, runCoreImpl (insnImpl insn) core cfg
      (tensixInsnParam insn) tid =
    (true, core)) : Completes tid core insn core :=
  ⟨fun _ => 0, h _⟩

theorem completes_mopCfg (core : Tensix) (h : tensixInsnOpcode insn = opcodeMopCfg) :
    Completes tid core insn core := by
  apply Completes.of_idle
  intro cfg
  rw [(insnImpl_eq_ttmopCfg insn).mpr h]
  rfl

theorem completes_wait (core : Tensix) (h : isWaitOpcode (tensixInsnOpcode insn) = true) :
    Completes tid core insn core := by
  apply Completes.of_idle
  intro cfg
  simp only [isWaitOpcode, Bool.or_eq_true, decide_eq_true_eq] at h
  obtain (h | h) | h := h <;> rw [insnImpl, h] <;> rfl

theorem execute_completes (h : (tensixExecuteInsn v insn tid).1 = true) :
    Completes tid v.core insn (tensixExecuteInsn v insn tid).2.core := by
  by_cases hm : tensixInsnOpcode insn = opcodeMop
  · rw [execute_mop v tid hm]
    apply Completes.of_idle
    intro cfg
    rw [(insnImpl_eq_ttmop insn).mpr hm]
    rfl
  by_cases hc : tensixInsnOpcode insn = opcodeMopCfg
  · rw [execute_mopCfg v tid hc]
    exact completes_mopCfg _ hc
  by_cases hr : tensixInsnOpcode insn = opcodeReplay
  · rw [execute_replay v tid hr]
    apply Completes.of_idle
    intro cfg
    rw [(insnImpl_eq_ttreplay insn).mpr hr]
    rfl
  rw [execute_plain v tid ⟨hm, hc, hr⟩] at h ⊢
  exact ⟨v.thread.mopCfg, Prod.ext h rfl⟩

theorem verdict_passed_completes (h : verdict v insn tid = .passed x) : Completes tid v.core insn x.core := by
  obtain ⟨hcore, hc | hw⟩ | ⟨u, hcore, hok, rfl⟩ := verdict_passed_core h
  · rw [hcore]
    exact completes_mopCfg _ hc
  · rw [hcore]
    exact completes_wait _ hw
  · rw [← hcore]
    exact execute_completes hok

end completes

section functions

variable {v v' : CopView} {tid : Tid} {ok : Bool} {fuel : ℕ}

theorem tensixCopStep_traced (h : tensixCopStep v tid = (ok, v')) : Traced tid v v' := by
  cases StepCase.of_eq h with
  | halted => exact .refl v
  | empty => exact .of_eq rfl rfl
  | held hh hf hx =>
    obtain ⟨-, hcore, -, hthread⟩ := verdict_held_thread hx
    refine .of_eq ?_ ?_
    · rw [CopView.heldAt_core, hcore, hf.core]
    · rw [CopView.heldAt_log, hthread]
      exact hf.log
  | @passed insn u x hh hf hx =>
    have hlog : x.thread.log = v.thread.log := (verdict_passed hx).log.trans hf.log
    have hcompletes := verdict_passed_completes hx
    rw [hf.core] at hcompletes
    have hexec : (Event.ran x.thread.currentOrigin insn).Executes (some insn) := rfl
    refine .event (.ran x.thread.currentOrigin insn) hexec ?_ hcompletes
    rw [← hlog]
    rfl

theorem stepPending_traced {r : Bool × CopView}
    (h : (if v.thread.currentInsn.isSome then tensixCopStep v tid else (true, v)) = r) :
    Traced tid v r.2 := by
  split_ifs at h
  · exact tensixCopStep_traced h
  · cases h
    exact .refl v

def TurnTraced (tid : Tid) (v : CopView) : CopView ⊕ (Bool × CopView) → Prop
  | .inl u => Traced tid v u
  | .inr r => Traced tid v r.2

theorem feed_traced {w : CopView} {insn : Word} (h : tensixCopStep (w.feed insn) tid = (ok, v'))
    (hcore : w.core = v.core) (hlog : w.thread.log = v.thread.log) : Traced tid v v' := by
  have hw : Traced tid v (w.feed insn) := .of_eq hcore hlog
  exact hw.trans (tensixCopStep_traced h)

theorem replayTurn_traced {x : CopView ⊕ (Bool × CopView)} (h : replayTurn tid v = some x) :
    TurnTraced tid v x := by
  cases hx : v.replay.expanding with
  | false =>
    simp only [replayTurn, hx, Bool.not_false, if_true] at h
    cases h
    exact .refl v
  | true =>
    simp only [replayTurn, hx, Bool.not_true, Bool.false_eq_true, if_false] at h
    generalize hp : (if v.thread.currentInsn.isSome then tensixCopStep v tid else (true, v)) = r at h
    obtain ⟨done, u⟩ := r
    have hpre : Traced tid v u := stepPending_traced hp
    cases done with
    | false =>
      cases h
      exact hpre
    | true =>
      simp only [Bool.not_true, Bool.false_eq_true, if_false] at h
      split at h
      · cases h
        exact hpre.trans (.of_eq rfl rfl)
      · generalize hs : tensixCopStep _ tid = r at h
        obtain ⟨went, w⟩ := r
        have hstep : Traced tid u w := feed_traced hs rfl rfl
        cases went <;> cases h <;> exact hpre.trans hstep

theorem loop_traced {body : CopView → Option (CopView ⊕ (Bool × CopView))}
    (hbody : ∀ s x, body s = some x → TurnTraced tid s x) (h : loop body fuel v = some (ok, v')) :
    Traced tid v v' :=
  Loop.invariant (I := Traced tid v) (Q := fun r => Traced tid v r.2)
    (fun _ _ hs hb => hs.trans (hbody _ _ hb))
    (fun s r hs hb => hs.trans (show Traced tid s r.2 from hbody s (.inr r) hb)) h (.refl v)

theorem drainReplayExpansion_traced (h : drainReplayExpansion fuel v tid = some (ok, v')) : Traced tid v v' :=
  loop_traced (fun _ _ hb => replayTurn_traced hb) h

theorem drainIfExpanding_traced (h : drainIfExpanding fuel v tid = some (ok, v')) : Traced tid v v' := by
  unfold drainIfExpanding at h
  split_ifs at h
  · exact drainReplayExpansion_traced h
  · cases h
    exact .refl v

theorem mopTurn_traced {x : CopView ⊕ (Bool × CopView)} (h : mopTurn fuel tid v = some x) :
    TurnTraced tid v x := by
  unfold mopTurn at h
  split at h
  · cases h
    exact .of_eq rfl rfl
  · generalize hs : tensixCopStep _ tid = r at h
    obtain ⟨went, u⟩ := r
    have hstep : Traced tid v u := feed_traced hs rfl rfl
    cases went with
    | false =>
      cases h
      exact hstep
    | true =>
      simp only [Bool.not_true, Bool.false_eq_true, if_false] at h
      split at h
      · cases h
      · next hd =>
        cases h
        exact hstep.trans (drainIfExpanding_traced hd)
      · next hd =>
        cases h
        exact hstep.trans (drainIfExpanding_traced hd)

theorem mopRetry_traced (h : mopRetry fuel v tid = some (ok, v')) : Traced tid v v' := by
  unfold mopRetry at h
  split_ifs at h
  · generalize hs : tensixCopStep v tid = r at h
    obtain ⟨went, u⟩ := r
    have hstep : Traced tid v u := tensixCopStep_traced hs
    cases went with
    | false =>
      cases h
      exact hstep
    | true =>
      have hclear : Traced tid u (u.setThread { u.thread with currentInsn := none }) := .of_eq rfl rfl
      exact hstep.trans (hclear.trans (drainIfExpanding_traced h))
  · cases h
    exact .refl v

theorem mopContinueExecution_traced (h : mopContinueExecution fuel v tid = some (ok, v')) :
    Traced tid v v' := by
  obtain ⟨hb, -⟩ | ⟨u, hu, h⟩ := Outcome.andThen_eq_some h
  · exact drainIfExpanding_traced hb
  have hdrain := drainIfExpanding_traced hu
  obtain ⟨hb, -⟩ | ⟨w, hw, h⟩ := Outcome.andThen_eq_some h
  · exact hdrain.trans (mopRetry_traced hb)
  · exact hdrain.trans ((mopRetry_traced hw).trans (loop_traced (fun _ _ hb => mopTurn_traced hb) h))

theorem mopFinishAll_traced (h : mopFinishAll fuel v tid = some (ok, v')) : Traced tid v v' := by
  refine loop_traced (fun s x hb => ?_) h
  split_ifs at hb
  · cases hb
    exact .refl s
  · split at hb
    · cases hb
    · next hc =>
      cases hb
      exact mopContinueExecution_traced hc
    · next hc =>
      cases hb
      exact mopContinueExecution_traced hc

theorem drainFifo_traced (h : drainFifo fuel v tid = some v') : Traced tid v v' := by
  apply Loop.invariant (I := Traced tid v) (Q := Traced tid v) ?_ ?_ h (.refl v)
  · intro s s' hs hturn
    cases hstep : tensixCopStep s tid with
    | mk done u =>
      rw [hstep] at hturn
      cases done <;> cases hturn
      exact hs.trans (tensixCopStep_traced hstep)
  · intro s r hs hturn
    cases hstep : tensixCopStep s tid with
    | mk done u =>
      rw [hstep] at hturn
      cases done <;> cases hturn
      exact hs.trans (tensixCopStep_traced hstep)

theorem recordInsn_traced (insn : Word) : Traced tid v (recordInsn v insn tid) := by
  unfold recordInsn
  dsimp only
  generalize hr : v.setReplay _ = u
  have hu : u.thread = v.thread := by rw [← hr]; rfl
  have hcore : u.core = v.core := by rw [← hr]; rfl
  have hskip : Event.Executes (.recorded insn) none := .inl rfl
  have hexec : Event.Executes (.recorded insn) (some insn) := .inr rfl
  split_ifs
  · have hlog : (tensixExecuteInsn u insn tid).2.thread.log = v.thread.log := by
      rw [execute_log, hu]
    have happ : ((tensixExecuteInsn u insn tid).2.clearDirect.complete (.recorded insn)).thread.log =
        v.thread.log ++ [.recorded insn] := by
      rw [← hlog]
      rfl
    cases hok : (tensixExecuteInsn u insn tid).1 with
    | true =>
      refine .event _ hexec happ ?_
      rw [← hcore]
      exact execute_completes hok
    | false =>
      refine .event _ hskip happ ?_
      rw [← hcore]
      show (tensixExecuteInsn u insn tid).2.core = u.core
      rw [execute_refused u tid hok]
  · refine .event _ hskip ?_ hcore
    rw [← hu]
    rfl

theorem directInsn_traced {insn : Word} (h : directInsn fuel v insn tid = some (ok, v')) :
    Traced tid v v' := by
  by_cases hrec : tensixInsnOpcode insn ≠ opcodeMopCfg ∧ v.replay.recording = true
  · obtain ⟨hc, hr⟩ := hrec
    simp only [directInsn, if_neg hc, hr, if_true] at h
    cases h
    exact recordInsn_traced insn
  have hr (hc : tensixInsnOpcode insn ≠ opcodeMopCfg) : v.replay.recording = false := by
    simpa using fun hr => hrec ⟨hc, hr⟩
  rw [directInsn_eq fuel tid hr] at h
  cases hx : verdict v insn tid with
  | held counted u =>
    rw [hx] at h
    cases h
    obtain rfl | ⟨rfl, -⟩ := verdict_held hx <;> cases counted <;> exact .of_eq rfl rfl
  | passed u =>
    have hlog : u.thread.log = v.thread.log := (verdict_passed hx).log
    have hcompletes : Completes tid v.core insn u.core := verdict_passed_completes hx
    have hissued : Traced tid v (u.issued insn) := by
      refine .event (.issued insn) (x := some insn) rfl ?_ hcompletes
      rw [← hlog]
      rfl
    rw [hx, Verdict.toDirect] at h
    split_ifs at h
    · cases h
      exact hissued.trans (.of_eq rfl rfl)
    · exact hissued.trans (mopContinueExecution_traced h)
    · obtain ⟨hb, -⟩ | ⟨w, hw, h⟩ := Outcome.andThen_eq_some h
      · exact hissued.trans (drainIfExpanding_traced hb)
      · cases h
        exact hissued.trans ((drainIfExpanding_traced hw).trans (.of_eq rfl rfl))

theorem directAfterMop_traced {saved : Word} (h : directAfterMop fuel v saved tid = some (ok, v')) :
    Traced tid v v' := by
  unfold directAfterMop at h
  split at h
  · cases h
  · next u hu =>
    have hdrain := drainFifo_traced hu
    split_ifs at h
    · exact hdrain.trans (directInsn_traced h)
    · split at h
      · cases h
      · next done w hw =>
        have hfinish := hdrain.trans (mopFinishAll_traced hw)
        have hset : Traced tid w (w.setDirect saved) := .of_eq rfl rfl
        split_ifs at h
        · exact hfinish.trans (hset.trans (directInsn_traced h))
        · cases h
          exact hfinish.trans hset

theorem tensixCopStepDirect_traced (h : tensixCopStepDirect fuel v tid = some (ok, v')) :
    Traced tid v v' := by
  unfold tensixCopStepDirect at h
  cases hh : v.halted with
  | true =>
    rw [hh] at h
    cases h
    exact .refl v
  | false =>
    simp only [hh, Bool.false_eq_true, if_false] at h
    cases hd : v.thread.directInsn with
    | none =>
      rw [hd] at h
      cases h
      exact .refl v
    | some saved =>
      simp only [hd] at h
      cases hm : v.thread.mopState.active with
      | false =>
        simp only [hm, Bool.not_false, if_true] at h
        exact directAfterMop_traced h
      | true =>
        simp only [hm, Bool.not_true, Bool.false_eq_true, if_false] at h
        split at h
        · cases h
        · next u hu =>
          cases h
          exact (mopContinueExecution_traced hu).trans (.of_eq rfl rfl)
        · next u hu =>
          have hmop := mopContinueExecution_traced hu
          split_ifs at h
          · cases h
            exact hmop
          · have hset : Traced tid u (u.setDirect saved) := .of_eq rfl rfl
            exact hmop.trans (hset.trans (directAfterMop_traced h))

theorem tensixCopPush_traced {insn : Word} (h : tensixCopPush v insn = (ok, v')) : Traced tid v v' := by
  unfold tensixCopPush at h
  split at h
  split_ifs at h <;> cases h
  · exact .event (.pushed insn) (x := none) rfl rfl rfl
  · exact .refl v

theorem ThreadActs.traced {a : ThreadAction} (h : ThreadActs tid v a ok v') : Traced tid v v' := by
  cases a with
  | push insn => exact tensixCopPush_traced h
  | step => exact tensixCopStep_traced h
  | issue insn =>
    obtain ⟨n, h⟩ := h
    have hset : Traced tid v (tensixCopSetDirect v insn) := .of_eq rfl rfl
    exact hset.trans (tensixCopStepDirect_traced h)

end functions

/-- A run of the machine together with the events of all threads in the order in which they happened. -/
inductive History : TensixCop → List Label → List Item → TensixCop → Prop
  | nil (cop : TensixCop) : History cop [] [] cop
  | cons {cop u cop' : TensixCop} {l : Label} {ls : List Label} {is js : List Item} : Acts cop l u →
      (∀ i ∈ is, i.tid = l.tid) → (u.threads l.tid).log = (cop.threads l.tid).log ++ is.map Item.event →
      Run CoreStep cop.core is u.core → History u ls js cop' → History cop (l :: ls) (is ++ js) cop'

namespace History

variable {cop cop' : TensixCop} {ls : List Label} {is : List Item}

theorem run (h : History cop ls is cop') : CopRun cop ls cop' := by
  induction h with
  | nil cop => exact .nil cop
  | cons ha _ _ _ _ ih => exact .cons ha ih

theorem core (h : History cop ls is cop') : Run CoreStep cop.core is cop'.core := by
  induction h with
  | nil cop => exact .nil _
  | cons _ _ _ hr _ ih => exact hr.append ih

theorem completes (h : History cop ls is cop') {i : Item} (hi : i ∈ is) {insn : Word}
    (hx : insn ∈ i.executed) :
    Completes i.tid i.before insn i.after := by
  have hq : ∀ core j core', CoreStep core j core' → Reaches j.tid j.before j.executed j.after := by
    intro core j core' hs
    rw [hs.before, hs.after]
    exact hs.reaches
  have hreach := h.core.forall_mem hq i hi
  rw [show i.executed = some insn from hx] at hreach
  exact hreach

end History

theorem CopRun.history {cop cop' : TensixCop} {ls : List Label} (h : CopRun cop ls cop') :
    ∃ is, History cop ls is cop' := by
  induction h with
  | nil cop => exact ⟨[], .nil cop⟩
  | @cons cop u cop' l ls ha _ ih =>
    obtain ⟨js, hjs⟩ := ih
    obtain ⟨v, hv, rfl⟩ := ha
    obtain ⟨is, htid, hlog, hrun⟩ := hv.traced
    refine ⟨is ++ js, .cons ⟨v, hv, rfl⟩ htid ?_ hrun hjs⟩
    rw [TensixCop.putView_thread_self]
    exact hlog

def Item.Meets (i : Item) (P : Tensix → Tid → Word → Prop) : Prop :=
  ∀ insn ∈ i.executed, P i.before i.tid insn

theorem Item.meets_iff (i : Item) (P : Tensix → Tid → Word → Prop)
    [∀ core t insn, Decidable (P core t insn)] :
    i.executed.all (P i.before i.tid ·) = true ↔ i.Meets P := by
  unfold Item.Meets
  cases i.executed <;> simp

instance Item.decidableMeets (i : Item) (P : Tensix → Tid → Word → Prop)
    [∀ core t insn, Decidable (P core t insn)] : Decidable (i.Meets P) :=
  decidable_of_iff _ (i.meets_iff P)

def TensixCop.issueAll (fuel : ℕ) : TensixCop → List (Tid × Word) → Option (List Item × TensixCop)
  | cop, [] => some ([], cop)
  | cop, (t, insn) :: ws =>
    match threadAct fuel t (cop.view t) (.issue insn) with
    | some (true, v) =>
      if v.thread.log = (cop.threads t).log ++ [.issued insn] then
        ((cop.putView t v).issueAll fuel ws).map fun r =>
          (⟨t, .issued insn, some insn, cop.core, v.core⟩ :: r.1, r.2)
      else none
    | _ => none

theorem TensixCop.issueAll_history {fuel : ℕ} {cop cop' : TensixCop} {ws : List (Tid × Word)} {is : List Item}
    (h : cop.issueAll fuel ws = some (is, cop')) :
    History cop (ws.map fun w => ⟨w.1, .issue w.2, true⟩) is cop' := by
  induction ws generalizing cop is with
  | nil =>
    cases h
    exact .nil _
  | cons w ws ih =>
    obtain ⟨t, insn⟩ := w
    rw [issueAll] at h
    split at h
    · next v hv =>
      split_ifs at h with hlog
      obtain ⟨⟨js, cop''⟩, hjs, he⟩ := Option.map_eq_some_iff.mp h
      cases he
      have hacts : ThreadActs t (cop.view t) (.issue insn) true v := threadAct_acts hv
      obtain ⟨ks, htid, hev, hrun⟩ := hacts.traced
      rw [hlog] at hev
      obtain ⟨k, rfl, hk⟩ := List.map_eq_singleton_iff.mp (List.append_cancel_left hev).symm
      have hstep := Run.single.mp hrun
      obtain ⟨t', e, x, core, core'⟩ := k
      obtain rfl : t' = t := htid _ List.mem_cons_self
      obtain rfl : e = .issued insn := hk
      obtain rfl : x = some insn := hstep.executes
      obtain rfl : core = cop.core := hstep.before
      obtain rfl : core' = v.core := hstep.after
      refine History.cons ⟨v, hacts, rfl⟩ htid ?_ hrun (ih hjs)
      rw [TensixCop.putView_thread_self]
      exact hlog
    · cases h

theorem TensixCop.issueAll_check (cop : TensixCop) (fuel : ℕ) (ws : List (Tid × Word))
    (p : List Item × TensixCop → Bool) (h : (cop.issueAll fuel ws).map p = some true) :
    ∃ is cop', History cop (ws.map fun w => ⟨w.1, .issue w.2, true⟩) is cop' ∧ p (is, cop') = true := by
  obtain ⟨⟨is, cop'⟩, hall, hp⟩ := Option.map_eq_some_iff.mp h
  exact ⟨is, cop', issueAll_history hall, hp⟩

end Rv32Emu
