import Rv32Emu.Cop.Expansion

namespace Rv32Emu

inductive QueueStep : List Word → Event → List Word → Prop
  | pushed (q : List Word) (insn : Word) : QueueStep q (.pushed insn) (q ++ [insn])
  | fifo (q : List Word) (insn : Word) : QueueStep (insn :: q) (.ran .fifo insn) q
  | expander (q : List Word) (insn : Word) : QueueStep q (.ran .expander insn) q
  | issued (insn : Word) : QueueStep [] (.issued insn) []
  | recorded (insn : Word) : QueueStep [] (.recorded insn) []

abbrev InOrder := Run QueueStep

def pushedWords (es : List Event) : List Word :=
  es.filterMap fun e => match e with
    | .pushed insn => some insn
    | _ => none

def fifoWords (es : List Event) : List Word :=
  es.filterMap fun e => match e with
    | .ran .fifo insn => some insn
    | _ => none

def Event.isDirect : Event → Bool
  | .issued _ => true
  | .recorded _ => true
  | _ => false

def Event.isRan : Event → Bool
  | .ran _ _ => true
  | _ => false

theorem pushedWords_ran {es : List Event} (h : ∀ e ∈ es, e.isRan = true) : pushedWords es = [] := by
  apply List.filterMap_eq_nil_iff.mpr
  intro e he
  cases e with
  | ran => rfl
  | pushed => cases h _ he
  | issued => cases h _ he
  | recorded => cases h _ he

namespace InOrder

variable {q q' : List Word} {es : List Event}

theorem conserved (h : InOrder q es q') : q ++ pushedWords es = fifoWords es ++ q' := by
  induction h with
  | nil q => simp [pushedWords, fifoWords]
  | cons hs _ ih =>
    cases hs with
    | pushed q insn => simpa [pushedWords, fifoWords] using ih
    | fifo q insn => simpa [pushedWords, fifoWords] using ih
    | expander q insn => simpa [pushedWords, fifoWords] using ih
    | issued insn => simpa [pushedWords, fifoWords] using ih
    | recorded insn => simpa [pushedWords, fifoWords] using ih

theorem before_direct {es₁ es₂ : List Event} {e : Event} (h : InOrder q (es₁ ++ e :: es₂) q')
    (he : e.isDirect = true) : q ++ pushedWords es₁ = fifoWords es₁ := by
  obtain ⟨mid, h₁, h₂⟩ := h.split
  have hmid : mid = [] := by
    cases h₂ with
    | cons hs _ =>
      cases hs with
      | issued => rfl
      | recorded => rfl
      | pushed => cases he
      | fifo => cases he
      | expander => cases he
  subst hmid
  simpa using InOrder.conserved h₁

end InOrder

def CopView.outstanding (v : CopView) : List Word :=
  (if v.thread.currentOrigin = .fifo then v.thread.currentInsn.toList else []) ++ v.thread.insnFifo.contents

structure Progress (v v' : CopView) : Prop where
  wellFormed : v.thread.insnFifo.WellFormed → v'.thread.insnFifo.WellFormed
  ran : v.thread.insnFifo.WellFormed → ∃ es, v'.thread.log = v.thread.log ++ es ∧
    InOrder v.outstanding es v'.outstanding ∧ ∀ e ∈ es, e.isRan = true

namespace Progress

variable {v u v' : CopView}

theorem refl (v : CopView) : Progress v v := ⟨id, fun _ => ⟨[], by simp, .nil _, by simp⟩⟩

theorem trans (h : Progress v u) (k : Progress u v') : Progress v v' := by
  refine ⟨fun hw => k.wellFormed (h.wellFormed hw), fun hw => ?_⟩
  obtain ⟨es, hlog, hrun, hran⟩ := h.ran hw
  obtain ⟨es', hlog', hrun', hran'⟩ := k.ran (h.wellFormed hw)
  refine ⟨es ++ es', by rw [hlog', hlog, List.append_assoc], hrun.append hrun', fun e he => ?_⟩
  obtain he | he := List.mem_append.mp he
  · exact hran e he
  · exact hran' e he

theorem of_eq (hf : v'.thread.insnFifo = v.thread.insnFifo) (hlog : v'.thread.log = v.thread.log)
    (ho : v'.outstanding = v.outstanding) : Progress v v' := by
  refine ⟨fun hw => by rwa [hf], fun _ => ⟨[], by simp [hlog], ?_, by simp⟩⟩
  rw [ho]
  exact .nil _

theorem empty (h : Progress v v') (hw : v.thread.insnFifo.WellFormed) (hv : v.outstanding = []) :
    v'.outstanding = [] := by
  obtain ⟨es, -, hrun, hran⟩ := h.ran hw
  have hc := InOrder.conserved hrun
  rw [hv, pushedWords_ran hran] at hc
  exact (List.append_eq_nil_iff.mp hc.symm).2

end Progress

theorem CopView.outstanding_of_none {v : CopView} (h : v.thread.currentInsn = none) :
    v.outstanding = v.thread.insnFifo.contents := by
  rw [outstanding, h]
  split_ifs <;> rfl

theorem FetchCase.outstanding {v u : CopView} {insn : Word} (h : FetchCase v insn u)
    (hw : v.thread.insnFifo.WellFormed) :
    v.outstanding =
      (if u.thread.currentOrigin = .fifo then [insn] else []) ++ u.thread.insnFifo.contents := by
  cases h with
  | pending h => rw [CopView.outstanding, h]; rfl
  | popped h hp => rw [CopView.outstanding_of_none h, hw.pop_contents hp]; rfl

section functions

variable {v v' : CopView} {tid : Tid} {ok : Bool} {fuel : ℕ}

theorem tensixCopStep_progress (h : tensixCopStep v tid = (ok, v')) :
    Progress v v' ∧ (ok = true → v'.thread.currentInsn = none) := by
  cases StepCase.of_eq h with
  | halted => exact ⟨.refl v, by simp⟩
  | empty => exact ⟨.of_eq rfl rfl rfl, by simp⟩
  | @held insn u x counted hh hf hx =>
    obtain ⟨-, -, -, hxt⟩ := verdict_held_thread hx
    have hfifo : x.thread.insnFifo = u.thread.insnFifo := by rw [hxt]
    have horigin : x.thread.currentOrigin = u.thread.currentOrigin := by rw [hxt]
    have hlog : x.thread.log = u.thread.log := by rw [hxt]
    refine ⟨⟨fun hw => ?_, fun hw => ⟨[], ?_, ?_, by simp⟩⟩, by simp⟩
    · rw [CopView.heldAt_fifo, hfifo]
      exact hf.wellFormed hw
    · rw [CopView.heldAt_log, hlog, hf.log, List.append_nil]
    · have ho : (x.heldAt insn counted).outstanding = v.outstanding := by
        rw [hf.outstanding hw, CopView.outstanding, CopView.heldAt_origin, CopView.heldAt_current,
          CopView.heldAt_fifo, hfifo, horigin]
        rfl
      rw [ho]
      exact .nil _
  | @passed insn u x hh hf hx =>
    have hp := verdict_passed hx
    have hcur : x.thread.currentInsn = none := hp.current hf.current
    refine ⟨⟨fun hw => ?_, fun hw => ⟨[.ran x.thread.currentOrigin insn], ?_,
      Run.single.mpr ?_, by simp [Event.isRan]⟩⟩, fun _ => hcur⟩
    · show x.thread.insnFifo.WellFormed
      exact hp.fifo ▸ hf.wellFormed hw
    · show x.thread.log ++ _ = _
      rw [hp.log, hf.log]
    · have ho : (x.complete (.ran x.thread.currentOrigin insn)).outstanding = u.thread.insnFifo.contents := by
        rw [CopView.outstanding_of_none (by exact hcur), ← hp.fifo]
        rfl
      rw [ho, hf.outstanding hw, hp.origin]
      cases u.thread.currentOrigin with
      | fifo => exact .fifo _ insn
      | expander => exact .expander _ insn

theorem feed_progress (insn : Word) (h : v.thread.currentInsn = none) : Progress v (v.feed insn) := by
  have ho : (v.feed insn).outstanding = v.outstanding := by
    rw [CopView.outstanding_of_none h]
    rfl
  exact .of_eq rfl rfl ho

def Through (v : CopView) (r : Bool × CopView) : Prop :=
  Progress v r.2 ∧ (r.1 = true → r.2.thread.currentInsn = none)

theorem Through.after {u : CopView} {r : Bool × CopView} (h : Progress v u) (k : Through u r) : Through v r :=
  ⟨h.trans k.1, k.2⟩

def TurnThrough (v : CopView) : CopView ⊕ (Bool × CopView) → Prop
  | .inl u => Progress v u ∧ u.thread.currentInsn = none
  | .inr r => Through v r

theorem stepPending_through :
    Through v (if v.thread.currentInsn.isSome then tensixCopStep v tid else (true, v)) := by
  cases hc : v.thread.currentInsn with
  | none => exact ⟨.refl v, fun _ => hc⟩
  | some insn => exact tensixCopStep_progress rfl

theorem replayTurn_progress {x : CopView ⊕ (Bool × CopView)}
    (hv : v.replay.expanding = true ∨ v.thread.currentInsn = none) (h : replayTurn tid v = some x) :
    TurnThrough v x := by
  cases hx : v.replay.expanding with
  | false =>
    simp only [replayTurn, hx, Bool.not_false, if_true] at h
    cases h
    exact ⟨.refl v, fun _ => hv.resolve_left (by simp [hx])⟩
  | true =>
    have hpre : Through v (if v.thread.currentInsn.isSome then tensixCopStep v tid else (true, v)) :=
      stepPending_through
    simp only [replayTurn, hx, Bool.not_true, Bool.false_eq_true, if_false] at h
    generalize (if v.thread.currentInsn.isSome then tensixCopStep v tid else (true, v)) = r at h hpre
    obtain ⟨ok, u⟩ := r
    cases ok with
    | false =>
      cases h
      exact hpre
    | true =>
      have hcur := hpre.2 rfl
      simp only [Bool.not_true, Bool.false_eq_true, if_false] at h
      split at h
      · cases h
        have hstop : Progress u (u.setReplay { u.replay with expanding := false }) := .of_eq rfl rfl rfl
        exact ⟨hpre.1.trans hstop, fun _ => hcur⟩
      · have hset : Progress u (u.setReplay { u.replay with expandCurrent := u.replay.expandCurrent + 1 }) :=
          .of_eq rfl rfl rfl
        have hfeed := feed_progress (u.replay.buffer ((u.replay.expandStart + u.replay.expandCurrent) % 32))
          (v := u.setReplay { u.replay with expandCurrent := u.replay.expandCurrent + 1 }) hcur
        generalize hs : tensixCopStep _ tid = r at h
        obtain ⟨done, w⟩ := r
        have hstep := tensixCopStep_progress hs
        have hall := hpre.1.trans (hset.trans (hfeed.trans hstep.1))
        cases done with
        | false =>
          cases h
          exact ⟨hall, by simp⟩
        | true =>
          cases h
          exact ⟨hall, hstep.2 rfl⟩

theorem drainReplayExpansion_progress (hv : v.replay.expanding = true ∨ v.thread.currentInsn = none)
    (h : drainReplayExpansion fuel v tid = some (ok, v')) : Through v (ok, v') := by
  apply Loop.invariant
    (I := fun s => Progress v s ∧ (s.replay.expanding = true ∨ s.thread.currentInsn = none))
    (Q := fun r => Through v r) ?_ ?_ h ⟨.refl v, hv⟩
  · rintro s s' ⟨hs, hc⟩ hturn
    have ht := replayTurn_progress hc hturn
    exact ⟨hs.trans ht.1, .inr ht.2⟩
  · rintro s r ⟨hs, hc⟩ hturn
    exact Through.after hs (replayTurn_progress hc hturn)

theorem drainIfExpanding_progress (h : drainIfExpanding fuel v tid = some (ok, v')) :
    Progress v v' ∧ (v.thread.currentInsn = none → ok = true → v'.thread.currentInsn = none) := by
  unfold drainIfExpanding at h
  split_ifs at h with hx
  · have ht := drainReplayExpansion_progress (.inl hx) h
    exact ⟨ht.1, fun _ => ht.2⟩
  · cases h
    exact ⟨.refl v, fun hc _ => hc⟩

theorem mopTurn_progress {x : CopView ⊕ (Bool × CopView)} (hv : v.thread.currentInsn = none)
    (h : mopTurn fuel tid v = some x) : TurnThrough v x := by
  unfold mopTurn at h
  split at h
  · next st hgen =>
    cases h
    exact ⟨.of_eq rfl rfl rfl, fun _ => hv⟩
  · next insn st hgen =>
    have hset : Progress v (v.setMopState st) := .of_eq rfl rfl rfl
    have hfeed := feed_progress (v := v.setMopState st) insn hv
    cases hs : tensixCopStep ((v.setMopState st).feed insn) tid with
    | mk done u =>
      have hstep := tensixCopStep_progress hs
      have hu := hset.trans (hfeed.trans hstep.1)
      simp only [hs] at h
      cases done with
      | false =>
        cases h
        exact ⟨hu, by simp⟩
      | true =>
        simp only [Bool.not_true, Bool.false_eq_true, if_false] at h
        split at h
        · cases h
        · next w hd =>
          cases h
          have hw := drainIfExpanding_progress hd
          exact ⟨hu.trans hw.1, hw.2 (hstep.2 rfl) rfl⟩
        · next w hd =>
          cases h
          exact ⟨hu.trans (drainIfExpanding_progress hd).1, by simp⟩

theorem mopLoop_progress (hv : v.thread.currentInsn = none)
    (h : loop (mopTurn fuel tid) fuel v = some (ok, v')) : Progress v v' := by
  have hq := Loop.invariant (I := fun s => Progress v s ∧ s.thread.currentInsn = none)
    (Q := fun r => Through v r) ?_ ?_ h ⟨.refl v, hv⟩
  · exact hq.1
  · rintro s s' ⟨hs, hc⟩ hturn
    have ht := mopTurn_progress hc hturn
    exact ⟨hs.trans ht.1, ht.2⟩
  · rintro s r ⟨hs, hc⟩ hturn
    exact Through.after hs (mopTurn_progress hc hturn)

theorem mopRetry_progress (h : mopRetry fuel v tid = some (ok, v')) : Through v (ok, v') := by
  unfold mopRetry at h
  cases hc : v.thread.currentInsn with
  | none =>
    simp only [hc, Option.isSome_none, Bool.false_eq_true, if_false] at h
    cases h
    exact ⟨.refl v, fun _ => hc⟩
  | some insn =>
    cases hs : tensixCopStep v tid with
    | mk done u =>
      have hstep := tensixCopStep_progress hs
      simp only [hc, Option.isSome_some, if_true, hs] at h
      cases done with
      | false =>
        cases h
        exact hstep
      | true =>
        have hcur := hstep.2 rfl
        simp only [Bool.not_true, Bool.false_eq_true, if_false, CopView.setThread_current hcur] at h
        have hd := drainIfExpanding_progress h
        exact ⟨hstep.1.trans hd.1, hd.2 hcur⟩

theorem mopContinueExecution_progress (h : mopContinueExecution fuel v tid = some (ok, v')) :
    Progress v v' := by
  obtain ⟨hb, -⟩ | ⟨u, hu, h⟩ := Outcome.andThen_eq_some h
  · exact (drainIfExpanding_progress hb).1
  have hdrain := (drainIfExpanding_progress hu).1
  obtain ⟨hb, -⟩ | ⟨w, hw, h⟩ := Outcome.andThen_eq_some h
  · exact hdrain.trans (mopRetry_progress hb).1
  have hretry := mopRetry_progress hw
  exact hdrain.trans (hretry.1.trans (mopLoop_progress (hretry.2 rfl) h))

theorem mopFinishAll_progress (h : mopFinishAll fuel v tid = some (ok, v')) : Progress v v' := by
  apply Loop.invariant (I := fun s => Progress v s) (Q := fun r => Progress v r.2) ?_ ?_ h (.refl v)
  · intro s s' hs hturn
    split_ifs at hturn
    · cases hturn
    · split at hturn
      · cases hturn
      · next hc =>
        cases hturn
        exact hs.trans (mopContinueExecution_progress hc)
      · cases hturn
  · intro s r hs hturn
    split_ifs at hturn
    · cases hturn
      exact hs
    · split at hturn
      · cases hturn
      · cases hturn
      · next hc =>
        cases hturn
        exact hs.trans (mopContinueExecution_progress hc)

theorem drainFifo_progress (h : drainFifo fuel v tid = some v') : Progress v v' := by
  apply Loop.invariant (I := fun s => Progress v s) (Q := fun r => Progress v r) ?_ ?_ h (.refl v)
  · intro s s' hs hturn
    cases hstep : tensixCopStep s tid with
    | mk done u =>
      rw [hstep] at hturn
      cases done <;> cases hturn
      exact hs.trans (tensixCopStep_progress hstep).1
  · intro s r hs hturn
    cases hstep : tensixCopStep s tid with
    | mk done u =>
      rw [hstep] at hturn
      cases done <;> cases hturn
      exact hs.trans (tensixCopStep_progress hstep).1

end functions

end Rv32Emu
