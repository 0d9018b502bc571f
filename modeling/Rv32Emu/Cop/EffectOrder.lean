import Rv32Emu.Cop.FifoExpansion

namespace Rv32Emu

/-- The instruction has no expansion behind it: its effect is complete once it has run. -/
def Immediate (insn : Word) : Prop :=
  tensixInsnOpcode insn ≠ opcodeMop ∧ (tensixInsnOpcode insn = opcodeReplay →
    bit (tensixInsnParam insn) 0 = true)
  deriving Decidable

section tracked

variable {v : CopView} {insn : Word} {ahead : List Word} {tid : Tid}

theorem Tracked.keepsOrder (hv : Tracked v ahead) (h : MayIssue tid v insn) : KeepsOrder v insn tid := by
  cases h with
  | again hp =>
    obtain ⟨hm, -, hop⟩ := CopView.inProgress_eq_singleton hp
    exact .inr (.inl ⟨hm, hop⟩)
  | behindMop hm _ hf _ =>
    refine .inl ?_
    cases hv.stream with
    | held _ _ hm' => cases hm.symm.trans hm'
    | expanding he _ =>
      rw [CopView.outstanding, hf, List.append_nil]
      split_ifs with horigin
      · -- the word in the slot is one of the expansion
        cases hc : v.thread.currentInsn with
        | none => rfl
        | some w => cases horigin.symm.trans (he.pending w hc).2
      · rfl
  | behindReplay _ hq => exact .inl (CopView.outstanding_of_queue hq)
  | drain hm _ _ _ _ ho => exact .inr (.inr ⟨hm, ho⟩)
  | replay _ _ hq => exact .inl (CopView.outstanding_of_queue hq)

theorem Unfolds.exists_of_expandable (cfg buffer : ℕ → Word) {ws : List Word} (h : ∀ w ∈ ws, Expandable w)
    (zmask : Word) : ∃ out, Unfolds cfg buffer zmask ws out := by
  induction ws generalizing zmask with
  | nil => exact ⟨[], .nil _⟩
  | cons w ws ih =>
    obtain ⟨e, he⟩ := (h w List.mem_cons_self).expands cfg buffer zmask
    obtain ⟨out, hout⟩ := ih (fun w hw => h w (List.mem_cons_of_mem _ hw)) (e.foldl zmaskAfter zmask)
    exact ⟨_, .cons he hout⟩

/-- No MOP and no REPLAY is in progress; instructions may be queued, and the first of them held. -/
structure CopView.Idle (v : CopView) : Prop where
  running : v.halted = false
  mop : v.thread.mopState.active = false
  expanding : v.replay.expanding = false
  recording : v.replay.recording = false
  direct : v.thread.directInsn = none
  held : ∀ w, v.thread.currentInsn = some w → Ordinary w
  queued : ∀ w ∈ v.thread.insnFifo.contents, Expandable w
  templates : Templates v.thread.mopCfg v.replay.buffer

theorem CopView.Idle.tracked (h : v.Idle) (hw : v.thread.insnFifo.WellFormed) :
    ∃ ahead, Unfolds v.thread.mopCfg v.replay.buffer v.thread.zmaskHi16 v.queue ahead ∧ Tracked v ahead := by
  cases hc : v.thread.currentInsn with
  | none =>
    obtain ⟨out, hout⟩ := Unfolds.exists_of_expandable v.thread.mopCfg v.replay.buffer h.queued
        v.thread.zmaskHi16
    obtain ⟨he, htodo⟩ := CopView.Settled.expansion ⟨hc, h.expanding⟩ h.running h.mop
    have hstream : Stream v out := by
      have hexpanding := @Stream.expanding v [] out he (by rw [htodo]; exact hout)
      rwa [htodo] at hexpanding
    refine ⟨out, ?_, h.running, hw, h.recording, h.templates, hstream⟩
    rw [CopView.queue, hc]
    exact hout
  | some insn =>
    have ho := h.held insn hc
    obtain ⟨out, hout⟩ := Unfolds.exists_of_expandable v.thread.mopCfg v.replay.buffer h.queued
      (zmaskAfter v.thread.zmaskHi16 insn)
    refine ⟨insn :: out, ?_, h.running, hw, h.recording, h.templates, .held hc ho h.mop h.expanding hout⟩
    rw [CopView.queue, hc]
    exact .cons (.ordinary ho) hout

end tracked

def NestedActs (t : Tid) (cop : TensixCop) (l : Label) (cop' : TensixCop) : Prop :=
  Acts cop l cop' ∧ (l.tid = t → MayNest t (cop.view t) l.act)

/-- Either nothing that expands is pushed, and the direct instructions keep the order of the queue; or
no action gets in the way of an expansion in progress. -/
inductive OrderedRun (t : Tid) (cop : TensixCop) (ls : List Label) (cop' : TensixCop) : Prop
  | immediate (hrun : Run (OrderedActs t) cop ls cop')
      (hq : ∀ w ∈ (cop.view t).queue ++ acceptedPushes t ls, Immediate w)
  | nested (hrun : Run (NestedActs t) cop ls cop') (hidle : (cop.view t).Idle)

/-- The events `es` take the pushed instructions in order, and every direct instruction behind all of them. -/
structure TakenInOrder (t : Tid) (cop : TensixCop) (es : List Event) (cop' : TensixCop) : Prop where
  conserved : (cop.view t).queue ++ pushedWords es = fifoWords es ++ (cop'.view t).outstanding
  before : ∀ es₁ e es₂, es = es₁ ++ e :: es₂ → e.isDirect = true →
    (cop.view t).queue ++ pushedWords es₁ = fifoWords es₁

/-- What is executed is a first part of what the instructions stand for, in the order in which they were
pushed or issued; and everything before a direct instruction has been executed when it takes effect (the
words of a MOP come behind). -/
structure EffectsInOrder (t : Tid) (cop : TensixCop) (es : List Event) (cop' : TensixCop) : Prop where
  executed : ∃ ahead, Unfolds (cop.threads t).mopCfg (cop.replay t).buffer (cop.threads t).zmaskHi16
    ((cop.view t).queue ++ startedWords es) (executedWords es ++ ahead) ∧ Stream (cop'.view t) ahead ∧
    ((cop'.view t).Quiet → ahead = [])
  before : ∀ es₁ insn es₂, es = es₁ ++ .issued insn :: es₂ → tensixInsnOpcode insn ≠ opcodeMop →
    Unfolds (cop.threads t).mopCfg (cop.replay t).buffer (cop.threads t).zmaskHi16
      ((cop.view t).queue ++ startedWords es₁) (executedWords es₁)

section run

variable {t : Tid} {cop cop' : TensixCop} {ls : List Label} {ahead : List Word} {es : List Event}

theorem NestedActs.run (h : Run (NestedActs t) cop ls cop') (hv : Tracked (cop.view t) ahead)
    (hs : (cop.view t).DirectStarted) :
    Run (OrderedActs t) cop ls cop' ∧ ∃ ahead' insns, Streams (cop.view t) ahead insns (cop'.view t)
      ahead' := by
  induction h generalizing ahead with
  | nil => exact ⟨.nil _, ahead, [], hv.refl⟩
  | @cons cop mid cop' l ls hl _ ih =>
    obtain ⟨hact, hmay⟩ := hl
    obtain ⟨hs', _, insns, hstream, -⟩ := hact.streams hmay hv hs
    obtain ⟨hrest, ahead', insns', hstreams⟩ := ih hstream.tracked hs'
    refine ⟨.cons ⟨hact, fun ht insn ha => ?_⟩ hrest, ahead', insns ++ insns', hstream.trans hstreams⟩
    have hissue := hmay ht
    rw [ha] at hissue
    exact hv.keepsOrder hissue

theorem OrderedActs.taken (h : Run (OrderedActs t) cop ls cop') (hw : (cop.threads t).insnFifo.WellFormed)
    (ho : (cop.threads t).currentInsn ≠ none → (cop.threads t).currentOrigin = .fifo) :
    ∃ es, (cop'.threads t).log = (cop.threads t).log ++ es ∧ pushedWords es = acceptedPushes t ls ∧
      TakenInOrder t cop es cop' := by
  have hqueue : (cop.view t).outstanding = (cop.view t).queue := by
    rw [CopView.outstanding, CopView.queue]
    split_ifs with hc
    · rfl
    · have hnone : (cop.view t).thread.currentInsn = none := by
        by_contra hne
        exact hc (ho hne)
      rw [hnone]
      rfl
  obtain ⟨es, hlog, hrun, hp⟩ := (OrderedActs.run h hw).log
  rw [hqueue] at hrun
  refine ⟨es, hlog, hp, InOrder.conserved hrun, fun es₁ e es₂ hes he => ?_⟩
  rw [hes] at hrun
  exact InOrder.before_direct hrun he

theorem Streams.effects {ahead' insns : List Word} (h : Streams (cop.view t) ahead insns (cop'.view t) ahead')
    (hu : Unfolds (cop.threads t).mopCfg (cop.replay t).buffer (cop.threads t).zmaskHi16 (cop.view t).queue
      ahead)
    (hes : (cop'.threads t).log = (cop.threads t).log ++ es) : EffectsInOrder t cop es cop' := by
  obtain ⟨es', hes', rfl, hcomplete⟩ := h.events
  obtain rfl : es' = es := List.append_cancel_left (hes'.symm.trans hes)
  obtain ⟨done, e, he, hsplit, -, hlog⟩ := h.executes
  have hdone : executedWords es' = done := by
    rw [hes', executedWords_append] at hlog
    exact List.append_cancel_left hlog
  refine ⟨⟨ahead', ?_, h.tracked.stream, h.tracked.quiet⟩, fun es₁ insn es₂ hsp hne => ?_⟩
  · rw [hdone, ← hsplit]
    exact hu.append he
  · obtain ⟨e₁, hu₁, hexec⟩ := hcomplete es₁ insn es₂ hsp hne
    rw [hexec]
    exact hu.append hu₁

end run

/-- In an ordered run every pushed instruction is taken once and in order or is still outstanding, and a
direct instruction takes effect after all that were pushed before it and after all that they stand
for. -/
theorem program_order_kept (t : Tid) {cop cop' : TensixCop} {ls : List Label}
    (hw : (cop.threads t).insnFifo.WellFormed)
    (ho : (cop.threads t).currentInsn ≠ none → (cop.threads t).currentOrigin = .fifo)
    (hrun : OrderedRun t cop ls cop') :
    ∃ es, (cop'.threads t).log = (cop.threads t).log ++ es ∧ pushedWords es = acceptedPushes t ls ∧
      TakenInOrder t cop es cop' ∧
      ((∀ w ∈ (cop.view t).queue ++ acceptedPushes t ls, Immediate w) ∨ EffectsInOrder t cop es cop') := by
  cases hrun with
  | immediate hrun hq =>
    obtain ⟨es, hes, hp, htaken⟩ := OrderedActs.taken hrun hw ho
    exact ⟨es, hes, hp, htaken, .inl hq⟩
  | nested hrun hidle =>
    obtain ⟨ahead, hu, hv⟩ := hidle.tracked hw
    obtain ⟨hordered, ahead', insns, hstreams⟩ :=
      NestedActs.run hrun hv fun m hm => absurd (hidle.direct.symm.trans hm) (by simp)
    obtain ⟨es, hes, hp, htaken⟩ := OrderedActs.taken hordered hw ho
    exact ⟨es, hes, hp, htaken, .inr (hstreams.effects hu hes)⟩

theorem program_order_kept_queuedMop :
    ∃ cop' es, CopRun queuedMop [⟨0, .issue 0x02000002, true⟩] cop' ∧
      (cop'.threads 0).log = (queuedMop.threads 0).log ++ es ∧
      (queuedMop.view 0).queue = [0x02000001, 0x01000000] ∧
        executedWords es = [0x02000001, 0x02000003, 0x02000002] ∧
      TakenInOrder 0 queuedMop es cop' ∧
      ((∀ w ∈ (queuedMop.view 0).queue ++ acceptedPushes 0 [⟨0, .issue 0x02000002, true⟩], Immediate w) ∨
        EffectsInOrder 0 queuedMop es cop') := by
  have hissue : Acts queuedMop ⟨0, .issue 0x02000002, true⟩ (queuedMop.after 9 [(0, .issue 0x02000002)]) :=
    Run.single.mp (TensixCop.exec_after (by decide))
  have hmay : MayIssue 0 (queuedMop.view 0) 0x02000002 :=
    @MayIssue.drain _ _ _ [0x02000001] [0x01000000] (by decide) (by decide) (by decide)
      (by simpa only [List.mem_singleton, forall_eq] using ⟨by decide, by decide⟩)
      (.inr ⟨⟨_, rfl, by decide⟩, by decide⟩) (by decide)
  have hqueued : (queuedMop.view 0).thread.insnFifo.contents = [0x02000001, 0x01000000] := by decide
  have hidle : (queuedMop.view 0).Idle := by
    refine ⟨rfl, by decide, by decide, by decide, rfl, fun w hw => (by cases hw), fun w hw => ?_,
      nopTemplate_templates⟩
    rw [hqueued] at hw
    simp only [List.mem_cons, List.not_mem_nil, or_false] at hw
    obtain rfl | rfl := hw <;> decide
  have hw : (queuedMop.threads 0).insnFifo.WellFormed := ⟨by decide, by decide, by decide⟩
  obtain ⟨es, hlog, -, htaken, heffects⟩ := program_order_kept 0 hw
    (by decide) (.nested (Run.single.mpr ⟨hissue, fun _ => hmay⟩) hidle)
  have hexec : executedWords es = [0x02000001, 0x02000003, 0x02000002] := by
    have hall := congrArg executedWords hlog
    rw [executedWords_append] at hall
    exact hall.symm.trans (by decide)
  exact ⟨_, es, Run.single.mpr hissue, hlog, by decide, hexec, htaken, heffects⟩

end Rv32Emu
