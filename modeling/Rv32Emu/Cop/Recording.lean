import Rv32Emu.Cop.Flow

namespace Rv32Emu

namespace CopView

def shadow (v : CopView) (r : Replay) (log : List Event) : CopView :=
  { v with
    replay := { v.replay with
      buffer := r.buffer
      index := r.index
      left := r.left
      executeWhileLoading := r.executeWhileLoading
      recording := r.recording }
    thread := { v.thread with log := log } }

end CopView

def Verdict.shadow (r : Replay) (log : List Event) : Verdict → Verdict
  | .held counted v => .held counted (v.shadow r log)
  | .passed v => .passed (v.shadow r log)

section shadow

variable {v v' : CopView} {insn : Word} {tid : Tid} {ok : Bool} (r : Replay) (log : List Event)

theorem execute_shadow (hr : tensixInsnOpcode insn ≠ opcodeReplay) :
    tensixExecuteInsn (v.shadow r log) insn tid =
      ((tensixExecuteInsn v insn tid).1, (tensixExecuteInsn v insn tid).2.shadow r log) := by
  by_cases hm : tensixInsnOpcode insn = opcodeMop
  · rw [execute_mop _ tid hm, execute_mop _ tid hm]
    rfl
  by_cases hc : tensixInsnOpcode insn = opcodeMopCfg
  · rw [execute_mopCfg _ tid hc, execute_mopCfg _ tid hc]
    simp only [CopView.setThread, ttmopCfg]
    split_ifs <;> simp_all [CopView.shadow]
  · rw [execute_plain _ tid ⟨hm, hc, hr⟩, execute_plain _ tid ⟨hm, hc, hr⟩]
    rfl

theorem verdict_shadow (hr : tensixInsnOpcode insn ≠ opcodeReplay) :
    verdict (v.shadow r log) insn tid = (verdict v insn tid).shadow r log := by
  have hpast (v : CopView) : pastGate (v.shadow r log) insn tid = (pastGate v insn tid).shadow r log := by
    simp only [pastGate, execute_shadow r log hr, show (v.shadow r log).core = v.core from rfl]
    split_ifs <;> rfl
  have hmeet : meetsGate (v.shadow r log) insn = meetsGate v insn := rfl
  have hcheck : waitGateCheck (v.shadow r log).thread.waitGate (v.shadow r log).core =
      waitGateCheck v.thread.waitGate v.core := rfl
  unfold verdict passGate
  rw [hmeet, hcheck]
  split_ifs
  · rfl
  · exact hpast v
  · exact hpast (v.setGate waitGateClear)
  · rfl

theorem tensixCopPush_shadow (h : tensixCopPush v insn = (ok, v')) :
    ∃ log', tensixCopPush (v.shadow r log) insn = (ok, v'.shadow r log') := by
  unfold tensixCopPush at h ⊢
  have hpush : (v.shadow r log).thread.insnFifo.push insn = v.thread.insnFifo.push insn := rfl
  rw [hpush]
  cases hp : v.thread.insnFifo.push insn with
  | mk ok fifo =>
    rw [hp] at h
    cases ok with
    | true =>
      cases h
      exact ⟨_, rfl⟩
    | false =>
      cases h
      exact ⟨log, rfl⟩

theorem fetch_shadow :
    (v.shadow r log).fetch = v.fetch.map fun p => (p.1, p.2.shadow r log) := by
  unfold CopView.fetch
  rw [show (v.shadow r log).thread.currentInsn = v.thread.currentInsn from rfl,
    show (v.shadow r log).thread.insnFifo = v.thread.insnFifo from rfl]
  split
  · rfl
  · split <;> rfl

def CopView.nextInsn (v : CopView) : Option Word := v.fetch.map Prod.fst

theorem tensixCopStep_shadow (hr : ∀ insn ∈ v.nextInsn, tensixInsnOpcode insn ≠ opcodeReplay)
    (h : tensixCopStep v tid = (ok, v')) :
    ∃ log', tensixCopStep (v.shadow r log) tid = (ok, v'.shadow r log') := by
  unfold tensixCopStep at h ⊢
  rw [show (v.shadow r log).halted = v.halted from rfl]
  split_ifs at h ⊢
  · cases h
    exact ⟨log, rfl⟩
  rw [fetch_shadow]
  cases hf : v.fetch with
  | none =>
    rw [hf] at h
    cases h
    exact ⟨log, rfl⟩
  | some p =>
    have hne := hr p.1 (by simp [CopView.nextInsn, hf])
    simp only [hf, stepInsn_eq] at h
    simp only [Option.map_some, stepInsn_eq, verdict_shadow r log hne]
    cases hx : verdict p.2 p.1 tid with
    | held counted x =>
      rw [hx] at h
      cases h
      refine ⟨log, ?_⟩
      cases counted <;> rfl
    | passed x =>
      rw [hx] at h
      cases h
      exact ⟨_, rfl⟩

end shadow

def Replay.record (r : Replay) (insn : Word) : Replay :=
  let left := (r.left + 2 ^ 32 - 1) % 2 ^ 32
  { r with
    buffer := Function.update r.buffer (r.index % 32) insn
    index := r.index + 1
    left := left
    recording := left ≠ 0 }

def Replay.stopped (r : Replay) : Replay := { r with recording := false }

structure CopView.Vacant (v : CopView) : Prop where
  running : v.halted = false
  current : v.thread.currentInsn = none
  fifo : v.thread.insnFifo.pop = none
  mop : v.thread.mopState.active = false
  expanding : v.replay.expanding = false

structure GoesStraight (v : CopView) (insn : Word) (tid : Tid) : Prop where
  notWait : isWaitOpcode (tensixInsnOpcode insn) = false
  noGate : meetsGate v insn = false
  ready : notReady v.core insn = false
  completes : (tensixExecuteInsn v insn tid).1 = true

structure Faithful (v : CopView) (insn : Word) (tid : Tid) : Prop where
  vacant : v.Vacant
  ordinary : Ordinary insn
  straight : v.replay.recording = true → tensixInsnOpcode insn ≠ opcodeMopCfg → GoesStraight v insn tid

section issue

variable {v v' : CopView} {insn : Word} {tid : Tid} {ok : Bool} {r : Replay} {log : List Event}

theorem GoesStraight.verdict (h : GoesStraight v insn tid) (hc : tensixInsnOpcode insn ≠ opcodeMopCfg) :
    verdict (v.setDirect insn).idle insn tid =
      .passed (tensixExecuteInsn (v.setDirect insn).idle insn tid).2 := by
  have hs : SameLocal (v.setDirect insn).idle v := ⟨rfl, rfl, rfl⟩
  have hg : meetsGate (v.setDirect insn).idle insn = false := h.noGate
  have hr : notReady (v.setDirect insn).idle.core insn = false := h.ready
  have hx := (execute_local insn tid hs).1.trans h.completes
  simp only [Rv32Emu.verdict, if_neg hc, passGate, hg, Bool.not_false, if_true, pastGate, h.notWait,
    Bool.false_eq_true, if_false, hr, hx]

theorem recordInsn_eq (hx : v.replay.executeWhileLoading = true) (hr : tensixInsnOpcode insn ≠ opcodeReplay) :
    recordInsn v insn tid =
      (((tensixExecuteInsn v insn tid).2.shadow (v.replay.record insn) v.thread.log).clearDirect).complete
        (.recorded insn) := by
  have hset : v.setReplay (v.replay.record insn) = v.shadow (v.replay.record insn) v.thread.log := by
    simp only [CopView.setReplay, CopView.shadow, Replay.record]
  have hrec : recordInsn v insn tid =
      ((if v.replay.executeWhileLoading then
          (tensixExecuteInsn (v.setReplay (v.replay.record insn)) insn tid).2
        else v.setReplay (v.replay.record insn)).clearDirect).complete (.recorded insn) := by
    simp only [recordInsn, Replay.record]
  rw [hrec, if_pos hx, hset, execute_shadow _ _ hr]

theorem toAttempt_shadow (insn : Word) (r : Replay) (log : List Event) (x : Verdict) :
    ∃ log', (x.shadow r log).toAttempt insn = ((x.toAttempt insn).1, (x.toAttempt insn).2.shadow r log') := by
  cases x with
  | held counted u => exact ⟨log, by cases counted <;> rfl⟩
  | passed u => exact ⟨_, rfl⟩

theorem CopView.Vacant.issue_iff (hv : v.Vacant) :
    ThreadActs tid v (.issue insn) ok v' ↔
      ∃ fuel, directInsn (fuel + 1) (v.setDirect insn).idle insn tid = some (ok, v') := by
  have heq (fuel : ℕ) : tensixCopStepDirect (fuel + 1) (tensixCopSetDirect v insn) tid =
      directInsn (fuel + 1) (v.setDirect insn).idle insn tid :=
    tensixCopStepDirect_empty insn hv.running hv.current hv.fifo hv.mop fuel
  constructor
  · rintro ⟨fuel, h⟩
    cases fuel with
    | zero => simp [tensixCopStepDirect_zero insn hv.running hv.mop] at h
    | succ fuel => exact ⟨fuel, (heq fuel).symm.trans h⟩
  · rintro ⟨fuel, h⟩
    exact ⟨fuel + 1, (heq fuel).trans h⟩

theorem CopView.Vacant.attempt (hv : v.Vacant) (ho : Ordinary insn)
    (hr : tensixInsnOpcode insn ≠ opcodeMopCfg → v.replay.recording = false) :
    ThreadActs tid v (.issue insn) ok v' ↔
      (verdict (v.setDirect insn).idle insn tid).toAttempt insn = (ok, v') := by
  have hexp : (verdict (v.setDirect insn).idle insn tid).view.replay.expanding = false := by
    rw [verdict_replay ho.2]
    exact hv.expanding
  have heq (fuel : ℕ) : directInsn (fuel + 1) (v.setDirect insn).idle insn tid =
      some ((verdict (v.setDirect insn).idle insn tid).toAttempt insn) := by
    rw [directInsn_eq (fuel + 1) tid (v := (v.setDirect insn).idle) hr, Verdict.toDirect_plain insn ho.1 hexp]
  rw [hv.issue_iff]
  simp only [heq, Option.some.injEq, exists_const]

theorem CopView.Vacant.shadow (hv : v.Vacant) (r : Replay) (log : List Event) : (v.shadow r log).Vacant :=
  ⟨hv.running, hv.current, hv.fifo, hv.mop, hv.expanding⟩

theorem Faithful.issue_unrecorded (log : List Event) (hv : v.Vacant) (ho : Ordinary insn)
    (hrec : r.recording = false) (hr : tensixInsnOpcode insn ≠ opcodeMopCfg → v.replay.recording = false)
    (h : ThreadActs tid v (.issue insn) ok v') :
    v'.replay = v.replay ∧ ∃ log', ThreadActs tid (v.shadow r log) (.issue insn) ok (v'.shadow r log') := by
  rw [hv.attempt ho hr] at h
  have hsh : verdict ((v.shadow r log).setDirect insn).idle insn tid =
      (verdict (v.setDirect insn).idle insn tid).shadow r log :=
    verdict_shadow (v := (v.setDirect insn).idle) r log ho.2
  obtain ⟨log', hlog⟩ := toAttempt_shadow insn r log (verdict (v.setDirect insn).idle insn tid)
  refine ⟨?_, log', ?_⟩
  · have hreplay : (verdict (v.setDirect insn).idle insn tid).view.replay = v.replay := verdict_replay ho.2
    have hv' : v' = ((verdict (v.setDirect insn).idle insn tid).toAttempt insn).2 := by rw [h]
    rw [hv']
    cases hx : verdict (v.setDirect insn).idle insn tid with
    | held counted u =>
      rw [hx] at hreplay
      cases counted <;> exact hreplay
    | passed u =>
      rw [hx] at hreplay
      exact hreplay
  · rw [(hv.shadow r log).attempt ho fun _ => hrec, hsh, hlog, h]

theorem Faithful.issue_recorded (log : List Event) (hv : v.Vacant) (ho : Ordinary insn)
    (hrec : r.recording = false) (hr : v.replay.recording = true) (hx : v.replay.executeWhileLoading = true)
    (hc : tensixInsnOpcode insn ≠ opcodeMopCfg) (hs : GoesStraight v insn tid)
    (h : ThreadActs tid v (.issue insn) ok v') :
    ok = true ∧ v'.replay = v.replay.record insn ∧
      ∃ log', ThreadActs tid (v.shadow r log) (.issue insn) ok (v'.shadow r log') := by
  obtain ⟨fuel, h⟩ := hv.issue_iff.mp h
  have hr' : (v.setDirect insn).idle.replay.recording = true := hr
  have hx' : (v.setDirect insn).idle.replay.executeWhileLoading = true := hx
  have hstep : directInsn (fuel + 1) (v.setDirect insn).idle insn tid =
      some (true, recordInsn (v.setDirect insn).idle insn tid) := by
    simp only [directInsn, if_neg hc, hr', if_true]
  rw [hstep, recordInsn_eq hx' ho.2] at h
  cases h
  have hreplay : (tensixExecuteInsn (v.setDirect insn).idle insn tid).2.replay = v.replay :=
    execute_replay_eq (v.setDirect insn).idle tid ho.2
  refine ⟨rfl, ?_, log ++ [.issued insn], ?_⟩
  · generalize hd : (v.setDirect insn).idle = d at hreplay ⊢
    have hd' : d.replay = v.replay := by rw [← hd]; rfl
    simp only [CopView.complete, CopView.clearDirect, CopView.setThread, CopView.shadow, hreplay, hd',
      Replay.record]
  · rw [(hv.shadow r log).attempt ho fun _ => hrec]
    have hsh : verdict ((v.shadow r log).setDirect insn).idle insn tid =
        (verdict (v.setDirect insn).idle insn tid).shadow r log :=
      verdict_shadow (v := (v.setDirect insn).idle) r log ho.2
    rw [hsh, hs.verdict hc]
    rfl

end issue

def storeWords (buffer : ℕ → Word) (index : ℕ) : List Word → ℕ → Word
  | [] => buffer
  | insn :: insns => storeWords (Function.update buffer (index % 32) insn) (index + 1) insns

theorem storeWords_append (buffer : ℕ → Word) (index : ℕ) (insns : List Word) (insn : Word) :
    storeWords buffer index (insns ++ [insn]) =
      Function.update (storeWords buffer index insns) ((index + insns.length) % 32) insn := by
  induction insns generalizing buffer index with
  | nil => rfl
  | cons w insns ih =>
    rw [List.cons_append, storeWords, ih, storeWords, List.length_cons]
    congr 2
    omega

structure Recorder (r₀ : Replay) (done : List Word) (r : Replay) : Prop where
  executes : r.executeWhileLoading = r₀.executeWhileLoading
  buffer : r.buffer = storeWords r₀.buffer r₀.index (done.take r₀.left)
  recording : r.recording = decide (done.length < r₀.left)
  cursor : done.length < r₀.left → r.index = r₀.index + done.length ∧ r.left = r₀.left - done.length

namespace Recorder

variable {r₀ r : Replay} {done : List Word}

theorem record (h : Recorder r₀ done r) (hl : r₀.left < 2 ^ 32) (hr : r.recording = true) (insn : Word) :
    Recorder r₀ (done ++ [insn]) (r.record insn) := by
  have hlt : done.length < r₀.left := by simpa [h.recording] using hr
  obtain ⟨hi, hleft⟩ := h.cursor hlt
  have hmod : (r.left + 2 ^ 32 - 1) % 2 ^ 32 = r₀.left - done.length - 1 := by
    rw [hleft]
    omega
  refine ⟨h.executes, ?_, ?_, fun hlt' => ⟨?_, ?_⟩⟩
  · have htake : done.take r₀.left = done := List.take_of_length_le (by omega)
    have htake' : (done ++ [insn]).take r₀.left = done ++ [insn] :=
      List.take_of_length_le (by simp; omega)
    rw [htake', storeWords_append, ← hi, ← htake, ← h.buffer]
    rfl
  · simp only [Replay.record, hmod, List.length_append, List.length_singleton, decide_eq_decide]
    omega
  · simp only [Replay.record, hi, List.length_append, List.length_singleton]
    omega
  · simp only [Replay.record, hmod, List.length_append, List.length_singleton]
    omega

theorem finished (h : Recorder r₀ done r) (hr : r.recording = false) (insns : List Word) :
    Recorder r₀ (done ++ insns) r := by
  have hge : r₀.left ≤ done.length := by simpa [h.recording] using hr
  have htake : (done ++ insns).take r₀.left = done.take r₀.left := List.take_append_of_le_length hge
  refine ⟨h.executes, by rw [htake]; exact h.buffer, ?_, ?_⟩
  · rw [hr, eq_comm, decide_eq_false_iff_not, List.length_append]
    omega
  · rw [List.length_append]
    omega

theorem start (hr : r₀.recording = true) (hl : 0 < r₀.left) : Recorder r₀ [] r₀ :=
  ⟨rfl, by simp [storeWords], by simp [hr, hl], fun _ => ⟨rfl, rfl⟩⟩

end Recorder

def recordable (t : Tid) (ls : List Label) : List Word :=
  ls.filterMap fun l => match l.act with
    | .issue insn => if l.tid = t ∧ l.ok ∧ tensixInsnOpcode insn ≠ opcodeMopCfg then some insn else none
    | _ => none

def FaithfulActs (t : Tid) (cop : TensixCop) (l : Label) (cop' : TensixCop) : Prop :=
  Acts cop l cop' ∧ (l.tid = t → match l.act with
    | .push _ => True
    | .step => ∀ insn ∈ (cop.view t).nextInsn, tensixInsnOpcode insn ≠ opcodeReplay
    | .issue insn => Faithful (cop.view t) insn t)

structure Transparent (t : Tid) (r₀ : Replay) (done : List Word) (cop copN : TensixCop) : Prop where
  off : AgreeOff t cop copN
  view : ∃ log, copN.view t = (cop.view t).shadow r₀.stopped log
  recorder : Recorder r₀ done (cop.replay t)

theorem tensixCopStep_replay {v v' : CopView} {tid : Tid} {ok : Bool}
    (hr : ∀ insn ∈ v.nextInsn, tensixInsnOpcode insn ≠ opcodeReplay) (h : tensixCopStep v tid = (ok, v')) :
    v'.replay = v.replay := by
  have hfetch {insn : Word} {u : CopView} (hf : FetchCase v insn u) :
      insn ∈ v.nextInsn ∧ u.replay = v.replay := by
    cases hf with
    | pending hc => simp [CopView.nextInsn, CopView.fetch, hc, CopView.setThread]
    | popped hc hp => simp [CopView.nextInsn, CopView.fetch, hc, hp, CopView.setThread]
  cases StepCase.of_eq h with
  | halted => rfl
  | empty => rfl
  | held hh hf hx => rw [CopView.heldAt_replay, (verdict_held_thread hx).2.2.1, (hfetch hf).2]
  | @passed insn u x hh hf hx =>
    obtain ⟨hmem, hu⟩ := hfetch hf
    exact ((verdict_passed hx).replay (hr insn hmem)).trans hu

namespace Transparent

variable {t : Tid} {r₀ : Replay} {done : List Word} {cop cop' copN : TensixCop} {l : Label}

theorem own (h : Transparent t r₀ done cop copN) {a : ThreadAction} {ok : Bool} {v : CopView}
    {done' : List Word} (hr : Recorder r₀ done' v.replay)
    (ha : ∀ log, ∃ log', ThreadActs t ((cop.view t).shadow r₀.stopped log) a ok
      (v.shadow r₀.stopped log')) :
    ∃ copN', Acts copN ⟨t, a, ok⟩ copN' ∧ Transparent t r₀ done' (cop.putView t v) copN' := by
  obtain ⟨log, hview⟩ := h.view
  obtain ⟨log', hact⟩ := ha log
  refine ⟨copN.putView t (v.shadow r₀.stopped log'),
    ⟨v.shadow r₀.stopped log', by rw [hview]; exact hact, rfl⟩, h.off.putView rfl,
      ⟨log', ?_⟩, by simpa using hr⟩
  simp only [TensixCop.view, TensixCop.putView_core, TensixCop.putView_halted, TensixCop.putView_replay_self,
    TensixCop.putView_thread_self, h.off.halted]
  rfl

theorem other (h : Transparent t r₀ done cop copN) (hl : l.tid ≠ t) (ha : Acts cop l cop') :
    ∃ copN', Acts copN l copN' ∧ Transparent t r₀ done cop' copN' := by
  obtain ⟨copN', hacts, hoff, hv, hvN⟩ := h.off.acts hl ha
  obtain ⟨log, hview⟩ := h.view
  refine ⟨copN', hacts, hoff, ⟨log, ?_⟩, ?_⟩
  · rw [hvN, hv, hview]
    rfl
  · have hreplay : cop'.replay t = cop.replay t := congrArg CopView.replay hv
    rw [hreplay]
    exact h.recorder

theorem recordable_issue (insn : Word) (ok : Bool) :
    recordable t [⟨t, .issue insn, ok⟩] =
      if ok = true ∧ tensixInsnOpcode insn ≠ opcodeMopCfg then [insn] else [] := by
  simp only [recordable, true_and, List.filterMap_cons, List.filterMap_nil]
  split_ifs <;> rfl

theorem recordable_other (h : l.tid ≠ t) : recordable t [l] = [] := by
  obtain ⟨tid, a, ok⟩ := l
  cases a <;> simp_all [recordable]

theorem acts (h : Transparent t r₀ done cop copN) (hx : r₀.executeWhileLoading = true)
    (hlt : r₀.left < 2 ^ 32) (hs : FaithfulActs t cop l cop') :
    ∃ copN', Acts copN l copN' ∧ Transparent t r₀ (done ++ recordable t [l]) cop' copN' := by
  obtain ⟨ha, hc⟩ := hs
  by_cases ht : l.tid = t
  swap
  · rw [recordable_other ht, List.append_nil]
    exact h.other ht ha
  obtain ⟨tid, a, ok⟩ := l
  obtain rfl : tid = t := ht
  obtain ⟨v, hv, rfl⟩ := ha
  have hcond := hc rfl
  cases a with
  | push insn =>
    have hreplay : v.replay = cop.replay tid := by
      simp only [ThreadActs, tensixCopPush] at hv
      split_ifs at hv <;> cases hv <;> rfl
    refine h.own ?_ fun log => tensixCopPush_shadow _ log hv
    rw [hreplay]
    simpa [recordable] using h.recorder
  | step =>
    refine h.own ?_ fun log => tensixCopStep_shadow _ log hcond hv
    rw [tensixCopStep_replay hcond hv]
    simpa [recordable] using h.recorder
  | issue insn =>
    obtain ⟨hvac, hord, hstraight⟩ := hcond
    by_cases hrec : tensixInsnOpcode insn ≠ opcodeMopCfg ∧ (cop.replay tid).recording = true
    · obtain ⟨hmc, hr⟩ := hrec
      have hex : (cop.replay tid).executeWhileLoading = true := h.recorder.executes.trans hx
      have hissue (log : List Event) :=
        Faithful.issue_recorded log hvac hord (r := r₀.stopped) rfl hr hex hmc (hstraight hr hmc) hv
      obtain ⟨rfl, hreplay, -⟩ := hissue []
      refine h.own ?_ fun log => (hissue log).2.2
      rw [hreplay, recordable_issue, if_pos ⟨rfl, hmc⟩]
      exact h.recorder.record hlt hr insn
    · have hno (hmc : tensixInsnOpcode insn ≠ opcodeMopCfg) : (cop.replay tid).recording = false := by
        simpa using fun hr => hrec ⟨hmc, hr⟩
      have hissue (log : List Event) :=
        Faithful.issue_unrecorded log hvac hord (r := r₀.stopped) rfl hno hv
      refine h.own ?_ fun log => (hissue log).2
      rw [(hissue []).1, recordable_issue]
      split_ifs with hi
      · exact h.recorder.finished (hno hi.2) [insn]
      · simpa using h.recorder

theorem run {ls : List Label} (hrun : Run (FaithfulActs t) cop ls cop') (h : Transparent t r₀ done cop copN)
    (hx : r₀.executeWhileLoading = true) (hlt : r₀.left < 2 ^ 32) :
    ∃ copN', CopRun copN ls copN' ∧ Transparent t r₀ (done ++ recordable t ls) cop' copN' := by
  induction hrun generalizing done copN with
  | nil => exact ⟨copN, .nil copN, by simpa [recordable] using h⟩
  | @cons _ _ _ l ls hs _ ih =>
    obtain ⟨mid, hmid, ht⟩ := h.acts hx hlt hs
    obtain ⟨copN', hrun, ht'⟩ := ih ht
    have happend : recordable t (l :: ls) = recordable t [l] ++ recordable t ls := by
      rw [recordable, ← List.singleton_append, List.filterMap_append]
      rfl
    exact ⟨copN', .cons hmid hrun, by rwa [happend, ← List.append_assoc]⟩

end Transparent

def TensixCop.stopRecording (cop : TensixCop) (t : Tid) : TensixCop :=
  { cop with replay := Function.update cop.replay t (cop.replay t).stopped }

/-- While every recorded instruction would go straight to its handler, a thread that records with
execute-while-loading acts as one that does not, and the words end up in the buffer in order. -/
theorem recording_transparent (t : Tid) {cop cop' : TensixCop} {ls : List Label}
    (hr : (cop.replay t).recording = true) (hx : (cop.replay t).executeWhileLoading = true)
    (hpos : 0 < (cop.replay t).left) (hlt : (cop.replay t).left < 2 ^ 32)
    (hrun : Run (FaithfulActs t) cop ls cop') :
    ∃ copN, CopRun (cop.stopRecording t) ls copN ∧ AgreeOff t cop' copN ∧
      copN.threads t = { cop'.threads t with log := (copN.threads t).log } ∧
      (cop'.replay t).buffer = storeWords (cop.replay t).buffer (cop.replay t).index
        ((recordable t ls).take (cop.replay t).left) := by
  have hstart : Transparent t (cop.replay t) [] cop (cop.stopRecording t) := by
    refine ⟨⟨rfl, rfl, fun _ _ => rfl, fun u hu => ?_⟩, ⟨(cop.threads t).log, ?_⟩, .start hr hpos⟩
    · simp [TensixCop.stopRecording, hu]
    · simp only [TensixCop.view, TensixCop.stopRecording, Function.update_self]
      rfl
  obtain ⟨copN, hN, ht⟩ := hstart.run hrun hx hlt
  obtain ⟨log, hview⟩ := ht.view
  have hthread : copN.threads t = { cop'.threads t with log := log } := congrArg CopView.thread hview
  exact ⟨copN, hN, ht.off, by rw [hthread], ht.recorder.buffer⟩

def recordTwo : TensixCop := powerUp.after 9 [(0, .issue 0x04000023)]

/-- SETDMAREG and SETC16, the two words of the recording. -/
def recordTwoTrace : List Label := [⟨0, .issue 0x45001202, true⟩, ⟨0, .issue 0xB2050034, true⟩]

theorem recording_transparent_setters :
    ∃ cop' copN, CopRun recordTwo recordTwoTrace cop' ∧
      CopRun (recordTwo.stopRecording 0) recordTwoTrace copN ∧
      AgreeOff 0 cop' copN ∧ copN.core.dmaReg 0 1 = 0x12 ∧ copN.core.thdReg 0 5 = 0x34 ∧
      (cop'.replay 0).buffer =
        storeWords (recordTwo.replay 0).buffer (recordTwo.replay 0).index [0x45001202, 0xB2050034] := by
  have hfirst : Acts recordTwo ⟨0, .issue 0x45001202, true⟩ (recordTwo.after 9 [(0, .issue 0x45001202)]) :=
    Run.single.mp (TensixCop.exec_after (by decide))
  have hsecond : Acts (recordTwo.after 9 [(0, .issue 0x45001202)]) ⟨0, .issue 0xB2050034, true⟩
      ((recordTwo.after 9 [(0, .issue 0x45001202)]).after 9 [(0, .issue 0xB2050034)]) :=
    Run.single.mp (TensixCop.exec_after (by decide))
  have hf : Faithful (recordTwo.view 0) 0x45001202 0 :=
    ⟨⟨by decide, by decide, rfl, by decide, by decide⟩, ⟨by decide, by decide⟩,
      fun _ _ => ⟨by decide, by decide, by decide, by decide⟩⟩
  have hf' : Faithful ((recordTwo.after 9 [(0, .issue 0x45001202)]).view 0) 0xB2050034 0 :=
    ⟨⟨by decide, by decide, rfl, by decide, by decide⟩, ⟨by decide, by decide⟩,
      fun _ _ => ⟨by decide, by decide, by decide, by decide⟩⟩
  have hrun : Run (FaithfulActs 0) recordTwo recordTwoTrace _ :=
    .cons ⟨hfirst, fun _ => hf⟩ (.cons ⟨hsecond, fun _ => hf'⟩ (.nil _))
  obtain ⟨copN, hN, hoff, -, hbuf⟩ := recording_transparent 0 (by decide) (by decide) (by decide)
      (by decide) hrun
  refine ⟨_, copN, hrun.imp fun _ _ _ _ h => h.1, hN, hoff, ?_, ?_, hbuf⟩
  · rw [← hoff.core]
    decide
  · rw [← hoff.core]
    decide

theorem recording_misses_semwait :
    ∃ cop' copN, CopRun recordTwo [⟨0, .issue 0xA6FF8005, true⟩, ⟨0, .issue 0x02000000, true⟩] cop' ∧
      CopRun (recordTwo.stopRecording 0) [⟨0, .issue 0xA6FF8005, true⟩, ⟨0, .issue 0x02000000, false⟩] copN ∧
      (cop'.threads 0).waitGate ≠ (copN.threads 0).waitGate := by
  have h : CopRun recordTwo [⟨0, .issue 0xA6FF8005, true⟩, ⟨0, .issue 0x02000000, true⟩]
      (recordTwo.after 9 [(0, .issue 0xA6FF8005), (0, .issue 0x02000000)]) := TensixCop.exec_after (by decide)
  have hN : CopRun (recordTwo.stopRecording 0) [⟨0, .issue 0xA6FF8005, true⟩, ⟨0, .issue 0x02000000, false⟩]
      ((recordTwo.stopRecording 0).after 9 [(0, .issue 0xA6FF8005), (0, .issue 0x02000000)]) :=
    TensixCop.exec_after (by decide)
  exact ⟨_, _, h, hN, by decide⟩

end Rv32Emu
