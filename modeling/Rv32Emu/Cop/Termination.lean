import Rv32Emu.Cop.MopIssue
import Rv32Emu.Cop.ProgramOrder
import Rv32Emu.Cop.Unrolling

namespace Rv32Emu

section condition

def TensixFifo.popped : ℕ → TensixFifo → List Word
  | 0, _ => []
  | n + 1, f =>
    match f.pop with
    | none => []
    | some (w, g) => w :: popped n g

def TensixFifo.words (f : TensixFifo) : List Word := TensixFifo.popped f.count f

/-- The words that a thread executes before a direct instruction, the one in the slot first. -/
def CopView.backlog (v : CopView) : List Word := v.thread.currentInsn.toList ++ v.thread.insnFifo.words

/-- MOP_CFG, the waits and a recorded instruction start nothing; what a MOP starts is unrolled to its
end; behind any other instruction only the replay window is replayed. -/
def Expander.DirectEnds (x : Expander) (insn : Word) : Prop :=
  tensixInsnOpcode insn ≠ opcodeMopCfg → isWaitOpcode (tensixInsnOpcode insn) = false → x.recording = false →
    if tensixInsnOpcode insn = opcodeMop then ∃ z, (x.take insn).Ends z else ∃ y, (x.take insn).Drains y

/-- `L` has gone through and `R` has not: an iterator that `L` has left in progress is unrolled first,
where no word of `R` is in its way. -/
def Expander.EndsBehind (x : Expander) (L R : List Word) (insn : Word) : Prop :=
  if (L.foldl take x).mop.active then R = [] → ∃ z, (L.foldl take x).Ends z ∧ z.DirectEnds insn
  else (L.foldl take x).DirectEnds insn

def CopView.IssueEnds (v : CopView) (tid : Tid) (insn : Word) : Prop :=
  if v.thread.mopState.active then
    flows tid v v.thread.currentInsn.toList = true →
      ∃ z, (v.thread.currentInsn.toList.foldl Expander.take v.expander).Ends z ∧
        (tensixInsnOpcode insn = opcodeMop ∨
          ∀ L R, v.thread.insnFifo.words = L ++ R → (∀ w ∈ R.head?, Ordinary w) → z.EndsBehind L R insn)
  else
    ∀ L R, v.backlog = L ++ R → flows tid v L = true → (∀ w ∈ R.head?, flows tid v (L ++ [w]) = false) →
      v.expander.EndsBehind L R insn

end condition

section fifo

variable {v u : CopView} {insn : Word} {tid : Tid} {fuel : ℕ} {L R : List Word}

theorem TensixFifo.words_of_pop {f g : TensixFifo} {w : Word} (h : f.pop = some (w, g)) :
    f.words = w :: g.words := by
  obtain ⟨hpos, -, rfl⟩ := pop_eq_some h
  obtain ⟨n, hn⟩ : ∃ n, f.count = n + 1 := ⟨f.count - 1, by omega⟩
  simp only [words, hn, popped, h, Nat.add_sub_cancel]

theorem TensixFifo.words_of_empty {f : TensixFifo} (h : f.pop = none) : f.words = [] := by
  cases hn : f.count with
  | zero => rw [words, hn, popped]
  | succ n => simp [pop, isEmpty, hn] at h

theorem FetchCase.backlog (h : FetchCase v insn u) : v.backlog = insn :: u.backlog := by
  cases h with
  | pending hc => simp [CopView.backlog, hc, CopView.setThread]
  | popped hc hp => simp [CopView.backlog, hc, CopView.setThread, TensixFifo.words_of_pop hp]

theorem FetchCase.expander_eq (h : FetchCase v insn u) : u.expander = v.expander := by cases h <;> rfl

theorem FetchCase.flows_cons (h : FetchCase v insn u) (tid : Tid) (ws : List Word) :
    flows tid v (insn :: ws) = ((verdict u insn tid).ok && flows tid (verdict u insn tid).view ws) := by
  rw [flows_local tid h.sameLocal, Rv32Emu.flows_cons]

theorem verdict_held_ordinary {counted : Bool} {x : CopView} (h : verdict v insn tid = .held counted x) :
    Ordinary insn := by
  refine ⟨fun hm => ?_, fun hr => ?_⟩
  · rw [verdict_expander (.inl hm)] at h
    cases h
  · rw [verdict_expander (.inr hr)] at h
    cases h

theorem tensixCopStep_consumes {u : CopView} (h : tensixCopStep v tid = (true, u)) :
    (u.thread.insnFifo.count + if u.thread.currentInsn.isSome then 1 else 0) <
      v.thread.insnFifo.count + if v.thread.currentInsn.isSome then 1 else 0 := by
  obtain ⟨insn, y, x, -, hf, hx, rfl⟩ := StepCase.of_true h
  have hp := verdict_passed hx
  have hfifo : (x.complete (.ran x.thread.currentOrigin insn)).thread.insnFifo = y.thread.insnFifo := hp.fifo
  have hcur : (x.complete (.ran x.thread.currentOrigin insn)).thread.currentInsn = none := by
    refine hp.current ?_
    cases hf with
    | pending => rfl
    | popped hn => exact hn
  rw [hfifo, hcur]
  cases hf with
  | pending hc => simp [CopView.setThread, hc]
  | popped hn hpop =>
    obtain ⟨hpos, -, rfl⟩ := TensixFifo.pop_eq_some hpop
    rw [hn]
    exact Nat.sub_lt hpos Nat.one_pos

theorem drainFifo_returns (v : CopView) (tid : Tid) : ∃ fuel u, drainFifo fuel v tid = some u := by
  unfold drainFifo
  refine ⟨_, Loop.returns (I := fun _ => True)
    (fun v : CopView => v.thread.insnFifo.count + if v.thread.currentInsn.isSome then 1 else 0) ?_ trivial⟩
  intro s _
  cases hs : tensixCopStep s tid with
  | mk ok u =>
    cases ok with
    | false => exact .inl ⟨u, rfl⟩
    | true => exact .inr ⟨u, rfl, trivial, tensixCopStep_consumes hs⟩

structure FifoDrained (tid : Tid) (v : CopView) (L : List Word) (u : CopView) : Prop where
  running : u.halted = false
  expander : u.expander = L.foldl Expander.take v.expander
  backlog : v.backlog = L ++ u.backlog
  verdicts : ∀ ws, flows tid v (L ++ ws) = flows tid u ws

theorem FifoDrained.step {s : CopView} (h : FifoDrained tid v L s) (hs : tensixCopStep s tid = (true, u)) :
    ∃ insn, FifoDrained tid v (L ++ [insn]) u := by
  obtain ⟨insn, y, x, -, hf, hx, rfl⟩ := StepCase.of_true hs
  have hp := verdict_passed hx
  have hcur := hp.current hf.current
  refine ⟨insn, hp.halted.trans (hf.halted.trans h.running), ?_, ?_, fun ws => ?_⟩
  · rw [List.foldl_append, ← h.expander, ← hf.expander_eq]
    have hexp : (x.complete (.ran x.thread.currentOrigin insn)).expander = x.expander := rfl
    exact hexp.trans (verdict_passed_expander hx)
  · rw [h.backlog, hf.backlog, List.append_assoc]
    simp [CopView.backlog, CopView.complete, CopView.setThread, hcur, hf.current, hp.fifo]
  · rw [List.append_assoc, h.verdicts, List.singleton_append, hf.flows_cons, hx]
    have hsame : SameLocal x (x.complete (.ran x.thread.currentOrigin insn)) := ⟨rfl, rfl, rfl⟩
    exact flows_local tid hsame ws

/-- Where the drain of the FIFO stops: everything has gone through, or an ordinary word is held and
stays so. -/
structure FifoStopped (tid : Tid) (v : CopView) (L R : List Word) (u : CopView) : Prop where
  running : u.halted = false
  expander : u.expander = L.foldl Expander.take v.expander
  backlog : v.backlog = L ++ R
  passed : flows tid v L = true
  held : ∀ insn ∈ R.head?, flows tid v (L ++ [insn]) = false
  slot : u.thread.currentInsn = R.head?
  ordinary : ∀ insn ∈ R.head?, Ordinary insn
  stays : R ≠ [] → (tensixCopStep u tid).1 = false

theorem FifoDrained.stop {s : CopView} (h : FifoDrained tid v L s) (hs : tensixCopStep s tid = (false, u)) :
    ∃ R, FifoStopped tid v L R u := by
  have hpassed : flows tid v L = true := by simpa [flows] using h.verdicts []
  cases StepCase.of_eq hs with
  | halted hh => exact absurd (hh.symm.trans h.running) (by decide)
  | empty _ hc hf =>
    have hnil : s.backlog = [] := by simp [CopView.backlog, hc, TensixFifo.words_of_empty hf]
    exact ⟨[], h.running, h.expander, hnil ▸ h.backlog, hpassed, by simp, hc, by simp, by simp⟩
  | @held insn y x counted _ hf hx =>
    obtain ⟨hxh, -⟩ := verdict_held_thread hx
    have hexp : (x.heldAt insn counted).expander = y.expander := by
      obtain rfl | ⟨rfl, -⟩ := verdict_held hx <;> cases counted <;> rfl
    refine ⟨insn :: y.backlog, by simpa [hxh, hf.halted] using h.running, ?_, hf.backlog ▸ h.backlog,
      hpassed, ?_, by simp, ?_, fun _ => tensixCopStep_held_again hs (by simp)⟩
    · rw [hexp, hf.expander_eq, h.expander]
    · simp only [List.head?_cons, Option.mem_some_iff, forall_eq']
      rw [h.verdicts, hf.flows_cons, hx]
      rfl
    · simp only [List.head?_cons, Option.mem_some_iff, forall_eq']
      exact verdict_held_ordinary hx

theorem drainFifo_stopped (hh : v.halted = false) (h : drainFifo fuel v tid = some u) :
    ∃ L R, FifoStopped tid v L R u := by
  refine Loop.invariant (I := fun s => ∃ L, FifoDrained tid v L s)
    (Q := fun u => ∃ L R, FifoStopped tid v L R u)
    ?_ ?_ h ⟨[], hh, rfl, rfl, fun _ => rfl⟩
  · rintro s s' ⟨L, hL⟩ hturn
    cases hstep : tensixCopStep s tid with
    | mk done w =>
      rw [hstep] at hturn
      cases done <;> cases hturn
      obtain ⟨insn, hw⟩ := hL.step hstep
      exact ⟨_, hw⟩
  · rintro s r ⟨L, hL⟩ hturn
    cases hstep : tensixCopStep s tid with
    | mk done w =>
      rw [hstep] at hturn
      cases done <;> cases hturn
      exact ⟨L, hL.stop hstep⟩

end fifo

section direct

variable {v v' u : CopView} {insn : Word} {tid : Tid} {ok : Bool} {fuel : ℕ} {L R : List Word}

theorem drainFifo_mono {n m : ℕ} (hnm : n ≤ m) (h : drainFifo n v tid = some v') :
    drainFifo m v tid = some v' :=
  Loop.mono (fun _ _ h => h) hnm h

theorem mopFinishAll_mono {n m : ℕ} {r : Bool × CopView} (hnm : n ≤ m) (h : mopFinishAll n v tid = some r) :
    mopFinishAll m v tid = some r := by
  refine Loop.mono (fun s y hy => ?_) hnm h
  split_ifs at hy ⊢
  · exact hy
  · cases hc : mopContinueExecution n s tid with
    | none => simp [hc] at hy
    | some x =>
      rw [mopContinueExecution_mono hnm hc]
      rwa [hc] at hy

theorem verdict_passed_slot (h : verdict v insn tid = .passed u) :
    u.thread.currentInsn = v.thread.currentInsn ∨ u.thread.currentInsn = none := by
  unfold verdict at h
  split_ifs at h with hc
  · cases h
    exact .inl rfl
  · split at h
    · cases h
    case h_2 x hg =>
      have hx : x.thread.currentInsn = v.thread.currentInsn := by
        obtain ⟨rfl, -⟩ | ⟨rfl, -⟩ := passGate_cases hg <;> rfl
      unfold pastGate at h
      split_ifs at h
      · cases h
        exact .inl hx
      · cases h
        by_cases hm : tensixInsnOpcode insn = opcodeMop
        · rw [execute_mop x tid hm]
          exact .inr rfl
        · rw [execute_thread x tid hm hc]
          exact .inl hx

theorem verdict_passed_kept {s : Word} (h : verdict v insn tid = .passed u)
    (hu : u.thread.currentInsn = some s) :
    v.thread.currentInsn = some s := by
  obtain hcase | hcase := verdict_passed_slot h
  · exact hcase.symm.trans hu
  · exact absurd (hcase.symm.trans hu) (by simp)

theorem directInsn_cases (v : CopView) (insn : Word) (tid : Tid) :
    (∃ r, ∀ fuel, directInsn fuel v insn tid = some r) ∨
      ∃ u, verdict v insn tid = .passed u ∧ tensixInsnOpcode insn ≠ opcodeMopCfg ∧
        isWaitOpcode (tensixInsnOpcode insn) = false ∧ v.replay.recording = false ∧
        (tensixInsnOpcode insn = opcodeMop ∧
            (∀ fuel, directInsn fuel v insn tid = mopContinueExecution fuel (u.issued insn) tid) ∨
          tensixInsnOpcode insn ≠ opcodeMop ∧ ∀ fuel, directInsn fuel v insn tid =
            (drainIfExpanding fuel (u.issued insn) tid).andThen fun v => some (true, v.finish)) := by
  by_cases hrec : tensixInsnOpcode insn ≠ opcodeMopCfg ∧ v.replay.recording = true
  · refine .inl ⟨(true, recordInsn v insn tid), fun fuel => ?_⟩
    simp [directInsn, hrec.1, hrec.2]
  · have hnrec (hc : tensixInsnOpcode insn ≠ opcodeMopCfg) : v.replay.recording = false := by
      simpa using fun hr => hrec ⟨hc, hr⟩
    have heq (fuel : ℕ) : directInsn fuel v insn tid = (verdict v insn tid).toDirect fuel insn tid :=
      directInsn_eq fuel tid hnrec
    cases hx : verdict v insn tid with
    | held counted u => exact .inl ⟨_, fun fuel => by rw [heq, hx]; rfl⟩
    | passed u =>
      rw [hx] at heq
      by_cases hdone : tensixInsnOpcode insn = opcodeMopCfg ∨ isWaitOpcode (tensixInsnOpcode insn)
      · exact .inl ⟨_, fun fuel => (heq fuel).trans (if_pos hdone)⟩
      · have hnot := not_or.mp hdone
        refine .inr ⟨u, rfl, hnot.1, by simpa using hnot.2, hnrec hnot.1, ?_⟩
        by_cases hm : tensixInsnOpcode insn = opcodeMop
        · exact .inl ⟨hm, fun fuel => (heq fuel).trans ((if_neg hdone).trans (if_pos hm))⟩
        · exact .inr ⟨hm, fun fuel => (heq fuel).trans ((if_neg hdone).trans (if_neg hm))⟩

theorem directInsn_mono {n m : ℕ} {r : Bool × CopView} (hnm : n ≤ m) (h : directInsn n v insn tid = some r) :
    directInsn m v insn tid = some r := by
  obtain ⟨r', hr⟩ | ⟨u, -, -, -, -, ⟨-, hu⟩ | ⟨-, hu⟩⟩ := directInsn_cases v insn tid
  · rw [hr] at h ⊢
    exact h
  · rw [hu] at h ⊢
    exact mopContinueExecution_mono hnm h
  · rw [hu] at h ⊢
    exact Outcome.andThen_mono (fun _ => drainIfExpanding_mono hnm) (fun _ _ => id) h

theorem Expander.take_ordinary (x : Expander) (ho : Ordinary insn) :
    (x.take insn).buffer = x.buffer ∧ (x.take insn).window = x.window := by
  simp [take, ho.2]

theorem directInsn_returns (hh : v.halted = false) (hslot : ∀ w, v.thread.currentInsn = some w → Ordinary w)
    (hd : v.expander.DirectEnds insn) (tid : Tid) : ∃ fuel r, directInsn fuel v insn tid = some r := by
  obtain ⟨r, hr⟩ | ⟨u, hx, hc, hw, hrec, hu⟩ := directInsn_cases v insn tid
  · exact ⟨0, r, hr 0⟩
  have hat : (v.expander.take insn).At v.thread.insnFifo (u.issued insn) := by
    have hv : v.expander.At v.thread.insnFifo v := ⟨hh, rfl, rfl⟩
    have hpassed := hv.passed hx
    exact ⟨hpassed.running, hpassed.fifo, hpassed.expander⟩
  have hends := hd hc hw hrec
  obtain ⟨hm, hu⟩ | ⟨hm, hu⟩ := hu
  · rw [if_pos hm] at hends
    obtain ⟨z, hz⟩ := hends
    have hcur : (u.issued insn).thread.currentInsn = none := by
      rw [verdict_expander (.inl hm), execute_mop v tid hm] at hx
      cases hx
      rfl
    obtain ⟨n, ok, w, hn, -⟩ := hat.continue_returns (z := z) (by rw [hcur]; exact hz) tid
    exact ⟨n, (ok, w), (hu n).trans hn⟩
  · rw [if_neg hm] at hends
    obtain ⟨y, hy⟩ := hends
    have hret : ∃ n r, drainIfExpanding n (u.issued insn) tid = some r := by
      cases hcur : (u.issued insn).thread.currentInsn with
      | none =>
        obtain ⟨n, ok, w, hn, -⟩ := hy.returns hat hcur tid
        exact ⟨n, (ok, w), hn⟩
      | some s =>
        cases hexp : (u.issued insn).replay.expanding with
        | false => exact ⟨0, _, by rw [drainIfExpanding, hexp]; rfl⟩
        | true =>
          obtain ⟨hb, hwin⟩ := (v.expander.take insn).take_ordinary (hslot s (verdict_passed_kept hx hcur))
          obtain ⟨y', hy'⟩ := hy.of_window hb hwin
          obtain ⟨n, ok, w, hn, -⟩ := hat.drain_slot hexp hcur hy' tid
          exact ⟨n, (ok, w), hn⟩
    obtain ⟨n, ⟨ok, w⟩, hn⟩ := hret
    cases ok with
    | false => exact ⟨n, (false, w), by rw [hu, hn]; rfl⟩
    | true => exact ⟨n, (true, w.finish), by rw [hu, hn]; rfl⟩

theorem mopFinishAll_returns {z : Expander} (hh : v.halted = false) (hm : v.thread.mopState.active = true)
    (hcur : v.thread.currentInsn = none) (he : v.expander.Ends z) (tid : Tid) :
    Returns (fun n => mopFinishAll n v tid) fun u => z.At v.thread.insnFifo u ∧ u.Settled := by
  have hat : v.expander.At v.thread.insnFifo v := ⟨hh, rfl, rfl⟩
  obtain ⟨n, ok, u, hn, hu⟩ := hat.continue_returns (z := z) (by rw [hcur]; exact he) tid
  have hn' := mopContinueExecution_mono (Nat.le_add_right n 2) hn
  cases ok with
  | false => exact .blocked (u := u) (n + 2) (Loop.exit (by simp [hm, hn']) _)
  | true =>
    have hdone := hu rfl
    have hidle : u.thread.mopState.active = false := by
      obtain ⟨y, -, hy⟩ := he
      have hstate : u.thread.mopState = z.mop := by rw [← hdone.1.expander]; rfl
      rw [hstate]
      exact hy.inactive
    refine .now (n + 2) ?_ hdone
    simp only [mopFinishAll]
    rw [Loop.step (by simp only [hm, hn']; rfl)]
    exact Loop.exit (by simp [hidle]) n

theorem directAfterMop_mono {n m : ℕ} {r : Bool × CopView} (hnm : n ≤ m)
    (h : directAfterMop n v insn tid = some r) :
    directAfterMop m v insn tid = some r := by
  unfold directAfterMop at h ⊢
  cases hd : drainFifo n v tid with
  | none => simp [hd] at h
  | some d =>
    rw [hd] at h
    rw [drainFifo_mono hnm hd]
    dsimp only at h ⊢
    split_ifs at h ⊢
    · exact directInsn_mono hnm h
    · cases hm : mopFinishAll n d tid with
      | none => simp [hm] at h
      | some x =>
        rw [hm] at h
        rw [mopFinishAll_mono hnm hm]
        dsimp only at h ⊢
        split_ifs at h ⊢
        · exact directInsn_mono hnm h
        · exact h

theorem directAfterMop_returns (hh : v.halted = false)
    (he : ∀ L R, v.backlog = L ++ R → flows tid v L = true →
      (∀ w ∈ R.head?, flows tid v (L ++ [w]) = false ∧ Ordinary w) → v.expander.EndsBehind L R insn) :
    ∃ fuel r, directAfterMop fuel v insn tid = some r := by
  obtain ⟨n, d, hd⟩ := drainFifo_returns v tid
  obtain ⟨L, R, hs⟩ := drainFifo_stopped hh hd
  have hbehind := he L R hs.backlog hs.passed fun w hw => ⟨hs.held w hw, hs.ordinary w hw⟩
  have hmop : (L.foldl Expander.take v.expander).mop = d.thread.mopState := by rw [← hs.expander]; rfl
  rw [Expander.EndsBehind, ← hs.expander] at hbehind
  cases ha : d.thread.mopState.active with
  | false =>
    rw [if_neg (by rw [hs.expander, hmop, ha]; decide)] at hbehind
    have hslot (w : Word) (hw : d.thread.currentInsn = some w) : Ordinary w := hs.ordinary w (hs.slot ▸ hw)
    obtain ⟨m, r, hr⟩ := directInsn_returns hs.running hslot hbehind tid
    refine ⟨max n m, r, ?_⟩
    simp only [directAfterMop, drainFifo_mono (le_max_left n m) hd, ha]
    exact directInsn_mono (le_max_right n m) hr
  | true =>
    rw [if_pos (by rw [hs.expander, hmop, ha])] at hbehind
    cases R with
    | cons w R =>
      have hcur : d.thread.currentInsn ≠ none := by simp [hs.slot]
      obtain ⟨u, hu⟩ := mopFinishAll_stays ha hcur (hs.stays (by simp)) 0
      refine ⟨max n 1, (false, u.setDirect insn), ?_⟩
      simp only [directAfterMop, drainFifo_mono (le_max_left n 1) hd, ha,
        mopFinishAll_mono (le_max_right n 1) hu]
      rfl
    | nil =>
      obtain ⟨z, hz, hzd⟩ := hbehind rfl
      obtain ⟨m, ok, u, hm, hu⟩ := mopFinishAll_returns hs.running ha hs.slot hz tid
      cases ok with
      | false =>
        refine ⟨max n m, (false, u.setDirect insn), ?_⟩
        simp only [directAfterMop, drainFifo_mono (le_max_left n m) hd, ha,
          mopFinishAll_mono (le_max_right n m) hm]
        rfl
      | true =>
        obtain ⟨hzu, hsettled⟩ := hu rfl
        have hslot (w : Word) (hw : (u.setDirect insn).thread.currentInsn = some w) : Ordinary w := by
          have hnone : (u.setDirect insn).thread.currentInsn = none := hsettled.current
          rw [hnone] at hw
          cases hw
        have hdirect : (u.setDirect insn).expander.DirectEnds insn := by
          rw [(hzu.setDirect insn).expander]
          exact hzd
        obtain ⟨k, r, hr⟩ := directInsn_returns (v := u.setDirect insn) hzu.running hslot hdirect tid
        refine ⟨max n (max m k), r, ?_⟩
        have hm' : m ≤ max n (max m k) := (le_max_left m k).trans (le_max_right n _)
        have hk' : k ≤ max n (max m k) := (le_max_right m k).trans (le_max_right n _)
        simp only [directAfterMop, drainFifo_mono (le_max_left n _) hd, ha, mopFinishAll_mono hm' hm]
        exact directInsn_mono hk' hr

theorem directInsn_ends (hh : v.halted = false) (hslot : ∀ w, v.thread.currentInsn = some w → Ordinary w)
    (h : directInsn fuel v insn tid = some (true, v')) : v.expander.DirectEnds insn := by
  intro hc hw hrec
  have hdone : ¬(tensixInsnOpcode insn = opcodeMopCfg ∨ isWaitOpcode (tensixInsnOpcode insn) = true) := by
    simp [hc, hw]
  rw [directInsn_eq fuel tid fun _ => hrec] at h
  cases hx : verdict v insn tid with
  | held counted u =>
    rw [hx] at h
    cases h
  | passed u =>
    rw [hx, Verdict.toDirect, if_neg hdone] at h
    have hat : (v.expander.take insn).At v.thread.insnFifo (u.issued insn) := by
      have hv : v.expander.At v.thread.insnFifo v := ⟨hh, rfl, rfl⟩
      have hpassed := hv.passed hx
      exact ⟨hpassed.running, hpassed.fifo, hpassed.expander⟩
    split_ifs at h ⊢ with hm
    · have hcur : (u.issued insn).thread.currentInsn = none := by
        rw [verdict_expander (.inl hm), execute_mop v tid hm] at hx
        cases hx
        rfl
      obtain ⟨z, hz, -⟩ := hat.continue_ends h
      rw [hcur] at hz
      exact ⟨z, hz⟩
    · obtain ⟨-, hok⟩ | ⟨w, hd, -⟩ := Outcome.andThen_eq_some h
      · cases hok
      cases hcur : (u.issued insn).thread.currentInsn with
      | none =>
        obtain ⟨y, hy, -⟩ := hat.drains hcur hd
        exact ⟨y, hy⟩
      | some s =>
        cases hexp : (u.issued insn).replay.expanding with
        | false => exact ⟨_, .nil (hat.window_nil hexp)⟩
        | true =>
          obtain ⟨hb, hwin⟩ := (v.expander.take insn).take_ordinary (hslot s (verdict_passed_kept hx hcur))
          obtain ⟨y, hy, -⟩ := hat.drains_slot hexp hcur hd
          exact hy.of_window hb.symm hwin.symm

theorem mopFinishAll_ends (hh : v.halted = false) (hm : v.thread.mopState.active = true)
    (hcur : v.thread.currentInsn = none) (h : mopFinishAll fuel v tid = some (true, v')) :
    ∃ z, v.expander.Ends z ∧ z.At v.thread.insnFifo v' ∧ v'.Settled := by
  have hat : v.expander.At v.thread.insnFifo v := ⟨hh, rfl, rfl⟩
  have hends {n : ℕ} {u : CopView} (hk : mopContinueExecution n v tid = some (true, u)) :
      ∃ z, v.expander.Ends z ∧ z.At v.thread.insnFifo u ∧ u.Settled := by
    have hz := hat.continue_ends hk
    rwa [hcur] at hz
  refine Loop.invariant
    (I := fun s => s = v ∨ ∃ z, v.expander.Ends z ∧ z.At v.thread.insnFifo s ∧ s.Settled)
    (Q := fun r => r.1 = true → ∃ z, v.expander.Ends z ∧ z.At v.thread.insnFifo r.2 ∧ r.2.Settled)
    ?_ ?_ h (.inl rfl) rfl
  · rintro s s' hs hturn
    split_ifs at hturn with hact
    · cases hturn
    split at hturn
    · cases hturn
    · next u hu =>
      cases hturn
      obtain rfl | ⟨z, ⟨y, -, hy⟩, hzs, -⟩ := hs
      · exact .inr (hends hu)
      · have hmop : s.thread.mopState = z.mop := by rw [← hzs.expander]; rfl
        simp [hmop, hy.inactive] at hact
    · cases hturn
  · rintro s r hs hturn hok
    split_ifs at hturn with hact
    · cases hturn
      obtain rfl | hs := hs
      · simp [hm] at hact
      · exact hs
    · split at hturn <;> cases hturn
      cases hok

theorem flows_append_left {M : List Word} (h : flows tid v (L ++ M) = true) : flows tid v L = true := by
  induction L generalizing v with
  | nil => rfl
  | cons w L ih =>
    rw [List.cons_append, flows_cons, Bool.and_eq_true] at h
    rw [flows_cons, h.1, ih h.2]
    rfl

/-- The backlog goes through up to one place only. -/
theorem flows_stop_unique {L' R' : List Word} (h : L ++ R = L' ++ R') (hL : flows tid v L = true)
    (hR : ∀ w ∈ R.head?, flows tid v (L ++ [w]) = false) (hL' : flows tid v L' = true)
    (hR' : ∀ w ∈ R'.head?, flows tid v (L' ++ [w]) = false) : L' = L ∧ R' = R := by
  have hlonger {L M N : List Word} (hM : flows tid v (L ++ M) = true)
      (hN : ∀ w ∈ (M ++ N).head?, flows tid v (L ++ [w]) = false) : M = [] := by
    cases M with
    | nil => rfl
    | cons w M =>
      rw [← List.singleton_append, ← List.append_assoc] at hM
      have hw := hN w (by simp)
      rw [flows_append_left hM] at hw
      cases hw
  obtain ⟨M, rfl, rfl⟩ | ⟨M, rfl, rfl⟩ := List.append_eq_append_iff.mp h
  · obtain rfl := hlonger hL' hR
    simp
  · obtain rfl := hlonger hL hR'
    simp

theorem directAfterMop_ends (hh : v.halted = false) (h : directAfterMop fuel v insn tid = some (true, v'))
    (hb : v.backlog = L ++ R) (hL : flows tid v L = true)
    (hR : ∀ w ∈ R.head?, flows tid v (L ++ [w]) = false) :
    v.expander.EndsBehind L R insn := by
  unfold directAfterMop at h
  split at h
  · cases h
  next d hd =>
  obtain ⟨L', R', hs⟩ := drainFifo_stopped hh hd
  obtain ⟨rfl, rfl⟩ := flows_stop_unique (hb.symm.trans hs.backlog) hL hR hs.passed hs.held
  have hmop : d.expander.mop.active = d.thread.mopState.active := rfl
  rw [Expander.EndsBehind, ← hs.expander, hmop]
  cases ha : d.thread.mopState.active with
  | false =>
    simp only [ha, Bool.not_false, if_true] at h
    exact directInsn_ends hs.running (fun w hw => hs.ordinary w (hs.slot ▸ hw)) h
  | true =>
    rintro rfl
    simp only [ha, Bool.not_true, Bool.false_eq_true, if_false] at h
    split at h
    · cases h
    next ok w hf =>
    cases ok with
    | false => cases h
    | true =>
      obtain ⟨z, hz, hzw, hset⟩ := mopFinishAll_ends hs.running ha hs.slot hf
      have hslot (s : Word) (hsome : (w.setDirect insn).thread.currentInsn = some s) : Ordinary s := by
        have hnone : (w.setDirect insn).thread.currentInsn = none := hset.current
        rw [hnone] at hsome
        cases hsome
      have hdirect := directInsn_ends (v := w.setDirect insn) hzw.running hslot h
      rw [(hzw.setDirect insn).expander] at hdirect
      exact ⟨z, hz, hdirect⟩

theorem stepDirect_returns_of_ends
    (h : v.halted = false → ∀ insn, v.thread.directInsn = some insn → v.IssueEnds tid insn) :
    ∃ fuel r, tensixCopStepDirect fuel v tid = some r := by
  cases hh : v.halted with
  | true => exact ⟨0, (false, v), by simp [tensixCopStepDirect, hh]⟩
  | false =>
    cases hd : v.thread.directInsn with
    | none => exact ⟨0, (true, v), by simp [tensixCopStepDirect, hh, hd]⟩
    | some insn =>
      have hi := h hh insn hd
      cases ha : v.thread.mopState.active with
      | false =>
        rw [CopView.IssueEnds, if_neg (by simp [ha])] at hi
        obtain ⟨fuel, r, hr⟩ := directAfterMop_returns hh fun L R hb hL hR => hi L R hb hL fun w hw =>
            (hR w hw).1
        exact ⟨fuel, r, by simpa [tensixCopStepDirect, hh, hd, ha] using hr⟩
      | true =>
        rw [CopView.IssueEnds, if_pos ha] at hi
        have hat : v.expander.At v.thread.insnFifo v := ⟨hh, rfl, rfl⟩
        by_cases hflows : flows tid v v.thread.currentInsn.toList = true
        · obtain ⟨z, hz, hnext⟩ := hi hflows
          obtain ⟨n, ok, u, hn, hu⟩ := hat.continue_returns hz tid
          cases ok with
          | false => exact ⟨n, (false, u.setDirect insn), by simp [tensixCopStepDirect, hh, hd, ha, hn]⟩
          | true =>
            by_cases hm : tensixInsnOpcode insn = opcodeMop
            · exact ⟨n, (true, u), by simp [tensixCopStepDirect, hh, hd, ha, hn, hm]⟩
            obtain ⟨hzu, hsettled⟩ := hu rfl
            have hback : (u.setDirect insn).backlog = v.thread.insnFifo.words := by
              rw [← hzu.fifo]
              simp [CopView.backlog, CopView.setDirect, CopView.setThread, hsettled.current]
            have hbehind (L R : List Word) (hb : (u.setDirect insn).backlog = L ++ R)
                (hR : ∀ w ∈ R.head?, Ordinary w) : (u.setDirect insn).expander.EndsBehind L R insn := by
              rw [(hzu.setDirect insn).expander]
              exact hnext.resolve_left hm L R (hback.symm.trans hb) hR
            obtain ⟨m, r, hr⟩ := directAfterMop_returns (v := u.setDirect insn) hzu.running
              fun L R hb (_ : flows tid _ L = true) hR => hbehind L R hb fun w hw => (hR w hw).2
            have hn' := mopContinueExecution_mono (le_max_left n m) hn
            have hr' := directAfterMop_mono (le_max_right n m) hr
            exact ⟨max n m, r, by simpa [tensixCopStepDirect, hh, hd, ha, hn', hm] using hr'⟩
        · cases hcur : v.thread.currentInsn with
          | none => simp [hcur, flows] at hflows
          | some w =>
            have hstays : (tensixCopStep v tid).1 = false := by
              have hstep := tensixCopStep_flows hh hcur (Prod.mk.eta (p := tensixCopStep v tid)).symm []
              rw [hcur] at hflows
              simpa [flows] using hstep.symm.trans (by simpa using hflows)
            obtain ⟨u, hu⟩ := mopContinueExecution_stays (by simp [hcur]) hstays 0
            exact ⟨1, (false, u.setDirect insn), by simp [tensixCopStepDirect, hh, hd, ha, hu]⟩

theorem stepDirect_ends (hd : v.thread.directInsn = some insn)
    (hq : v.thread.mopState.active = true → v.thread.insnFifo.words = [])
    (h : tensixCopStepDirect fuel v tid = some (true, v')) : v.IssueEnds tid insn := by
  have hh : v.halted = false := by
    by_contra hh
    rw [tensixCopStepDirect, if_pos (by simpa using hh)] at h
    cases h
  cases ha : v.thread.mopState.active with
  | false =>
    have hafter : directAfterMop fuel v insn tid = some (true, v') := by
      simpa [tensixCopStepDirect, hh, hd, ha] using h
    rw [CopView.IssueEnds, if_neg (by simp [ha])]
    exact fun L R hb hL hR => directAfterMop_ends hh hafter hb hL hR
  | true =>
    rw [CopView.IssueEnds, if_pos ha]
    rintro -
    have hat : v.expander.At v.thread.insnFifo v := ⟨hh, rfl, rfl⟩
    cases hk : mopContinueExecution fuel v tid with
    | none => simp [tensixCopStepDirect, hh, hd, ha, hk] at h
    | some r =>
      obtain ⟨ok, u⟩ := r
      cases ok with
      | false => simp [tensixCopStepDirect, hh, hd, ha, hk] at h
      | true =>
        obtain ⟨z, hz, hzu, hset⟩ := hat.continue_ends hk
        refine ⟨z, hz, ?_⟩
        by_cases hm : tensixInsnOpcode insn = opcodeMop
        · exact .inl hm
        refine .inr fun L R hb _ => ?_
        have hafter : directAfterMop fuel (u.setDirect insn) insn tid = some (true, v') := by
          simpa [tensixCopStepDirect, hh, hd, ha, hk, hm] using h
        rw [hq ha] at hb
        obtain ⟨rfl, rfl⟩ := List.append_eq_nil_iff.mp hb.symm
        have hback : (u.setDirect insn).backlog = [] := by
          have hwords : u.thread.insnFifo.words = [] := by rw [hzu.fifo, hq ha]
          simp [CopView.backlog, CopView.setDirect, CopView.setThread, hset.current, hwords]
        rw [← (hzu.setDirect insn).expander]
        exact directAfterMop_ends (v := u.setDirect insn) hzu.running hafter hback rfl (by simp)

/-- The template's word is a MOP of the other template, which gives nothing; the word for masked entries
is the MOP itself. -/
def restartOnce : CopView :=
  let v := powerUp.view 0
  v.setThread { v.thread with mopCfg := fun i => if i = 3 then 0x01800000 else if i = 7 then 0x01000000
    else 0 }

structure AtStart (cfg : ℕ → Word) (z insn : Word) (v : CopView) : Prop where
  running : v.halted = false
  mopCfg : v.thread.mopCfg = cfg
  zmask : v.thread.zmaskHi16 = z
  mopState : v.thread.mopState = mopStart cfg z (tensixInsnParam insn)
  settled : v.Settled

theorem AtStart.turn {zmask : Word} (hop : tensixInsnOpcode insn = opcodeMop)
    (hself : (mopGenerateNext cfg (mopStart cfg zmask (tensixInsnParam insn))).1 = some insn)
    (h : AtStart cfg zmask insn v) : ∃ u, mopTurn fuel tid v = some (.inl u) ∧ AtStart cfg zmask insn u := by
  cases hgen : mopGenerateNext cfg (mopStart cfg zmask (tensixInsnParam insn)) with
  | mk w st =>
    rw [hgen] at hself
    cases hself
    have hnext : mopGenerateNext v.thread.mopCfg v.thread.mopState = (some insn, st) := by
      rw [h.mopCfg, h.mopState, hgen]
    cases hs : tensixCopStep ((v.setMopState st).feed insn) tid with
    | mk ok u =>
      have hne : tensixInsnOpcode insn ≠ opcodeReplay := by rw [hop]; decide
      have hnc : tensixInsnOpcode insn ≠ opcodeMopCfg := by rw [hop]; decide
      cases StepCase.of_eq hs with
      | halted hh => exact absurd (hh.symm.trans h.running) (by decide)
      | empty _ hc => cases hc
      | held _ hf hx =>
        cases hf with
        | popped hc => cases hc
        | pending hc =>
          cases hc
          rw [verdict_expander (.inl hop)] at hx
          cases hx
      | @passed _ _ x _ hf hx =>
        cases hf with
        | popped hc => cases hc
        | pending hc =>
          cases hc
          have hp := verdict_passed hx
          have hu : AtStart cfg zmask insn (x.complete (.ran x.thread.currentOrigin insn)) := by
            refine ⟨hp.halted.trans h.running, hp.mopCfg.trans h.mopCfg, (hp.zmask hnc).trans h.zmask, ?_,
              hp.current rfl, ?_⟩
            · have hstart := hp.mopStart hop
              rw [← h.mopCfg, ← h.zmask]
              exact hstart
            · have hreplay := congrArg Replay.expanding (hp.replay hne)
              exact hreplay.trans h.settled.expanding
          refine ⟨_, ?_, hu⟩
          simp only [mopTurn, hnext, hs, drainIfExpanding, hu.settled.expanding]
          rfl

theorem direct_mop_diverges (hop : tensixInsnOpcode insn = opcodeMop) (hh : v.halted = false) (hq : v.Quiet)
    (hself : (mopGenerateNext v.thread.mopCfg (mopIterator v.thread insn)).1 = some insn) (fuel : ℕ) :
    tensixCopStepDirect fuel (tensixCopSetDirect v insn) tid = none := by
  cases fuel with
  | zero => exact tensixCopStepDirect_zero insn hh hq.mop
  | succ fuel =>
    have hstart : AtStart v.thread.mopCfg v.thread.zmaskHi16 insn (v.mopIssued insn) :=
      ⟨hh, rfl, rfl, rfl, rfl, hq.expanding⟩
    have hexp : (v.mopIssued insn).replay.expanding = false := hq.expanding
    have hcur : (v.mopIssued insn).thread.currentInsn = none := rfl
    have hloop : loop (mopTurn (fuel + 1) tid) (fuel + 1) (v.mopIssued insn) = none :=
      Loop.diverges (I := AtStart v.thread.mopCfg v.thread.zmaskHi16 insn) (fun u hu => hu.turn hop hself)
        hstart _
    rw [tensixCopStepDirect_mop hop hh hq]
    simp only [mopContinueExecution, drainIfExpanding, hexp, Bool.false_eq_true, if_false, Outcome.andThen,
      mopRetry, hcur, Option.isSome_none]
    exact hloop

def selfTemplate : CopView :=
  let v := powerUp.view 0
  v.setThread { v.thread with mopCfg := fun i => if i = 3 then 0x01000000 else 0 }

end direct

end Rv32Emu
