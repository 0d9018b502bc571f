import Rv32Emu.Cop.Flow
import Rv32Emu.Cop.Fuel

/-!
The expansion of MOP and REPLAY words without the gates, the resources and the handlers: which word comes next
depends on the templates, the mask, the replay buffer and the two iterators only. A word that the thread holds
back makes the C loops return, so they return wherever this expansion comes to an end.
-/

namespace Rv32Emu

structure Expander where
  mopCfg : ℕ → Word
  buffer : ℕ → Word
  zmask : Word
  window : List Word
  mop : MopExpandState
  recording : Bool

namespace Expander

/-- What executing one word does to the expansion: REPLAY(load=0) puts its window in the place of the one in
progress, and MOP restarts the iterator. -/
def take (x : Expander) (insn : Word) : Expander :=
  let opcode := tensixInsnOpcode insn
  let load := bit (tensixInsnParam insn) 0
  { x with
    zmask := zmaskAfter x.zmask insn
    window := if opcode = opcodeReplay ∧ load = false then replayWindow x.buffer insn else x.window
    mop := if opcode = opcodeMop then mopStart x.mopCfg x.zmask (tensixInsnParam insn) else x.mop
    recording := x.recording || (decide (opcode = opcodeReplay) && load) }

inductive Drains : Expander → Expander → Prop
  | nil {x : Expander} : x.window = [] → Drains x x
  | cons {x y : Expander} {w : Word} {ws : List Word} : x.window = w :: ws →
      Drains ({ x with window := ws }.take w) y → Drains x y

inductive Unrolls : Expander → Expander → Prop
  | done {x : Expander} {st : MopExpandState} : mopGenerateNext x.mopCfg x.mop = (none, st) →
      Unrolls x { x with mop := { st with active := false } }
  | next {x y z : Expander} {w : Word} {st : MopExpandState} : mopGenerateNext x.mopCfg x.mop = (some w, st) →
      Drains ({ x with mop := st }.take w) y → Unrolls y z → Unrolls x z

def Ends (x z : Expander) : Prop := ∃ y, Drains x y ∧ Unrolls y z

theorem Drains.of_window {x x' y : Expander} (h : Drains x y) (hb : x'.buffer = x.buffer)
    (hw : x'.window = x.window) : ∃ y', Drains x' y' := by
  induction h generalizing x' with
  | nil hn => exact ⟨x', .nil (hw.trans hn)⟩
  | @cons _ _ w ws hc _ ih =>
    obtain ⟨y', hy⟩ := @ih ({ x' with window := ws }.take w) hb (by simp only [take, hb])
    exact ⟨y', .cons (hw.trans hc) hy⟩

theorem Unrolls.inactive {x z : Expander} (h : Unrolls x z) : z.mop.active = false := by
  induction h with
  | done => rfl
  | next _ _ _ ih => exact ih

end Expander

def CopView.expander (v : CopView) : Expander :=
  ⟨v.thread.mopCfg, v.replay.buffer, v.thread.zmaskHi16, v.replay.rest, v.thread.mopState, v.replay.recording⟩

structure Expander.At (x : Expander) (f : TensixFifo) (v : CopView) : Prop where
  running : v.halted = false
  fifo : v.thread.insnFifo = f
  expander : v.expander = x

/-- The call returns, and if it goes through it leaves `Q`. -/
def Returns (f : ℕ → Outcome) (Q : CopView → Prop) : Prop :=
  ∃ fuel ok u, f fuel = some (ok, u) ∧ (ok = true → Q u)

namespace Returns

variable {f : ℕ → Outcome} {k : ℕ → CopView → Outcome} {P Q : CopView → Prop}

theorem now {u : CopView} (n : ℕ) (h : f n = some (true, u)) (hu : Q u) : Returns f Q :=
  ⟨n, true, u, h, fun _ => hu⟩

theorem blocked {u : CopView} (n : ℕ) (h : f n = some (false, u)) : Returns f Q :=
  ⟨n, false, u, h, fun hok => by cases hok⟩

theorem andThen (hf : ∀ n m x, n ≤ m → f n = some x → f m = some x)
    (hk : ∀ n m u x, n ≤ m → k n u = some x → k m u = some x) (h : Returns f P)
    (hnext : ∀ u, P u → Returns (fun n => k n u) Q) : Returns (fun n => (f n).andThen (k n)) Q := by
  obtain ⟨n, ok, u, hn, hu⟩ := h
  cases ok with
  | false =>
    refine .blocked n (u := u) ?_
    simp only [hn]
    rfl
  | true =>
    obtain ⟨m, ok, w, hm, hw⟩ := hnext u (hu rfl)
    refine ⟨max n m, ok, w, ?_, hw⟩
    simp only [hf _ _ _ (le_max_left n m) hn]
    exact hk _ _ _ _ (le_max_right n m) hm

end Returns

section step

variable {v u : CopView} {insn : Word} {tid : Tid} {f : TensixFifo} {x : Expander} {ok : Bool}

theorem ttreplay_load (r : Replay) (hl : bit (tensixInsnParam insn) 0 = true) :
    (ttreplay r (tensixInsnParam insn)).buffer = r.buffer ∧
      (ttreplay r (tensixInsnParam insn)).recording = true ∧
      (ttreplay r (tensixInsnParam insn)).expanding = r.expanding ∧
      (ttreplay r (tensixInsnParam insn)).rest = r.rest := by
  simp [ttreplay, hl, Replay.rest]

theorem Passed.expanding (h : Passed v insn u) (hv : v.replay.expanding = true) :
    u.replay.expanding = true := by
  by_cases hr : tensixInsnOpcode insn = opcodeReplay
  · rw [h.replayed hr]
    cases hl : bit (tensixInsnParam insn) 0 with
    | false => exact (ttreplay_rest v.replay hl).2.2.1
    | true => exact (ttreplay_load v.replay hl).2.2.1.trans hv
  · rw [h.replay hr]
    exact hv

theorem verdict_passed_expander (h : verdict v insn tid = .passed u) : u.expander = v.expander.take insn := by
  have hp := verdict_passed h
  have hz := verdict_passed_zmask h
  have hmop : u.thread.mopState = if tensixInsnOpcode insn = opcodeMop then
      mopStart v.thread.mopCfg v.thread.zmaskHi16 (tensixInsnParam insn) else v.thread.mopState := by
    split_ifs with hm
    · exact hp.mopStart hm
    · exact hp.mopState hm
  by_cases hr : tensixInsnOpcode insn = opcodeReplay
  · cases hl : bit (tensixInsnParam insn) 0 with
    | false =>
      obtain ⟨hb, hrec, -, hrest⟩ := ttreplay_rest v.replay hl
      rw [← hp.replayed hr] at hb hrec hrest
      simp [CopView.expander, Expander.take, hp.mopCfg, hz, hmop, hb, hrec, hrest, hr, hl]
    | true =>
      obtain ⟨hb, hrec, -, hrest⟩ := ttreplay_load v.replay hl
      rw [← hp.replayed hr] at hb hrec hrest
      simp [CopView.expander, Expander.take, hp.mopCfg, hz, hmop, hb, hrec, hrest, hr, hl]
  · simp [CopView.expander, Expander.take, hp.mopCfg, hz, hmop, hp.replay hr, hr]

theorem Expander.At.passed (h : x.At f v) (hx : verdict v insn tid = .passed u) : (x.take insn).At f u := by
  have hp := verdict_passed hx
  exact ⟨hp.halted.trans h.running, hp.fifo.trans h.fifo, by rw [verdict_passed_expander hx, h.expander]⟩

theorem Expander.At.step (h : x.At f v) (hcur : v.thread.currentInsn = some insn)
    (hs : tensixCopStep v tid = (true, u)) :
    (x.take insn).At f u ∧ u.thread.currentInsn = none ∧
      (v.replay.expanding = true → u.replay.expanding = true) := by
  obtain ⟨w, y, z, -, hf, hx, rfl⟩ := StepCase.of_true hs
  cases hf with
  | popped hn => exact absurd (hcur.symm.trans hn) (by simp)
  | pending hp =>
    cases hcur.symm.trans hp
    have hy : x.At f (v.setThread { v.thread with currentInsn := none }) := ⟨h.running, h.fifo, h.expander⟩
    have hz := hy.passed hx
    have hpass := verdict_passed hx
    exact ⟨⟨hz.running, hz.fifo, hz.expander⟩, hpass.current rfl, hpass.expanding⟩

theorem Expander.At.feed (h : x.At f v) (insn : Word) : x.At f (v.feed insn) :=
  ⟨h.running, h.fifo, h.expander⟩

theorem Expander.At.setDirect (h : x.At f v) (insn : Word) : x.At f (v.setDirect insn) :=
  ⟨h.running, h.fifo, h.expander⟩

theorem Expander.At.setMopState (h : x.At f v) (st : MopExpandState) :
    { x with mop := st }.At f (v.setMopState st) :=
  ⟨h.running, h.fifo, by rw [← h.expander]; rfl⟩

end step

section window

variable {v u : CopView} {insn : Word} {tid : Tid} {f : TensixFifo} {x y : Expander} {fuel : ℕ}

theorem Expander.At.window_nil (h : x.At f v) (hx : v.replay.expanding = false) : x.window = [] := by
  rw [← h.expander]
  exact Replay.rest_eq_nil hx

theorem Expander.At.stop (h : x.At f v) (hw : x.window = []) :
    x.At f (v.setReplay { v.replay with expanding := false }) := by
  refine ⟨h.running, h.fifo, ?_⟩
  have hrest : v.replay.rest = [] := by rw [← hw, ← h.expander]; rfl
  have hstop : Replay.rest { v.replay with expanding := false } = [] := Replay.rest_eq_nil rfl
  rw [← h.expander]
  simp only [CopView.expander, CopView.setReplay, hrest, hstop]

theorem Expander.At.next_entry {w : Word} {ws : List Word} (h : x.At f v) (hw : x.window = w :: ws) :
    v.replay.expanding = true ∧ v.replay.expandCurrent < v.replay.expandCount ∧
      v.feedEntry.thread.currentInsn = some w ∧ { x with window := ws }.At f v.feedEntry := by
  have hrest : v.replay.rest = w :: ws := by rw [← hw, ← h.expander]; rfl
  have hx : v.replay.expanding = true := by
    by_contra hx
    rw [Replay.rest_eq_nil (by simpa using hx)] at hrest
    cases hrest
  have hlt : v.replay.expandCurrent < v.replay.expandCount := by
    by_contra hge
    rw [Replay.rest_of_ge (not_lt.mp hge)] at hrest
    cases hrest
  obtain ⟨he, hws⟩ := List.cons.inj ((v.rest_feedEntry hx hlt).symm.trans hrest)
  refine ⟨hx, hlt, congrArg some he, h.running, h.fifo, ?_⟩
  rw [← h.expander, ← hws]
  rfl

theorem Expander.At.window_cons (h : x.At f v) (hx : v.replay.expanding = true)
    (hlt : v.replay.expandCurrent < v.replay.expandCount) : ∃ w ws, x.window = w :: ws := by
  rw [← h.expander]
  exact ⟨_, _, v.rest_feedEntry hx hlt⟩

theorem Expander.At.window_done (h : x.At f v) (hx : v.replay.expanding = true) (hw : x.window = []) :
    v.replay.expandCurrent ≥ v.replay.expandCount := by
  by_contra hlt
  have hrest : v.replay.rest = [] := by rw [← hw, ← h.expander]; rfl
  rw [v.rest_feedEntry hx (not_le.mp hlt)] at hrest
  cases hrest

theorem Expander.Drains.returns (hd : x.Drains y) (h : x.At f v) (hcur : v.thread.currentInsn = none)
    (tid : Tid) :
    Returns (fun n => drainIfExpanding n v tid) fun u => y.At f u ∧ u.Settled := by
  induction hd generalizing v with
  | @nil x hw =>
    cases hx : v.replay.expanding with
    | false => exact .now 0 (by simp only [drainIfExpanding, hx, Bool.false_eq_true, if_false]) ⟨h, hcur, hx⟩
    | true =>
      have hturn := (replayTurn_eq tid hx hcur).trans (if_pos (h.window_done hx hw))
      refine .now 1 ?_ ⟨h.stop hw, hcur, rfl⟩
      simp only [drainIfExpanding, hx, if_true]
      exact Loop.exit hturn 0
  | @cons x y w ws hw _ ih =>
    obtain ⟨hx, hlt, hfed, hentry⟩ := h.next_entry hw
    have hturn := (replayTurn_eq tid hx hcur).trans (if_neg (not_le.mpr hlt))
    have hdrain (n : ℕ) : drainIfExpanding n v tid = loop (replayTurn tid) n v := if_pos hx
    simp only [hdrain]
    cases hs : tensixCopStep v.feedEntry tid with
    | mk ok u =>
      rw [hs] at hturn
      cases ok with
      | false => exact .blocked 1 (Loop.exit hturn 0)
      | true =>
        obtain ⟨hu, hucur, hux⟩ := hentry.step hfed hs
        obtain ⟨n, ok, z, hn, hz⟩ := ih hu hucur
        refine ⟨n + 1, ok, z, (Loop.step hturn n).trans ?_, hz⟩
        have hloop : drainIfExpanding n u tid = loop (replayTurn tid) n u := if_pos (hux hx)
        exact hloop.symm.trans hn

theorem replayTurn_slot (hx : v.replay.expanding = true) (hcur : v.thread.currentInsn = some insn)
    (hs : tensixCopStep v tid = (true, u)) (hux : u.replay.expanding = true)
    (hucur : u.thread.currentInsn = none) :
    replayTurn tid v = replayTurn tid u := by
  simp only [replayTurn, hx, hux, hcur, hucur, hs, Option.isSome_some, Option.isSome_none, if_true,
    Bool.not_true, Bool.false_eq_true, if_false]

theorem loop_replayTurn_slot (hx : v.replay.expanding = true) (hcur : v.thread.currentInsn = some insn)
    (hs : tensixCopStep v tid = (true, u)) (hux : u.replay.expanding = true)
    (hucur : u.thread.currentInsn = none) (n : ℕ) :
    loop (replayTurn tid) n v = loop (replayTurn tid) n u := by
  cases n with
  | zero => rfl
  | succ n => rw [loop, loop, replayTurn_slot hx hcur hs hux hucur]

theorem Expander.At.drain_slot (h : x.At f v) (hx : v.replay.expanding = true)
    (hcur : v.thread.currentInsn = some insn) (hd : (x.take insn).Drains y) (tid : Tid) :
    Returns (fun n => drainIfExpanding n v tid) fun u => y.At f u ∧ u.Settled := by
  have hdrain (n : ℕ) : drainIfExpanding n v tid = loop (replayTurn tid) n v := if_pos hx
  simp only [hdrain]
  cases hs : tensixCopStep v tid with
  | mk ok u =>
    cases ok with
    | false => exact .blocked (u := u) 1 (Loop.exit (by simp [replayTurn, hx, hcur, hs]) 0)
    | true =>
      obtain ⟨hu, hucur, hux⟩ := h.step hcur hs
      obtain ⟨n, ok, z, hn, hz⟩ := hd.returns hu hucur tid
      refine ⟨n, ok, z, ?_, hz⟩
      simp only [drainIfExpanding, hux hx, if_true] at hn
      exact (loop_replayTurn_slot hx hcur hs (hux hx) hucur n).trans hn

/-- What a drain that goes through has replayed. -/
theorem Expander.At.drains (h : x.At f v) (hcur : v.thread.currentInsn = none)
    (hd : drainIfExpanding fuel v tid = some (true, u)) : ∃ y, x.Drains y ∧ y.At f u ∧ u.Settled := by
  unfold drainIfExpanding at hd
  split_ifs at hd with hx
  · refine Loop.invariant
      (I := fun s => ∃ x', x'.At f s ∧ s.thread.currentInsn = none ∧ s.replay.expanding = true ∧
        ∀ y, x'.Drains y → x.Drains y)
      (Q := fun r => r.1 = true → ∃ y, x.Drains y ∧ y.At f r.2 ∧ r.2.Settled) ?_ ?_ hd ⟨x, h, hcur, hx,
        fun _ => id⟩ rfl
    · rintro s s' ⟨x', hs, hscur, hsx, hback⟩ hturn
      rw [replayTurn_eq tid hsx hscur] at hturn
      split_ifs at hturn with hge
      · cases hturn
      obtain ⟨w, ws, hw⟩ := hs.window_cons hsx (not_le.mp hge)
      obtain ⟨-, -, hfed, hentry⟩ := hs.next_entry hw
      cases hstep : tensixCopStep s.feedEntry tid with
      | mk ok t =>
        rw [hstep] at hturn
        cases ok <;> cases hturn
        obtain ⟨ht, htcur, htx⟩ := hentry.step hfed hstep
        exact ⟨_, ht, htcur, htx hsx, fun y hy => hback y (.cons hw hy)⟩
    · rintro s r ⟨x', hs, hscur, hsx, hback⟩ hturn hok
      rw [replayTurn_eq tid hsx hscur] at hturn
      split_ifs at hturn with hge
      · cases hturn
        have hw : x'.window = [] := by
          rw [← hs.expander]
          exact Replay.rest_of_ge hge
        exact ⟨x', hback x' (.nil hw), hs.stop hw, hscur, rfl⟩
      · cases hstep : tensixCopStep s.feedEntry tid with
        | mk ok t =>
          rw [hstep] at hturn
          cases ok <;> cases hturn
          cases hok
  · cases hd
    have hx : v.replay.expanding = false := by simpa using hx
    exact ⟨x, .nil (h.window_nil hx), h, hcur, hx⟩

theorem Expander.At.drains_slot (h : x.At f v) (hx : v.replay.expanding = true)
    (hcur : v.thread.currentInsn = some insn) (hd : drainIfExpanding fuel v tid = some (true, u)) :
    ∃ y, (x.take insn).Drains y ∧ y.At f u ∧ u.Settled := by
  have hloop : loop (replayTurn tid) fuel v = some (true, u) := (if_pos hx).symm.trans hd
  cases hs : tensixCopStep v tid with
  | mk ok w =>
    cases ok with
    | false =>
      obtain ⟨n, rfl, hturn | ⟨s, hturn, -⟩⟩ := Loop.unfold hloop <;> simp [replayTurn, hx, hcur, hs] at hturn
    | true =>
      obtain ⟨hw, hwcur, hwx⟩ := h.step hcur hs
      rw [loop_replayTurn_slot hx hcur hs (hwx hx) hwcur] at hloop
      exact hw.drains hwcur ((if_pos (hwx hx)).trans hloop)

end window

section mop

variable {v u : CopView} {insn : Word} {tid : Tid} {f : TensixFifo} {x y z : Expander} {fuel : ℕ}

theorem mopLoop_exit {r : Bool × CopView} (h : mopTurn fuel tid v = some (.inr r)) :
    loop (mopTurn (fuel + 1) tid) (fuel + 1) v = some r :=
  Loop.exit (mopTurn_mono (Nat.le_succ fuel) h) fuel

theorem mopLoop_next {Q : CopView → Prop} (h : mopTurn fuel tid v = some (.inl u))
    (hu : Returns (fun n => loop (mopTurn n tid) n u) Q) : Returns (fun n => loop (mopTurn n tid) n v) Q := by
  obtain ⟨m, ok, w, hm, hw⟩ := hu
  refine ⟨max fuel m + 1, ok, w, ?_, hw⟩
  simp only [Loop.step (mopTurn_mono (show fuel ≤ max fuel m + 1 by omega) h)]
  exact Loop.mono (fun _ _ => mopTurn_mono (by omega)) (by omega) hm

theorem Expander.Unrolls.returns (hu : x.Unrolls z) (h : x.At f v) (hv : v.Settled) (tid : Tid) :
    Returns (fun n => loop (mopTurn n tid) n v) fun u => z.At f u ∧ u.Settled := by
  induction hu generalizing v with
  | @done x st hgen =>
    have hgen' : mopGenerateNext v.thread.mopCfg v.thread.mopState = (none, st) := by
      rw [← hgen, ← h.expander]
      rfl
    have hturn : mopTurn 0 tid v = some (.inr (true, mopFinish (v.setMopState st))) := by
      simp only [mopTurn, hgen']
    refine .now 1 (mopLoop_exit hturn) ⟨⟨h.running, h.fifo, ?_⟩, hv.current, hv.expanding⟩
    rw [← h.expander]
    rfl
  | @next x y z w st hgen hd _ ih =>
    have hgen' : mopGenerateNext v.thread.mopCfg v.thread.mopState = (some w, st) := by
      rw [← hgen, ← h.expander]
      rfl
    cases hs : tensixCopStep ((v.setMopState st).feed w) tid with
    | mk ok u =>
      cases ok with
      | false =>
        have hturn : mopTurn 0 tid v = some (.inr (false, u)) := by
          simp only [mopTurn, hgen', hs, Bool.not_false, if_true]
        exact .blocked 1 (mopLoop_exit hturn)
      | true =>
        obtain ⟨hu, hucur, -⟩ := ((h.setMopState st).feed w).step rfl hs
        obtain ⟨n, ok, v', hn, hv'⟩ := hd.returns hu hucur tid
        cases ok with
        | false =>
          have hturn : mopTurn n tid v = some (.inr (false, v')) := by
            simp only [mopTurn, hgen', hs, hn, Bool.not_true, Bool.false_eq_true, if_false]
          exact .blocked (n + 1) (mopLoop_exit hturn)
        | true =>
          have hturn : mopTurn n tid v = some (.inl v') := by
            simp only [mopTurn, hgen', hs, hn, Bool.not_true, Bool.false_eq_true, if_false]
          obtain ⟨hy, hsettled⟩ := hv' rfl
          exact mopLoop_next hturn (ih hy hsettled)

theorem mopRetry_settled (hv : v.Settled) (n : ℕ) (tid : Tid) : mopRetry n v tid = some (true, v) := by
  simp only [mopRetry, hv.current, Option.isSome_none, Bool.false_eq_true, if_false]

theorem retryAndLoop_mono {n m : ℕ} {r : Bool × CopView} (hnm : n ≤ m)
    (h : ((mopRetry n v tid).andThen fun v => loop (mopTurn n tid) n v) = some r) :
    ((mopRetry m v tid).andThen fun v => loop (mopTurn m tid) m v) = some r :=
  Outcome.andThen_mono (fun _ => mopRetry_mono hnm) (fun _ _ => mopLoop_mono tid hnm) h

theorem Expander.At.continue_returns (h : x.At f v) (he : (v.thread.currentInsn.toList.foldl take x).Ends z)
    (tid : Tid) :
    Returns (fun n => mopContinueExecution n v tid) fun u => z.At f u ∧ u.Settled := by
  have hloop (u : CopView) (y : Expander) (hy : y.Unrolls z) (hu : y.At f u ∧ u.Settled) :
      Returns (fun n => (mopRetry n u tid).andThen fun v => loop (mopTurn n tid) n v)
        fun u => z.At f u ∧ u.Settled := by
    simp only [mopRetry_settled hu.2]
    exact hy.returns hu.1 hu.2 tid
  have hmono (n m : ℕ) (r : Bool × CopView) (hnm : n ≤ m) (hr : drainIfExpanding n v tid = some r) :
      drainIfExpanding m v tid = some r := drainIfExpanding_mono hnm hr
  cases hcur : v.thread.currentInsn with
  | none =>
    rw [hcur] at he
    obtain ⟨y, hd, hy⟩ := he
    exact .andThen hmono (fun _ _ _ _ => retryAndLoop_mono) (hd.returns h hcur tid) fun u hu =>
      hloop u y hy hu
  | some insn =>
    rw [hcur] at he
    obtain ⟨y, hd, hy⟩ := he
    cases hx : v.replay.expanding with
    | true =>
      exact .andThen hmono (fun _ _ _ _ => retryAndLoop_mono) (h.drain_slot hx hcur hd tid)
        fun u hu => hloop u y hy hu
    | false =>
      have hstart (n : ℕ) : drainIfExpanding n v tid = some (true, v) := by
        simp only [drainIfExpanding, hx, Bool.false_eq_true, if_false]
      refine .andThen (P := fun u => v = u) hmono (fun _ _ _ _ => retryAndLoop_mono)
        (.now 0 (hstart 0) rfl) ?_
      rintro _ rfl
      cases hs : tensixCopStep v tid with
      | mk ok u =>
        cases ok with
        | false =>
          refine .blocked 0 (u := u) ?_
          simp only [mopRetry, hcur, hs, Option.isSome_some, if_true, Bool.not_false]
          rfl
        | true =>
          obtain ⟨hu, hucur, -⟩ := h.step hcur hs
          have hretry (n : ℕ) : mopRetry n v tid = drainIfExpanding n u tid := by
            simp only [mopRetry, hcur, hs, Option.isSome_some, if_true, Bool.not_true, Bool.false_eq_true,
              if_false, CopView.setThread_current hucur]
          simp only [hretry]
          exact .andThen (fun _ _ _ => drainIfExpanding_mono) (fun _ _ _ _ => mopLoop_mono tid)
            (hd.returns hu hucur tid) fun w hw => hy.returns hw.1 hw.2 tid

theorem Expander.At.unrolls {n : ℕ} (h : x.At f v) (hv : v.Settled)
    (hl : loop (mopTurn fuel tid) n v = some (true, u)) : ∃ z, x.Unrolls z ∧ z.At f u ∧ u.Settled := by
  have hgen (s : CopView) (x' : Expander) (hs : x'.At f s) :
      mopGenerateNext s.thread.mopCfg s.thread.mopState = mopGenerateNext x'.mopCfg x'.mop := by
    rw [← hs.expander]
    rfl
  refine Loop.invariant (I := fun s => ∃ x', x'.At f s ∧ s.Settled ∧ ∀ z, x'.Unrolls z → x.Unrolls z)
    (Q := fun r => r.1 = true → ∃ z, x.Unrolls z ∧ z.At f r.2 ∧ r.2.Settled) ?_ ?_ hl ⟨x, h, hv,
      fun _ => id⟩ rfl
  · rintro s s' ⟨x', hs, hset, hback⟩ hturn
    rw [mopTurn, hgen s x' hs] at hturn
    split at hturn
    · cases hturn
    next w st hnext =>
    cases hstep : tensixCopStep ((s.setMopState st).feed w) tid with
    | mk ok t =>
      simp only [hstep] at hturn
      cases ok with
      | false => cases hturn
      | true =>
        simp only [Bool.not_true, Bool.false_eq_true, if_false] at hturn
        split at hturn
        · cases hturn
        · next t' hdrain =>
          cases hturn
          obtain ⟨ht, htcur, -⟩ := ((hs.setMopState st).feed w).step rfl hstep
          obtain ⟨y, hy, hyt, hyset⟩ := ht.drains htcur hdrain
          exact ⟨y, hyt, hyset, fun z hz => hback z (.next hnext hy hz)⟩
        · cases hturn
  · rintro s r ⟨x', hs, hset, hback⟩ hturn hok
    rw [mopTurn, hgen s x' hs] at hturn
    split at hturn
    · next st hnext =>
      cases hturn
      refine ⟨_, hback _ (.done hnext), ⟨hs.running, hs.fifo, ?_⟩, hset.current, hset.expanding⟩
      rw [← hs.expander]
      rfl
    · next w st hnext =>
      cases hstep : tensixCopStep ((s.setMopState st).feed w) tid with
      | mk ok t =>
        simp only [hstep] at hturn
        cases ok with
        | false =>
          cases hturn
          cases hok
        | true =>
          simp only [Bool.not_true, Bool.false_eq_true, if_false] at hturn
          split at hturn <;> cases hturn
          cases hok

theorem Expander.At.continue_ends (h : x.At f v) (hk : mopContinueExecution fuel v tid = some (true, u)) :
    ∃ z, (v.thread.currentInsn.toList.foldl take x).Ends z ∧ z.At f u ∧ u.Settled := by
  obtain ⟨-, hok⟩ | ⟨w, hd, hk⟩ := Outcome.andThen_eq_some hk
  · cases hok
  obtain ⟨-, hok⟩ | ⟨t, hr, hl⟩ := Outcome.andThen_eq_some hk
  · cases hok
  have hunroll {x y : Expander} {w : CopView} (hy : x.Drains y) (hw : y.At f w) (hset : w.Settled)
      (hwt : w = t) :
      ∃ z, x.Ends z ∧ z.At f u ∧ u.Settled := by
    subst hwt
    obtain ⟨z, hz, hzu⟩ := hw.unrolls hset hl
    exact ⟨z, ⟨y, hy, hz⟩, hzu⟩
  have hretry (hset : w.Settled) : w = t := by
    rw [mopRetry_settled hset] at hr
    cases hr
    rfl
  cases hcur : v.thread.currentInsn with
  | none =>
    obtain ⟨y, hy, hyw, hset⟩ := h.drains hcur hd
    exact hunroll hy hyw hset (hretry hset)
  | some insn =>
    cases hx : v.replay.expanding with
    | true =>
      obtain ⟨y, hy, hyw, hset⟩ := h.drains_slot hx hcur hd
      exact hunroll hy hyw hset (hretry hset)
    | false =>
      simp only [drainIfExpanding, hx, Bool.false_eq_true, if_false] at hd
      cases hd
      cases hs : tensixCopStep v tid with
      | mk ok s =>
        cases ok with
        | false => simp [mopRetry, hcur, hs] at hr
        | true =>
          obtain ⟨hsat, hscur, -⟩ := h.step hcur hs
          have hdrain : drainIfExpanding fuel s tid = some (true, t) := by
            simpa only [mopRetry, hcur, hs, Option.isSome_some, if_true, Bool.not_true, Bool.false_eq_true,
              if_false, CopView.setThread_current hscur] using hr
          obtain ⟨y, hy, hyt, hset⟩ := hsat.drains hscur hdrain
          exact hunroll hy hyt hset rfl

end mop

end Rv32Emu
