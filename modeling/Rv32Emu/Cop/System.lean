import Rv32Emu.Cop.Verdict
import Rv32Emu.Lib.Runs

namespace Rv32Emu

inductive ThreadAction
  | push (insn : Word)
  | step
  | issue (insn : Word)
  deriving DecidableEq

def ThreadActs (tid : Tid) (v : CopView) (a : ThreadAction) (ok : Bool) (v' : CopView) : Prop :=
  match a with
  | .push insn => tensixCopPush v insn = (ok, v')
  | .step => tensixCopStep v tid = (ok, v')
  | .issue insn => ∃ fuel, tensixCopStepDirect fuel (tensixCopSetDirect v insn) tid = some (ok, v')

structure Label where
  tid : Tid
  act : ThreadAction
  ok : Bool
  deriving DecidableEq

def Label.isFifo (l : Label) : Bool :=
  match l.act with
  | .issue _ => false
  | _ => true

def Acts (cop : TensixCop) (l : Label) (cop' : TensixCop) : Prop :=
  ∃ v, ThreadActs l.tid (cop.view l.tid) l.act l.ok v ∧ cop' = cop.putView l.tid v

abbrev CopRun := Run Acts

namespace TensixCop

variable (cop : TensixCop) (t : Tid) (v : CopView)

@[simp] theorem view_core : (cop.view t).core = cop.core := rfl

@[simp] theorem view_thread : (cop.view t).thread = cop.threads t := rfl

@[simp] theorem view_replay : (cop.view t).replay = cop.replay t := rfl

@[simp] theorem view_halted : (cop.view t).halted = cop.halted := rfl

@[simp] theorem putView_core : (cop.putView t v).core = v.core := rfl

@[simp] theorem putView_halted : (cop.putView t v).halted = cop.halted := rfl

@[simp] theorem putView_thread_self : (cop.putView t v).threads t = v.thread := by
  simp [putView]

@[simp] theorem putView_replay_self : (cop.putView t v).replay t = v.replay := by
  simp [putView]

theorem putView_thread_ne {t u : Tid} (h : u ≠ t) : (cop.putView t v).threads u = cop.threads u := by
  simp [putView, h]

theorem putView_replay_ne {t u : Tid} (h : u ≠ t) : (cop.putView t v).replay u = cop.replay u := by
  simp [putView, h]

theorem view_putView (hv : v.halted = cop.halted) : (cop.putView t v).view t = v := by
  simp [view, hv.symm]

theorem view_putView_ne {t u : Tid} (h : u ≠ t) :
    (cop.putView t v).view u = (cop.view u).setCore v.core := by
  simp only [view, putView_core, putView_halted, putView_thread_ne cop v h, putView_replay_ne cop v h]
  rfl

end TensixCop

def TensixThreadCop.init : TensixThreadCop where
  insnFifo := ⟨fun _ => 0, 0, 0, 0⟩
  state := .idle
  waitGate := waitGateClear
  currentInsn := none
  directInsn := none
  mopCfg := fun _ => 0
  zmaskHi16 := 0
  mopState := .zero
  insnExecuted := 0
  cyclesIdle := 0
  cyclesWaiting := 0
  currentOrigin := .fifo
  log := []

theorem TensixThreadCop.init_wellFormed : init.insnFifo.WellFormed := ⟨by decide, by decide, by decide⟩

def tensixCopInit (core : Tensix) (replay : Tid → Replay) : TensixCop where
  threads := fun _ => .init
  replay := replay
  core := core
  halted := false

def powerUp : TensixCop := tensixCopInit (tensixInit ⟨none, none⟩) fun _ => .init

def threadAct (fuel : ℕ) (tid : Tid) (v : CopView) : ThreadAction → Outcome
  | .push insn => some (tensixCopPush v insn)
  | .step => some (tensixCopStep v tid)
  | .issue insn => tensixCopStepDirect fuel (tensixCopSetDirect v insn) tid

theorem threadAct_acts {fuel : ℕ} {tid : Tid} {v v' : CopView} {a : ThreadAction} {ok : Bool}
    (h : threadAct fuel tid v a = some (ok, v')) : ThreadActs tid v a ok v' := by
  cases a with
  | push insn => exact Option.some.inj h
  | step => exact Option.some.inj h
  | issue insn => exact ⟨fuel, h⟩

def TensixCop.exec (fuel : ℕ) : TensixCop → List (Tid × ThreadAction) → Option (List Label × TensixCop)
  | cop, [] => some ([], cop)
  | cop, (t, a) :: acts =>
    match threadAct fuel t (cop.view t) a with
    | none => none
    | some (ok, v) => ((cop.putView t v).exec fuel acts).map fun r => (⟨t, a, ok⟩ :: r.1, r.2)

theorem TensixCop.exec_run {fuel : ℕ} {cop cop' : TensixCop} {acts : List (Tid × ThreadAction)}
    {ls : List Label} (h : cop.exec fuel acts = some (ls, cop')) : CopRun cop ls cop' := by
  induction acts generalizing cop ls with
  | nil =>
    cases h
    exact .nil _
  | cons ta acts ih =>
    obtain ⟨t, a⟩ := ta
    rw [exec] at h
    split at h
    · cases h
    · next ok v hv =>
      obtain ⟨r, hr, he⟩ := Option.map_eq_some_iff.mp h
      cases he
      exact .cons ⟨v, threadAct_acts hv, rfl⟩ (ih hr)

def TensixCop.after (fuel : ℕ) (cop : TensixCop) (acts : List (Tid × ThreadAction)) : TensixCop :=
  match cop.exec fuel acts with
  | some (_, cop') => cop'
  | none => cop

theorem TensixCop.exec_after {fuel : ℕ} {cop : TensixCop} {acts : List (Tid × ThreadAction)}
    {ls : List Label} (h : (cop.exec fuel acts).map Prod.fst = some ls) :
    CopRun cop ls (cop.after fuel acts) := by
  obtain ⟨⟨ls, cop'⟩, hr, rfl⟩ := Option.map_eq_some_iff.mp h
  rw [after, hr]
  exact exec_run hr

structure AgreeOff (t : Tid) (cop cop₁ : TensixCop) : Prop where
  core : cop.core = cop₁.core
  halted : cop.halted = cop₁.halted
  threads : ∀ u, u ≠ t → cop.threads u = cop₁.threads u
  replay : ∀ u, u ≠ t → cop.replay u = cop₁.replay u

namespace AgreeOff

variable {t : Tid} {cop cop₁ cop' : TensixCop} {l : Label}

theorem refl (t : Tid) (cop : TensixCop) : AgreeOff t cop cop := ⟨rfl, rfl, fun _ _ => rfl, fun _ _ => rfl⟩

theorem symm (h : AgreeOff t cop cop₁) : AgreeOff t cop₁ cop :=
  ⟨h.core.symm, h.halted.symm, fun u hu => (h.threads u hu).symm, fun u hu => (h.replay u hu).symm⟩

theorem view (h : AgreeOff t cop cop₁) {u : Tid} (hu : u ≠ t) : cop.view u = cop₁.view u := by
  simp only [TensixCop.view, h.core, h.halted, h.threads u hu, h.replay u hu]

theorem acts (h : AgreeOff t cop cop₁) (hl : l.tid ≠ t) (ha : Acts cop l cop') :
    ∃ cop₁', Acts cop₁ l cop₁' ∧ AgreeOff t cop' cop₁' ∧
      cop'.view t = (cop.view t).setCore cop'.core ∧ cop₁'.view t = (cop₁.view t).setCore cop'.core := by
  obtain ⟨v, hv, rfl⟩ := ha
  refine ⟨cop₁.putView l.tid v, ⟨v, h.view hl ▸ hv, rfl⟩, ⟨rfl, h.halted, fun u hu => ?_, fun u hu => ?_⟩,
    cop.view_putView_ne v hl.symm, cop₁.view_putView_ne v hl.symm⟩
  · by_cases hul : u = l.tid
    · subst hul
      simp
    · rw [cop.putView_thread_ne v hul, cop₁.putView_thread_ne v hul, h.threads u hu]
  · by_cases hul : u = l.tid
    · subst hul
      simp
    · rw [cop.putView_replay_ne v hul, cop₁.putView_replay_ne v hul, h.replay u hu]

theorem putView (h : AgreeOff t cop cop₁) {v w : CopView} (hc : v.core = w.core) :
    AgreeOff t (cop.putView t v) (cop₁.putView t w) := by
  refine ⟨hc, h.halted, fun u hu => ?_, fun u hu => ?_⟩
  · rw [cop.putView_thread_ne v hu, cop₁.putView_thread_ne w hu, h.threads u hu]
  · rw [cop.putView_replay_ne v hu, cop₁.putView_replay_ne w hu, h.replay u hu]

theorem putView_left (h : AgreeOff t cop cop₁) {v : CopView} (hc : v.core = cop₁.core) :
    AgreeOff t (cop.putView t v) cop₁ := by
  refine ⟨hc, h.halted, fun u hu => ?_, fun u hu => ?_⟩
  · rw [cop.putView_thread_ne v hu, h.threads u hu]
  · rw [cop.putView_replay_ne v hu, h.replay u hu]

end AgreeOff

end Rv32Emu
