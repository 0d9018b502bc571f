import Rv32Emu.Cop.FlagFrames
import Rv32Emu.Cop.System

namespace Rv32Emu

open Sfpu

section instructions

variable {s : Sfpu} {imm : Word} {k : ℕ}

theorem push_top (hvd : fieldVd imm < 12) (hmod : imm &&& 0xF = 0) (htop : s.flagStackTop < 7) :
    (sfppushc s imm).flagStackTop = s.flagStackTop + 1 := by
  rw [sfppushc_eq, if_neg (by omega), hmod, Lanewise.forRange_top (pushLane_local _)]
  exact congrArg Sfpu.flagStackTop (if_pos ⟨rfl, htop⟩)

theorem push_lane (hvd : fieldVd imm < 12) (hmod : imm &&& 0xF = 0) (hge : -1 ≤ s.flagStackTop)
    (htop : s.flagStackTop < 7) (hk : k < lregLanes) : (sfppushc s imm).laneAt k =
      { s.laneAt k with
        frames := Function.update (s.laneAt k).frames (s.flagStackTop + 1) (s.useLaneFlags k,
          s.laneFlags k) } := by
  have hpush : pushTop 0 s = { s with flagStackTop := s.flagStackTop + 1 } := by
    rw [pushTop, if_pos ⟨rfl, htop⟩]
  rw [sfppushc_eq, if_neg (by omega), hmod, Lanewise.forRange_laneAt (pushLane_local _) hk]
  change (pushLane 0 (pushTop 0 s) k).laneAt k = _
  rw [hpush, pushLane, if_neg (by dsimp only; omega), if_pos rfl, laneAt_setTop_self]
  rfl

theorem setcc_predication (s : Sfpu) (imm : Word) :
    (sfpsetcc s imm).useLaneFlags = s.useLaneFlags ∧ (sfpsetcc s imm).flagStack = s.flagStack ∧
    (sfpsetcc s imm).flagStackTop = s.flagStackTop := by
  have hlane (s : Sfpu) (k : ℕ) : (setccLane imm s k).useLaneFlags = s.useLaneFlags ∧
      (setccLane imm s k).flagStack = s.flagStack ∧ (setccLane imm s k).flagStackTop = s.flagStackTop := by
    unfold setccLane
    dsimp only
    split_ifs <;> exact ⟨rfl, rfl, rfl⟩
  rw [sfpsetcc_eq]
  split
  · exact ⟨rfl, rfl, rfl⟩
  · unfold Sfpu.lanewise
    apply forRange_induction (P := fun _ (t : Sfpu) => t.useLaneFlags = s.useLaneFlags ∧
      t.flagStack = s.flagStack ∧
      t.flagStackTop = s.flagStackTop)
    · exact ⟨rfl, rfl, rfl⟩
    · intro j _ t ht
      split
      · have hj := hlane t j
        exact ⟨hj.1.trans ht.1, hj.2.1.trans ht.2.1, hj.2.2.trans ht.2.2⟩
      · exact ht

theorem setcc_narrows (huse : s.useLaneFlags k = true) (h : (sfpsetcc s imm).laneFlags k = true) :
    s.laneFlags k = true := by
  rw [sfpsetcc_eq] at h
  split at h
  · exact h
  · by_contra hflag
    have hoff : s.laneEnabled k = false := by
      rw [laneEnabled, huse, Bool.eq_false_of_not_eq_true hflag]
      rfl
    have hread (t : Sfpu) : (t.laneAt k).flag = t.laneFlags k := rfl
    rw [← hread, Lanewise.lanewise_off (setccLane_local imm) hoff] at h
    exact hflag h

theorem comp_lane (hvd : fieldVd imm < 12) (hk : k < lregLanes) :
    (sfpcompc s imm).laneAt k = (compLane s k).laneAt k := by
  have hloc : lanes.Local compLane := setLaneFlag_local fun s s' k hs => by
    have htop : s.topFlags k true = s'.topFlags k true := topFlags_own true hs
    rw [htop, same_useFlag hs, same_flag hs]
  rw [sfpcompc_eq, if_neg (by omega), Lanewise.forRange_laneAt hloc hk]

theorem comp_top : (sfpcompc s imm).flagStackTop = s.flagStackTop := by
  rw [sfpcompc_eq]
  split
  · rfl
  · exact forRange_frame Sfpu.flagStackTop _ _ fun _ _ => rfl

theorem comp_use : (sfpcompc s imm).useLaneFlags = s.useLaneFlags := by
  rw [sfpcompc_eq]
  split
  · rfl
  · exact forRange_frame Sfpu.useLaneFlags _ _ fun _ _ => rfl

theorem pop_top (hmod : imm &&& 0xF = 0) (htop : 0 ≤ s.flagStackTop) :
    (sfppopc s imm).flagStackTop = s.flagStackTop - 1 := by
  have hloop : (forRange lregLanes s (popLane 0)).flagStackTop = s.flagStackTop :=
    Lanewise.forRange_top (popLane_local 0) lregLanes s
  rw [sfppopc_eq, hmod, popTop]
  split_ifs with hvd hpop hpop
  · rfl
  · exact absurd ⟨rfl, htop⟩ hpop
  · rw [← hloop]
    rfl
  · exact absurd ⟨rfl, hloop.symm ▸ htop⟩ hpop

theorem pop_lane (hvd : fieldVd imm < 12) (hmod : imm &&& 0xF = 0) (htop : 0 ≤ s.flagStackTop)
    (hk : k < lregLanes) :
    (sfppopc s imm).laneAt k =
      { s.laneAt k with
        useFlag := ((s.laneAt k).frames s.flagStackTop).1
        flag := ((s.laneAt k).frames s.flagStackTop).2 } := by
  have htopFlags : s.topFlags k false = (s.laneAt k).frames s.flagStackTop := if_pos htop
  rw [sfppopc_eq, popTop_laneAt, if_neg (by omega), hmod, Lanewise.forRange_laneAt (popLane_local _) hk]
  change (popLane 0 s k).laneAt k = _
  rw [popLane, if_pos rfl, laneAt_setLaneFlag_self, laneAt_setUseLaneFlag_self, htopFlags]

end instructions

def copExec (tid : Tid) (v : CopView) (w : Word) : CopView := (tensixExecuteInsn v w tid).2

def execWords (tid : Tid) (v : CopView) (ws : List Word) : CopView := ws.foldl (copExec tid) v

def KeepsFlags (w : Word) : Prop :=
  ∀ tid v, (copExec tid v w).core.sfpu.predication = v.core.sfpu.predication

theorem keepsFlags_of_not_touches {w : Word} (h : (insnImpl w).touchesFlags (tensixInsnParam w) = false) :
    KeepsFlags w := by
  intro tid v
  unfold copExec tensixExecuteInsn runImpl
  split
  · rfl
  · rfl
  · rfl
  · exact runCoreImpl_predication v.core v.thread.mopCfg _ tid h

def isFlagWord (impl : InsnImpl) (w : Word) : Prop := insnImpl w = impl ∧ fieldVd (tensixInsnParam w) < 12

def isPlain (w : Word) : Prop := tensixInsnParam w &&& 0xF = 0

inductive VectorProgram
  | nil
  | op (w : Word) (rest : VectorProgram)
  | cond (push : Word) (conds : List Word) (thn : VectorProgram) (comp : Word) (els : VectorProgram)
      (pop : Word)
    (rest : VectorProgram)

namespace VectorProgram

def words : VectorProgram → List Word
  | nil => []
  | op w rest => w :: rest.words
  | cond push conds thn comp els pop rest =>
    push :: (conds ++ (thn.words ++ comp :: (els.words ++ pop :: rest.words)))

def depth : VectorProgram → ℕ
  | nil => 0
  | op _ rest => rest.depth
  | cond _ _ thn _ els _ rest => max (max thn.depth els.depth + 1) rest.depth

def WellNested : VectorProgram → Prop
  | nil => True
  | op w rest => KeepsFlags w ∧ rest.WellNested
  | cond push conds thn comp els pop rest =>
    (isFlagWord .sfppushc push ∧ isPlain push) ∧ (∀ w ∈ conds, isFlagWord .sfpsetcc w ∨ KeepsFlags w) ∧
      thn.WellNested ∧ isFlagWord .sfpcompc comp ∧ els.WellNested ∧ (isFlagWord .sfppopc pop ∧ isPlain pop) ∧
      rest.WellNested

end VectorProgram

structure Restored (s s' : Sfpu) : Prop where
  flags : ∀ k < lregLanes, s'.laneFlags k = s.laneFlags k
  useFlags : ∀ k < lregLanes, s'.useLaneFlags k = s.useLaneFlags k
  top : s'.flagStackTop = s.flagStackTop
  frames : ∀ k < lregLanes, ∀ i ≤ s.flagStackTop, (s'.laneAt k).frames i = (s.laneAt k).frames i

namespace Restored

variable {s t u : Sfpu}

theorem refl (s : Sfpu) : Restored s s := ⟨fun _ _ => rfl, fun _ _ => rfl, rfl, fun _ _ _ _ => rfl⟩

theorem trans (h : Restored s t) (h' : Restored t u) : Restored s u where
  flags k hk := (h'.flags k hk).trans (h.flags k hk)
  useFlags k hk := (h'.useFlags k hk).trans (h.useFlags k hk)
  top := h'.top.trans h.top
  frames k hk i hi := (h'.frames k hk i (h.top.symm ▸ hi)).trans (h.frames k hk i hi)

theorem of_predication (h : t.predication = s.predication) : Restored s t := by
  obtain ⟨hf, hu, hstack, htop⟩ := Predication.mk.inj h
  exact ⟨fun k _ => congrFun hf k, fun k _ => congrFun hu k, htop,
    fun k _ i _ => by simp only [laneAt, hstack]⟩

end Restored

def Splits (s t e : Sfpu) : Prop :=
  ∀ k < lregLanes, (t.laneEnabled k && e.laneEnabled k) = false ∧
    (t.laneEnabled k || e.laneEnabled k) = s.laneEnabled k

namespace VectorProgram

variable (tid : Tid)

/-- Every conditional of a program, nested ones included, splits its lanes and restores what it found. -/
def Scoped : VectorProgram → CopView → Prop
  | nil, _ => True
  | op w rest, v => Restored v.core.sfpu (copExec tid v w).core.sfpu ∧ rest.Scoped (copExec tid v w)
  | cond push conds thn comp els pop rest, v =>
    let thenStart := execWords tid (copExec tid v push) conds
    let elseStart := copExec tid (execWords tid thenStart thn.words) comp
    let left := copExec tid (execWords tid elseStart els.words) pop
    Splits v.core.sfpu thenStart.core.sfpu elseStart.core.sfpu ∧ Restored v.core.sfpu left.core.sfpu ∧
      thn.Scoped thenStart ∧ els.Scoped elseStart ∧ rest.Scoped left

end VectorProgram

section execution

variable {tid : Tid} {v : CopView} {w : Word}

theorem execWords_cons (ws : List Word) : execWords tid v (w :: ws) = execWords tid (copExec tid v w) ws :=
  rfl

theorem execWords_append (ws ws' : List Word) :
    execWords tid v (ws ++ ws') = execWords tid (execWords tid v ws) ws' := List.foldl_append ..

theorem copExec_vector {impl : InsnImpl} (F : Sfpu → Word → Sfpu) (h : insnImpl w = impl)
    (hrun : ∀ v : CopView, (runImpl impl v (tensixInsnParam w) tid).2.core.sfpu =
      F v.core.sfpu (tensixInsnParam w)) :
    (copExec tid v w).core.sfpu = F v.core.sfpu (tensixInsnParam w) := by
  unfold copExec tensixExecuteInsn
  rw [h]
  exact hrun v

def InRange (tid : Tid) (v : CopView) (ws : List Word) : Prop :=
  ∀ p, p <+: ws → -1 ≤ (execWords tid v p).core.sfpu.flagStackTop ∧
    (execWords tid v p).core.sfpu.flagStackTop ≤ 7

theorem InRange.nil (hlo : -1 ≤ v.core.sfpu.flagStackTop) (hhi : v.core.sfpu.flagStackTop ≤ 7) :
    InRange tid v [] := by
  intro p hp
  rw [List.prefix_nil.mp hp]
  exact ⟨hlo, hhi⟩

theorem InRange.cons {ws : List Word} (hlo : -1 ≤ v.core.sfpu.flagStackTop)
    (hhi : v.core.sfpu.flagStackTop ≤ 7) (h : InRange tid (copExec tid v w) ws) :
    InRange tid v (w :: ws) := by
  intro p hp
  obtain rfl | ⟨q, rfl, hq⟩ := List.prefix_cons_iff.mp hp
  · exact ⟨hlo, hhi⟩
  · exact h q hq

theorem InRange.append {ws ws' : List Word} (h : InRange tid v ws)
    (h' : InRange tid (execWords tid v ws) ws') :
    InRange tid v (ws ++ ws') := by
  intro p hp
  obtain hle | ⟨q, rfl⟩ := List.prefix_or_prefix_of_prefix hp (List.prefix_append ws ws')
  · exact h p hle
  · rw [execWords_append]
    exact h' q ((List.prefix_append_right_inj ws).mp hp)

end execution

structure Narrows (s s' : Sfpu) : Prop where
  flags : ∀ k < lregLanes, s.useLaneFlags k = true → s'.laneFlags k = true → s.laneFlags k = true
  useFlags : ∀ k < lregLanes, s'.useLaneFlags k = s.useLaneFlags k
  top : s'.flagStackTop = s.flagStackTop
  frames : ∀ k < lregLanes, ∀ i ≤ s.flagStackTop, (s'.laneAt k).frames i = (s.laneAt k).frames i

namespace Narrows

variable {s t u : Sfpu}

theorem of_restored (h : Restored s t) : Narrows s t :=
  ⟨fun k hk _ hf => (h.flags k hk).symm.trans hf, h.useFlags, h.top, h.frames⟩

theorem trans (h : Narrows s t) (h' : Narrows t u) : Narrows s u where
  flags k hk huse hf := h.flags k hk huse (h'.flags k hk ((h.useFlags k hk).trans huse) hf)
  useFlags k hk := (h'.useFlags k hk).trans (h.useFlags k hk)
  top := h'.top.trans h.top
  frames k hk i hi := (h'.frames k hk i (h.top.symm ▸ hi)).trans (h.frames k hk i hi)

theorem of_setcc (s : Sfpu) (imm : Word) : Narrows s (sfpsetcc s imm) := by
  obtain ⟨huse, hstack, htop⟩ := setcc_predication s imm
  refine ⟨fun k _ hu hf => setcc_narrows hu hf, fun k _ => congrFun huse k, htop, fun k _ i _ => ?_⟩
  simp only [laneAt, hstack]

end Narrows

section conditional

variable {tid : Tid} {v : CopView}

theorem condition_narrows (tid : Tid) (v : CopView) {w : Word} (h : isFlagWord .sfpsetcc w ∨ KeepsFlags w) :
    Narrows v.core.sfpu (copExec tid v w).core.sfpu := by
  obtain ⟨hw, _⟩ | hw := h
  · rw [copExec_vector sfpsetcc hw fun _ => rfl]
    exact .of_setcc _ _
  · exact .of_restored (.of_predication (hw tid v))

theorem conditions_narrow (tid : Tid) (v : CopView) {ws : List Word}
    (h : ∀ w ∈ ws, isFlagWord .sfpsetcc w ∨ KeepsFlags w) (hlo : -1 ≤ v.core.sfpu.flagStackTop)
    (hhi : v.core.sfpu.flagStackTop ≤ 7) :
    Narrows v.core.sfpu (execWords tid v ws).core.sfpu ∧ InRange tid v ws := by
  induction ws generalizing v with
  | nil => exact ⟨.of_restored (.refl _), .nil hlo hhi⟩
  | cons w ws ih =>
    have hstep := condition_narrows tid v (h w List.mem_cons_self)
    have htop := hstep.top
    obtain ⟨hrest, hin⟩ := ih (copExec tid v w) (fun w hw => h w (List.mem_cons_of_mem _ hw)) (by omega)
        (by omega)
    exact ⟨hstep.trans hrest, .cons hlo hhi hin⟩

structure Pushed (s a : Sfpu) : Prop where
  flags : ∀ k < lregLanes, a.laneFlags k = s.laneFlags k
  useFlags : ∀ k < lregLanes, a.useLaneFlags k = s.useLaneFlags k
  top : a.flagStackTop = s.flagStackTop + 1
  saved : ∀ k < lregLanes, (a.laneAt k).frames (s.flagStackTop + 1) = (s.useLaneFlags k, s.laneFlags k)
  below : ∀ k < lregLanes, ∀ i ≤ s.flagStackTop, (a.laneAt k).frames i = (s.laneAt k).frames i

theorem push_pushed (tid : Tid) {w : Word} (h : isFlagWord .sfppushc w) (hplain : isPlain w)
    (hlo : -1 ≤ v.core.sfpu.flagStackTop) (hhi : v.core.sfpu.flagStackTop < 7) :
    Pushed v.core.sfpu (copExec tid v w).core.sfpu := by
  rw [copExec_vector sfppushc h.1 fun _ => rfl]
  have hlane {k : ℕ} (hk : k < lregLanes) := push_lane (k := k) h.2 hplain hlo hhi hk
  refine ⟨fun k hk => ?_, fun k hk => ?_, push_top h.2 hplain hhi, fun k hk => ?_, fun k hk i hi => ?_⟩
  · exact congrArg Lane.flag (hlane hk)
  · exact congrArg Lane.useFlag (hlane hk)
  · rw [hlane hk]
    exact Function.update_self ..
  · rw [hlane hk]
    exact Function.update_of_ne (by omega) ..

theorem comp_lane_eq {s : Sfpu} {imm : Word} {k : ℕ} {b : Bool} (hvd : fieldVd imm < 12) (hk : k < lregLanes)
    (htop : 0 ≤ s.flagStackTop) (hframe : (s.laneAt k).frames s.flagStackTop = (true, b))
    (huse : s.useLaneFlags k = true) :
    (sfpcompc s imm).laneAt k = { s.laneAt k with flag := b && !s.laneFlags k } := by
  have htopFlags : s.topFlags k true = (true, b) := (if_pos htop).trans hframe
  rw [comp_lane hvd hk, compLane, htopFlags, huse]
  exact laneAt_setLaneFlag_self ..

theorem enabled_of_use {s : Sfpu} {k : ℕ} (huse : s.useLaneFlags k = true) :
    s.laneEnabled k = s.laneFlags k := by
  rw [laneEnabled, huse]
  rfl

theorem conditional_scoped {s a b c e : Sfpu} {comp pop : Word}
    (huse : ∀ k < lregLanes, s.useLaneFlags k = true) (hlo : -1 ≤ s.flagStackTop) (hpush : Pushed s a)
    (hconds : Narrows a b) (hthen : Restored b c) (hcomp : fieldVd comp < 12)
    (helse : Restored (sfpcompc c comp) e) (hpop : fieldVd pop < 12) (hplain : pop &&& 0xF = 0) :
    Splits s b (sfpcompc c comp) ∧ Restored s (sfppopc e pop) := by
  have hctop : c.flagStackTop = s.flagStackTop + 1 := by rw [hthen.top, hconds.top, hpush.top]
  have hetop : e.flagStackTop = s.flagStackTop + 1 := by rw [helse.top, comp_top, hctop]
  have hbuse {k : ℕ} (hk : k < lregLanes) : b.useLaneFlags k = true := by
    rw [hconds.useFlags k hk, hpush.useFlags k hk, huse k hk]
  have hframes {k : ℕ} (hk : k < lregLanes) {i : ℤ} (hi : i ≤ s.flagStackTop + 1) :
      (c.laneAt k).frames i = (a.laneAt k).frames i := by
    rw [hthen.frames k hk i (by rw [hconds.top, hpush.top]; exact hi),
      hconds.frames k hk i (by rw [hpush.top]; exact hi)]
  have hcsaved {k : ℕ} (hk : k < lregLanes) : (c.laneAt k).frames c.flagStackTop = (true, s.laneFlags k) := by
    rw [hctop, hframes hk (le_refl _), hpush.saved k hk, huse k hk]
  have hcuse {k : ℕ} (hk : k < lregLanes) : c.useLaneFlags k = true := by rw [hthen.useFlags k hk, hbuse hk]
  have hd {k : ℕ} (hk : k < lregLanes) := comp_lane_eq hcomp hk (by omega) (hcsaved hk) (hcuse hk)
  have heframes {k : ℕ} (hk : k < lregLanes) {i : ℤ} (hi : i ≤ s.flagStackTop + 1) :
      (e.laneAt k).frames i = (a.laneAt k).frames i := by
    rw [helse.frames k hk i (by rw [comp_top, hctop]; exact hi), hd hk]
    exact hframes hk hi
  constructor
  · intro k hk
    have hduse : (sfpcompc c comp).useLaneFlags k = true := (congrArg Lane.useFlag (hd hk)).trans (hcuse hk)
    have hdflag : (sfpcompc c comp).laneFlags k = (s.laneFlags k && !b.laneFlags k) := by
      rw [← hthen.flags k hk]
      exact congrArg Lane.flag (hd hk)
    have hnarrow : b.laneFlags k = true → s.laneFlags k = true := fun hf =>
      (hpush.flags k hk).symm.trans (hconds.flags k hk ((hpush.useFlags k hk).trans (huse k hk)) hf)
    rw [enabled_of_use (hbuse hk), enabled_of_use hduse, enabled_of_use (huse k hk), hdflag]
    cases hb : b.laneFlags k with
    | false => simp
    | true => simp [hnarrow hb]
  · have hf {k : ℕ} (hk : k < lregLanes) := pop_lane (s := e) hpop hplain (by omega) hk
    have hesaved {k : ℕ} (hk : k < lregLanes) : (e.laneAt k).frames e.flagStackTop =
        (true, s.laneFlags k) := by
      rw [hetop, heframes hk (le_refl _), hpush.saved k hk, huse k hk]
    refine ⟨fun k hk => ?_, fun k hk => ?_, ?_, fun k hk i hi => ?_⟩
    · exact (congrArg Lane.flag (hf hk)).trans (congrArg Prod.snd (hesaved hk))
    · rw [huse k hk]
      exact (congrArg Lane.useFlag (hf hk)).trans (congrArg Prod.fst (hesaved hk))
    · rw [pop_top hplain (by omega), hetop, add_sub_cancel_right]
    · rw [hf hk, ← hpush.below k hk i hi]
      exact heframes hk (by omega)

end conditional

namespace VectorProgram

/-- The induction over programs: from any state with the flags in use and room for the nesting, a
program is scoped, gives back the flags and the stack, and keeps the index in range. -/
theorem scoped_restored (tid : Tid) (p : VectorProgram) (hp : p.WellNested) :
    ∀ v : CopView, (∀ k < lregLanes, v.core.sfpu.useLaneFlags k = true) → -1 ≤ v.core.sfpu.flagStackTop →
      v.core.sfpu.flagStackTop + p.depth ≤ 7 →
      p.Scoped tid v ∧ Restored v.core.sfpu (execWords tid v p.words).core.sfpu ∧ InRange tid v p.words := by
  induction p with
  | nil =>
    intro v _ hlo hhi
    exact ⟨trivial, .refl _, .nil hlo (by simpa [depth] using hhi)⟩
  | op w rest ih =>
    intro v huse hlo hhi
    have hstep : Restored v.core.sfpu (copExec tid v w).core.sfpu := .of_predication (hp.1 tid v)
    have htop := hstep.top
    dsimp only [depth] at hhi
    obtain ⟨hscoped, hrest, hin⟩ := ih hp.2 (copExec tid v w)
      (fun k hk => (hstep.useFlags k hk).trans (huse k hk)) (by omega) (by omega)
    exact ⟨⟨hstep, hscoped⟩, hstep.trans hrest, .cons hlo (by omega) hin⟩
  | cond push conds thn comp els pop rest ihThen ihElse ihRest =>
    intro v huse hlo hhi
    obtain ⟨⟨hpushw, hpushPlain⟩, hcondsw, hthnw, hcompw, helsw, ⟨hpopw, hpopPlain⟩, hrestw⟩ := hp
    dsimp only [depth] at hhi
    have hpush := push_pushed tid hpushw hpushPlain hlo (by omega)
    have hatop := hpush.top
    obtain ⟨hnarrow, hcondsIn⟩ :=
      conditions_narrow tid (copExec tid v push) hcondsw (by omega) (by omega)
    have hbtop := hnarrow.top
    obtain ⟨hthenScoped, hthen, hthenIn⟩ := ihThen hthnw (execWords tid (copExec tid v push) conds)
      (fun k hk => by rw [hnarrow.useFlags k hk, hpush.useFlags k hk, huse k hk]) (by omega) (by omega)
    have hctop := hthen.top
    have hcomp {u : CopView} : (copExec tid u comp).core.sfpu = sfpcompc u.core.sfpu (tensixInsnParam comp) :=
      copExec_vector sfpcompc hcompw.1 fun _ => rfl
    have hpop {u : CopView} : (copExec tid u pop).core.sfpu = sfppopc u.core.sfpu (tensixInsnParam pop) :=
      copExec_vector sfppopc hpopw.1 fun _ => rfl
    have hdtop {u : CopView} : (copExec tid u comp).core.sfpu.flagStackTop = u.core.sfpu.flagStackTop := by
      rw [hcomp, comp_top]
    have hduse : ∀ k < lregLanes, (copExec tid
        (execWords tid (execWords tid (copExec tid v push) conds) thn.words)
        comp).core.sfpu.useLaneFlags k = true := by
      intro k hk
      rw [hcomp, comp_use, hthen.useFlags k hk, hnarrow.useFlags k hk, hpush.useFlags k hk, huse k hk]
    obtain ⟨helseScoped, helse, helseIn⟩ := ihElse helsw _ hduse (by rw [hdtop]; omega) (by rw [hdtop]; omega)
    have hetop := helse.top
    rw [hdtop] at hetop
    obtain ⟨hsplits, hleft⟩ := conditional_scoped huse hlo hpush hnarrow hthen hcompw.2 (hcomp ▸ helse)
        hpopw.2 hpopPlain
    rw [← hcomp] at hsplits
    rw [← hpop] at hleft
    have hftop := hleft.top
    obtain ⟨hrestScoped, hrest, hrestIn⟩ := ihRest hrestw _
      (fun k hk => (hleft.useFlags k hk).trans (huse k hk)) (by omega) (by omega)
    refine ⟨⟨hsplits, hleft, hthenScoped, helseScoped, hrestScoped⟩, ?_, ?_⟩
    · dsimp only [words]
      simp only [execWords_cons, execWords_append]
      exact hleft.trans hrest
    · refine .cons hlo (by omega) (hcondsIn.append (hthenIn.append (.cons (by omega) (by omega) ?_)))
      exact helseIn.append (.cons (by omega) (by omega) hrestIn)

/-- Started with the flags in use and an empty stack, every conditional of a program of depth at most 8
splits the lanes that are enabled at its entry between its branches and leaves the flags and the stack
as it found them. -/
theorem structured_predication (tid : Tid) (p : VectorProgram) (v : CopView) (hp : p.WellNested)
    (hdepth : p.depth ≤ 8) (huse : ∀ k < lregLanes, v.core.sfpu.useLaneFlags k = true)
    (hempty : v.core.sfpu.flagStackTop = -1) :
    p.Scoped tid v ∧ Restored v.core.sfpu (execWords tid v p.words).core.sfpu ∧ InRange tid v p.words :=
  scoped_restored tid p hp v huse (by omega) (by omega)

def nested : VectorProgram :=
  .cond 0x87000000 [0x7B000000]
    (.op 0x7D000010 (.cond 0x87000000 [0x7B000102] .nil 0x8B000000 .nil 0x88000000 .nil))
    0x8B000000 (.op 0x7D000010 .nil) 0x88000000 .nil

theorem nested_wellNested : nested.WellNested := by
  have habs : KeepsFlags 0x7D000010 := keepsFlags_of_not_touches rfl
  have hpush : isFlagWord .sfppushc 0x87000000 ∧ isPlain 0x87000000 := ⟨⟨rfl, by decide⟩, rfl⟩
  have hcomp : isFlagWord .sfpcompc 0x8B000000 := ⟨rfl, by decide⟩
  have hpop : isFlagWord .sfppopc 0x88000000 ∧ isPlain 0x88000000 := ⟨⟨rfl, by decide⟩, rfl⟩
  have hinner : ∀ w ∈ [(0x7B000102 : Word)], isFlagWord .sfpsetcc w ∨ KeepsFlags w :=
    List.forall_mem_singleton.mpr (.inl ⟨rfl, by decide⟩)
  have houter : ∀ w ∈ [(0x7B000000 : Word)], isFlagWord .sfpsetcc w ∨ KeepsFlags w :=
    List.forall_mem_singleton.mpr (.inl ⟨rfl, by decide⟩)
  exact ⟨hpush, houter, ⟨habs, hpush, hinner, trivial, hcomp, trivial, hpop, trivial⟩, hcomp,
    ⟨habs, trivial⟩, hpop, trivial⟩

theorem structured_predication_nested :
    nested.WellNested ∧ nested.depth ≤ 8 ∧
      (∀ k < lregLanes, (powerUp.view 1).core.sfpu.useLaneFlags k = true) ∧
      (powerUp.view 1).core.sfpu.flagStackTop = -1 ∧ nested.Scoped 1 (powerUp.view 1) ∧
      Restored (powerUp.view 1).core.sfpu (execWords 1 (powerUp.view 1) nested.words).core.sfpu ∧
      InRange 1 (powerUp.view 1) nested.words :=
  ⟨nested_wellNested, by decide, fun _ _ => rfl, rfl,
    structured_predication 1 nested (powerUp.view 1) nested_wellNested (by decide) (fun _ _ => rfl) rfl⟩

end VectorProgram

end Rv32Emu
