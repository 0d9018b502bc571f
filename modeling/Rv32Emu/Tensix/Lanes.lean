import Mathlib.Tactic.SplitIfs
import Rv32Emu.Lib.Lanes
import Rv32Emu.Tensix.Sfpu

namespace Rv32Emu

structure Lane where
  lreg : ℕ → Word
  flag : Bool
  useFlag : Bool
  frames : ℤ → Bool × Bool
  prng : Word

namespace Sfpu

def laneAt (s : Sfpu) (k : ℕ) : Lane where
  lreg := fun r => s.lreg r k
  flag := s.laneFlags k
  useFlag := s.useLaneFlags k
  frames := fun i => ((s.flagStack i).useLaneFlags k, (s.flagStack i).laneFlags k)
  prng := s.prngState k

def lanes : LaneView Sfpu ℤ Lane := ⟨Sfpu.flagStackTop, Sfpu.laneAt⟩

abbrev SameLane := lanes.Same

section same

variable {s s' : Sfpu} {k : ℕ} (h : SameLane s s' k)

include h

theorem same_top : s.flagStackTop = s'.flagStackTop := h.shared

theorem same_laneAt : s.laneAt k = s'.laneAt k := h.lane

theorem same_lreg (r : ℕ) : s.lreg r k = s'.lreg r k := congrFun (congrArg Lane.lreg h.lane) r

theorem same_flag : s.laneFlags k = s'.laneFlags k := congrArg Lane.flag h.lane

theorem same_useFlag : s.useLaneFlags k = s'.useLaneFlags k := congrArg Lane.useFlag h.lane

theorem same_frames (i : ℤ) : (s.flagStack i).useLaneFlags k = (s'.flagStack i).useLaneFlags k ∧
    (s.flagStack i).laneFlags k = (s'.flagStack i).laneFlags k :=
  Prod.mk.inj (congrFun (congrArg Lane.frames h.lane) i)

theorem same_prng : s.prngState k = s'.prngState k := congrArg Lane.prng h.lane

theorem same_enabled : s.laneEnabled k = s'.laneEnabled k := by
  unfold laneEnabled
  rw [same_flag h, same_useFlag h]

end same

section setters

variable (s : Sfpu) (k : ℕ)

theorem laneAt_setLreg_self (r : ℕ) (x : Word) :
    (s.setLreg r k x).laneAt k = { s.laneAt k with lreg := Function.update (s.laneAt k).lreg r x } := by
  simp only [laneAt, setLreg, Lane.mk.injEq, and_true]
  funext r'
  by_cases h : r' = r <;> simp [Grid.set, h]

theorem laneAt_setLreg_ne (r : ℕ) (x : Word) {j : ℕ} (h : j ≠ k) :
    (s.setLreg r k x).laneAt j = s.laneAt j := by
  simp [laneAt, setLreg, Grid.set, h]

theorem laneAt_setLaneFlag_self (b : Bool) :
    (s.setLaneFlag k b).laneAt k = { s.laneAt k with flag := b } := by
  simp [laneAt, setLaneFlag]

theorem laneAt_setLaneFlag_ne (b : Bool) {j : ℕ} (h : j ≠ k) : (s.setLaneFlag k b).laneAt j = s.laneAt j := by
  simp [laneAt, setLaneFlag, h]

theorem laneAt_setUseLaneFlag_self (b : Bool) :
    (s.setUseLaneFlag k b).laneAt k = { s.laneAt k with useFlag := b } := by
  simp [laneAt, setUseLaneFlag]

theorem laneAt_setUseLaneFlag_ne (b : Bool) {j : ℕ} (h : j ≠ k) :
    (s.setUseLaneFlag k b).laneAt j = s.laneAt j := by
  simp [laneAt, setUseLaneFlag, h]

theorem laneAt_setTop_self (u b : Bool) : (s.setTop k u b).laneAt k =
    { s.laneAt k with frames := Function.update (s.laneAt k).frames s.flagStackTop (u, b) } := by
  simp only [laneAt, setTop, Lane.mk.injEq, true_and, and_true]
  funext i
  by_cases h : i = s.flagStackTop
  · subst h
    simp
  · simp [h]

theorem laneAt_setTop_ne (u b : Bool) {j : ℕ} (h : j ≠ k) : (s.setTop k u b).laneAt j = s.laneAt j := by
  simp only [laneAt, setTop, Lane.mk.injEq, true_and, and_true]
  funext i
  by_cases hi : i = s.flagStackTop
  · subst hi
    simp [h]
  · simp [hi]

theorem laneAt_advancePrng_self : ((advancePrng s k).2).laneAt k =
    { s.laneAt k with
      prng := (~~~w32 (popcount (s.prngState k &&& 0x80200003)) <<< 31) ||| (s.prngState k >>> 1) } := by
  simp [laneAt, advancePrng]

theorem laneAt_advancePrng_ne {j : ℕ} (h : j ≠ k) : ((advancePrng s k).2).laneAt j = s.laneAt j := by
  simp [laneAt, advancePrng, h]

end setters

section locals

variable {r : Sfpu → ℕ → ℕ} {x : Sfpu → ℕ → Word} {b u : Sfpu → ℕ → Bool}

theorem setLreg_local (hr : lanes.Own r) (hx : lanes.Own x) :
    lanes.Local fun s k => s.setLreg (r s k) k (x s k) where
  shared _ _ := rfl
  frame hj := laneAt_setLreg_ne _ _ _ _ hj
  own {s s' k} hs := by
    change (s.setLreg _ k _).laneAt k = (s'.setLreg _ k _).laneAt k
    rw [laneAt_setLreg_self, laneAt_setLreg_self, hr hs, hx hs, same_laneAt hs]

theorem setLaneFlag_local (hb : lanes.Own b) : lanes.Local fun s k => s.setLaneFlag k (b s k) where
  shared _ _ := rfl
  frame hj := laneAt_setLaneFlag_ne _ _ _ hj
  own {s s' k} hs := by
    change (s.setLaneFlag k _).laneAt k = (s'.setLaneFlag k _).laneAt k
    rw [laneAt_setLaneFlag_self, laneAt_setLaneFlag_self, hb hs, same_laneAt hs]

theorem setUseLaneFlag_local (hb : lanes.Own b) : lanes.Local fun s k => s.setUseLaneFlag k (b s k) where
  shared _ _ := rfl
  frame hj := laneAt_setUseLaneFlag_ne _ _ _ hj
  own {s s' k} hs := by
    change (s.setUseLaneFlag k _).laneAt k = (s'.setUseLaneFlag k _).laneAt k
    rw [laneAt_setUseLaneFlag_self, laneAt_setUseLaneFlag_self, hb hs, same_laneAt hs]

theorem setTop_local (hu : lanes.Own u) (hb : lanes.Own b) :
    lanes.Local fun s k => s.setTop k (u s k) (b s k) where
  shared _ _ := rfl
  frame hj := laneAt_setTop_ne _ _ _ _ hj
  own {s s' k} hs := by
    change (s.setTop k _ _).laneAt k = (s'.setTop k _ _).laneAt k
    rw [laneAt_setTop_self, laneAt_setTop_self, hu hs, hb hs, same_top hs, same_laneAt hs]

theorem advancePrng_local : lanes.Local fun s k => (advancePrng s k).2 where
  shared _ _ := rfl
  frame hj := laneAt_advancePrng_ne _ _ hj
  own {s s' k} hs := by
    change ((advancePrng s k).2).laneAt k = ((advancePrng s' k).2).laneAt k
    rw [laneAt_advancePrng_self, laneAt_advancePrng_self, same_prng hs, same_laneAt hs]

theorem laneEnabled_own : lanes.Own fun s k => s.laneEnabled k = true :=
  fun _ _ _ hs => congrArg (· = true) (same_enabled hs)

end locals

/-- What an instruction of the vector unit does to a lane depends on that lane alone, and a lane that is
predicated off keeps its registers. -/
structure Lanewise (F : Sfpu → Sfpu) : Prop where
  own : ∀ {s s' : Sfpu} {k : ℕ}, SameLane s s' k → (F s).laneAt k = (F s').laneAt k
  disabled : ∀ {s : Sfpu} {k : ℕ}, s.laneEnabled k = false → ∀ r, (F s).lreg r k = s.lreg r k

namespace Lanewise

variable {F G : Sfpu → Sfpu} {f : Sfpu → ℕ → Sfpu}

theorem skip : Lanewise fun s => s := ⟨fun h => h.lane, fun _ _ => rfl⟩

theorem ite {c : Prop} [Decidable c] (hF : Lanewise F) (hG : Lanewise G) :
    Lanewise fun s => if c then F s else G s := by
  split
  · exact hF
  · exact hG

theorem forRange_top (h : lanes.Local f) (n : ℕ) (s : Sfpu) :
    (forRange n s f).flagStackTop = s.flagStackTop :=
  h.forRange_shared n s

theorem forRange_laneAt (h : lanes.Local f) {n k : ℕ} (hk : k < n) (s : Sfpu) :
    (forRange n s f).laneAt k = (f s k).laneAt k :=
  h.forRange_lane hk

theorem forRange_own (h : lanes.Local f) {s s' : Sfpu} {k : ℕ} (hs : SameLane s s' k) (n : ℕ) :
    (forRange n s f).laneAt k = (forRange n s' f).laneAt k := by
  by_cases hk : k < n
  · exact (h.forRange_lane hk).trans ((h.own hs).trans (h.forRange_lane hk).symm)
  · have hk := Nat.le_of_not_lt hk
    exact (h.forRange_outside hk).trans (hs.lane.trans (h.forRange_outside hk).symm)

theorem of_flags (h : lanes.Local f) (hl : ∀ s k, (f s k).lreg = s.lreg) :
    Lanewise fun s => forRange lregLanes s f where
  own hs := forRange_own h hs lregLanes
  disabled _ r := congrFun (congrFun (forRange_frame Sfpu.lreg lregLanes _ hl) r) _

theorem of_flags_after {pre : Sfpu → Sfpu} (h : lanes.Local f) (hl : ∀ s k, (f s k).lreg = s.lreg)
    (hpre : ∀ {s s' k}, SameLane s s' k → SameLane (pre s) (pre s') k) (hprel : ∀ s, (pre s).lreg = s.lreg) :
    Lanewise fun s => forRange lregLanes (pre s) f where
  own hs := forRange_own h (hpre hs) lregLanes
  disabled _ _ := by rw [forRange_frame Sfpu.lreg lregLanes _ hl, hprel]

theorem before {post : Sfpu → Sfpu} (hF : Lanewise F) (hpost : ∀ s k, (post s).laneAt k = s.laneAt k) :
    Lanewise fun s => post (F s) where
  own hs := by rw [hpost, hpost, hF.own hs]
  disabled {s k} hk r := by
    have hread (t : Sfpu) : (t.laneAt k).lreg r = t.lreg r k := rfl
    rw [← hread, hpost, hread, hF.disabled hk]

theorem lanewise_local (h : lanes.Local f) : lanes.Local fun s k => if s.laneEnabled k then f s k else s :=
  .ite laneEnabled_own h .skip

theorem lanewise_off (h : lanes.Local f) {s : Sfpu} {k : ℕ} (hk : s.laneEnabled k = false) :
    (s.lanewise f).laneAt k = s.laneAt k := by
  change lanes.lane (s.lanewise f) k = lanes.lane s k
  have hloop := lanewise_local h
  unfold Sfpu.lanewise
  by_cases hlt : k < lregLanes
  · rw [hloop.forRange_lane hlt, hk, if_neg Bool.false_ne_true]
  · rw [hloop.forRange_outside (Nat.le_of_not_lt hlt)]

theorem of_local (h : lanes.Local f) : Lanewise fun s => s.lanewise f where
  own hs := forRange_own (lanewise_local h) hs lregLanes
  disabled {s k} hk r := by
    have hread (t : Sfpu) : (t.laneAt k).lreg r = t.lreg r k := rfl
    rw [← hread, lanewise_off h hk, hread]

theorem of_result {r : Sfpu → ℕ → ℕ} {x : Sfpu → ℕ → Word} (hr : lanes.Own r) (hx : lanes.Own x) :
    Lanewise fun s => s.lanewise fun s k => s.setLreg (r s k) k (x s k) :=
  of_local (setLreg_local hr hx)

end Lanewise

end Sfpu

open Sfpu

section instructions

variable (imm : Word)

theorem sfpResult_lanewise {f : Sfpu → ℕ → Word} (hf : lanes.Own f) : Lanewise (sfpResult · imm f) :=
  .ite (.of_result (fun _ _ _ _ => rfl) hf) .skip

theorem sfploadi_lanewise : Lanewise (sfploadi · imm) :=
  .ite .skip (.of_result (fun _ _ _ _ => rfl) fun _ _ _ hs => by simp only [same_lreg hs])

theorem sfpexman_lanewise : Lanewise (sfpexman · imm) :=
  sfpResult_lanewise imm fun _ _ _ hs => by simp only [same_lreg hs]

theorem sfpshft_lanewise : Lanewise (sfpshft · imm) :=
  sfpResult_lanewise imm fun _ _ _ hs => by simp only [same_lreg hs]

theorem sfpabs_lanewise : Lanewise (sfpabs · imm) :=
  sfpResult_lanewise imm fun _ _ _ hs => by simp only [same_lreg hs]

theorem sfpand_lanewise : Lanewise (sfpand · imm) :=
  sfpResult_lanewise imm fun _ _ _ hs => by simp only [same_lreg hs]

theorem sfpor_lanewise : Lanewise (sfpor · imm) :=
  sfpResult_lanewise imm fun _ _ _ hs => by simp only [same_lreg hs]

theorem sfpxor_lanewise : Lanewise (sfpxor · imm) :=
  sfpResult_lanewise imm fun _ _ _ hs => by simp only [same_lreg hs]

theorem sfpnot_lanewise : Lanewise (sfpnot · imm) :=
  sfpResult_lanewise imm fun _ _ _ hs => by simp only [same_lreg hs]

theorem sfpsetexp_lanewise : Lanewise (sfpsetexp · imm) :=
  sfpResult_lanewise imm fun _ _ _ hs => by simp only [same_lreg hs]

theorem sfpsetsgn_lanewise : Lanewise (sfpsetsgn · imm) :=
  sfpResult_lanewise imm fun _ _ _ hs => by simp only [same_lreg hs]

theorem sfpcast_lanewise : Lanewise (sfpcast · imm) :=
  sfpResult_lanewise imm fun _ _ _ hs => by simp only [same_lreg hs]

theorem sfparecip_lanewise : Lanewise (sfparecip · imm) :=
  sfpResult_lanewise imm fun _ _ _ hs => by simp only [same_lreg hs]

theorem storeIndirect_local {x : Sfpu → ℕ → Word} (hx : lanes.Own x) :
    lanes.Local fun s k => storeIndirect s imm k (x s k) := by
  have hr : lanes.Own fun s k => indirectVd s imm k := fun _ _ _ hs => by simp only [indirectVd, same_lreg hs]
  exact .ite (fun _ _ _ hs => by simp only [hr hs]) (setLreg_local hr hx) .skip

theorem sfpmuli_lanewise : Lanewise (sfpmuli · imm) :=
  .of_local (storeIndirect_local imm fun _ _ _ hs => by simp only [same_lreg hs])

theorem sfpaddi_lanewise : Lanewise (sfpaddi · imm) :=
  .of_local (storeIndirect_local imm fun _ _ _ hs => by simp only [same_lreg hs])

theorem sfpMadCommon_lanewise : Lanewise (sfpMadCommon · imm) :=
  .ite .skip (.of_local (storeIndirect_local imm fun _ _ _ hs => by simp only [same_lreg hs]))

theorem sfplutfp32_lanewise : Lanewise (sfplutfp32 · imm) :=
  .ite .skip (.of_local (storeIndirect_local imm fun _ _ _ hs => by simp only [same_lreg hs]))

theorem signFlags_local (set comp : Bool) (x : Word) : lanes.Local fun s k => signFlags s k set comp x := by
  have hset : lanes.Local fun s k => s.setLaneFlag k (bit x 31) := setLaneFlag_local fun _ _ _ _ => rfl
  have hcomp : lanes.Local fun s k => s.setLaneFlag k (!s.laneFlags k) :=
    setLaneFlag_local fun _ _ _ hs => by rw [same_flag hs]
  cases set <;> cases comp
  · exact .skip
  · exact hcomp
  · exact hset
  · exact hcomp.comp hset

theorem signedResult_lanewise (vd : ℕ) (set comp : Bool) {x : Sfpu → ℕ → Word} (hx : lanes.Own x) :
    Lanewise fun s => s.lanewise fun s k =>
      if vd < 8 then signFlags (s.setLreg vd k (x s k)) k set comp (x s k) else s.setLreg vd k (x s k) := by
  have hreg : lanes.Local fun s k => s.setLreg vd k (x s k) := setLreg_local (fun _ _ _ _ => rfl) hx
  exact .of_local (.ite (fun _ _ _ _ => rfl) (.bind hx hreg (signFlags_local set comp)) hreg)

theorem sfpexexp_lanewise : Lanewise (sfpexexp · imm) :=
  .ite .skip (signedResult_lanewise (fieldVd imm) (bit imm 1) (bit imm 3)
    fun _ _ _ hs => by simp only [same_lreg hs])

theorem sfpiadd_lanewise : Lanewise (sfpiadd · imm) :=
  .ite .skip (signedResult_lanewise (fieldVd imm) (!bit imm 2) (bit imm 3)
    fun _ _ _ hs => by simp only [same_lreg hs])

def setccLane (s : Sfpu) (lane : ℕ) : Sfpu :=
  let mod1 := imm &&& 0xF
  let c := s.lreg (fieldVc imm) lane
  if !s.useLaneFlags lane then s.setLaneFlag lane false
  else if bit mod1 3 then s.setLaneFlag lane false
  else if bit mod1 0 then s.setLaneFlag lane (bit imm 12)
  else if mod1 = 0 then s.setLaneFlag lane (bit c 31)
  else if mod1 = 2 then s.setLaneFlag lane (c ≠ 0)
  else if mod1 = 4 then s.setLaneFlag lane (!bit c 31)
  else if mod1 = 6 then s.setLaneFlag lane (c = 0)
  else s

theorem setccLane_local : lanes.Local (setccLane imm) := by
  have hc (f : Word → Bool) : lanes.Local fun s k => s.setLaneFlag k (f (s.lreg (fieldVc imm) k)) :=
    setLaneFlag_local fun _ _ _ hs => by rw [same_lreg hs]
  have huse : lanes.Own fun s k => (!s.useLaneFlags k) = true :=
    fun _ _ _ hs => by simp only [same_useFlag hs]
  apply LaneView.Local.ite huse (hc fun _ => false)
  apply LaneView.Local.ite (fun _ _ _ _ => rfl) (hc fun _ => false)
  apply LaneView.Local.ite (fun _ _ _ _ => rfl) (hc fun _ => bit imm 12)
  apply LaneView.Local.ite (fun _ _ _ _ => rfl) (hc fun c => bit c 31)
  apply LaneView.Local.ite (fun _ _ _ _ => rfl) (hc fun c => c ≠ 0)
  apply LaneView.Local.ite (fun _ _ _ _ => rfl) (hc fun c => !bit c 31)
  apply LaneView.Local.ite (fun _ _ _ _ => rfl) (hc fun c => c = 0)
  exact .skip

theorem sfpsetcc_eq (s : Sfpu) :
    sfpsetcc s imm = if fieldVd imm ≥ 12 then s else s.lanewise (setccLane imm) := rfl

theorem sfpsetcc_lanewise : Lanewise (sfpsetcc · imm) := by
  simp only [sfpsetcc_eq]
  exact .ite .skip (.of_local (setccLane_local imm))

theorem sfpswap_lanewise : Lanewise (sfpswap · imm) := by
  have hd : lanes.Local fun s k => s.setLreg (fieldVd imm) k (s.lreg (fieldVc imm) k) :=
    setLreg_local (fun _ _ _ _ => rfl) fun _ _ _ hs => same_lreg hs _
  have hold : lanes.Own fun s k => s.lreg (fieldVd imm) k := fun _ _ _ hs => same_lreg hs _
  refine .ite .skip (.of_local (.ite (fun _ _ _ hs => by simp only [same_lreg hs]) ?_ .skip))
  apply LaneView.Local.bind hold hd (g := fun d s k =>
    if lregWritable (fieldVc imm) then s.setLreg (fieldVc imm) k d else s)
  intro d
  exact .ite (fun _ _ _ _ => rfl) (setLreg_local (fun _ _ _ _ => rfl) fun _ _ _ _ => rfl) .skip

theorem setVd_local (vd : ℕ) {x : Sfpu → ℕ → Word} (hx : lanes.Own x) :
    lanes.Local fun s k => if lregWritable vd then s.setLreg vd k (x s k) else s :=
  .ite (fun _ _ _ _ => rfl) (setLreg_local (fun _ _ _ _ => rfl) hx) .skip

theorem advancePrng_own : lanes.Own fun s k => (advancePrng s k).1 := fun _ _ _ hs => same_prng hs

def stochRounded (imm random x : Word) : Word :=
  let rndMode := bits imm 21 0x7
  let mod1 := (imm &&& 0xF).toNat
  let prngBits : Word :=
    if rndMode = 0 then 0x400000 else if rndMode = 2 then 0x7fffff else random &&& 0x7fffff
  let exp := bits x 23 0xFF
  if mod1 > 1 then x
  else if exp = 0 then 0
  else if exp = 0xFF then x &&& 0xff800000
  else if mod1 = 0 then roundMantissa x 0x1fff (prngBits >>> 10) 0x2000
  else roundMantissa x 0xffff (prngBits >>> 7) 0x10000

def stochLane (imm : Word) (s : Sfpu) (k : ℕ) : Sfpu :=
  if lregWritable (fieldVd imm) then
    ((advancePrng s k).2).setLreg (fieldVd imm) k
      (stochRounded imm (advancePrng s k).1 (((advancePrng s k).2).lreg (fieldVc imm) k))
  else (advancePrng s k).2

theorem stochLane_local (imm : Word) : lanes.Local (stochLane imm) := by
  apply LaneView.Local.bind advancePrng_own advancePrng_local
    (g := fun random s k => if lregWritable (fieldVd imm) then
      s.setLreg (fieldVd imm) k (stochRounded imm random (s.lreg (fieldVc imm) k)) else s)
  intro random
  apply setVd_local
  intro _ _ _ hs
  simp only [same_lreg hs]

theorem sfpstochrnd_eq (s : Sfpu) (imm : Word) :
    sfpstochrnd s imm = if fieldVd imm ≥ 12 then s else s.lanewise (stochLane imm) := rfl

theorem sfpstochrnd_lanewise : Lanewise (sfpstochrnd · imm) := .ite .skip (.of_local (stochLane_local imm))

def movSource (imm : Word) (s : Sfpu) (k : ℕ) : Word × Sfpu :=
  if bit imm 3 then (if fieldVc imm = 9 then advancePrng s k else (0, s))
  else (if bit imm 0 then s.lreg (fieldVc imm) k ^^^ 0x80000000 else s.lreg (fieldVc imm) k, s)

theorem movSource_own : lanes.Own fun s k => (movSource imm s k).1 := by
  intro s s' k hs
  dsimp only [movSource]
  split_ifs
  · exact advancePrng_own hs
  · rfl
  · simp only [same_lreg hs]
  · exact same_lreg hs _

theorem movSource_local : lanes.Local fun s k => (movSource imm s k).2 := by
  unfold movSource
  split_ifs
  · exact advancePrng_local
  · exact .skip
  · exact .skip
  · exact .skip

theorem sfpmov_eq (h : imm &&& 0xF ≠ 2) (s : Sfpu) : sfpmov s imm =
    if fieldVd imm ≥ 12 then s
    else s.lanewise fun s k =>
      if lregWritable (fieldVd imm) then (movSource imm s k).2.setLreg (fieldVd imm) k (movSource imm s k).1
      else (movSource imm s k).2 := by
  unfold sfpmov Sfpu.lanewise
  apply if_congr Iff.rfl rfl
  apply forRange_congr
  intro k _ s
  cases s.laneEnabled k with
  | false => rw [if_pos (by simpa using h), if_neg Bool.false_ne_true]
  | true => rfl

theorem sfpmov_lanewise (h : imm &&& 0xF ≠ 2) : Lanewise (sfpmov · imm) := by
  simp only [sfpmov_eq imm h]
  have hset (x : Word) : lanes.Local fun s k =>
      if lregWritable (fieldVd imm) then s.setLreg (fieldVd imm) k x else s :=
    setVd_local (fieldVd imm) fun _ _ _ _ => rfl
  exact .ite .skip (.of_local (.bind (movSource_own imm) (movSource_local imm) hset))

theorem topFlags_own (dflt : Bool) : lanes.Own fun s k => s.topFlags k dflt := by
  intro s s' k hs
  have hframe := same_frames hs s'.flagStackTop
  simp only [Sfpu.topFlags, same_top hs, hframe.1, hframe.2]

def pushLane (mod1 : ℕ) (s : Sfpu) (lane : ℕ) : Sfpu :=
  if s.flagStackTop < 0 then s
  else if mod1 = 0 then s.setTop lane (s.useLaneFlags lane) (s.laneFlags lane)
  else if mod1 ≤ 12 then
    s.setTop lane (s.useLaneFlags lane)
      (booleanOp mod1 ((s.flagStack s.flagStackTop).laneFlags lane) (s.laneFlags lane))
  else if mod1 = 13 then
    let s := s.setLaneFlag lane (!s.laneFlags lane)
    s.setTop lane (s.useLaneFlags lane) (s.laneFlags lane)
  else s.setTop lane true (mod1 = 14)

theorem pushLane_local (mod1 : ℕ) : lanes.Local (pushLane mod1) := by
  have huse : lanes.Own fun s k => s.useLaneFlags k := fun _ _ _ hs => same_useFlag hs
  have hflag : lanes.Own fun s k => s.laneFlags k := fun _ _ _ hs => same_flag hs
  apply LaneView.Local.ite (fun _ _ _ hs => by rw [same_top hs]) .skip
  apply LaneView.Local.ite (fun _ _ _ _ => rfl) (setTop_local huse hflag)
  apply LaneView.Local.ite (fun _ _ _ _ => rfl)
  · apply setTop_local huse
    intro s s' k hs
    dsimp only
    rw [same_top hs, (same_frames hs _).2, same_flag hs]
  apply LaneView.Local.ite (fun _ _ _ _ => rfl)
  · exact (setTop_local huse hflag).comp (setLaneFlag_local fun _ _ _ hs => by rw [same_flag hs])
  · exact setTop_local (fun _ _ _ _ => rfl) fun _ _ _ _ => rfl

theorem pushLane_lreg (mod1 : ℕ) (s : Sfpu) (k : ℕ) : (pushLane mod1 s k).lreg = s.lreg := by
  unfold pushLane
  dsimp only
  split_ifs <;> rfl

def pushTop (mod1 : ℕ) (s : Sfpu) : Sfpu :=
  if mod1 = 0 ∧ s.flagStackTop < flagStackDepth - 1 then { s with flagStackTop := s.flagStackTop + 1 } else s

theorem sfppushc_eq (s : Sfpu) : sfppushc s imm =
    if fieldVd imm ≥ 12 then s
    else forRange lregLanes (pushTop (imm &&& 0xF).toNat s) (pushLane (imm &&& 0xF).toNat) := rfl

theorem pushTop_laneAt (mod1 : ℕ) (s : Sfpu) (k : ℕ) : (pushTop mod1 s).laneAt k = s.laneAt k := by
  unfold pushTop
  split_ifs <;> rfl

theorem pushTop_same {s s' : Sfpu} {k : ℕ} (mod1 : ℕ) (hs : SameLane s s' k) :
    SameLane (pushTop mod1 s) (pushTop mod1 s') k := by
  refine ⟨?_, ?_⟩
  · change (pushTop mod1 s).flagStackTop = (pushTop mod1 s').flagStackTop
    unfold pushTop
    rw [same_top hs]
    split_ifs
    · rfl
    · exact same_top hs
  · change (pushTop mod1 s).laneAt k = (pushTop mod1 s').laneAt k
    rw [pushTop_laneAt, pushTop_laneAt, same_laneAt hs]

theorem sfppushc_lanewise : Lanewise (sfppushc · imm) := by
  simp only [sfppushc_eq]
  refine .ite .skip (.of_flags_after (pushLane_local _) (pushLane_lreg _) (pushTop_same _) ?_)
  intro s
  funext r k
  exact congrFun (congrArg Lane.lreg (pushTop_laneAt _ s k)) r

def popLane (mod1 : ℕ) (s : Sfpu) (lane : ℕ) : Sfpu :=
  let top := s.topFlags lane false
  if mod1 = 0 then (s.setUseLaneFlag lane top.1).setLaneFlag lane top.2
  else if mod1 ≤ 12 then
    (s.setUseLaneFlag lane top.1).setLaneFlag lane (booleanOp mod1 (s.laneFlags lane) top.2)
  else if mod1 = 13 then s.setLaneFlag lane (!s.laneFlags lane)
  else (s.setUseLaneFlag lane true).setLaneFlag lane (mod1 = 14)

theorem setFlags_local {u b : Sfpu → ℕ → Bool} (hu : lanes.Own u) (hb : lanes.Own b) :
    lanes.Local fun s k => (s.setUseLaneFlag k (u s k)).setLaneFlag k (b s k) :=
  .bind hb (setUseLaneFlag_local hu) fun b => setLaneFlag_local (b := fun _ _ => b) fun _ _ _ _ => rfl

theorem popLane_local (mod1 : ℕ) : lanes.Local (popLane mod1) := by
  have huse : lanes.Own fun s k => (s.topFlags k false).1 :=
    fun _ _ _ hs => congrArg Prod.fst (topFlags_own false hs)
  have hflag : lanes.Own fun s k => (s.topFlags k false).2 :=
    fun _ _ _ hs => congrArg Prod.snd (topFlags_own false hs)
  have hop : lanes.Own fun s k => booleanOp mod1 (s.laneFlags k) (s.topFlags k false).2 :=
    fun _ _ _ hs => congrArg₂ (booleanOp mod1) (same_flag hs) (hflag hs)
  apply LaneView.Local.ite (fun _ _ _ _ => rfl) (setFlags_local huse hflag)
  apply LaneView.Local.ite (fun _ _ _ _ => rfl) (setFlags_local huse hop)
  apply LaneView.Local.ite (fun _ _ _ _ => rfl)
  · exact setLaneFlag_local fun _ _ _ hs => by rw [same_flag hs]
  · exact setFlags_local (fun _ _ _ _ => rfl) fun _ _ _ _ => rfl

theorem popLane_lreg (mod1 : ℕ) (s : Sfpu) (k : ℕ) : (popLane mod1 s k).lreg = s.lreg := by
  unfold popLane
  dsimp only
  split_ifs <;> rfl

def popTop (mod1 : ℕ) (s : Sfpu) : Sfpu :=
  if mod1 = 0 ∧ s.flagStackTop ≥ 0 then { s with flagStackTop := s.flagStackTop - 1 } else s

theorem popTop_laneAt (mod1 : ℕ) (s : Sfpu) (k : ℕ) : (popTop mod1 s).laneAt k = s.laneAt k := by
  unfold popTop
  split_ifs <;> rfl

theorem sfppopc_eq (s : Sfpu) : sfppopc s imm =
    popTop (imm &&& 0xF).toNat (if fieldVd imm ≥ 12 then s
      else forRange lregLanes s (popLane (imm &&& 0xF).toNat)) := rfl

theorem sfppopc_lanewise : Lanewise (sfppopc · imm) := by
  simp only [sfppopc_eq]
  exact Lanewise.before (.ite .skip (.of_flags (popLane_local _) (popLane_lreg _))) (popTop_laneAt _)

theorem sfpencc_lanewise : Lanewise (sfpencc · imm) := by
  refine .ite .skip (.of_flags ?_ ?_)
  · have hflag : lanes.Local fun s k => s.setLaneFlag k (if bit imm 3 then bit imm 13 else true) :=
      setLaneFlag_local fun _ _ _ _ => rfl
    have huse : lanes.Local fun s k =>
        if bit imm 1 then s.setUseLaneFlag k (bit imm 12)
        else if bit imm 0 then s.setUseLaneFlag k (!s.useLaneFlags k) else s :=
      .ite (fun _ _ _ _ => rfl) (setUseLaneFlag_local fun _ _ _ _ => rfl)
        (.ite (fun _ _ _ _ => rfl) (setUseLaneFlag_local fun _ _ _ hs => by rw [same_useFlag hs]) .skip)
    exact hflag.comp huse
  · intro s k
    dsimp only
    split_ifs <;> rfl

def compLane (s : Sfpu) (lane : ℕ) : Sfpu :=
  let top := s.topFlags lane true
  s.setLaneFlag lane (if top.1 && s.useLaneFlags lane then top.2 && !s.laneFlags lane else false)

theorem sfpcompc_eq (s : Sfpu) :
    sfpcompc s imm = if fieldVd imm ≥ 12 then s else forRange lregLanes s compLane := rfl

theorem sfpcompc_lanewise : Lanewise (sfpcompc · imm) := by
  simp only [sfpcompc_eq]
  refine .ite .skip (.of_flags (setLaneFlag_local fun s s' k hs => ?_) fun _ _ => rfl)
  have htop : s.topFlags k true = s'.topFlags k true := topFlags_own true hs
  rw [htop, same_useFlag hs, same_flag hs]

end instructions

end Rv32Emu
