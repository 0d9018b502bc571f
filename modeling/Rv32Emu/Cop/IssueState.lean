import Rv32Emu.Cop.Verdict

namespace Rv32Emu

structure IssueState where
  srcaDvalid : Bank → Bool
  srcbDvalid : Bank → Bool
  srcbZeroed : Bank → Bool
  unpSrcaBank : Bank
  unpSrcbBank : Bank
  mathSrcaBank : Bank
  mathSrcbBank : Bank
  destDvalid : Bool
  sem : Fin 8 → Word
  semMax : Fin 8 → Word
  hasL1 : Bool
  ch0X : Word × Word
  ch1X : Word × Word

def Tensix.issueState (tt : Tensix) : IssueState where
  srcaDvalid := tt.srcaDvalid
  srcbDvalid := tt.srcbDvalid
  srcbZeroed := tt.srcbZeroed
  unpSrcaBank := tt.unpSrcaBank
  unpSrcbBank := tt.unpSrcbBank
  mathSrcaBank := tt.mathSrcaBank
  mathSrcbBank := tt.mathSrcbBank
  destDvalid := tt.destDvalid
  sem := tt.sem
  semMax := tt.semMax
  hasL1 := tt.mem.l1Scratchpad.isSome
  ch0X := ((tt.adc 1).ch0X, (tt.adc 1).ch0XCr)
  ch1X := ((tt.adc 1).ch1X, (tt.adc 1).ch1XCr)

namespace IssueState

def srcaReady (s : IssueState) : Bool := s.srcaDvalid s.mathSrcaBank

def srcbReady (s : IssueState) : Bool := s.srcbDvalid s.mathSrcbBank

def flipBanks (s : IssueState) (a b : Bool) : IssueState :=
  let s := if a then
      { s with
        srcaDvalid := Function.update s.srcaDvalid s.mathSrcaBank false, mathSrcaBank := s.mathSrcaBank + 1 }
    else s
  if b then
    { s with
      srcbDvalid := Function.update s.srcbDvalid s.mathSrcbBank false, mathSrcbBank := s.mathSrcbBank + 1 }
  else s

def flipField (s : IssueState) (imm : Word) : IssueState :=
  s.flipBanks (bit (bits imm 22 0x3) 0) (bit (bits imm 22 0x3) 1)

def releaseSrca (s : IssueState) : IssueState :=
  { s with srcaDvalid := Function.update s.srcaDvalid s.unpSrcaBank true, unpSrcaBank := s.unpSrcaBank + 1 }

def releaseSrcb (s : IssueState) : IssueState :=
  { s with srcbDvalid := Function.update s.srcbDvalid s.unpSrcbBank true, unpSrcbBank := s.unpSrcbBank + 1 }

def skipZeroedSrcb (s : IssueState) : IssueState :=
  if s.srcbZeroed s.mathSrcbBank && s.srcbDvalid (s.mathSrcbBank + 1) &&
    !s.srcbZeroed (s.mathSrcbBank + 1) then
    { s with
      srcbDvalid := Function.update s.srcbDvalid s.mathSrcbBank false
      srcbZeroed := Function.update s.srcbZeroed s.mathSrcbBank false
      mathSrcbBank := s.mathSrcbBank + 1 }
  else s

def unpacksSrcb (s : IssueState) : Bool := s.hasL1 && s.ch0X.1.toNat < (s.ch1X.1 + 1).toNat

def unpacr (s : IssueState) (imm : Word) : Bool × IssueState :=
  if bit imm 1 then (true, s)
  else if bits imm 13 0x3 ≠ 0 then (true, s)
  else if !bit imm 23 && s.srcaDvalid s.unpSrcaBank then (false, s)
  else if bit imm 23 && s.srcbDvalid s.unpSrcbBank then (false, s)
  else
    let s := if bit imm 23 && s.unpacksSrcb then
        { s with srcbZeroed := Function.update s.srcbZeroed s.unpSrcbBank false }
      else s
    (true, if !bit imm 6 then s else if bit imm 23 then s.releaseSrcb else s.releaseSrca)

def zerosrcBusy (s : IssueState) (whichUnp waitLikeUnpacr : Bool) : Bool :=
  if whichUnp then s.srcbDvalid (if waitLikeUnpacr then s.unpSrcbBank else s.mathSrcbBank)
  else s.srcaDvalid (if waitLikeUnpacr then s.unpSrcaBank else s.mathSrcaBank)

def unpacrNop (s : IssueState) (imm : Word) : Bool × IssueState :=
  let release := fun s : IssueState => if bit imm 23 then s.releaseSrcb else s.releaseSrca
  if imm &&& 0x3 = 0x1 then
    if s.zerosrcBusy (bit imm 23) (bit imm 4) then (false, s)
    else
      let s := if bit imm 23 then
          { s with srcbZeroed := fun b => if bit imm 3 ∨ b = s.unpSrcbBank then true else s.srcbZeroed b }
        else s
      (true, if bits imm 8 0xF ≠ 0 then release s else s)
  else if imm &&& 0x7 = 0x7 then (true, release s)
  else (true, s)

def setrwc (s : IssueState) (imm : Word) : Bool × IssueState :=
  let clearAbVld := bits imm 22 0x3
  if bit clearAbVld 0 && !s.srcaReady then (false, s)
  else if bit clearAbVld 1 && !s.srcbReady then (false, s)
  else (true, s.flipBanks (bit clearAbVld 0 && s.srcaReady) (bit clearAbVld 1 && s.srcbReady))

def cleardvalid (s : IssueState) (imm : Word) : IssueState :=
  if bit imm 0 then
    { s with
      srcaDvalid := fun _ => false, srcbDvalid := fun _ => false
      unpSrcaBank := 0, unpSrcbBank := 0, mathSrcaBank := 0, mathSrcbBank := 0, destDvalid := false }
  else s.flipField imm

def setdvalid (s : IssueState) (imm : Word) : IssueState :=
  let s := if bit imm 0 then s.releaseSrca else s
  if bit imm 1 then s.releaseSrcb else s

def mapX (s : IssueState) (imm : Word) (rule : CounterRule) : IssueState :=
  if bit (bits imm 21 0x7) 1 then
    { s with ch0X := rule 0 s.ch0X.1 s.ch0X.2, ch1X := rule 2 s.ch1X.1 s.ch1X.2 }
  else s

end IssueState

def issueImpl (impl : InsnImpl) (imm : Word) (tid : Tid) (s : IssueState) : Bool × IssueState :=
  match impl with
  | .ttmvmul =>
    if !s.srcaReady then (false, s) else if !s.srcbReady then (false, s)
      else (true, s.skipZeroedSrcb.flipField imm)
  | .ttelwmul | .ttelwadd | .ttelwsub =>
    if !s.srcaReady then (false, s) else if !s.srcbReady then (false, s) else (true, s.flipField imm)
  | .ttgmpool | .ttgapool => if !s.srcaReady then (false, s) else (true, s.flipField imm)
  | .ttmova2d => if !s.srcaReady then (false, s) else (true, s)
  | .ttsetrwc => s.setrwc imm
  | .ttunpacr => s.unpacr imm
  | .ttunpacrNop => s.unpacrNop imm
  | .ttmovd2a | .ttmovb2a => (true, { s with srcaDvalid := Function.update s.srcaDvalid s.mathSrcaBank true })
  | .ttmovd2b => (true, { s with srcbDvalid := Function.update s.srcbDvalid s.mathSrcbBank true })
  | .ttcleardvalid => (true, s.cleardvalid imm)
  | .ttsetdvalid => (true, s.setdvalid imm)
  | .ttseminit =>
    (true, { s with
      sem := fun i => if semSelected imm i then bits imm 16 0xF else s.sem i
      semMax := fun i => if semSelected imm i then bits imm 20 0xF else s.semMax i })
  | .ttsempost =>
    (true, { s with
      sem := fun i => if semSelected imm i ∧ (s.sem i).toNat < 15 then s.sem i + 1 else s.sem i
      destDvalid := if tid = 1 then true else s.destDvalid })
  | .ttsemget =>
    (true, { s with
      sem := fun i => if semSelected imm i ∧ (s.sem i).toNat > 0 then s.sem i - 1 else s.sem i })
  | .ttsetadcxy => (true, s.mapX imm (setRule imm))
  | .ttincadcxy => (true, s.mapX imm (incRule imm))
  | .ttaddrcrxy => (true, s.mapX imm (crRule imm))
  | .ttsetadc =>
    let k := if bit imm 20 then 2 else 0
    (true, if bits imm 18 0x3 = 0 then
        s.mapX imm fun j ctr cr => if j = k then (imm &&& 0x3FFFF, imm &&& 0x3FFFF) else (ctr, cr)
      else s)
  | .ttsetadcxx =>
    (true, s.mapX imm fun j _ _ => if j = 0 then (imm &&& 0x3FF, imm &&& 0x3FF)
      else (bits imm 10 0x3FF, bits imm 10 0x3FF))
  | _ => (true, s)

section units

variable (tt : Tensix) (imm : Word) (tid : Tid)

def seen (r : Bool × Tensix) : Bool × IssueState := (r.1, r.2.issueState)

theorem seen_mk (ok : Bool) (tt : Tensix) : seen (ok, tt) = (ok, tt.issueState) := rfl

theorem seen_ite (p : Prop) [Decidable p] (r r' : Bool × Tensix) :
    seen (if p then r else r') = if p then seen r else seen r' := apply_ite seen p r r'

theorem issueState_ite (p : Prop) [Decidable p] (tt tt' : Tensix) :
    (if p then tt else tt').issueState = if p then tt.issueState else tt'.issueState :=
  apply_ite Tensix.issueState p tt tt'

theorem flipBanks_issue (a b : Bool) : (tt.flipBanks a b).issueState = tt.issueState.flipBanks a b := by
  cases a <;> cases b <;> rfl

theorem releaseSrc_issue (whichUnp : Bool) :
    (releaseSrc tt whichUnp).issueState = if whichUnp then tt.issueState.releaseSrcb
      else tt.issueState.releaseSrca := by
  cases whichUnp <;> rfl

theorem applyAddrMod_issue (modIdx : Word) : (applyAddrMod tt modIdx tid).issueState = tt.issueState := by
  unfold applyAddrMod
  split <;> rfl

theorem skipZeroedSrcb_issue : (skipZeroedSrcb tt).issueState = tt.issueState.skipZeroedSrcb := by
  unfold skipZeroedSrcb IssueState.skipZeroedSrcb
  dsimp only
  rw [issueState_ite]
  rfl

theorem ttmvmul_issue (mopCfg : ℕ → Word) :
    seen (ttmvmul tt mopCfg imm tid) = issueImpl .ttmvmul imm tid tt.issueState := by
  unfold ttmvmul
  dsimp only
  rw [seen_ite, seen_ite, seen_mk, seen_mk, applyAddrMod_issue, flipBanks_issue]
  dsimp only [issueImpl, IssueState.flipField]
  rw [← skipZeroedSrcb_issue]
  rfl

theorem elementwise_issue (value : Word → Word → Word → Word) :
    seen (elementwise tt imm tid value) = issueImpl .ttelwmul imm tid tt.issueState := by
  unfold elementwise
  dsimp only
  rw [seen_ite, seen_ite, seen_mk, seen_mk, applyAddrMod_issue, flipBanks_issue]
  rfl

theorem ttelwmul_issue : seen (ttelwmul tt imm tid) = issueImpl .ttelwmul imm tid tt.issueState := by
  unfold ttelwmul
  apply elementwise_issue

theorem ttelwadd_issue : seen (ttelwadd tt imm tid) = issueImpl .ttelwmul imm tid tt.issueState := by
  unfold ttelwadd
  apply elementwise_issue

theorem ttelwsub_issue : seen (ttelwsub tt imm tid) = issueImpl .ttelwmul imm tid tt.issueState := by
  unfold ttelwsub
  apply elementwise_issue

theorem ttgmpool_issue : seen (ttgmpool tt imm tid) = issueImpl .ttgmpool imm tid tt.issueState := by
  unfold ttgmpool
  dsimp only
  rw [seen_ite, seen_mk, seen_mk, applyAddrMod_issue, flipBanks_issue]
  rfl

theorem ttgapool_issue : seen (ttgapool tt imm tid) = issueImpl .ttgapool imm tid tt.issueState := by
  unfold ttgapool
  dsimp only
  rw [seen_ite, seen_mk, seen_mk, applyAddrMod_issue, flipBanks_issue]
  rfl

theorem ttmova2d_issue : seen (ttmova2d tt imm tid) = issueImpl .ttmova2d imm tid tt.issueState := by
  unfold ttmova2d
  dsimp only
  rw [seen_ite, seen_mk, seen_mk, applyAddrMod_issue]
  rfl

theorem ttsetrwc_issue : seen (ttsetrwc tt imm tid) = issueImpl .ttsetrwc imm tid tt.issueState := by
  unfold ttsetrwc
  dsimp only
  rw [seen_ite, seen_ite, seen_mk, seen_mk, flipBanks_issue]
  rfl

theorem ttcleardvalid_issue : (ttcleardvalid tt imm).issueState = tt.issueState.cleardvalid imm := by
  unfold ttcleardvalid
  dsimp only
  rw [issueState_ite, flipBanks_issue]
  rfl

theorem ttsetdvalid_issue : (ttsetdvalid tt imm).issueState = tt.issueState.setdvalid imm := by
  unfold ttsetdvalid IssueState.setdvalid
  cases bit imm 0 <;> cases bit imm 1 <;> rfl

theorem unpackAddrMod_issue (i : Fin 3) (addrMode : Word) :
    (tt.setAdc i (unpackAddrMod (tt.adc i) addrMode)).issueState = tt.issueState := by
  by_cases hi : i = 1
  · subst hi
    simp only [Tensix.issueState, Tensix.setAdc, Function.update_self, unpackAddrMod]
  · simp only [Tensix.issueState, Tensix.setAdc, Function.update_of_ne (Ne.symm hi)]

theorem unpackLoop_srca {u : UnpackPlan} (h : u.whichUnp = false) :
    (unpackLoop tt u).issueState = tt.issueState := by
  unfold unpackLoop
  rw [h]
  split
  · rfl
  · rw [issueState_ite, if_neg Bool.false_ne_true, issueState_ite]
    split_ifs <;> rfl

def datumCount (xPos xEnd : Word) : Word :=
  let numDatums := if xEnd.toNat > xPos.toNat then xEnd - xPos else 0
  if numDatums.toNat > 1024 then 1024 else numDatums

theorem datumCount_eq_zero_iff (xPos xEnd : Word) : datumCount xPos xEnd = 0 ↔ ¬xPos.toNat < xEnd.toNat := by
  unfold datumCount
  dsimp only
  by_cases hlt : xPos.toNat < xEnd.toNat
  · have hne : xEnd - xPos ≠ 0 := by
      intro h0
      have heq : xEnd = xPos := by bv_omega
      exact absurd hlt (by rw [heq]; exact lt_irrefl _)
    rw [if_pos hlt]
    split_ifs
    · simp [hlt]
    · exact iff_of_false hne (not_not_intro hlt)
  · simp [hlt]

theorem numDatums_eq_zero_iff (h : bit imm 23 = true) :
    (unpackPlan tt imm tid).numDatums = 0 ↔ ¬(tt.adc 1).ch0X.toNat < ((tt.adc 1).ch1X + 1).toNat := by
  have hadc : tt.adc (unpAdc (bit imm 23)) = tt.adc 1 := by
    rw [h]
    rfl
  have hn : (unpackPlan tt imm tid).numDatums =
      datumCount (tt.adc (unpAdc (bit imm 23))).ch0X ((tt.adc (unpAdc (bit imm 23))).ch1X + 1) := rfl
  rw [hn, hadc, datumCount_eq_zero_iff]

theorem unpackLoop_issue :
    (unpackLoop tt (unpackPlan tt imm tid)).issueState =
      if bit imm 23 && tt.issueState.unpacksSrcb then
        { tt.issueState with
          srcbZeroed := Function.update tt.issueState.srcbZeroed tt.issueState.unpSrcbBank false }
      else tt.issueState := by
  cases h : bit imm 23 with
  | false => exact unpackLoop_srca tt h
  | true =>
    have hw : (unpackPlan tt imm tid).whichUnp = true := h
    have hn := numDatums_eq_zero_iff tt imm tid h
    have hx : tt.issueState.unpacksSrcb =
        (tt.mem.l1Scratchpad.isSome && decide ((tt.adc 1).ch0X.toNat < ((tt.adc 1).ch1X + 1).toNat)) := rfl
    rw [hx, Bool.true_and]
    unfold unpackLoop
    split
    · next hl =>
      rw [hl]
      rfl
    · next l1 hl =>
      rw [hl, Option.isSome_some, Bool.true_and, hw]
      by_cases hlt : (tt.adc 1).ch0X.toNat < ((tt.adc 1).ch1X + 1).toNat
      · rw [if_neg (mt hn.mp (not_not_intro hlt)), if_pos rfl, if_pos (decide_eq_true hlt)]
        rfl
      · rw [if_pos (hn.mpr hlt), if_neg (mt of_decide_eq_true hlt)]

theorem handOver_issue (p q : Bool) (b : Bank) :
    (if !p then tt else if q then releaseSrcb tt
      else { releaseSrca tt with lastUnpSrcaBank := b }).issueState =
      if !p then tt.issueState else if q then tt.issueState.releaseSrcb else tt.issueState.releaseSrca := by
  rw [issueState_ite, issueState_ite]
  rfl

theorem ttunpacr_issue : seen (ttunpacr tt imm tid) = tt.issueState.unpacr imm := by
  unfold ttunpacr
  dsimp only
  simp only [seen_ite, seen_mk]
  rw [unpackAddrMod_issue, handOver_issue, unpackLoop_issue]
  rfl

theorem ttunpacrNop_issue : seen (ttunpacrNop tt imm) = tt.issueState.unpacrNop imm := by
  unfold ttunpacrNop IssueState.unpacrNop
  dsimp only
  simp only [seen_ite, seen_mk, issueState_ite, releaseSrc_issue]
  rfl

theorem setAdcs_issue (adc : Fin 3 → AddrCtrl) :
    ({ tt with adc := adc } : Tensix).issueState =
      { tt.issueState with
        ch0X := ((adc 1).ch0X, (adc 1).ch0XCr), ch1X := ((adc 1).ch1X, (adc 1).ch1XCr) } := rfl

theorem forAdcs_one (f : AddrCtrl → AddrCtrl) :
    (forAdcs tt imm f).adc 1 = if bit (bits imm 21 0x7) 1 then f (tt.adc 1) else tt.adc 1 := rfl

theorem forAdcs_issue {f : AddrCtrl → AddrCtrl} {rule : CounterRule}
    (h₀ : ∀ a, ((f a).ch0X, (f a).ch0XCr) = rule 0 a.ch0X a.ch0XCr)
    (h₁ : ∀ a, ((f a).ch1X, (f a).ch1XCr) = rule 2 a.ch1X a.ch1XCr) :
    (forAdcs tt imm f).issueState = tt.issueState.mapX imm rule := by
  refine (setAdcs_issue tt (forAdcs tt imm f).adc).trans ?_
  unfold IssueState.mapX
  rw [forAdcs_one]
  cases bit (bits imm 21 0x7) 1 with
  | false => rfl
  | true =>
    rw [if_pos rfl, if_pos rfl, h₀, h₁]
    rfl

theorem forAdcs_mapZw (rule : CounterRule) : (forAdcs tt imm (mapZw rule)).issueState = tt.issueState := by
  refine (setAdcs_issue tt (forAdcs tt imm (mapZw rule)).adc).trans ?_
  rw [forAdcs_one]
  cases bit (bits imm 21 0x7) 1 <;> rfl

theorem mapXy_issue (rule : CounterRule) :
    (forAdcs tt imm (mapXy rule)).issueState = tt.issueState.mapX imm rule :=
  forAdcs_issue tt imm (fun _ => rfl) fun _ => rfl

theorem ttsetadc_issue : seen (true, ttsetadc tt imm) = issueImpl .ttsetadc imm tid tt.issueState := by
  have hlt : (bits imm 18 0x3).toNat < 4 := by
    have h : (bits imm 18 0x3).toNat ≤ (0x3 : Word).toNat := by
      rw [bits, BitVec.toNat_and]
      exact Nat.and_le_right
    exact Nat.lt_succ_of_le h
  have hzero : bits imm 18 0x3 = 0 ↔ (bits imm 18 0x3).toNat = 0 := by
    rw [← BitVec.toNat_inj]
    rfl
  unfold ttsetadc issueImpl
  dsimp only
  rw [seen_mk]
  simp only [hzero]
  generalize (bits imm 18 0x3).toNat = xyzw at hlt
  obtain rfl | rfl | hxyzw : xyzw = 0 ∨ xyzw = 1 ∨ 2 ≤ xyzw := by omega
  · rw [if_pos (by decide), mapXy_issue, if_pos rfl]
    rfl
  · -- the Y counters
    rw [if_pos (by decide), mapXy_issue, if_neg Nat.one_ne_zero]
    unfold IssueState.mapX
    cases bit imm 20 <;> cases bit (bits imm 21 0x7) 1 <;> rfl
  · rw [if_neg (by omega), forAdcs_mapZw, if_neg (by omega)]

theorem setDmaReg_issue (i : ℕ) (w : Word) : (tt.setDmaReg tid i w).issueState = tt.issueState := rfl

theorem setDmaHalf_issue (half : ℕ) (v : Word) : (setDmaHalf tt tid half v).issueState = tt.issueState := by
  unfold setDmaHalf
  split <;> rfl

theorem ttsetdmareg_issue : (ttsetdmareg tt imm tid).issueState = tt.issueState := by
  unfold ttsetdmareg
  dsimp only
  split_ifs
  · apply setDmaHalf_issue
  · apply setDmaHalf_issue
  · rfl
  · rfl
  · apply forRange_frame
    intro tt i
    split <;> rfl
  · rw [setDmaReg_issue, setDmaReg_issue, setDmaReg_issue]
  · rfl

theorem tensixWriteCfg_l1 (mem : TensixMemory) (idx : ℕ) (w : Word) :
    (mem.tensixWriteCfg idx w).l1Scratchpad = mem.l1Scratchpad := by
  unfold TensixMemory.tensixWriteCfg
  split
  · split <;> rfl
  · rfl

theorem setMem_issue {mem : TensixMemory} (offset : Word) (h : mem.l1Scratchpad = tt.mem.l1Scratchpad) :
    ({ tt with mem := mem, packL1WriteOffset := offset } : Tensix).issueState = tt.issueState := by
  simp only [Tensix.issueState, h]

theorem writeCfg_issue (idx : ℕ) (w : Word) : (writeCfg tt idx w).issueState = tt.issueState :=
  setMem_issue tt _ (tensixWriteCfg_l1 tt.mem idx w)

theorem ttwrcfg_issue : (ttwrcfg tt imm tid).issueState = tt.issueState := by
  unfold ttwrcfg
  dsimp only
  split_ifs
  · apply forRange_frame
    intro tt i
    split
    · exact writeCfg_issue tt _ _
    · rfl
  · refine Eq.trans ?_ (writeCfg_issue tt (imm &&& 0x7FFF).toNat (tt.dmaReg tid (bits imm 16 0x3F).toNat))
    rfl
  · exact writeCfg_issue tt _ _
  · rfl

theorem rmwcibCommon_issue (byteOffset : ℕ) :
    (rmwcibCommon tt imm byteOffset).issueState = tt.issueState := by
  unfold rmwcibCommon
  dsimp only
  split
  · rfl
  · split <;> rfl

theorem ttcfgshiftmask_issue : (ttcfgshiftmask tt imm tid).issueState = tt.issueState := by
  unfold ttcfgshiftmask
  dsimp only
  split
  · rfl
  · exact setMem_issue tt tt.packL1WriteOffset (tensixWriteCfg_l1 tt.mem _ _)

theorem dmaAlu_issue (op : Word → Word → Word) : (dmaAlu tt imm tid op).issueState = tt.issueState := by
  unfold dmaAlu
  dsimp only
  split <;> rfl

theorem ttrdcfg_issue : (ttrdcfg tt imm tid).issueState = tt.issueState := by
  unfold ttrdcfg
  dsimp only
  split <;> rfl

theorem ttsetc16_issue : (ttsetc16 tt imm tid).issueState = tt.issueState := by
  unfold ttsetc16
  dsimp only
  split <;> rfl

theorem ttstorereg_issue : (ttstorereg tt imm tid).issueState = tt.issueState := by
  unfold ttstorereg
  dsimp only
  split
  · split <;> rfl
  · rfl

theorem ttloadreg_issue : (ttloadreg tt imm tid).issueState = tt.issueState := by
  unfold ttloadreg
  dsimp only
  split
  · rfl
  · split <;> rfl

theorem ttatgetm_issue : (ttatgetm tt imm tid).issueState = tt.issueState := by
  unfold ttatgetm
  split <;> rfl

theorem ttatrelm_issue : (ttatrelm tt imm tid).issueState = tt.issueState := by
  unfold ttatrelm
  split <;> rfl

theorem setDest_issue (g : Grid) : ({ tt with dest := g } : Tensix).issueState = tt.issueState := rfl

theorem ttzeroacc_issue : (ttzeroacc tt imm tid).issueState = tt.issueState := by
  unfold ttzeroacc
  dsimp only
  split_ifs
  · rfl
  all_goals exact setDest_issue tt _

theorem tttrnspsrcb_issue : (tttrnspsrcb tt).issueState = tt.issueState := by
  unfold tttrnspsrcb
  rfl

theorem setSfpu_issue (sfpu : Sfpu) : (tt.setSfpu sfpu).issueState = tt.issueState := rfl

theorem ttpacr_issue : (ttpacr tt imm tid).issueState = tt.issueState := by
  simp [Tensix.issueState, ttpacr]

end units

theorem runCoreImpl_issue (impl : InsnImpl) (tt : Tensix) (mopCfg : ℕ → Word) (imm : Word) (tid : Tid) :
    seen (runCoreImpl impl tt mopCfg imm tid) = issueImpl impl imm tid tt.issueState := by
  have frame {tt' : Tensix} (h : tt'.issueState = tt.issueState) : seen (true, tt') =
      (true, tt.issueState) := by
    rw [seen_mk, h]
  cases impl with
  | ttmvmul => exact ttmvmul_issue tt imm tid mopCfg
  | ttmova2d => exact ttmova2d_issue tt imm tid
  | ttelwmul => exact ttelwmul_issue tt imm tid
  | ttelwadd => exact ttelwadd_issue tt imm tid
  | ttelwsub => exact ttelwsub_issue tt imm tid
  | ttgmpool => exact ttgmpool_issue tt imm tid
  | ttgapool => exact ttgapool_issue tt imm tid
  | ttsetrwc => exact ttsetrwc_issue tt imm tid
  | ttunpacr => exact ttunpacr_issue tt imm tid
  | ttunpacrNop => exact ttunpacrNop_issue tt imm
  | ttmovd2a => exact congrArg (Prod.mk true) (applyAddrMod_issue _ tid _)
  | ttmovd2b => exact congrArg (Prod.mk true) (applyAddrMod_issue _ tid _)
  | ttmovb2a => exact congrArg (Prod.mk true) (applyAddrMod_issue _ tid _)
  | ttmovb2d => exact frame (applyAddrMod_issue _ tid _)
  | sfpload => exact frame (applyAddrMod_issue _ tid _)
  | sfpstore => exact frame (applyAddrMod_issue _ tid _)
  | ttcleardvalid => exact congrArg (Prod.mk true) (ttcleardvalid_issue tt imm)
  | ttsetdvalid => exact congrArg (Prod.mk true) (ttsetdvalid_issue tt imm)
  | ttsetadcxy => exact congrArg (Prod.mk true) (mapXy_issue tt imm _)
  | ttincadcxy => exact congrArg (Prod.mk true) (mapXy_issue tt imm _)
  | ttaddrcrxy => exact congrArg (Prod.mk true) (mapXy_issue tt imm _)
  | ttsetadc => exact ttsetadc_issue tt imm tid
  | ttsetadcxx => exact congrArg (Prod.mk true) (forAdcs_issue tt imm (fun _ => rfl) fun _ => rfl)
  | ttsetadczw => exact frame (forAdcs_mapZw tt imm _)
  | ttincadczw => exact frame (forAdcs_mapZw tt imm _)
  | ttaddrcrzw => exact frame (forAdcs_mapZw tt imm _)
  | ttpacr => exact frame (ttpacr_issue tt imm tid)
  | ttsetdmareg => exact frame (ttsetdmareg_issue tt imm tid)
  | ttzeroacc => exact frame (ttzeroacc_issue tt imm tid)
  | tttrnspsrcb => exact frame (tttrnspsrcb_issue tt)
  | ttadddmareg => exact frame (dmaAlu_issue tt imm tid _)
  | ttsubdmareg => exact frame (dmaAlu_issue tt imm tid _)
  | ttmuldmareg => exact frame (dmaAlu_issue tt imm tid _)
  | ttbitwopdmareg => exact frame (dmaAlu_issue tt imm tid _)
  | ttshiftdmareg => exact frame (dmaAlu_issue tt imm tid _)
  | ttcmpdmareg => exact frame (dmaAlu_issue tt imm tid _)
  | ttstorereg => exact frame (ttstorereg_issue tt imm tid)
  | ttloadreg => exact frame (ttloadreg_issue tt imm tid)
  | ttatgetm => exact frame (ttatgetm_issue tt imm tid)
  | ttatrelm => exact frame (ttatrelm_issue tt imm tid)
  | ttwrcfg => exact frame (ttwrcfg_issue tt imm tid)
  | ttrdcfg => exact frame (ttrdcfg_issue tt imm tid)
  | ttsetc16 => exact frame (ttsetc16_issue tt imm tid)
  | ttrmwcib0 => exact frame (rmwcibCommon_issue tt imm _)
  | ttrmwcib1 => exact frame (rmwcibCommon_issue tt imm _)
  | ttrmwcib2 => exact frame (rmwcibCommon_issue tt imm _)
  | ttrmwcib3 => exact frame (rmwcibCommon_issue tt imm _)
  | ttcfgshiftmask => exact frame (ttcfgshiftmask_issue tt imm tid)
  | sfpmuli => exact frame (setSfpu_issue tt _)
  | sfpaddi => exact frame (setSfpu_issue tt _)
  | _ => rfl

end Rv32Emu
