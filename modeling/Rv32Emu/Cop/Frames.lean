import Rv32Emu.Cop.Verdict

namespace Rv32Emu

def Tensix.own (tt : Tensix) (j : Tid) : (ℕ → Word) × (ℕ → Word) × Rwc :=
  (tt.thdReg j, tt.dmaReg j, tt.rwc j)

def Tensix.others (tid : Tid) (tt : Tensix) : { j : Tid // j ≠ tid } → (ℕ → Word) × (ℕ → Word) × Rwc :=
  fun j => tt.own j

structure Beyond (tid : Tid) where
  sem : Fin 8 → Word
  semMax : Fin 8 → Word
  mutex : Fin 8 → Word
  others : { j : Tid // j ≠ tid } → (ℕ → Word) × (ℕ → Word) × Rwc

def Tensix.beyond (tid : Tid) (tt : Tensix) : Beyond tid := ⟨tt.sem, tt.semMax, tt.mutex, tt.others tid⟩

section units

variable (tt : Tensix) (imm : Word) (tid : Tid) (mopCfg : ℕ → Word)

theorem setRwc_beyond (r : Rwc) : (tt.setRwc tid r).beyond tid = tt.beyond tid := by
  have h : (tt.setRwc tid r).others tid = tt.others tid := by
    funext j
    simp only [Tensix.others, Tensix.own, Tensix.setRwc, Function.update_of_ne j.2]
  simp only [Tensix.beyond, h]
  rfl

theorem setThdReg_beyond (i : ℕ) (w : Word) : (tt.setThdReg tid i w).beyond tid = tt.beyond tid := by
  have h : (tt.setThdReg tid i w).others tid = tt.others tid := by
    funext j
    simp only [Tensix.others, Tensix.own, Tensix.setThdReg, Function.update_of_ne j.2]
  simp only [Tensix.beyond, h]
  rfl

theorem setDmaReg_beyond (i : ℕ) (w : Word) : (tt.setDmaReg tid i w).beyond tid = tt.beyond tid := by
  have h : (tt.setDmaReg tid i w).others tid = tt.others tid := by
    funext j
    simp only [Tensix.others, Tensix.own, Tensix.setDmaReg, Function.update_of_ne j.2]
  simp only [Tensix.beyond, h]
  rfl

theorem applyAddrMod_beyond (modIdx : Word) : (applyAddrMod tt modIdx tid).beyond tid = tt.beyond tid := by
  unfold applyAddrMod
  split
  · rfl
  · exact setRwc_beyond tt tid _

theorem flipBanks_beyond (a b : Bool) : (tt.flipBanks a b).beyond tid = tt.beyond tid := by
  cases a <;> cases b <;> rfl

theorem skipZeroedSrcb_beyond : (skipZeroedSrcb tt).beyond tid = tt.beyond tid := by
  unfold skipZeroedSrcb
  dsimp only
  split <;> rfl

theorem ttmvmul_beyond : (ttmvmul tt mopCfg imm tid).2.beyond tid = tt.beyond tid := by
  unfold ttmvmul
  dsimp only
  split
  · rfl
  · split
    · rfl
    · rw [applyAddrMod_beyond, flipBanks_beyond]
      exact skipZeroedSrcb_beyond tt tid

theorem ttmova2d_beyond : (ttmova2d tt imm tid).2.beyond tid = tt.beyond tid := by
  unfold ttmova2d
  dsimp only
  split
  · rfl
  · rw [applyAddrMod_beyond]
    rfl

theorem elementwise_beyond (value : Word → Word → Word → Word) :
    (elementwise tt imm tid value).2.beyond tid = tt.beyond tid := by
  unfold elementwise
  dsimp only
  split
  · rfl
  · split
    · rfl
    · rw [applyAddrMod_beyond, flipBanks_beyond]
      rfl

theorem ttelwmul_beyond : (ttelwmul tt imm tid).2.beyond tid = tt.beyond tid := by
  unfold ttelwmul
  apply elementwise_beyond

theorem ttelwadd_beyond : (ttelwadd tt imm tid).2.beyond tid = tt.beyond tid := by
  unfold ttelwadd
  apply elementwise_beyond

theorem ttelwsub_beyond : (ttelwsub tt imm tid).2.beyond tid = tt.beyond tid := by
  unfold ttelwsub
  apply elementwise_beyond

theorem ttgmpool_beyond : (ttgmpool tt imm tid).2.beyond tid = tt.beyond tid := by
  unfold ttgmpool
  dsimp only
  split
  · rfl
  · rw [applyAddrMod_beyond, flipBanks_beyond]
    rfl

theorem ttgapool_beyond : (ttgapool tt imm tid).2.beyond tid = tt.beyond tid := by
  unfold ttgapool
  dsimp only
  split
  · rfl
  · rw [applyAddrMod_beyond, flipBanks_beyond]
    rfl

theorem ttsetrwc_beyond : (ttsetrwc tt imm tid).2.beyond tid = tt.beyond tid := by
  unfold ttsetrwc
  dsimp only
  split
  · rfl
  · split
    · rfl
    · rw [flipBanks_beyond]
      exact setRwc_beyond tt tid _

theorem setDest_beyond (g : Grid) : ({ tt with dest := g } : Tensix).beyond tid = tt.beyond tid := rfl

theorem ttzeroacc_beyond : (ttzeroacc tt imm tid).beyond tid = tt.beyond tid := by
  unfold ttzeroacc
  dsimp only
  split_ifs
  · rfl
  all_goals exact setDest_beyond tt tid _

theorem ttcleardvalid_beyond : (ttcleardvalid tt imm).beyond tid = tt.beyond tid := by
  unfold ttcleardvalid
  dsimp only
  split
  · rfl
  · rw [flipBanks_beyond]

theorem unpackLoop_beyond (u : UnpackPlan) : (unpackLoop tt u).beyond tid = tt.beyond tid := by
  unfold unpackLoop
  repeat' split
  all_goals rfl

theorem releaseSrc_beyond (whichUnp : Bool) : (releaseSrc tt whichUnp).beyond tid = tt.beyond tid := by
  cases whichUnp <;> rfl

theorem ttunpacr_beyond : (ttunpacr tt imm tid).2.beyond tid = tt.beyond tid := by
  unfold ttunpacr
  dsimp only
  repeat' split
  all_goals first | rfl | exact unpackLoop_beyond tt tid _

theorem ttunpacrNop_beyond : (ttunpacrNop tt imm).2.beyond tid = tt.beyond tid := by
  unfold ttunpacrNop
  dsimp only
  repeat' split
  all_goals first | rfl | exact (releaseSrc_beyond _ tid _).trans rfl

theorem setDmaHalf_beyond (half : ℕ) (v : Word) : (setDmaHalf tt tid half v).beyond tid = tt.beyond tid := by
  unfold setDmaHalf
  split
  · exact setDmaReg_beyond tt tid _ _
  · rfl

theorem dmaAlu_beyond (op : Word → Word → Word) : (dmaAlu tt imm tid op).beyond tid = tt.beyond tid := by
  unfold dmaAlu
  dsimp only
  split
  · exact setDmaReg_beyond tt tid _ _
  · rfl

theorem ttsetdmareg_beyond : (ttsetdmareg tt imm tid).beyond tid = tt.beyond tid := by
  unfold ttsetdmareg
  dsimp only
  split_ifs
  · apply setDmaHalf_beyond
  · apply setDmaHalf_beyond
  · apply setDmaReg_beyond
  · rfl
  · apply forRange_frame
    intro tt i
    split
    · exact setDmaReg_beyond tt tid _ _
    · rfl
  · rw [setDmaReg_beyond, setDmaReg_beyond, setDmaReg_beyond]
  · rfl

theorem ttwrcfg_beyond : (ttwrcfg tt imm tid).beyond tid = tt.beyond tid := by
  unfold ttwrcfg
  dsimp only
  split_ifs
  · apply forRange_frame
    intro tt i
    split <;> rfl
  · rfl
  · rfl
  · rfl

theorem rmwcibCommon_beyond (byteOffset : ℕ) :
    (rmwcibCommon tt imm byteOffset).beyond tid = tt.beyond tid := by
  unfold rmwcibCommon
  dsimp only
  split
  · rfl
  · split <;> rfl

theorem ttsetdvalid_beyond : (ttsetdvalid tt imm).beyond tid = tt.beyond tid := by
  unfold ttsetdvalid
  dsimp only
  repeat' split
  all_goals rfl

theorem ttstorereg_beyond : (ttstorereg tt imm tid).beyond tid = tt.beyond tid := by
  unfold ttstorereg
  dsimp only
  repeat' split
  all_goals rfl

theorem ttloadreg_beyond : (ttloadreg tt imm tid).beyond tid = tt.beyond tid := by
  unfold ttloadreg
  dsimp only
  repeat' split
  all_goals first | rfl | exact setDmaReg_beyond tt tid _ _

theorem ttrdcfg_beyond : (ttrdcfg tt imm tid).beyond tid = tt.beyond tid := by
  unfold ttrdcfg
  dsimp only
  split
  · exact setDmaReg_beyond tt tid _ _
  · rfl

theorem ttsetc16_beyond : (ttsetc16 tt imm tid).beyond tid = tt.beyond tid := by
  unfold ttsetc16
  dsimp only
  split
  · exact setThdReg_beyond tt tid _ _
  · rfl

theorem ttcfgshiftmask_beyond : (ttcfgshiftmask tt imm tid).beyond tid = tt.beyond tid := by
  unfold ttcfgshiftmask
  dsimp only
  split <;> rfl

theorem ttatgetm_others : (ttatgetm tt imm tid).others tid = tt.others tid := by
  unfold ttatgetm
  split <;> rfl

theorem ttatrelm_others : (ttatrelm tt imm tid).others tid = tt.others tid := by
  unfold ttatrelm
  split <;> rfl

theorem setSfpu_beyond (sfpu : Sfpu) : (tt.setSfpu sfpu).beyond tid = tt.beyond tid := rfl

theorem ttpacr_beyond : (ttpacr tt imm tid).beyond tid = tt.beyond tid := by
  unfold ttpacr
  rfl

theorem tttrnspsrcb_beyond : (tttrnspsrcb tt).beyond tid = tt.beyond tid := by
  unfold tttrnspsrcb
  rfl

end units

theorem runCoreImpl_beyond {impl : InsnImpl} (tt : Tensix) (mopCfg : ℕ → Word) (imm : Word) (tid : Tid)
    (hi : impl ≠ .ttseminit) (hp : impl ≠ .ttsempost) (hg : impl ≠ .ttsemget) (ha : impl ≠ .ttatgetm)
    (hr : impl ≠ .ttatrelm) : (runCoreImpl impl tt mopCfg imm tid).2.beyond tid = tt.beyond tid := by
  cases impl with
  | ttseminit => exact absurd rfl hi
  | ttsempost => exact absurd rfl hp
  | ttsemget => exact absurd rfl hg
  | ttatgetm => exact absurd rfl ha
  | ttatrelm => exact absurd rfl hr
  | ttmvmul => exact ttmvmul_beyond tt imm tid mopCfg
  | ttmova2d => exact ttmova2d_beyond tt imm tid
  | ttelwmul => exact ttelwmul_beyond tt imm tid
  | ttelwadd => exact ttelwadd_beyond tt imm tid
  | ttelwsub => exact ttelwsub_beyond tt imm tid
  | ttgmpool => exact ttgmpool_beyond tt imm tid
  | ttgapool => exact ttgapool_beyond tt imm tid
  | ttsetrwc => exact ttsetrwc_beyond tt imm tid
  | ttincrwc => exact setRwc_beyond tt tid _
  | ttunpacr => exact ttunpacr_beyond tt imm tid
  | ttunpacrNop => exact ttunpacrNop_beyond tt imm tid
  | ttmovd2a => exact applyAddrMod_beyond _ tid _
  | ttmovd2b => exact applyAddrMod_beyond _ tid _
  | ttmovb2a => exact applyAddrMod_beyond _ tid _
  | ttmovb2d => exact applyAddrMod_beyond _ tid _
  | sfpload => exact applyAddrMod_beyond _ tid _
  | sfpstore => exact applyAddrMod_beyond _ tid _
  | ttzeroacc => exact ttzeroacc_beyond tt imm tid
  | ttcleardvalid => exact ttcleardvalid_beyond tt imm tid
  | ttsetdmareg => exact ttsetdmareg_beyond tt imm tid
  | ttwrcfg => exact ttwrcfg_beyond tt imm tid
  | ttadddmareg => exact dmaAlu_beyond tt imm tid _
  | ttsubdmareg => exact dmaAlu_beyond tt imm tid _
  | ttmuldmareg => exact dmaAlu_beyond tt imm tid _
  | ttbitwopdmareg => exact dmaAlu_beyond tt imm tid _
  | ttshiftdmareg => exact dmaAlu_beyond tt imm tid _
  | ttcmpdmareg => exact dmaAlu_beyond tt imm tid _
  | ttrmwcib0 => exact rmwcibCommon_beyond tt imm tid _
  | ttrmwcib1 => exact rmwcibCommon_beyond tt imm tid _
  | ttrmwcib2 => exact rmwcibCommon_beyond tt imm tid _
  | ttrmwcib3 => exact rmwcibCommon_beyond tt imm tid _
  | ttsetdvalid => exact ttsetdvalid_beyond tt imm tid
  | ttstorereg => exact ttstorereg_beyond tt imm tid
  | ttloadreg => exact ttloadreg_beyond tt imm tid
  | ttrdcfg => exact ttrdcfg_beyond tt imm tid
  | ttsetc16 => exact ttsetc16_beyond tt imm tid
  | ttcfgshiftmask => exact ttcfgshiftmask_beyond tt imm tid
  | ttpacr => exact ttpacr_beyond tt imm tid
  | tttrnspsrcb => exact tttrnspsrcb_beyond tt tid
  | sfpmuli => exact setSfpu_beyond tt tid _
  | sfpaddi => exact setSfpu_beyond tt tid _
  | _ => rfl

end Rv32Emu
