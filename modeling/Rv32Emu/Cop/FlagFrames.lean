import Mathlib.Tactic.SplitIfs
import Rv32Emu.Cop.Predication

namespace Rv32Emu

structure Predication where
  flags : ℕ → Bool
  useFlags : ℕ → Bool
  stack : ℤ → FlagFrame
  top : ℤ

def Sfpu.predication (s : Sfpu) : Predication := ⟨s.laneFlags, s.useLaneFlags, s.flagStack, s.flagStackTop⟩

def InsnImpl.touchesFlags (impl : InsnImpl) (imm : Word) : Bool :=
  match impl with
  | .sfpsetcc | .sfppushc | .sfpencc | .sfpcompc => fieldVd imm < 12
  | .sfppopc => true
  | .sfpexexp => fieldVd imm < 8 && (bit imm 1 || bit imm 3)
  | .sfpiadd => fieldVd imm < 8 && (!bit imm 2 || bit imm 3)
  | _ => false

section scalar

variable (tt : Tensix) (imm : Word) (tid : Tid) (mopCfg : ℕ → Word)

theorem flipBanks_sfpu (a b : Bool) : (tt.flipBanks a b).sfpu = tt.sfpu := by
  cases a <;> cases b <;> rfl

theorem skipZeroedSrcb_sfpu : (skipZeroedSrcb tt).sfpu = tt.sfpu := by
  unfold skipZeroedSrcb
  dsimp only
  split <;> rfl

theorem ttmvmul_sfpu : (ttmvmul tt mopCfg imm tid).2.sfpu = tt.sfpu := by
  unfold ttmvmul
  dsimp only
  split
  · rfl
  · split
    · rfl
    · rw [applyAddrMod_sfpu, flipBanks_sfpu]
      exact skipZeroedSrcb_sfpu tt

theorem ttmova2d_sfpu : (ttmova2d tt imm tid).2.sfpu = tt.sfpu := by
  unfold ttmova2d
  dsimp only
  split
  · rfl
  · rw [applyAddrMod_sfpu]

theorem elementwise_sfpu (value : Word → Word → Word → Word) :
    (elementwise tt imm tid value).2.sfpu = tt.sfpu := by
  unfold elementwise
  dsimp only
  split
  · rfl
  · split
    · rfl
    · rw [applyAddrMod_sfpu, flipBanks_sfpu]

theorem ttelwmul_sfpu : (ttelwmul tt imm tid).2.sfpu = tt.sfpu := by
  unfold ttelwmul
  apply elementwise_sfpu

theorem ttelwadd_sfpu : (ttelwadd tt imm tid).2.sfpu = tt.sfpu := by
  unfold ttelwadd
  apply elementwise_sfpu

theorem ttelwsub_sfpu : (ttelwsub tt imm tid).2.sfpu = tt.sfpu := by
  unfold ttelwsub
  apply elementwise_sfpu

theorem ttgmpool_sfpu : (ttgmpool tt imm tid).2.sfpu = tt.sfpu := by
  unfold ttgmpool
  dsimp only
  split
  · rfl
  · rw [applyAddrMod_sfpu, flipBanks_sfpu]

theorem ttgapool_sfpu : (ttgapool tt imm tid).2.sfpu = tt.sfpu := by
  unfold ttgapool
  dsimp only
  split
  · rfl
  · rw [applyAddrMod_sfpu, flipBanks_sfpu]

theorem ttsetrwc_sfpu : (ttsetrwc tt imm tid).2.sfpu = tt.sfpu := by
  unfold ttsetrwc
  dsimp only
  split
  · rfl
  · split
    · rfl
    · rw [flipBanks_sfpu]
      rfl

theorem ttcleardvalid_sfpu : (ttcleardvalid tt imm).sfpu = tt.sfpu := by
  unfold ttcleardvalid
  dsimp only
  split
  · rfl
  · rw [flipBanks_sfpu]

theorem ttzeroacc_sfpu : (ttzeroacc tt imm tid).sfpu = tt.sfpu := by
  unfold ttzeroacc
  dsimp only
  split_ifs <;> rfl

theorem unpackLoop_sfpu (u : UnpackPlan) : (unpackLoop tt u).sfpu = tt.sfpu := by
  unfold unpackLoop
  repeat' split
  all_goals rfl

theorem releaseSrc_sfpu (whichUnp : Bool) : (releaseSrc tt whichUnp).sfpu = tt.sfpu := by
  cases whichUnp <;> rfl

theorem ttunpacr_sfpu : (ttunpacr tt imm tid).2.sfpu = tt.sfpu := by
  unfold ttunpacr
  dsimp only
  repeat' split
  all_goals first | rfl | exact unpackLoop_sfpu tt _

theorem ttunpacrNop_sfpu : (ttunpacrNop tt imm).2.sfpu = tt.sfpu := by
  unfold ttunpacrNop
  dsimp only
  repeat' split
  all_goals first | rfl | exact (releaseSrc_sfpu _ _).trans rfl

theorem setDmaHalf_sfpu (half : ℕ) (v : Word) : (setDmaHalf tt tid half v).sfpu = tt.sfpu := by
  unfold setDmaHalf
  split <;> rfl

theorem dmaAlu_sfpu (op : Word → Word → Word) : (dmaAlu tt imm tid op).sfpu = tt.sfpu := by
  unfold dmaAlu
  dsimp only
  split <;> rfl

theorem ttsetdmareg_sfpu : (ttsetdmareg tt imm tid).sfpu = tt.sfpu := by
  unfold ttsetdmareg
  dsimp only
  split_ifs
  · apply setDmaHalf_sfpu
  · apply setDmaHalf_sfpu
  · rfl
  · rfl
  · apply forRange_frame
    intro tt i
    split <;> rfl
  · rfl
  · rfl

theorem ttwrcfg_sfpu : ∃ prng, (ttwrcfg tt imm tid).sfpu = { tt.sfpu with prngState := prng } := by
  unfold ttwrcfg
  dsimp only
  split_ifs
  · refine ⟨tt.sfpu.prngState, ?_⟩
    apply forRange_frame
    intro tt i
    split <;> rfl
  · exact ⟨_, rfl⟩
  · exact ⟨tt.sfpu.prngState, rfl⟩
  · exact ⟨tt.sfpu.prngState, rfl⟩

theorem rmwcibCommon_sfpu (byteOffset : ℕ) : (rmwcibCommon tt imm byteOffset).sfpu = tt.sfpu := by
  unfold rmwcibCommon
  dsimp only
  split
  · rfl
  · split <;> rfl

theorem ttsetdvalid_sfpu : (ttsetdvalid tt imm).sfpu = tt.sfpu := by
  unfold ttsetdvalid
  dsimp only
  repeat' split
  all_goals rfl

theorem ttstorereg_sfpu : (ttstorereg tt imm tid).sfpu = tt.sfpu := by
  unfold ttstorereg
  dsimp only
  repeat' split
  all_goals rfl

theorem ttloadreg_sfpu : (ttloadreg tt imm tid).sfpu = tt.sfpu := by
  unfold ttloadreg
  dsimp only
  repeat' split
  all_goals rfl

theorem ttrdcfg_sfpu : (ttrdcfg tt imm tid).sfpu = tt.sfpu := by
  unfold ttrdcfg
  dsimp only
  split <;> rfl

theorem ttsetc16_sfpu : (ttsetc16 tt imm tid).sfpu = tt.sfpu := by
  unfold ttsetc16
  dsimp only
  split <;> rfl

theorem ttcfgshiftmask_sfpu : (ttcfgshiftmask tt imm tid).sfpu = tt.sfpu := by
  unfold ttcfgshiftmask
  dsimp only
  split <;> rfl

theorem ttatgetm_sfpu : (ttatgetm tt imm tid).sfpu = tt.sfpu := by
  unfold ttatgetm
  split <;> rfl

theorem ttatrelm_sfpu : (ttatrelm tt imm tid).sfpu = tt.sfpu := by
  unfold ttatrelm
  split <;> rfl

theorem ttpacr_sfpu : (ttpacr tt imm tid).sfpu = tt.sfpu := by
  unfold ttpacr
  rfl

theorem tttrnspsrcb_sfpu : (tttrnspsrcb tt).sfpu = tt.sfpu := by
  unfold tttrnspsrcb
  rfl

theorem runCoreImpl_scalar {impl : InsnImpl} (h : impl.isVector = false) :
    ∃ prng, (runCoreImpl impl tt mopCfg imm tid).2.sfpu = { tt.sfpu with prngState := prng } := by
  have keep {tt' : Tensix} (hs : tt'.sfpu = tt.sfpu) : ∃ prng, tt'.sfpu =
      { tt.sfpu with prngState := prng } :=
    ⟨tt.sfpu.prngState, hs⟩
  cases impl with
  | ttwrcfg => exact ttwrcfg_sfpu tt imm tid
  | ttmvmul => exact keep (ttmvmul_sfpu tt imm tid mopCfg)
  | ttmova2d => exact keep (ttmova2d_sfpu tt imm tid)
  | ttelwmul => exact keep (ttelwmul_sfpu tt imm tid)
  | ttelwadd => exact keep (ttelwadd_sfpu tt imm tid)
  | ttelwsub => exact keep (ttelwsub_sfpu tt imm tid)
  | ttgmpool => exact keep (ttgmpool_sfpu tt imm tid)
  | ttgapool => exact keep (ttgapool_sfpu tt imm tid)
  | ttsetrwc => exact keep (ttsetrwc_sfpu tt imm tid)
  | ttunpacr => exact keep (ttunpacr_sfpu tt imm tid)
  | ttunpacrNop => exact keep (ttunpacrNop_sfpu tt imm)
  | ttmovd2a | ttmovd2b | ttmovb2a | ttmovb2d => exact keep (applyAddrMod_sfpu _ _ tid)
  | ttzeroacc => exact keep (ttzeroacc_sfpu tt imm tid)
  | ttcleardvalid => exact keep (ttcleardvalid_sfpu tt imm)
  | ttsetdmareg => exact keep (ttsetdmareg_sfpu tt imm tid)
  | ttadddmareg | ttsubdmareg | ttmuldmareg | ttbitwopdmareg | ttshiftdmareg | ttcmpdmareg =>
    exact keep (dmaAlu_sfpu tt imm tid _)
  | ttrmwcib0 | ttrmwcib1 | ttrmwcib2 | ttrmwcib3 => exact keep (rmwcibCommon_sfpu tt imm _)
  | ttsetdvalid => exact keep (ttsetdvalid_sfpu tt imm)
  | ttstorereg => exact keep (ttstorereg_sfpu tt imm tid)
  | ttloadreg => exact keep (ttloadreg_sfpu tt imm tid)
  | ttrdcfg => exact keep (ttrdcfg_sfpu tt imm tid)
  | ttsetc16 => exact keep (ttsetc16_sfpu tt imm tid)
  | ttcfgshiftmask => exact keep (ttcfgshiftmask_sfpu tt imm tid)
  | ttatgetm => exact keep (ttatgetm_sfpu tt imm tid)
  | ttatrelm => exact keep (ttatrelm_sfpu tt imm tid)
  | ttpacr => exact keep (ttpacr_sfpu tt imm tid)
  | tttrnspsrcb => exact keep (tttrnspsrcb_sfpu tt)
  | _ => first | exact Bool.noConfusion h | exact keep rfl

end scalar

section vector

variable (s : Sfpu) (imm : Word)

theorem lanewise_frame {β : Type} (read : Sfpu → β) {f : Sfpu → ℕ → Sfpu} (h : ∀ s k, read (f s k) = read s) :
    read (s.lanewise f) = read s := by
  apply forRange_frame read
  intro s k
  split
  · exact h s k
  · rfl

theorem forRange_predication {f : Sfpu → ℕ → Sfpu} (n : ℕ) (h : ∀ s k, (f s k).predication = s.predication) :
    (forRange n s f).predication = s.predication :=
  forRange_frame Sfpu.predication n s h

theorem lanewise_predication {f : Sfpu → ℕ → Sfpu} (h : ∀ s k, (f s k).predication = s.predication) :
    (s.lanewise f).predication = s.predication :=
  lanewise_frame s Sfpu.predication h

theorem sfpResult_predication (f : Sfpu → ℕ → Word) : (sfpResult s imm f).predication = s.predication := by
  unfold sfpResult
  dsimp only
  split
  · exact lanewise_predication s fun _ _ => rfl
  · rfl

theorem sfploadi_predication : (sfploadi s imm).predication = s.predication := by
  unfold sfploadi
  dsimp only
  split
  · rfl
  · exact lanewise_predication s fun _ _ => rfl

theorem storeIndirect_predication (k : ℕ) (x : Word) :
    (storeIndirect s imm k x).predication = s.predication := by
  unfold storeIndirect
  dsimp only
  split <;> rfl

theorem sfpmuli_predication : (sfpmuli s imm).predication = s.predication :=
  lanewise_predication s fun s k => storeIndirect_predication s imm k _

theorem sfpaddi_predication : (sfpaddi s imm).predication = s.predication :=
  lanewise_predication s fun s k => storeIndirect_predication s imm k _

theorem sfpMadCommon_predication : (sfpMadCommon s imm).predication = s.predication := by
  unfold sfpMadCommon
  split
  · rfl
  · exact lanewise_predication s fun s k => storeIndirect_predication s imm k _

theorem sfplutfp32_predication : (sfplutfp32 s imm).predication = s.predication := by
  unfold sfplutfp32
  dsimp only
  split
  · rfl
  · exact lanewise_predication s fun s k => storeIndirect_predication s imm k _

theorem movSource_predication (k : ℕ) : (movSource imm s k).2.predication = s.predication := by
  unfold movSource
  split_ifs <;> rfl

theorem sfpmov_predication : (sfpmov s imm).predication = s.predication := by
  unfold sfpmov
  dsimp only
  split
  · rfl
  · apply forRange_predication
    intro s k
    split
    · rfl
    · split
      · exact movSource_predication s imm k
      · exact movSource_predication s imm k

theorem sfpstochrnd_predication : (sfpstochrnd s imm).predication = s.predication := by
  unfold sfpstochrnd
  dsimp only
  split
  · rfl
  · apply lanewise_predication
    intro s k
    split <;> rfl

theorem sfpswap_predication : (sfpswap s imm).predication = s.predication := by
  unfold sfpswap
  dsimp only
  split
  · rfl
  · apply lanewise_predication
    intro s k
    split_ifs <;> rfl

theorem sfpconfig_predication : (sfpconfig s imm).predication = s.predication := by
  unfold sfpconfig
  dsimp only
  split
  · exact forRange_predication s _ fun _ _ => rfl
  · rfl

theorem transpStep_predication (a b p q : ℕ) : (transpStep a b p q s).predication = s.predication := by
  unfold transpStep
  dsimp only
  split_ifs <;> rfl

theorem sfptransp_predication : (sfptransp s imm).predication = s.predication := by
  rw [sfptransp_eq]
  split
  · rfl
  · apply forRange_predication
    intro s half
    apply forRange_predication
    intro s col
    apply forRange_predication
    intro s i
    apply forRange_predication
    intro s j
    exact transpStep_predication s _ _ _ _

theorem signFlags_idle (k : ℕ) (x : Word) : signFlags s k false false x = s := rfl

theorem sfpexexp_predication (h : InsnImpl.touchesFlags .sfpexexp imm = false) :
    (sfpexexp s imm).predication = s.predication := by
  unfold sfpexexp
  dsimp only
  split
  · rfl
  · apply lanewise_predication
    intro s k
    split
    · next h8 =>
      simp only [InsnImpl.touchesFlags, h8, decide_true, Bool.true_and, Bool.or_eq_false_iff] at h
      rw [h.1, h.2, signFlags_idle]
      rfl
    · rfl

theorem sfpiadd_predication (h : InsnImpl.touchesFlags .sfpiadd imm = false) :
    (sfpiadd s imm).predication = s.predication := by
  unfold sfpiadd
  dsimp only
  split
  · rfl
  · apply lanewise_predication
    intro s k
    split
    · next h8 =>
      simp only [InsnImpl.touchesFlags, h8, decide_true, Bool.true_and, Bool.or_eq_false_iff] at h
      rw [h.1, h.2, signFlags_idle]
      rfl
    · rfl

theorem sfpload_predication (tt : Tensix) (tid : Tid) :
    (sfpload tt imm tid).sfpu.predication = tt.sfpu.predication := by
  rw [sfpload_sfpu]
  split
  · rfl
  · apply forRange_predication
    intro s k
    unfold loadLane
    split <;> rfl

end vector

theorem runCoreImpl_predication {impl : InsnImpl} (tt : Tensix) (mopCfg : ℕ → Word) (imm : Word) (tid : Tid)
    (h : impl.touchesFlags imm = false) :
    (runCoreImpl impl tt mopCfg imm tid).2.sfpu.predication = tt.sfpu.predication := by
  cases hv : impl.isVector with
  | false =>
    obtain ⟨prng, hs⟩ := runCoreImpl_scalar tt imm tid mopCfg hv
    rw [hs]
    rfl
  | true =>
    -- a flag instruction that does not touch the flags is one with VD from 12 on
    have idle {F : Sfpu} (hvd : decide (fieldVd imm < 12) = false) :
        (if fieldVd imm ≥ 12 then tt.sfpu else F).predication = tt.sfpu.predication := by
      rw [if_pos (Nat.le_of_not_lt (of_decide_eq_false hvd))]
    have vector {F : Sfpu} (hF : F.predication = tt.sfpu.predication) :
        (tt.setSfpu F).sfpu.predication = tt.sfpu.predication := hF
    cases impl with
    | sfppopc => exact Bool.noConfusion h
    | sfpsetcc | sfppushc | sfpencc | sfpcompc => exact idle h
    | sfpexexp => exact vector (sfpexexp_predication tt.sfpu imm h)
    | sfpiadd => exact vector (sfpiadd_predication tt.sfpu imm h)
    | sfpload => exact sfpload_predication imm tt tid
    | sfpstore => exact congrArg Sfpu.predication (sfpstore_sfpu tt imm tid)
    | sfploadi => exact vector (sfploadi_predication tt.sfpu imm)
    | sfpmuli => exact vector (sfpmuli_predication tt.sfpu imm)
    | sfpaddi => exact vector (sfpaddi_predication tt.sfpu imm)
    | sfpmad | sfpadd | sfpmul => exact vector (sfpMadCommon_predication tt.sfpu imm)
    | sfplutfp32 => exact vector (sfplutfp32_predication tt.sfpu imm)
    | sfpmov => exact vector (sfpmov_predication tt.sfpu imm)
    | sfpstochrnd => exact vector (sfpstochrnd_predication tt.sfpu imm)
    | sfpswap => exact vector (sfpswap_predication tt.sfpu imm)
    | sfpconfig => exact vector (sfpconfig_predication tt.sfpu imm)
    | sfptransp => exact vector (sfptransp_predication tt.sfpu imm)
    | sfpexman | sfpshft | sfpabs | sfpand | sfpor | sfpnot | sfpsetexp | sfpsetsgn | sfpxor | sfpcast
    | sfparecip =>
      exact vector (sfpResult_predication tt.sfpu imm _)
    | _ => first | exact Bool.noConfusion hv | rfl

end Rv32Emu
