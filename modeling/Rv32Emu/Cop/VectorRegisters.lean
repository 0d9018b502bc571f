import Rv32Emu.Cop.FlagFrames
import Rv32Emu.Cop.History

namespace Rv32Emu

def Configures (insn : Word) (r : ℕ) : Prop :=
  insnImpl insn = .sfpconfig ∧ fieldVd (tensixInsnParam insn) = r ∧ 11 ≤ r ∧ r ≤ 14

section registers

variable {r : ℕ} (hr : lregWritable r = false) (s : Sfpu) (imm : Word)

include hr

theorem setLreg_writable {vd : ℕ} (hvd : lregWritable vd = true) (k : ℕ) (x : Word) :
    (s.setLreg vd k x).lreg r = s.lreg r := by
  have hne : r ≠ vd := by
    rintro rfl
    exact Bool.noConfusion (hr.symm.trans hvd)
  funext j
  exact if_neg fun h => hne h.1

theorem setLreg_below {vd : ℕ} (hvd : vd < 8) (k : ℕ) (x : Word) : (s.setLreg vd k x).lreg r = s.lreg r :=
  setLreg_writable hr s (by simp [lregWritable, hvd]) k x

theorem setLreg_guarded (vd k : ℕ) (x : Word) :
    (if lregWritable vd then s.setLreg vd k x else s).lreg r = s.lreg r := by
  split
  · next hvd => exact setLreg_writable hr s hvd k x
  · rfl

theorem sfpResult_readOnly (f : Sfpu → ℕ → Word) : (sfpResult s imm f).lreg r = s.lreg r := by
  unfold sfpResult
  dsimp only
  split
  · next hvd => exact lanewise_frame s (Sfpu.lreg · r) fun s k => setLreg_writable hr s hvd k _
  · rfl

theorem sfploadi_readOnly : (sfploadi s imm).lreg r = s.lreg r := by
  unfold sfploadi
  dsimp only
  split
  · rfl
  · next hvd => exact lanewise_frame s (Sfpu.lreg · r) fun s k =>
      setLreg_below hr s (Nat.lt_of_not_le hvd) k _

theorem storeIndirect_readOnly (k : ℕ) (x : Word) : (storeIndirect s imm k x).lreg r = s.lreg r :=
  setLreg_guarded hr s _ k x

theorem sfpmuli_readOnly : (sfpmuli s imm).lreg r = s.lreg r := by
  unfold sfpmuli
  dsimp only
  exact lanewise_frame s (Sfpu.lreg · r) fun s k => storeIndirect_readOnly hr s imm k _

theorem sfpaddi_readOnly : (sfpaddi s imm).lreg r = s.lreg r := by
  unfold sfpaddi
  dsimp only
  exact lanewise_frame s (Sfpu.lreg · r) fun s k => storeIndirect_readOnly hr s imm k _

theorem sfpMadCommon_readOnly : (sfpMadCommon s imm).lreg r = s.lreg r := by
  unfold sfpMadCommon
  split
  · rfl
  · exact lanewise_frame s (Sfpu.lreg · r) fun s k => storeIndirect_readOnly hr s imm k _

theorem sfplutfp32_readOnly : (sfplutfp32 s imm).lreg r = s.lreg r := by
  unfold sfplutfp32
  dsimp only
  split
  · rfl
  · exact lanewise_frame s (Sfpu.lreg · r) fun s k => storeIndirect_readOnly hr s imm k _

omit hr in
theorem signFlags_lreg (k : ℕ) (set comp : Bool) (x : Word) : (signFlags s k set comp x).lreg = s.lreg := by
  cases set <;> cases comp <;> rfl

theorem signedResult_readOnly {vd : ℕ} (hvd : ¬(!lregWritable vd) = true) (k : ℕ) (set comp : Bool)
    (x : Word) :
    (if vd < 8 then signFlags (s.setLreg vd k x) k set comp x else s.setLreg vd k x).lreg r = s.lreg r := by
  have hset := setLreg_writable hr s (by simpa using hvd) k x
  split
  · rw [signFlags_lreg, hset]
  · exact hset

theorem sfpexexp_readOnly : (sfpexexp s imm).lreg r = s.lreg r := by
  unfold sfpexexp
  dsimp only
  split
  · rfl
  · next hvd => exact lanewise_frame s (Sfpu.lreg · r) fun s k => signedResult_readOnly hr s hvd k _ _ _

theorem sfpiadd_readOnly : (sfpiadd s imm).lreg r = s.lreg r := by
  unfold sfpiadd
  dsimp only
  split
  · rfl
  · next hvd => exact lanewise_frame s (Sfpu.lreg · r) fun s k => signedResult_readOnly hr s hvd k _ _ _

theorem sfpmov_readOnly : (sfpmov s imm).lreg r = s.lreg r := by
  have hsource (s : Sfpu) (k : ℕ) : (movSource imm s k).2.lreg = s.lreg := by
    unfold movSource
    split_ifs <;> rfl
  unfold sfpmov
  dsimp only
  split
  · rfl
  · apply forRange_frame (Sfpu.lreg · r)
    intro s k
    split
    · rfl
    · exact (setLreg_guarded hr (movSource imm s k).2 _ k _).trans (congrFun (hsource s k) r)

theorem sfpstochrnd_readOnly : (sfpstochrnd s imm).lreg r = s.lreg r := by
  rw [sfpstochrnd_eq]
  split
  · rfl
  · exact lanewise_frame s (Sfpu.lreg · r) fun s k => setLreg_guarded hr (advancePrng s k).2 _ k _

theorem sfpswap_readOnly : (sfpswap s imm).lreg r = s.lreg r := by
  unfold sfpswap
  dsimp only
  split
  · rfl
  · next hvd =>
    apply lanewise_frame s (Sfpu.lreg · r)
    intro s k
    split
    · rw [setLreg_guarded hr]
      exact setLreg_writable hr s (by simpa using hvd) k _
    · rfl

theorem transpStep_readOnly {a b : ℕ} (ha : a < 8) (hb : b < 8) (p q : ℕ) :
    (transpStep a b p q s).lreg r = s.lreg r := by
  have hset (s : Sfpu) {vd : ℕ} (hvd : vd < 8) (c : Prop) [Decidable c] (k : ℕ) (x : Word) :
      (if c then s.setLreg vd k x else s).lreg r = s.lreg r := by
    split
    · exact setLreg_below hr s hvd k x
    · rfl
  unfold transpStep
  dsimp only
  rw [hset _ hb, hset _ ha]

theorem sfptransp_readOnly : (sfptransp s imm).lreg r = s.lreg r := by
  rw [sfptransp_eq]
  split
  · rfl
  · apply forRange_keeps (Sfpu.lreg · r)
    intro half hhalf s
    apply forRange_frame (Sfpu.lreg · r)
    intro s col
    apply forRange_keeps (Sfpu.lreg · r)
    intro i hi s
    apply forRange_keeps (Sfpu.lreg · r)
    intro j hj s
    exact transpStep_readOnly hr s (by omega) (by omega) _ _

theorem sfpload_readOnly (tt : Tensix) (tid : Tid) : (sfpload tt imm tid).sfpu.lreg r = tt.sfpu.lreg r := by
  rw [sfpload_sfpu]
  split
  · rfl
  · next hvd =>
    apply forRange_frame (Sfpu.lreg · r)
    intro s k
    unfold loadLane
    split
    · exact setLreg_below hr s (Nat.lt_of_not_le hvd) k _
    · rfl

omit hr in
theorem sfpconfig_lreg (h : ¬(fieldVd imm = r ∧ 11 ≤ r ∧ r ≤ 14)) : (sfpconfig s imm).lreg r = s.lreg r := by
  unfold sfpconfig
  dsimp only
  split
  · next hvd =>
    have hne : r ≠ fieldVd imm := fun heq => h ⟨heq.symm, by omega, by omega⟩
    apply forRange_frame (Sfpu.lreg · r)
    intro s k
    funext j
    exact if_neg fun hj => hne hj.1
  · rfl

end registers

section flags

variable (s : Sfpu) (imm : Word)

theorem sfpsetcc_lreg : (sfpsetcc s imm).lreg = s.lreg := by
  rw [sfpsetcc_eq]
  split
  · rfl
  · apply lanewise_frame s Sfpu.lreg
    intro s k
    unfold setccLane
    dsimp only
    split_ifs <;> rfl

theorem sfppushc_lreg : (sfppushc s imm).lreg = s.lreg := by
  rw [sfppushc_eq]
  split
  · rfl
  · rw [forRange_frame Sfpu.lreg _ _ (pushLane_lreg _)]
    unfold pushTop
    split <;> rfl

theorem sfppopc_lreg : (sfppopc s imm).lreg = s.lreg := by
  have htop (mod1 : ℕ) (s : Sfpu) : (popTop mod1 s).lreg = s.lreg := by
    unfold popTop
    split <;> rfl
  rw [sfppopc_eq, htop]
  split
  · rfl
  · exact forRange_frame Sfpu.lreg _ s (popLane_lreg _)

theorem sfpencc_lreg : (sfpencc s imm).lreg = s.lreg := by
  unfold sfpencc
  split
  · rfl
  · apply forRange_frame Sfpu.lreg
    intro s k
    dsimp only
    split_ifs <;> rfl

theorem sfpcompc_lreg : (sfpcompc s imm).lreg = s.lreg := by
  rw [sfpcompc_eq]
  split
  · rfl
  · exact forRange_frame Sfpu.lreg _ s fun _ _ => rfl

end flags

theorem runCoreImpl_lreg {impl : InsnImpl} {r : ℕ} (hr : lregWritable r = false) (tt : Tensix)
    (mopCfg : ℕ → Word) (imm : Word) (tid : Tid)
    (h : impl = .sfpconfig → ¬(fieldVd imm = r ∧ 11 ≤ r ∧ r ≤ 14)) :
    (runCoreImpl impl tt mopCfg imm tid).2.sfpu.lreg r = tt.sfpu.lreg r := by
  cases hv : impl.isVector with
  | false =>
    obtain ⟨prng, hs⟩ := runCoreImpl_scalar tt imm tid mopCfg hv
    rw [hs]
  | true =>
    have vector {F : Sfpu} (hrun : (runCoreImpl impl tt mopCfg imm tid).2 = tt.setSfpu F)
        (hF : F.lreg r = tt.sfpu.lreg r) : (runCoreImpl impl tt mopCfg imm tid).2.sfpu.lreg r =
          tt.sfpu.lreg r := by
      rw [hrun]
      exact hF
    have flags {F : Sfpu} (hrun : (runCoreImpl impl tt mopCfg imm tid).2 = tt.setSfpu F)
        (hF : F.lreg = tt.sfpu.lreg) : (runCoreImpl impl tt mopCfg imm tid).2.sfpu.lreg r = tt.sfpu.lreg r :=
      vector hrun (congrFun hF r)
    cases impl with
    | sfpconfig => exact vector rfl (sfpconfig_lreg tt.sfpu imm (h rfl))
    | sfppopc => exact flags rfl (sfppopc_lreg tt.sfpu imm)
    | sfpsetcc => exact flags rfl (sfpsetcc_lreg tt.sfpu imm)
    | sfppushc => exact flags rfl (sfppushc_lreg tt.sfpu imm)
    | sfpencc => exact flags rfl (sfpencc_lreg tt.sfpu imm)
    | sfpcompc => exact flags rfl (sfpcompc_lreg tt.sfpu imm)
    | sfpexexp => exact vector rfl (sfpexexp_readOnly hr tt.sfpu imm)
    | sfpiadd => exact vector rfl (sfpiadd_readOnly hr tt.sfpu imm)
    | sfpload => exact sfpload_readOnly hr imm tt tid
    | sfpstore => exact congrArg (fun s : Sfpu => s.lreg r) (sfpstore_sfpu tt imm tid)
    | sfploadi => exact vector rfl (sfploadi_readOnly hr tt.sfpu imm)
    | sfpmuli => exact vector rfl (sfpmuli_readOnly hr tt.sfpu imm)
    | sfpaddi => exact vector rfl (sfpaddi_readOnly hr tt.sfpu imm)
    | sfpmad | sfpadd | sfpmul => exact vector rfl (sfpMadCommon_readOnly hr tt.sfpu imm)
    | sfplutfp32 => exact vector rfl (sfplutfp32_readOnly hr tt.sfpu imm)
    | sfpmov => exact vector rfl (sfpmov_readOnly hr tt.sfpu imm)
    | sfpstochrnd => exact vector rfl (sfpstochrnd_readOnly hr tt.sfpu imm)
    | sfpswap => exact vector rfl (sfpswap_readOnly hr tt.sfpu imm)
    | sfptransp => exact vector rfl (sfptransp_readOnly hr tt.sfpu imm)
    | sfpexman | sfpshft | sfpabs | sfpand | sfpor | sfpnot | sfpsetexp | sfpsetsgn | sfpxor | sfpcast
    | sfparecip =>
      exact vector rfl (sfpResult_readOnly hr tt.sfpu imm _)
    | _ => first | exact Bool.noConfusion hv | rfl

theorem Completes.lreg {tid : Tid} {core core' : Tensix} {insn : Word} {r : ℕ}
    (h : Completes tid core insn core') (hr : lregWritable r = false) (hc : ¬Configures insn r) :
    core'.sfpu.lreg r = core.sfpu.lreg r := by
  obtain ⟨cfg, hrun⟩ := h
  have hkept := runCoreImpl_lreg hr core cfg (tensixInsnParam insn) tid fun himpl hvd => hc ⟨himpl, hvd⟩
  rw [hrun] at hkept
  exact hkept

end Rv32Emu
