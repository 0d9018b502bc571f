import Rv32Emu.Cop.VectorRegisters

namespace Rv32Emu

open Word

/-- LREG_COUNT of the source: sixteen registers and a staging one. -/
def lregCount : ℕ := 17

def Grid.outOf (rows : ℕ) (g : Grid) : Grid × Grid :=
  (fun i c => g (rows + i) c, fun r j => g r (rowSize + j))

structure OutOfBounds where
  dest : Grid × Grid
  srca : Bank → Grid × Grid
  srcb : Bank → Grid × Grid
  thdReg : Tid → ℕ → Word
  dmaReg : Tid → ℕ → Word

def Tensix.outOfBounds (tt : Tensix) : OutOfBounds where
  dest := tt.dest.outOf destRows
  srca := fun b => (tt.srca b).outOf srcaRows
  srcb := fun b => (tt.srcb b).outOf srcbRows
  thdReg := fun t i => tt.thdReg t (thdRegCount + i)
  dmaReg := fun t i => tt.dmaReg t (dmaRegCount + i)

/-- The same of the vector unit: the registers past the last one and the frames below and above the
stack. The lanes are always looped over. -/
structure Sfpu.OutOfBounds where
  lreg : ℕ → ℕ → Word
  frames : {i : ℤ // ¬(0 ≤ i ∧ i < flagStackDepth)} → FlagFrame

def Sfpu.outOfBounds (s : Sfpu) : Sfpu.OutOfBounds where
  lreg := fun r => s.lreg (lregCount + r)
  frames := fun i => s.flagStack i

def Sfpu.TopInRange (s : Sfpu) : Prop := -1 ≤ s.flagStackTop ∧ s.flagStackTop < flagStackDepth

section grids

variable {rows r c : ℕ} (g : Grid)

theorem Grid.set_outOf (hr : r < rows) (hc : c < rowSize) (x : Word) :
    Grid.outOf rows (Grid.set g r c x) = Grid.outOf rows g := by
  unfold Grid.outOf
  refine Prod.ext ?_ ?_ <;> funext i j <;> exact if_neg (by omega)

theorem writeRow_outOf (hr : r < rows) (f : Grid → ℕ → Word) :
    Grid.outOf rows (forRange rowSize g fun g j => Grid.set g r j (f g j)) = Grid.outOf rows g :=
  forRange_keeps (Grid.outOf rows) fun _ hj g => Grid.set_outOf g hr hj _

theorem guardedRow_outOf {p : Prop} [Decidable p] (h : ¬p → r < rows) (f : Grid → ℕ → Word) :
    Grid.outOf rows (if p then g else forRange rowSize g fun g j => Grid.set g r j (f g j)) =
      Grid.outOf rows g := by
  split
  · rfl
  · next hp => exact writeRow_outOf g (h hp) f

theorem copyRows_outOf (n : ℕ) (d : Word) (src : Grid) (s : Word) (sRows : ℕ) :
    Grid.outOf rows (copyRows n g d rows src s sRows) = Grid.outOf rows g := by
  apply forRange_frame (Grid.outOf rows)
  intro g i
  exact guardedRow_outOf g (fun h => Nat.lt_of_not_le fun hd => h (.inl hd)) _

theorem clearRows_outOf (start : Word) (n : ℕ) :
    Grid.outOf destRows (clearRows g start n) = Grid.outOf destRows g := by
  apply forRange_frame (Grid.outOf destRows)
  intro g i
  dsimp only
  split
  · next hrow => exact writeRow_outOf g hrow _
  · rfl

theorem update_outOf (src : Bank → Grid) (bank : Bank) {g : Grid}
    (h : Grid.outOf rows g = Grid.outOf rows (src bank)) :
    (fun b => Grid.outOf rows (Function.update src bank g b)) = fun b => Grid.outOf rows (src b) := by
  funext b
  by_cases hb : b = bank
  · subst hb
    rw [Function.update_self, h]
  · rw [Function.update_of_ne hb]

theorem fillBanks_outOf (src : Bank → Grid) (both : Bool) (target : Bank) (fill : Word) :
    (fun b => Grid.outOf rows (fillBanks src both target rows fill b)) =
      fun b => Grid.outOf rows (src b) := by
  funext b
  unfold Grid.outOf fillBanks
  refine Prod.ext ?_ ?_ <;> funext i j <;> exact if_neg (by omega)

theorem and_toNat_lt (x m : Word) {n : ℕ} (h : m.toNat < n) : (x &&& m).toNat < n := by
  rw [BitVec.toNat_and]
  exact Nat.lt_of_le_of_lt Nat.and_le_right h

end grids

section matrix

variable (tt : Tensix) (imm : Word) (tid : Tid)

theorem withDest_outOfBounds {g : Grid} (h : Grid.outOf destRows g = Grid.outOf destRows tt.dest) :
    Tensix.outOfBounds { tt with dest := g } = tt.outOfBounds := by
  unfold Tensix.outOfBounds
  rw [h]

theorem withSrca_outOfBounds {src : Bank → Grid} (h : (fun b => Grid.outOf srcaRows (src b)) =
    fun b => Grid.outOf srcaRows (tt.srca b)) : Tensix.outOfBounds { tt with srca := src } =
      tt.outOfBounds := by
  unfold Tensix.outOfBounds
  rw [h]

theorem withSrcb_outOfBounds {src : Bank → Grid} (h : (fun b => Grid.outOf srcbRows (src b)) =
    fun b => Grid.outOf srcbRows (tt.srcb b)) : Tensix.outOfBounds { tt with srcb := src } =
      tt.outOfBounds := by
  unfold Tensix.outOfBounds
  rw [h]

theorem applyAddrMod_outOfBounds (modIdx : Word) :
    (applyAddrMod tt modIdx tid).outOfBounds = tt.outOfBounds := by
  unfold applyAddrMod
  split <;> rfl

theorem flipBanks_outOfBounds (a b : Bool) : (tt.flipBanks a b).outOfBounds = tt.outOfBounds := by
  cases a <;> cases b <;> rfl

theorem matrixEnd_outOfBounds {g : Grid} (h : Grid.outOf destRows g = Grid.outOf destRows tt.dest)
    (a b : Bool) (modIdx : Word) :
    (applyAddrMod (Tensix.flipBanks { tt with dest := g } a b) modIdx tid).outOfBounds = tt.outOfBounds := by
  rw [applyAddrMod_outOfBounds, flipBanks_outOfBounds, withDest_outOfBounds tt h]

theorem ttmovd2a_outOfBounds : (ttmovd2a tt imm tid).outOfBounds = tt.outOfBounds := by
  unfold ttmovd2a
  rw [applyAddrMod_outOfBounds]
  exact withSrca_outOfBounds tt (update_outOf tt.srca tt.mathSrcaBank (copyRows_outOf _ _ _ _ _ _))

theorem ttmovd2b_outOfBounds : (ttmovd2b tt imm tid).outOfBounds = tt.outOfBounds := by
  unfold ttmovd2b
  rw [applyAddrMod_outOfBounds]
  exact withSrcb_outOfBounds tt (update_outOf tt.srcb tt.mathSrcbBank (copyRows_outOf _ _ _ _ _ _))

theorem ttmovb2a_outOfBounds : (ttmovb2a tt imm tid).outOfBounds = tt.outOfBounds := by
  unfold ttmovb2a
  rw [applyAddrMod_outOfBounds]
  exact withSrca_outOfBounds tt (update_outOf tt.srca tt.mathSrcaBank (copyRows_outOf _ _ _ _ _ _))

theorem ttmovb2d_outOfBounds : (ttmovb2d tt imm tid).outOfBounds = tt.outOfBounds := by
  unfold ttmovb2d
  rw [applyAddrMod_outOfBounds]
  exact withDest_outOfBounds tt (copyRows_outOf _ _ _ _ _ _)

theorem ttmova2d_outOfBounds : (ttmova2d tt imm tid).2.outOfBounds = tt.outOfBounds := by
  unfold ttmova2d
  dsimp only
  split
  · rfl
  · rw [applyAddrMod_outOfBounds]
    exact withDest_outOfBounds tt (copyRows_outOf _ _ _ _ _ _)

theorem ttzeroacc_outOfBounds : (ttzeroacc tt imm tid).outOfBounds = tt.outOfBounds := by
  unfold ttzeroacc
  dsimp only
  split_ifs
  · rfl
  all_goals exact withDest_outOfBounds tt (clearRows_outOf _ _ _)

theorem ttzerosrc_outOfBounds : (ttzerosrc tt imm).outOfBounds = tt.outOfBounds := by
  unfold ttzerosrc
  dsimp only
  simp only [Tensix.outOfBounds, OutOfBounds.mk.injEq, true_and, and_true]
  constructor
  · cases bit imm 0 with
    | true => exact fillBanks_outOf tt.srca _ _ _
    | false => rfl
  · cases bit imm 1 with
    | true => exact fillBanks_outOf tt.srcb _ _ _
    | false => rfl

theorem tttrnspsrcb_outOfBounds : (tttrnspsrcb tt).outOfBounds = tt.outOfBounds := by
  unfold tttrnspsrcb
  apply withSrcb_outOfBounds
  apply update_outOf
  apply forRange_keeps (Grid.outOf srcbRows)
  intro i hi g
  apply forRange_keeps (Grid.outOf srcbRows)
  intro j hj g
  have hrows : srcbRows = 64 := rfl
  have hcols : rowSize = 16 := rfl
  rw [Grid.set_outOf _ (by omega) (by omega), Grid.set_outOf _ (by omega) (by omega)]

theorem mvmulRows_outOf (mask bcast : Bool) (n : ℕ) (a b d : Word) :
    Grid.outOf destRows (mvmulRows tt mask bcast n a b d) = Grid.outOf destRows tt.dest := by
  apply forRange_frame (Grid.outOf destRows)
  intro g i
  exact guardedRow_outOf g (fun h => Nat.lt_of_not_le fun hd => h (.inr hd)) _

theorem skipZeroedSrcb_outOfBounds : (skipZeroedSrcb tt).outOfBounds = tt.outOfBounds := by
  unfold skipZeroedSrcb
  dsimp only
  split <;> rfl

theorem ttmvmul_outOfBounds (mopCfg : ℕ → Word) :
    (ttmvmul tt mopCfg imm tid).2.outOfBounds = tt.outOfBounds := by
  unfold ttmvmul
  split
  · rfl
  split
  · rfl
  dsimp only
  rw [← skipZeroedSrcb_outOfBounds tt]
  apply matrixEnd_outOfBounds
  split
  · rfl
  · exact mvmulRows_outOf _ _ _ _ _ _ _

theorem elementwise_outOfBounds (value : Word → Word → Word → Word) :
    (elementwise tt imm tid value).2.outOfBounds = tt.outOfBounds := by
  unfold elementwise
  split
  · rfl
  split
  · rfl
  apply matrixEnd_outOfBounds
  apply forRange_frame (Grid.outOf destRows)
  intro g i
  exact guardedRow_outOf g (fun h => Nat.lt_of_not_le fun hd => h (.inr (.inr hd))) _

theorem gmpoolRow_outOf (srcaRow : Word) {destBase : Word} (hd : destBase.toNat < destRows) :
    Grid.outOf destRows (gmpoolRow tt srcaRow destBase) = Grid.outOf destRows tt.dest := by
  apply forRange_keeps (Grid.outOf destRows)
  intro j hj g
  dsimp only
  rw [forRange_frame (Grid.outOf destRows), Grid.set_outOf _ hd hj]
  intro g i
  split
  · next hrow => exact Grid.set_outOf _ hrow hj _
  · rfl

theorem ttgmpool_outOfBounds : (ttgmpool tt imm tid).2.outOfBounds = tt.outOfBounds := by
  unfold ttgmpool
  split
  · rfl
  apply matrixEnd_outOfBounds
  split
  · next hd => exact gmpoolRow_outOf tt _ hd
  · rfl

theorem ttgapool_outOfBounds : (ttgapool tt imm tid).2.outOfBounds = tt.outOfBounds := by
  unfold ttgapool
  split
  · rfl
  apply matrixEnd_outOfBounds
  split
  · next hd => exact writeRow_outOf _ hd.2 _
  · rfl

theorem ttsetrwc_outOfBounds : (ttsetrwc tt imm tid).2.outOfBounds = tt.outOfBounds := by
  unfold ttsetrwc
  dsimp only
  split
  · rfl
  split
  · rfl
  · rw [flipBanks_outOfBounds]
    rfl

theorem ttcleardvalid_outOfBounds : (ttcleardvalid tt imm).outOfBounds = tt.outOfBounds := by
  unfold ttcleardvalid
  dsimp only
  split
  · rfl
  · exact flipBanks_outOfBounds tt _ _

theorem sfpstore_outOfBounds : (sfpstore tt imm tid).outOfBounds = tt.outOfBounds := by
  unfold sfpstore
  dsimp only
  rw [applyAddrMod_outOfBounds]
  apply withDest_outOfBounds
  apply forRange_frame (Grid.outOf destRows)
  intro g lane
  split
  · rfl
  split
  · next hplace => exact Grid.set_outOf g hplace.1 hplace.2 _
  · rfl

end matrix

section unpackers

variable (tt : Tensix) (imm : Word) (tid : Tid) (l1 : Bytes) (u : UnpackPlan) (g : Grid)

theorem unpackSrcb_outOf : Grid.outOf srcbRows (unpackSrcb l1 u g) = Grid.outOf srcbRows g := by
  apply forRange_frame (Grid.outOf srcbRows)
  intro g i
  exact Grid.set_outOf g (and_toNat_lt _ _ (by decide)) (and_toNat_lt _ _ (by decide)) _

theorem unpackDst_outOf : Grid.outOf destRows (unpackDst l1 u g) = Grid.outOf destRows g := by
  apply forRange_frame (Grid.outOf destRows)
  intro g i
  exact Grid.set_outOf g (and_toNat_lt _ _ (by decide)) (and_toNat_lt _ _ (by decide)) _

theorem unpackSrca_outOf : Grid.outOf srcaRows (unpackSrca l1 u g) = Grid.outOf srcaRows g := by
  apply forRange_frame (Grid.outOf srcaRows)
  intro g i
  dsimp only
  split
  · exact Grid.set_outOf g (and_toNat_lt _ _ (by decide)) (and_toNat_lt _ _ (by decide)) _
  · exact Grid.set_outOf g (and_toNat_lt _ _ (by decide)) (and_toNat_lt _ _ (by decide)) _

theorem unpackLoop_outOfBounds : (unpackLoop tt u).outOfBounds = tt.outOfBounds := by
  unfold unpackLoop
  split
  · rfl
  split
  · rfl
  split
  · exact withSrcb_outOfBounds tt (update_outOf tt.srcb tt.unpSrcbBank (unpackSrcb_outOf _ u _))
  split
  · exact withDest_outOfBounds tt (unpackDst_outOf _ u _)
  · exact withSrca_outOfBounds tt (update_outOf tt.srca tt.unpSrcaBank (unpackSrca_outOf _ u _))

theorem ttunpacr_outOfBounds : (ttunpacr tt imm tid).2.outOfBounds = tt.outOfBounds := by
  unfold ttunpacr
  dsimp only
  repeat' split
  all_goals first | rfl | exact unpackLoop_outOfBounds tt _

theorem releaseSrc_outOfBounds (whichUnp : Bool) : (releaseSrc tt whichUnp).outOfBounds = tt.outOfBounds := by
  cases whichUnp <;> rfl

theorem ttunpacrNop_outOfBounds : (ttunpacrNop tt imm).2.outOfBounds = tt.outOfBounds := by
  have release (tt : Tensix) (c : Prop) [Decidable c] (w : Bool) :
      (if c then releaseSrc tt w else tt).outOfBounds = tt.outOfBounds := by
    split
    · exact releaseSrc_outOfBounds tt w
    · rfl
  unfold ttunpacrNop
  dsimp only
  split
  · split
    · rfl
    · rw [release]
      split
      · exact withSrcb_outOfBounds tt (fillBanks_outOf tt.srcb _ _ _)
      · exact withSrca_outOfBounds tt (fillBanks_outOf tt.srca _ _ _)
  split
  · exact releaseSrc_outOfBounds tt _
  · rfl

end unpackers

section files

variable (tt : Tensix) (imm : Word) (tid : Tid)

theorem update_past (file : Tid → ℕ → Word) {i n : ℕ} (hi : i < n) (w : Word) :
    (fun t j => Function.update file tid (Function.update (file tid) i w) t (n + j)) = fun t j =>
      file t (n + j) := by
  funext t j
  by_cases ht : t = tid
  · subst ht
    rw [Function.update_self, Function.update_of_ne (by omega)]
  · rw [Function.update_of_ne ht]

theorem setDmaReg_outOfBounds {i : ℕ} (hi : i < dmaRegCount) (w : Word) :
    (tt.setDmaReg tid i w).outOfBounds = tt.outOfBounds := by
  simp only [Tensix.outOfBounds, Tensix.setDmaReg, OutOfBounds.mk.injEq, true_and]
  exact update_past tid tt.dmaReg hi w

theorem setThdReg_outOfBounds {i : ℕ} (hi : i < thdRegCount) (w : Word) :
    (tt.setThdReg tid i w).outOfBounds = tt.outOfBounds := by
  simp only [Tensix.outOfBounds, Tensix.setThdReg, OutOfBounds.mk.injEq, true_and, and_true]
  exact update_past tid tt.thdReg hi w

theorem setDmaHalf_outOfBounds (half : ℕ) (v : Word) :
    (setDmaHalf tt tid half v).outOfBounds = tt.outOfBounds := by
  unfold setDmaHalf
  split
  · exact setDmaReg_outOfBounds tt tid (by omega) _
  · rfl

theorem ttsetdmareg_outOfBounds : (ttsetdmareg tt imm tid).outOfBounds = tt.outOfBounds := by
  unfold ttsetdmareg
  dsimp only
  split_ifs with _ _ _ hreg _ hbase
  · exact setDmaHalf_outOfBounds tt tid _ _
  · exact setDmaHalf_outOfBounds tt tid _ _
  · exact setDmaReg_outOfBounds tt tid hreg _
  · rfl
  · apply forRange_frame Tensix.outOfBounds
    intro tt i
    split
    · next hi => exact setDmaReg_outOfBounds tt tid hi _
    · rfl
  · rw [setDmaReg_outOfBounds _ _ (by omega), setDmaReg_outOfBounds _ _ (by omega),
      setDmaReg_outOfBounds _ _ (by omega)]
  · rfl

theorem dmaAlu_outOfBounds (op : Word → Word → Word) :
    (dmaAlu tt imm tid op).outOfBounds = tt.outOfBounds := by
  unfold dmaAlu
  dsimp only
  split
  · next hr => exact setDmaReg_outOfBounds tt tid hr _
  · rfl

theorem ttloadreg_outOfBounds : (ttloadreg tt imm tid).outOfBounds = tt.outOfBounds := by
  unfold ttloadreg
  dsimp only
  split
  · rfl
  split
  · next hr => exact setDmaReg_outOfBounds tt tid hr _
  · rfl

theorem ttrdcfg_outOfBounds : (ttrdcfg tt imm tid).outOfBounds = tt.outOfBounds := by
  unfold ttrdcfg
  dsimp only
  split
  · next hr => exact setDmaReg_outOfBounds tt tid hr.2 _
  · rfl

theorem ttsetc16_outOfBounds : (ttsetc16 tt imm tid).outOfBounds = tt.outOfBounds := by
  unfold ttsetc16
  dsimp only
  split
  · next hr => exact setThdReg_outOfBounds tt tid hr _
  · rfl

theorem ttwrcfg_outOfBounds : (ttwrcfg tt imm tid).outOfBounds = tt.outOfBounds := by
  unfold ttwrcfg
  dsimp only
  split_ifs
  · apply forRange_frame Tensix.outOfBounds
    intro tt i
    split <;> rfl
  · rfl
  · rfl
  · rfl

theorem rmwcibCommon_outOfBounds (byteOffset : ℕ) :
    (rmwcibCommon tt imm byteOffset).outOfBounds = tt.outOfBounds := by
  unfold rmwcibCommon
  dsimp only
  repeat' split
  all_goals rfl

theorem ttcfgshiftmask_outOfBounds : (ttcfgshiftmask tt imm tid).outOfBounds = tt.outOfBounds := by
  unfold ttcfgshiftmask
  dsimp only
  split <;> rfl

theorem ttsetdvalid_outOfBounds : (ttsetdvalid tt imm).outOfBounds = tt.outOfBounds := by
  unfold ttsetdvalid
  dsimp only
  repeat' split
  all_goals rfl

theorem ttstorereg_outOfBounds : (ttstorereg tt imm tid).outOfBounds = tt.outOfBounds := by
  unfold ttstorereg
  dsimp only
  repeat' split
  all_goals rfl

theorem ttpacr_outOfBounds : (ttpacr tt imm tid).outOfBounds = tt.outOfBounds := by
  unfold ttpacr
  rfl

theorem ttatgetm_outOfBounds : (ttatgetm tt imm tid).outOfBounds = tt.outOfBounds := by
  unfold ttatgetm
  split <;> rfl

theorem ttatrelm_outOfBounds : (ttatrelm tt imm tid).outOfBounds = tt.outOfBounds := by
  unfold ttatrelm
  split <;> rfl

theorem setSfpu_outOfBounds (s : Sfpu) : (tt.setSfpu s).outOfBounds = tt.outOfBounds := rfl

theorem sfpload_outOfBounds : (sfpload tt imm tid).outOfBounds = tt.outOfBounds := by
  unfold sfpload
  dsimp only
  rw [applyAddrMod_outOfBounds]
  rfl

end files

theorem runCoreImpl_outOfBounds (impl : InsnImpl) (tt : Tensix) (mopCfg : ℕ → Word) (imm : Word) (tid : Tid) :
    (runCoreImpl impl tt mopCfg imm tid).2.outOfBounds = tt.outOfBounds := by
  cases impl with
  | ttmvmul => exact ttmvmul_outOfBounds tt imm tid mopCfg
  | ttmova2d => exact ttmova2d_outOfBounds tt imm tid
  | ttelwmul | ttelwadd | ttelwsub =>
    simp only [runCoreImpl, ttelwmul, ttelwadd, ttelwsub, elementwise_outOfBounds]
  | ttgmpool => exact ttgmpool_outOfBounds tt imm tid
  | ttgapool => exact ttgapool_outOfBounds tt imm tid
  | ttsetrwc => exact ttsetrwc_outOfBounds tt imm tid
  | ttunpacr => exact ttunpacr_outOfBounds tt imm tid
  | ttunpacrNop => exact ttunpacrNop_outOfBounds tt imm
  | ttmovd2a => exact ttmovd2a_outOfBounds tt imm tid
  | ttmovd2b => exact ttmovd2b_outOfBounds tt imm tid
  | ttmovb2a => exact ttmovb2a_outOfBounds tt imm tid
  | ttmovb2d => exact ttmovb2d_outOfBounds tt imm tid
  | ttzeroacc => exact ttzeroacc_outOfBounds tt imm tid
  | ttzerosrc => exact ttzerosrc_outOfBounds tt imm
  | tttrnspsrcb => exact tttrnspsrcb_outOfBounds tt
  | ttcleardvalid => exact ttcleardvalid_outOfBounds tt imm
  | ttsetdmareg => exact ttsetdmareg_outOfBounds tt imm tid
  | ttadddmareg | ttsubdmareg | ttmuldmareg | ttbitwopdmareg | ttshiftdmareg | ttcmpdmareg =>
    exact dmaAlu_outOfBounds tt imm tid _
  | ttsetdvalid => exact ttsetdvalid_outOfBounds tt imm
  | ttstorereg => exact ttstorereg_outOfBounds tt imm tid
  | ttloadreg => exact ttloadreg_outOfBounds tt imm tid
  | ttrdcfg => exact ttrdcfg_outOfBounds tt imm tid
  | ttsetc16 => exact ttsetc16_outOfBounds tt imm tid
  | ttwrcfg => exact ttwrcfg_outOfBounds tt imm tid
  | ttrmwcib0 | ttrmwcib1 | ttrmwcib2 | ttrmwcib3 => exact rmwcibCommon_outOfBounds tt imm _
  | ttcfgshiftmask => exact ttcfgshiftmask_outOfBounds tt imm tid
  | ttpacr => exact ttpacr_outOfBounds tt imm tid
  | ttatgetm => exact ttatgetm_outOfBounds tt imm tid
  | ttatrelm => exact ttatrelm_outOfBounds tt imm tid
  | sfpload => exact sfpload_outOfBounds tt imm tid
  | sfpstore => exact sfpstore_outOfBounds tt imm tid
  | sfpmuli | sfpaddi => exact setSfpu_outOfBounds tt _
  | _ => rfl

section stack

variable (s : Sfpu) (imm : Word)

def Sfpu.stack (s : Sfpu) : (ℤ → FlagFrame) × ℤ := (s.flagStack, s.flagStackTop)

theorem signedResult_stack (vd k : ℕ) (set comp : Bool) (x : Word) :
    (if vd < 8 then signFlags (s.setLreg vd k x) k set comp x else s.setLreg vd k x).stack = s.stack := by
  split
  · cases set <;> cases comp <;> rfl
  · rfl

theorem sfpexexp_stack : (sfpexexp s imm).stack = s.stack := by
  unfold sfpexexp
  dsimp only
  split
  · rfl
  · exact lanewise_frame s Sfpu.stack fun s k => signedResult_stack s _ k _ _ _

theorem sfpiadd_stack : (sfpiadd s imm).stack = s.stack := by
  unfold sfpiadd
  dsimp only
  split
  · rfl
  · exact lanewise_frame s Sfpu.stack fun s k => signedResult_stack s _ k _ _ _

theorem sfpsetcc_stack : (sfpsetcc s imm).stack = s.stack := by
  rw [sfpsetcc_eq]
  split
  · rfl
  · apply lanewise_frame s Sfpu.stack
    intro s k
    unfold setccLane
    dsimp only
    split_ifs <;> rfl

theorem sfpencc_stack : (sfpencc s imm).stack = s.stack := by
  unfold sfpencc
  split
  · rfl
  · apply forRange_frame Sfpu.stack
    intro s k
    dsimp only
    split_ifs <;> rfl

theorem sfpcompc_stack : (sfpcompc s imm).stack = s.stack := by
  rw [sfpcompc_eq]
  split
  · rfl
  · exact forRange_frame Sfpu.stack _ s fun _ _ => rfl

theorem popLane_stack (mod1 k : ℕ) : (popLane mod1 s k).stack = s.stack := by
  unfold popLane
  dsimp only
  split_ifs <;> rfl

theorem popTop_stack (mod1 : ℕ) : (popTop mod1 s).flagStack = s.flagStack ∧
    ((popTop mod1 s).flagStackTop = s.flagStackTop ∨
      0 ≤ s.flagStackTop ∧ (popTop mod1 s).flagStackTop = s.flagStackTop - 1) := by
  unfold popTop
  split
  · next hpop => exact ⟨rfl, .inr ⟨hpop.2, rfl⟩⟩
  · exact ⟨rfl, .inl rfl⟩

theorem sfppopc_stack (h : s.TopInRange) : (sfppopc s imm).TopInRange ∧
    (sfppopc s imm).outOfBounds.frames = s.outOfBounds.frames := by
  have hloop : (if fieldVd imm ≥ 12 then s else forRange lregLanes s (popLane (imm &&& 0xF).toNat)).stack =
      s.stack := by
    split
    · rfl
    · exact forRange_frame Sfpu.stack _ s fun s k => popLane_stack s _ k
  rw [sfppopc_eq]
  generalize (if fieldVd imm ≥ 12 then s else _) = t at hloop ⊢
  obtain ⟨hstack, htop⟩ := Prod.mk.inj hloop
  obtain ⟨hkept, hmove⟩ := popTop_stack t (imm &&& 0xF).toNat
  unfold Sfpu.TopInRange at h ⊢
  refine ⟨by omega, ?_⟩
  unfold Sfpu.outOfBounds
  rw [hkept, hstack]

theorem pushLane_frames (mod1 k : ℕ) : (pushLane mod1 s k).flagStackTop = s.flagStackTop ∧
    ∀ i, i ≠ s.flagStackTop ∨ i < 0 → (pushLane mod1 s k).flagStack i = s.flagStack i := by
  have hset (s : Sfpu) (u b : Bool) {i : ℤ} (hi : i ≠ s.flagStackTop) :
      (s.setTop k u b).flagStack i = s.flagStack i := Function.update_of_ne hi _ _
  unfold pushLane
  dsimp only
  split
  · exact ⟨rfl, fun _ _ => rfl⟩
  · next htop =>
    split_ifs
    all_goals
      refine ⟨rfl, fun i hi => hset _ _ _ ?_⟩
      obtain hi | hi := hi
      · exact hi
      · rintro rfl
        exact htop hi

theorem pushTop_range (mod1 : ℕ) (h : s.TopInRange) : (pushTop mod1 s).TopInRange := by
  unfold pushTop
  split
  · next hpush => exact ⟨Int.le_trans h.1 (Int.le_add_of_nonneg_right (by decide)),
      Int.add_lt_of_lt_sub_right hpush.2⟩
  · exact h

theorem sfppushc_stack (h : s.TopInRange) : (sfppushc s imm).TopInRange ∧
    (sfppushc s imm).outOfBounds.frames = s.outOfBounds.frames := by
  rw [sfppushc_eq]
  split
  · exact ⟨h, rfl⟩
  generalize (imm &&& 0xF).toNat = mod1
  have hpushed := pushTop_range s mod1 h
  have hframes : (pushTop mod1 s).outOfBounds.frames = s.outOfBounds.frames := by
    unfold pushTop
    split <;> rfl
  have hloop : (forRange lregLanes (pushTop mod1 s) (pushLane mod1)).flagStackTop =
      (pushTop mod1 s).flagStackTop ∧
      (forRange lregLanes (pushTop mod1 s) (pushLane mod1)).outOfBounds.frames =
        (pushTop mod1 s).outOfBounds.frames := by
    apply forRange_induction (P := fun _ (t : Sfpu) => t.flagStackTop = (pushTop mod1 s).flagStackTop ∧
      t.outOfBounds.frames = (pushTop mod1 s).outOfBounds.frames)
    · exact ⟨rfl, rfl⟩
    · rintro k - t ⟨ht, hf⟩
      obtain ⟨htop, hkept⟩ := pushLane_frames t mod1 k
      refine ⟨htop.trans ht, (funext fun i => ?_).trans hf⟩
      refine hkept i ?_
      by_contra hi
      have hrange := hpushed.2
      rw [← ht] at hrange
      exact i.2 ⟨by omega, by omega⟩
  refine ⟨?_, hloop.2.trans hframes⟩
  unfold Sfpu.TopInRange
  rw [hloop.1]
  exact hpushed

end stack

section vectorUnit

variable (impl : InsnImpl) (tt : Tensix) (mopCfg : ℕ → Word) (imm : Word) (tid : Tid)

theorem runCoreImpl_stack (hpush : impl ≠ .sfppushc) (hpop : impl ≠ .sfppopc) :
    (runCoreImpl impl tt mopCfg imm tid).2.sfpu.stack = tt.sfpu.stack := by
  cases ht : impl.touchesFlags imm with
  | false =>
    have hkept := runCoreImpl_predication tt mopCfg imm tid ht
    exact Prod.ext (congrArg Predication.stack hkept) (congrArg Predication.top hkept)
  | true =>
    cases impl with
    | sfppushc => exact absurd rfl hpush
    | sfppopc => exact absurd rfl hpop
    | sfpsetcc => exact sfpsetcc_stack tt.sfpu imm
    | sfpencc => exact sfpencc_stack tt.sfpu imm
    | sfpcompc => exact sfpcompc_stack tt.sfpu imm
    | sfpexexp => exact sfpexexp_stack tt.sfpu imm
    | sfpiadd => exact sfpiadd_stack tt.sfpu imm
    | _ => exact Bool.noConfusion ht

theorem runCoreImpl_frames (h : tt.sfpu.TopInRange) : (runCoreImpl impl tt mopCfg imm tid).2.sfpu.TopInRange ∧
    (runCoreImpl impl tt mopCfg imm tid).2.sfpu.outOfBounds.frames = tt.sfpu.outOfBounds.frames := by
  by_cases hpush : impl = .sfppushc
  · subst hpush
    exact sfppushc_stack tt.sfpu imm h
  by_cases hpop : impl = .sfppopc
  · subst hpop
    exact sfppopc_stack tt.sfpu imm h
  obtain ⟨hstack, htop⟩ := Prod.mk.inj (runCoreImpl_stack impl tt mopCfg imm tid hpush hpop)
  unfold Sfpu.TopInRange Sfpu.outOfBounds
  rw [hstack, htop]
  exact ⟨h, rfl⟩

theorem runCoreImpl_lregs :
    (runCoreImpl impl tt mopCfg imm tid).2.sfpu.outOfBounds.lreg = tt.sfpu.outOfBounds.lreg := by
  funext r
  have hcount : lregCount = 17 := rfl
  apply runCoreImpl_lreg
  · simp only [lregWritable, Bool.or_eq_false_iff, decide_eq_false_iff_not]
    omega
  · omega

end vectorUnit

theorem runCoreImpl_sfpuOutOfBounds (impl : InsnImpl) {tt : Tensix} (mopCfg : ℕ → Word) (imm : Word)
    (tid : Tid) (h : tt.sfpu.TopInRange) :
    (runCoreImpl impl tt mopCfg imm tid).2.sfpu.outOfBounds = tt.sfpu.outOfBounds := by
  have hlregs := runCoreImpl_lregs impl tt mopCfg imm tid
  have hframes := (runCoreImpl_frames impl tt mopCfg imm tid h).2
  cases hs : (runCoreImpl impl tt mopCfg imm tid).2.sfpu.outOfBounds
  rw [hs] at hframes hlregs
  cases hframes
  cases hlregs
  rfl

end Rv32Emu
