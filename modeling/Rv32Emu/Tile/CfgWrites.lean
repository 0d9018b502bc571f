import Mathlib.Tactic.SplitIfs
import Rv32Emu.Cop.Dispatch
import Rv32Emu.Lib.Runs
import Rv32Emu.Tile.Mmio

namespace Rv32Emu

def Sfpu.reseed (s : Sfpu) (value : Word) : Sfpu :=
  { s with prngState := fun lane => if lane < lregLanes then value + w32 lane else s.prngState lane }

structure WriteEffects where
  resets : ℕ → Bool
  reseeds : ℕ → Bool

def WriteEffects.write (e : WriteEffects) (core : Tensix) (x : ℕ × Word) : Tensix :=
  { core with
    mem := core.mem.tensixWriteCfg x.1 x.2
    packL1WriteOffset := if e.resets x.1 then 0 else core.packL1WriteOffset
    sfpu := if e.reseeds x.1 then core.sfpu.reseed x.2 else core.sfpu }

def WriteEffects.writeAll (e : WriteEffects) (core : Tensix) (ws : List (ℕ × Word)) : Tensix :=
  ws.foldl e.write core

def registerWrite : WriteEffects := ⟨fun i => i = 69, fun i => i = 186⟩

def Tensix.withHidden (core : Tensix) (offset : Word) (prng : ℕ → Word) : Tensix :=
  { core with packL1WriteOffset := offset, sfpu := { core.sfpu with prngState := prng } }

namespace WriteEffects

variable {e e' : WriteEffects} {ws : List (ℕ × Word)}

def AgreeOn (e e' : WriteEffects) (ws : List (ℕ × Word)) : Prop :=
  ∀ x ∈ ws, e.resets x.1 = e'.resets x.1 ∧ e.reseeds x.1 = e'.reseeds x.1

theorem writeAll_congr (h : e.AgreeOn e' ws) (core : Tensix) : e.writeAll core ws = e'.writeAll core ws := by
  unfold writeAll
  induction ws generalizing core with
  | nil => rfl
  | cons x ws ih =>
    obtain ⟨hreset, hreseed⟩ := h x List.mem_cons_self
    have hstep : e.write core x = e'.write core x := by rw [write, write, hreset, hreseed]
    rw [List.foldl_cons, List.foldl_cons, hstep]
    exact ih (fun y hy => h y (List.mem_cons_of_mem _ hy)) _

theorem writeAll_offset (core : Tensix) : (e.writeAll core ws).packL1WriteOffset =
    if ws.any fun x => e.resets x.1 then 0 else core.packL1WriteOffset := by
  unfold writeAll
  induction ws generalizing core with
  | nil => rfl
  | cons x ws ih =>
    rw [List.foldl_cons, ih, List.any_cons, write]
    cases e.resets x.1 with
    | false => rw [Bool.false_or, if_neg Bool.false_ne_true]
    | true =>
      rw [Bool.true_or, if_pos rfl]
      exact ite_self _

theorem writeAll_prng_of_none (h : (ws.any fun x => e.reseeds x.1) = false) (core : Tensix) :
    (e.writeAll core ws).sfpu = core.sfpu := by
  unfold writeAll
  induction ws generalizing core with
  | nil => rfl
  | cons x ws ih =>
    obtain ⟨hx, hws⟩ := Bool.or_eq_false_iff.mp (List.any_cons.symm.trans h)
    rw [List.foldl_cons, ih hws, write, hx]
    rfl

theorem writeAll_prng_of_some (h : (ws.any fun x => e.reseeds x.1) = true) :
    ∃ v, ∀ core, (e.writeAll core ws).sfpu.prngState 0 = v := by
  unfold writeAll
  induction ws with
  | nil => cases h
  | cons x ws ih =>
    by_cases hws : (ws.any fun x => e.reseeds x.1) = true
    · obtain ⟨v, hv⟩ := ih hws
      exact ⟨v, fun core => hv _⟩
    · have hnone := Bool.eq_false_of_not_eq_true hws
      have hx : e.reseeds x.1 = true := by simpa [List.any_cons, hnone] using h
      refine ⟨x.2 + w32 0, fun core => ?_⟩
      have hkeep := writeAll_prng_of_none hnone (e.write core x)
      unfold writeAll at hkeep
      rw [List.foldl_cons, hkeep, write, hx]
      rfl

theorem any_eq_of_writeAll_eq {core : Tensix}
    (h : ∀ offset prng, e.writeAll (core.withHidden offset prng) ws =
      e'.writeAll (core.withHidden offset prng) ws) :
    (ws.any fun x => e.resets x.1) = (ws.any fun x => e'.resets x.1) ∧
      (ws.any fun x => e.reseeds x.1) = ws.any fun x => e'.reseeds x.1 := by
  constructor
  · have hoffset := congrArg Tensix.packL1WriteOffset (h 1 fun _ => 0)
    rw [writeAll_offset, writeAll_offset] at hoffset
    change (if _ then (0 : Word) else 1) = if _ then 0 else 1 at hoffset
    cases ha : ws.any fun x => e.resets x.1 <;> cases hb : ws.any fun x => e'.resets x.1 <;> simp_all
  · -- a seed on one side only shows at lane 0, started from another value
    have hseed {f f' : WriteEffects}
        (h : ∀ offset prng, f.writeAll (core.withHidden offset prng) ws =
          f'.writeAll (core.withHidden offset prng) ws)
        (hf : (ws.any fun x => f.reseeds x.1) = true) : (ws.any fun x => f'.reseeds x.1) = true := by
      by_contra hf'
      obtain ⟨v, hv⟩ := writeAll_prng_of_some hf
      have hstart := congrArg (fun core => core.sfpu.prngState 0) (h 0 fun _ => v + 1)
      rw [hv, writeAll_prng_of_none (Bool.eq_false_of_not_eq_true hf')] at hstart
      change v = v + 1 at hstart
      have hne : v + 0 ≠ v + 1 := fun heq => absurd ((BitVec.add_right_inj v).mp heq) (by decide)
      exact hne ((BitVec.add_zero v).trans hstart)
    rw [Bool.eq_iff_iff]
    exact ⟨hseed h, hseed fun offset prng => (h offset prng).symm⟩

end WriteEffects

inductive CfgInsn
  | wrcfg
  | rmwcib (byte : Fin 4)
  | cfgshiftmask

def CfgInsn.impl : CfgInsn → InsnImpl
  | wrcfg => .ttwrcfg
  | rmwcib 0 => .ttrmwcib0
  | rmwcib 1 => .ttrmwcib1
  | rmwcib 2 => .ttrmwcib2
  | rmwcib 3 => .ttrmwcib3
  | cfgshiftmask => .ttcfgshiftmask

inductive CfgAction
  | storeW (c : MemConfig) (fuel : ℕ) (idx : Fin cfgRegCount) (data : Word)
  | storeS (c : MemConfig) (idx : Fin cfgRegCount) (half : Fin 2) (data : BitVec 16)
  | storeB (c : MemConfig) (idx : Fin cfgRegCount) (byte : Fin 4) (data : BitVec 8)
  | insn (tid : Tid) (i : CfgInsn) (imm : Word)

def cfgAddr (idx : Fin cfgRegCount) (byte : ℕ) : Word := w32 (0xFFEF0000 + 4 * idx + byte)

def CoreMem.setCore (d : CoreMem) (core : Tensix) : CoreMem := { d with tile := { d.tile with core } }

def CfgAction.exec (d : CoreMem) : CfgAction → Option CoreMem
  | .storeW c fuel idx data => d.onMemWriteW c (cfgAddr idx 0) fuel data
  | .storeS c idx half data => some (memoryWriteS c d (cfgAddr idx (2 * half)) data)
  | .storeB c idx byte data => some (memoryWriteB c d (cfgAddr idx byte) data)
  | .insn tid i imm => some (d.setCore (runCoreImpl i.impl d.tile.core (fun _ => 0) imm tid).2)

section memory

variable {m m' : Bytes} {a : ℕ}

theorem store_load_back (h : ∀ x, ¬(a ≤ x ∧ x < a + 4) → m' x = m x) : m.store a 4 (m'.load a 4) = m' := by
  funext x
  rw [Bytes.store_apply]
  split
  · next hx =>
    rw [Bytes.byteOf_load m' a (le_refl 4) (by omega)]
    congr 1
    omega
  · next hx => exact (h x hx).symm

theorem cfgAddr_toNat (idx : Fin cfgRegCount) {byte : ℕ} (h : byte < 4) :
    (cfgAddr idx byte).toNat = 0xFFEF0000 + 4 * idx + byte := by
  have hidx : (idx : ℕ) < 448 := idx.isLt
  rw [cfgAddr, w32, BitVec.toNat_ofNat]
  omega

theorem memoryPtr_cfg (c : MemConfig) (idx : Fin cfgRegCount) {byte : ℕ} (h : byte < 4) :
    memoryPtr c (cfgAddr idx byte).toNat = (.high, tensixCfgOffsetInHighMem + idx * 4 + byte) := by
  have hlocal := c.localSize_le
  have hhigh : highMemOffset = 0xFFB00000 := rfl
  have hcfg : tensixCfgOffsetInHighMem = 0x3F0000 := rfl
  have haddr := cfgAddr_toNat idx h
  unfold memoryPtr
  rw [if_neg (by omega), if_neg (by omega)]
  exact Prod.ext rfl (by dsimp only; omega)

theorem memoryWrite_cfg (c : MemConfig) (d : CoreMem) (idx : Fin cfgRegCount) {byte n : ℕ} (h : byte < 4)
    (data : Word) : memoryWrite c d (cfgAddr idx byte) n data =
      d.setMem { d.tile.core.mem with
        highMem := d.tile.core.mem.highMem.map fun m =>
          m.store (tensixCfgOffsetInHighMem + idx * 4 + byte) n data } := by
  unfold memoryWrite
  rw [memoryPtr_cfg c idx h]
  change d.setMem _ = _
  congr 2
  cases hm : d.tile.core.mem.highMem with
  | none => rfl
  | some m =>
    simp only [CoreMem.region, hm]
    rfl

end memory

def burstWrite (core : Tensix) (tid : Tid) (imm : Word) (i : ℕ) : Option (ℕ × Word) :=
  let gprAddr := (bits imm 16 0x3F).toNat
  let cfgIndex := (imm &&& 0x7FFF).toNat
  if cfgIndex / 4 * 4 + i < cfgRegCount ∧ gprAddr / 4 * 4 + i < dmaRegCount then
    some (cfgIndex / 4 * 4 + i, core.dmaReg tid (gprAddr / 4 * 4 + i))
  else none

namespace CfgAction

def written (d : CoreMem) : CfgAction → List (ℕ × Word)
  | .storeW _ _ idx data => [(idx, data)]
  | .storeS c idx half data =>
    [(idx, (memoryWriteS c d (cfgAddr idx (2 * half)) data).tile.core.mem.tensixReadCfg idx)]
  | .storeB c idx byte data =>
    [(idx, (memoryWriteB c d (cfgAddr idx byte) data).tile.core.mem.tensixReadCfg idx)]
  | .insn tid .wrcfg imm =>
    let gprAddr := (bits imm 16 0x3F).toNat
    let cfgIndex := (imm &&& 0x7FFF).toNat
    if bit imm 15 then (List.range 4).filterMap (burstWrite d.tile.core tid imm)
    else if cfgIndex < cfgRegCount ∧ gprAddr < dmaRegCount then [(cfgIndex, d.tile.core.dmaReg tid gprAddr)]
    else []
  | .insn _ (.rmwcib byte) imm =>
    if d.tile.core.mem.highMem.isSome then
      [((imm &&& 0xFF).toNat, (rmwcibCommon d.tile.core imm byte).mem.tensixReadCfg (imm &&& 0xFF).toNat)]
    else []
  | .insn tid .cfgshiftmask imm =>
    if (imm &&& 0xFF).toNat < cfgStateRegs then
      let cfgActual := (imm &&& 0xFF).toNat + (d.tile.core.thdReg tid 0 &&& 0x1).toNat * cfgStateRegs
      [(cfgActual, (ttcfgshiftmask d.tile.core imm tid).mem.tensixReadCfg cfgActual)]
    else []

def effects : CfgAction → WriteEffects
  | .storeW c _ _ _ =>
    if c.tensix then ⟨fun i => i = 69, fun i => i = 186 ∨ i = 186 + 224⟩ else ⟨fun _ => false, fun _ => false⟩
  | .storeS .. | .storeB .. => ⟨fun _ => false, fun _ => false⟩
  | .insn _ .wrcfg imm => ⟨fun i => i = 69, fun i => !bit imm 15 && i = 186⟩
  | .insn _ (.rmwcib _) _ => ⟨fun i => i = 69, fun _ => false⟩
  | .insn _ .cfgshiftmask _ => ⟨fun _ => false, fun _ => false⟩

end CfgAction

section paths

variable {core : Tensix} {tid : Tid} {imm : Word}

theorem writeCfg_readCfg {mem mem' : TensixMemory} {idx : ℕ} (hidx : idx < cfgRegCount)
    (hl1 : mem'.l1Scratchpad = mem.l1Scratchpad) (hsome : mem'.highMem.isSome = mem.highMem.isSome)
    (h : ∀ m ∈ mem.highMem, ∀ m' ∈ mem'.highMem, ∀ x, ¬(tensixCfgOffsetInHighMem + idx * 4 ≤ x ∧
      x < tensixCfgOffsetInHighMem + idx * 4 + 4) → m' x = m x) :
    mem.tensixWriteCfg idx (mem'.tensixReadCfg idx) = mem' := by
  obtain ⟨l1, high⟩ := mem
  obtain ⟨l1', high'⟩ := mem'
  obtain rfl : l1' = l1 := hl1
  unfold TensixMemory.tensixWriteCfg TensixMemory.tensixReadCfg
  cases high with
  | none =>
    cases high' with
    | none => rfl
    | some m' => cases hsome
  | some m =>
    cases high' with
    | none => cases hsome
    | some m' =>
      dsimp only
      rw [if_pos hidx, if_pos hidx, store_load_back (h m rfl m' rfl)]

theorem writeAll_single {e : WriteEffects} {core' : Tensix} {idx : ℕ} {value : Word} {mem : TensixMemory}
    {offset : Word} {sfpu : Sfpu} (hcore : core' =
      { core with mem := mem, packL1WriteOffset := offset, sfpu := sfpu })
    (hmem : core.mem.tensixWriteCfg idx value = mem)
    (hoffset : offset = if e.resets idx then 0 else core.packL1WriteOffset)
    (hsfpu : sfpu = if e.reseeds idx then core.sfpu.reseed value else core.sfpu) :
    core' = e.writeAll core [(idx, value)] := by
  subst hcore hmem hoffset hsfpu
  rfl

theorem writeAll_plain {core' : Tensix} {idx : ℕ} {value : Word} {mem : TensixMemory}
    (hcore : core' = { core with mem := mem }) (hmem : core.mem.tensixWriteCfg idx value = mem) :
    core' = (⟨fun _ => false, fun _ => false⟩ : WriteEffects).writeAll core [(idx, value)] :=
  writeAll_single hcore hmem rfl rfl

theorem narrow_writeAll (c : MemConfig) (d : CoreMem) (idx : Fin cfgRegCount) {byte n : ℕ} (hbyte : byte < 4)
    (hn : byte + n ≤ 4) (data : Word) : (memoryWrite c d (cfgAddr idx byte) n data).tile.core =
      (⟨fun _ => false, fun _ => false⟩ : WriteEffects).writeAll d.tile.core
        [(idx, (memoryWrite c d (cfgAddr idx byte) n data).tile.core.mem.tensixReadCfg idx)] := by
  rw [memoryWrite_cfg c d idx hbyte]
  refine writeAll_plain rfl (writeCfg_readCfg idx.isLt rfl (Option.isSome_map ..) ?_)
  intro m hm m' hm' x hx
  change m' ∈ d.tile.core.mem.highMem.map _ at hm'
  rw [Option.mem_def.mp hm] at hm'
  cases hm'
  dsimp only
  rw [Bytes.store_apply, if_neg (by omega)]

theorem rmwcib_writeAll {m : Bytes} (hm : core.mem.highMem = some m) (byte : Fin 4) :
    rmwcibCommon core imm byte =
    (⟨fun i => i = 69, fun _ => false⟩ : WriteEffects).writeAll core
      [((imm &&& 0xFF).toNat, (rmwcibCommon core imm byte).mem.tensixReadCfg (imm &&& 0xFF).toNat)] := by
  have hlt : (imm &&& 0xFF).toNat < cfgRegCount := by
    have hle : (imm &&& 0xFF).toNat ≤ 255 := by
      rw [BitVec.toNat_and]
      exact Nat.and_le_right
    have hcount : cfgRegCount = 448 := rfl
    omega
  have hrmw : ∃ b, rmwcibCommon core imm byte =
      { core with
        mem := { core.mem with
          highMem := some (m.set (tensixCfgOffsetInHighMem + (imm &&& 0xFF).toNat * 4 + byte) b) }
        packL1WriteOffset := if (imm &&& 0xFF).toNat = 69 then 0 else core.packL1WriteOffset } := by
    unfold rmwcibCommon
    rw [hm]
    exact ⟨_, if_neg (by omega)⟩
  obtain ⟨b, hrmw⟩ := hrmw
  rw [hrmw]
  refine writeAll_single rfl (writeCfg_readCfg hlt rfl ?_ ?_) ?_ rfl
  · rw [hm]
    rfl
  · intro m₁ hm₁ m' hm' x hx
    rw [hm] at hm₁
    cases hm₁
    cases hm'
    have hbyte := byte.isLt
    exact Function.update_of_ne (by omega) ..
  · simp only [decide_eq_true_eq]

theorem shiftmask_writeAll (h : (imm &&& 0xFF).toNat < cfgStateRegs) : ttcfgshiftmask core imm tid =
    (⟨fun _ => false, fun _ => false⟩ : WriteEffects).writeAll core
      [((imm &&& 0xFF).toNat + (core.thdReg tid 0 &&& 0x1).toNat * cfgStateRegs,
        (ttcfgshiftmask core imm tid).mem.tensixReadCfg
          ((imm &&& 0xFF).toNat + (core.thdReg tid 0 &&& 0x1).toNat * cfgStateRegs))] := by
  have hlt : (imm &&& 0xFF).toNat + (core.thdReg tid 0 &&& 0x1).toNat * cfgStateRegs < cfgRegCount := by
    have hbank : (core.thdReg tid 0 &&& 0x1).toNat ≤ 1 := by
      rw [BitVec.toNat_and]
      exact Nat.and_le_right
    have hmul := Nat.mul_le_mul_right cfgStateRegs hbank
    have hcount : cfgRegCount = 448 := rfl
    have hstate : cfgStateRegs = 224 := rfl
    omega
  have hexec : ∃ v, ttcfgshiftmask core imm tid = { core with
      mem := core.mem.tensixWriteCfg ((imm &&& 0xFF).toNat +
        (core.thdReg tid 0 &&& 0x1).toNat * cfgStateRegs) v } := by
    unfold ttcfgshiftmask
    exact ⟨_, if_neg (by omega)⟩
  obtain ⟨v, hexec⟩ := hexec
  rw [hexec]
  refine writeAll_plain rfl (writeCfg_readCfg hlt ?_ ?_ ?_)
  · unfold TensixMemory.tensixWriteCfg
    cases core.mem.highMem with
    | none => rfl
    | some m =>
      dsimp only
      rw [if_pos hlt]
  · unfold TensixMemory.tensixWriteCfg
    cases hm : core.mem.highMem with
    | none => exact congrArg _ hm
    | some m =>
      dsimp only
      rw [if_pos hlt]
      rfl
  · intro m hm m' hm' x hx
    have hm := Option.mem_def.mp hm
    dsimp only [TensixMemory.tensixWriteCfg] at hm'
    rw [hm] at hm'
    dsimp only at hm'
    rw [if_pos hlt] at hm'
    cases hm'
    rw [Bytes.store_apply, if_neg hx]

theorem burst_writeAll (is : List ℕ) {core' : Tensix} (hdma : core'.dmaReg = core.dmaReg) :
    is.foldl (fun tt i =>
      if (imm &&& 0x7FFF).toNat / 4 * 4 + i < cfgRegCount ∧
        (bits imm 16 0x3F).toNat / 4 * 4 + i < dmaRegCount then
        writeCfg tt ((imm &&& 0x7FFF).toNat / 4 * 4 + i)
          (tt.dmaReg tid ((bits imm 16 0x3F).toNat / 4 * 4 + i))
      else tt) core' =
    (⟨fun i => i = 69, fun _ => false⟩ : WriteEffects).writeAll core'
      (is.filterMap (burstWrite core tid imm)) := by
  induction is generalizing core' with
  | nil => rfl
  | cons i is ih =>
    rw [List.foldl_cons]
    split
    · next hin =>
      have hsome : burstWrite core tid imm i = some ((imm &&& 0x7FFF).toNat / 4 * 4 + i,
          core.dmaReg tid ((bits imm 16 0x3F).toNat / 4 * 4 + i)) := if_pos hin
      have hwrite (value : Word) : writeCfg core' ((imm &&& 0x7FFF).toNat / 4 * 4 + i) value =
          (⟨fun i => i = 69, fun _ => false⟩ : WriteEffects).write core'
            ((imm &&& 0x7FFF).toNat / 4 * 4 + i, value) := by
        unfold writeCfg WriteEffects.write
        simp only [decide_eq_true_eq]
        rfl
      have hdma' (value : Word) : (writeCfg core' ((imm &&& 0x7FFF).toNat / 4 * 4 + i) value).dmaReg =
          core.dmaReg := hdma
      rw [ih (hdma' _), List.filterMap_cons_some hsome, hdma, hwrite]
      rfl
    · next hout =>
      have hnone : burstWrite core tid imm i = none := if_neg hout
      rw [ih hdma, List.filterMap_cons_none hnone]

theorem cfgAddr_zero (idx : Fin cfgRegCount) : (cfgAddr idx 0).toNat = 0xFFEF0000 + 4 * idx :=
  cfgAddr_toNat idx (by omega)

theorem tensixMmioWrite_cfg (tt : TensixTile) (fuel : ℕ) (coreId : ℤ) (idx : Fin cfgRegCount) (data : Word) :
    tt.tensixMmioWrite fuel coreId (cfgAddr idx 0) data =
      some (false, tt.noteCfgWrite (cfgAddr idx 0).toNat data) := by
  have hidx : (idx : ℕ) < 448 := idx.isLt
  have haddr := cfgAddr_zero idx
  have hbase : mailboxAddrBase.toNat = 0xFFEC0000 := rfl
  have hend : mailboxAddrEnd.toNat = 0xFFEC3FFF := rfl
  have hmail : inMailboxRange (cfgAddr idx 0) = false := by
    have hgt : ¬(cfgAddr idx 0).toNat ≤ mailboxAddrEnd.toNat := by omega
    rw [inMailboxRange, decide_eq_false hgt, Bool.and_false]
  have hper : perCore coreId (cfgAddr idx 0).toNat = none := by
    unfold perCore
    rw [if_neg]
    unfold isPerCoreAddr
    simp only [Bool.or_eq_true, Bool.and_eq_true, decide_eq_true_eq]
    omega
  unfold TensixTile.tensixMmioWrite
  dsimp only
  rw [hmail, if_neg Bool.false_ne_true, if_neg (by omega), hper]
  dsimp only
  rw [if_neg (by omega), if_neg (by omega), if_pos (by omega)]

theorem wrcfg_writeAll (d : CoreMem) (tid : Tid) (imm : Word) : ttwrcfg d.tile.core imm tid =
    (CfgAction.insn tid .wrcfg imm).effects.writeAll d.tile.core
      ((CfgAction.insn tid .wrcfg imm).written d) := by
  unfold ttwrcfg
  dsimp only [CfgAction.written, CfgAction.effects]
  cases hwide : bit imm 15 with
  | true =>
    rw [if_pos rfl, if_pos rfl]
    exact burst_writeAll (List.range 4) rfl
  | false =>
    rw [if_neg Bool.false_ne_true, if_neg Bool.false_ne_true]
    split
    · have hreset (i : ℕ) (x : Word) : (if i = 69 then 0 else x) = if decide (i = 69) = true then 0
          else x := by
        simp only [decide_eq_true_eq]
      split
      · next h186 => exact writeAll_single rfl rfl (hreset _ _) (if_pos (decide_eq_true h186)).symm
      · next h186 =>
        exact writeAll_single rfl rfl (hreset _ _) (if_neg fun h => h186 (of_decide_eq_true h)).symm
    · rfl

theorem storeW_writeAll (c : MemConfig) (d : CoreMem) (fuel : ℕ) (idx : Fin cfgRegCount) (data : Word) :
    (d.onMemWriteW c (cfgAddr idx 0) fuel data).map (fun d => d.tile.core) =
      some ((CfgAction.storeW c fuel idx data).effects.writeAll d.tile.core [(idx.val, data)]) := by
  have hmem (mem : TensixMemory) : mem.tensixWriteCfg idx data = { mem with
      highMem := mem.highMem.map fun m => m.store (tensixCfgOffsetInHighMem + idx * 4 + 0) 4 data } := by
    unfold TensixMemory.tensixWriteCfg
    obtain ⟨l1, high⟩ := mem
    cases high with
    | none => rfl
    | some m => exact if_pos idx.isLt
  have hidx : (0xFFEF0000 + 4 * (idx : ℕ) - 0xFFEF0000) / 4 = idx := by omega
  unfold CoreMem.onMemWriteW
  dsimp only [CfgAction.effects]
  cases c.tensix with
  | false =>
    rw [if_neg Bool.false_ne_true, if_neg Bool.false_ne_true, memoryWriteW,
      memoryWrite_cfg c d idx (by omega)]
    exact congrArg some (writeAll_plain rfl (hmem _))
  | true =>
    rw [if_pos rfl, if_pos rfl, tensixMmioWrite_cfg]
    dsimp only
    rw [memoryWriteW, memoryWrite_cfg c _ idx (by omega), TensixTile.noteCfgWrite, cfgAddr_zero, hidx,
      TensixTile.noteRegister]
    refine congrArg some (writeAll_single rfl (hmem _) ?_ ?_)
    · simp only [decide_eq_true_eq]
    · simp only [decide_eq_true_eq]
      rfl

end paths

namespace CfgAction

variable {a : CfgAction} {d : CoreMem}

theorem exec_writeAll (a : CfgAction) (d : CoreMem) : (a.exec d).map (fun d => d.tile.core) =
    some (a.effects.writeAll d.tile.core (a.written d)) := by
  cases a with
  | storeW c fuel idx data => exact storeW_writeAll c d fuel idx data
  | storeS c idx half data =>
    have hhalf := half.isLt
    exact congrArg some (narrow_writeAll c d idx (by omega) (by omega) _)
  | storeB c idx byte data =>
    have hbyte := byte.isLt
    exact congrArg some (narrow_writeAll c d idx hbyte (by omega) _)
  | insn tid i imm =>
    cases i with
    | wrcfg => exact congrArg some (wrcfg_writeAll d tid imm)
    | rmwcib byte =>
      have hrun : (runCoreImpl (CfgInsn.rmwcib byte).impl d.tile.core (fun _ => 0) imm tid).2 =
          rmwcibCommon d.tile.core imm byte := by
        match byte with
        | 0 | 1 | 2 | 3 => rfl
      refine congrArg some (hrun.trans ?_)
      dsimp only [written, effects]
      cases hm : d.tile.core.mem.highMem with
      | none =>
        unfold rmwcibCommon
        rw [hm]
        rfl
      | some m => exact rmwcib_writeAll hm byte
    | cfgshiftmask =>
      refine congrArg some ?_
      change ttcfgshiftmask d.tile.core imm tid = _
      dsimp only [written, effects]
      split
      · next h => exact shiftmask_writeAll h
      · next h =>
        unfold ttcfgshiftmask
        exact if_pos (Nat.le_of_not_lt h)

def hide (d : CoreMem) (offset : Word) (prng : ℕ → Word) : CoreMem :=
  d.setCore (d.tile.core.withHidden offset prng)

theorem written_hide (a : CfgAction) (d : CoreMem) (offset : Word) (prng : ℕ → Word) :
    a.written (hide d offset prng) = a.written d := by
  cases a with
  | storeW c fuel idx data => rfl
  | storeS c idx half data =>
    have hhalf := half.isLt
    dsimp only [written]
    rw [memoryWriteS, memoryWriteS, memoryWrite_cfg c _ idx (by omega), memoryWrite_cfg c _ idx (by omega)]
    rfl
  | storeB c idx byte data =>
    dsimp only [written]
    rw [memoryWriteB, memoryWriteB, memoryWrite_cfg c _ idx byte.isLt, memoryWrite_cfg c _ idx byte.isLt]
    rfl
  | insn tid i imm =>
    cases i with
    | wrcfg => rfl
    | rmwcib byte =>
      have hmem : (rmwcibCommon (hide d offset prng).tile.core imm byte).mem =
          (rmwcibCommon d.tile.core imm byte).mem := by
        have hkept : (hide d offset prng).tile.core.mem = d.tile.core.mem := rfl
        unfold rmwcibCommon
        rw [hkept]
        cases d.tile.core.mem.highMem with
        | none => rfl
        | some m =>
          dsimp only
          split <;> rfl
      dsimp only [written]
      rw [hmem]
      rfl
    | cfgshiftmask =>
      have hmem : (ttcfgshiftmask (hide d offset prng).tile.core imm tid).mem =
          (ttcfgshiftmask d.tile.core imm tid).mem := by
        unfold ttcfgshiftmask
        dsimp only
        split <;> rfl
      dsimp only [written]
      rw [hmem]
      rfl

/-- Whatever the packer's offset and the random state, the path comes to the abstract event for each
register that takes a value. -/
def SameEffects (a : CfgAction) (d : CoreMem) : Prop :=
  ∀ offset prng, (a.exec (hide d offset prng)).map (fun d => d.tile.core) =
    some (registerWrite.writeAll (hide d offset prng).tile.core (a.written d))

/-- The path and the register do not meet in one of the cases that the source forgets, or treats as a
second seed register. -/
def Harmless (d : CoreMem) : CfgAction → Prop
  | .storeW c _ idx _ => if c.tensix then idx.val ≠ 186 + 224 else idx.val ≠ 69 ∧ idx.val ≠ 186
  | .storeS _ idx _ _ | .storeB _ idx _ _ => idx.val ≠ 69 ∧ idx.val ≠ 186
  | .insn _ .wrcfg imm => bit imm 15 = true → (imm &&& 0x7FFF).toNat / 4 * 4 ≠ 184
  | .insn _ (.rmwcib _) imm => d.tile.core.mem.highMem.isSome → (imm &&& 0xFF).toNat ≠ 186
  | .insn tid .cfgshiftmask imm =>
    (d.tile.core.thdReg tid 0 &&& 0x1).toNat = 0 → (imm &&& 0xFF).toNat ≠ 69 ∧ (imm &&& 0xFF).toNat ≠ 186

theorem mem_burst {core : Tensix} {tid : Tid} {imm : Word} {x : ℕ × Word} :
    x ∈ (List.range 4).filterMap (burstWrite core tid imm) →
      ∃ i < 4, x.1 = (imm &&& 0x7FFF).toNat / 4 * 4 + i := by
  intro hx
  obtain ⟨i, hi, hsome⟩ := List.mem_filterMap.mp hx
  refine ⟨i, List.mem_range.mp hi, ?_⟩
  dsimp only [burstWrite] at hsome
  split at hsome
  · cases hsome
    rfl
  · cases hsome

theorem burst_seed {core : Tensix} {tid : Tid} {imm : Word} (h : (imm &&& 0x7FFF).toNat / 4 * 4 = 184) :
    ∃ x ∈ (List.range 4).filterMap (burstWrite core tid imm), x.1 = 186 := by
  have hgpr : (bits imm 16 0x3F).toNat ≤ 63 := by
    rw [bits, BitVec.toNat_and]
    exact Nat.and_le_right
  have hcount : cfgRegCount = 448 := rfl
  have hdma : dmaRegCount = 64 := rfl
  have hsome : burstWrite core tid imm 2 = some ((imm &&& 0x7FFF).toNat / 4 * 4 + 2,
      core.dmaReg tid ((bits imm 16 0x3F).toNat / 4 * 4 + 2)) := if_pos ⟨by omega, by omega⟩
  exact ⟨_, List.mem_filterMap.mpr ⟨2, by decide, hsome⟩, by dsimp only; omega⟩

theorem Harmless.agreeOn (h : a.Harmless d) : a.effects.AgreeOn registerWrite (a.written d) := by
  intro x hx
  cases a with
  | storeW c fuel idx data =>
    obtain rfl := List.mem_singleton.mp hx
    dsimp only [Harmless, effects, registerWrite] at h ⊢
    split at h
    · next htensix =>
      rw [if_pos htensix]
      exact ⟨rfl, by simp [h]⟩
    · next htensix =>
      rw [if_neg htensix]
      simp [h.1, h.2]
  | storeS c idx half data =>
    obtain rfl := List.mem_singleton.mp hx
    exact ⟨(decide_eq_false h.1).symm, (decide_eq_false h.2).symm⟩
  | storeB c idx byte data =>
    obtain rfl := List.mem_singleton.mp hx
    exact ⟨(decide_eq_false h.1).symm, (decide_eq_false h.2).symm⟩
  | insn tid i imm =>
    cases i with
    | wrcfg =>
      refine ⟨rfl, ?_⟩
      dsimp only [effects, registerWrite]
      cases hwide : bit imm 15 with
      | false => rfl
      | true =>
        dsimp only [written] at hx
        rw [if_pos hwide] at hx
        obtain ⟨i, hi, hxi⟩ := mem_burst hx
        have hbase := h hwide
        rw [decide_eq_false (by omega)]
        rfl
    | rmwcib byte =>
      refine ⟨rfl, ?_⟩
      dsimp only [written] at hx
      split at hx
      · next hsome =>
        obtain rfl := List.mem_singleton.mp hx
        exact (decide_eq_false (h hsome)).symm
      · cases hx
    | cfgshiftmask =>
      dsimp only [written] at hx
      split at hx
      · obtain rfl := List.mem_singleton.mp hx
        have hstate : cfgStateRegs = 224 := rfl
        have hbank : (d.tile.core.thdReg tid 0 &&& 0x1).toNat ≤ 1 := by
          rw [BitVec.toNat_and]
          exact Nat.and_le_right
        have hne : (imm &&& 0xFF).toNat + (d.tile.core.thdReg tid 0 &&& 0x1).toNat * cfgStateRegs ≠ 69 ∧
            (imm &&& 0xFF).toNat + (d.tile.core.thdReg tid 0 &&& 0x1).toNat * cfgStateRegs ≠ 186 := by
          obtain h0 | h1 : (d.tile.core.thdReg tid 0 &&& 0x1).toNat = 0 ∨
              (d.tile.core.thdReg tid 0 &&& 0x1).toNat = 1 := by omega
          · have hidx := h h0
            rw [h0]
            omega
          · rw [h1]
            omega
        exact ⟨(decide_eq_false hne.1).symm, (decide_eq_false hne.2).symm⟩
      · cases hx

theorem harmless_of_any
    (hreset : ((a.written d).any fun x => a.effects.resets x.1) = (a.written d).any fun x =>
      registerWrite.resets x.1)
    (hseed : ((a.written d).any fun x => a.effects.reseeds x.1) = (a.written d).any fun x =>
      registerWrite.reseeds x.1) :
    a.Harmless d := by
  cases a with
  | storeW c fuel idx data =>
    simp only [written, List.any_cons, List.any_nil, Bool.or_false] at hreset hseed
    dsimp only [Harmless, effects, registerWrite] at hreset hseed ⊢
    split
    · next htensix =>
      rw [if_pos htensix] at hseed
      intro h410
      rw [h410] at hseed
      exact absurd hseed (by decide)
    · next htensix =>
      rw [if_neg htensix] at hreset hseed
      exact ⟨of_decide_eq_false hreset.symm, of_decide_eq_false hseed.symm⟩
  | storeS c idx half data =>
    simp only [written, List.any_cons, List.any_nil, Bool.or_false] at hreset hseed
    exact ⟨of_decide_eq_false hreset.symm, of_decide_eq_false hseed.symm⟩
  | storeB c idx byte data =>
    simp only [written, List.any_cons, List.any_nil, Bool.or_false] at hreset hseed
    exact ⟨of_decide_eq_false hreset.symm, of_decide_eq_false hseed.symm⟩
  | insn tid i imm =>
    cases i with
    | wrcfg =>
      intro hwide hbase
      dsimp only [written, effects, registerWrite] at hseed
      rw [if_pos hwide, hwide] at hseed
      have hmem : ∃ x ∈ (List.range 4).filterMap (burstWrite d.tile.core tid imm), x.1 = 186 :=
        burst_seed hbase
      obtain ⟨x, hx, h186⟩ := hmem
      have hany : (((List.range 4).filterMap (burstWrite d.tile.core tid imm)).any fun x =>
          decide (x.1 = 186)) = true :=
        List.any_eq_true.mpr ⟨x, hx, decide_eq_true h186⟩
      rw [hany] at hseed
      obtain ⟨y, _, hy⟩ := List.any_eq_true.mp hseed
      exact Bool.false_ne_true hy
    | rmwcib byte =>
      intro hsome
      dsimp only [written] at hseed
      rw [if_pos hsome] at hseed
      simp only [List.any_cons, List.any_nil, Bool.or_false] at hseed
      exact of_decide_eq_false hseed.symm
    | cfgshiftmask =>
      intro h0
      by_cases hlt : (imm &&& 0xFF).toNat < cfgStateRegs
      · dsimp only [written] at hreset hseed
        rw [if_pos hlt, h0] at hreset hseed
        simp only [List.any_cons, List.any_nil, Bool.or_false, Nat.zero_mul, Nat.add_zero] at hreset hseed
        exact ⟨of_decide_eq_false hreset.symm, of_decide_eq_false hseed.symm⟩
      · have hstate : cfgStateRegs = 224 := rfl
        omega

theorem sameEffects_iff (a : CfgAction) (d : CoreMem) : a.SameEffects d ↔ a.Harmless d := by
  have hexec (offset : Word) (prng : ℕ → Word) : (a.exec (hide d offset prng)).map (fun d => d.tile.core) =
      some (a.effects.writeAll (d.tile.core.withHidden offset prng) (a.written d)) := by
    rw [exec_writeAll, written_hide]
    rfl
  constructor
  · intro h
    have hall (offset : Word) (prng : ℕ → Word) :
        a.effects.writeAll (d.tile.core.withHidden offset prng) (a.written d) =
          registerWrite.writeAll (d.tile.core.withHidden offset prng) (a.written d) :=
      Option.some.inj ((hexec offset prng).symm.trans (h offset prng))
    obtain ⟨hreset, hseed⟩ := WriteEffects.any_eq_of_writeAll_eq hall
    exact harmless_of_any hreset hseed
  · intro h offset prng
    rw [hexec, WriteEffects.writeAll_congr h.agreeOn]
    rfl

structure HarmlessStep (d : CoreMem) (l : CfgAction × List (ℕ × Word)) (d' : CoreMem) : Prop where
  exec : l.1.exec d = some d'
  harmless : l.1.Harmless d
  written : l.2 = l.1.written d

theorem HarmlessStep.core {d d' : CoreMem} {l : CfgAction × List (ℕ × Word)} (h : HarmlessStep d l d') :
    d'.tile.core = registerWrite.writeAll d.tile.core l.2 := by
  have hexec := exec_writeAll l.1 d
  rw [h.exec, WriteEffects.writeAll_congr h.harmless.agreeOn, ← h.written] at hexec
  exact Option.some.inj hexec

theorem harmlessRun_core {d t : CoreMem} {ls : List (CfgAction × List (ℕ × Word))}
    (h : Run HarmlessStep d ls t) :
    t.tile.core = registerWrite.writeAll d.tile.core (ls.flatMap Prod.snd) := by
  induction h with
  | nil => rfl
  | cons hs _ ih =>
    rw [ih, hs.core, List.flatMap_cons]
    exact (List.foldl_append ..).symm

end CfgAction

def Tensix.cfgView (core : Tensix) : TensixMemory × Word × (ℕ → Word) :=
  (core.mem, core.packL1WriteOffset, core.sfpu.prngState)

theorem WriteEffects.writeAll_cfgView (e : WriteEffects) (ws : List (ℕ × Word)) {core core' : Tensix}
    (h : core.cfgView = core'.cfgView) : (e.writeAll core ws).cfgView = (e.writeAll core' ws).cfgView := by
  unfold writeAll
  induction ws generalizing core core' with
  | nil => exact h
  | cons x ws ih =>
    rw [List.foldl_cons, List.foldl_cons]
    apply ih
    obtain ⟨hmem, hrest⟩ := Prod.mk.inj h
    obtain ⟨hoffset, hprng⟩ := Prod.mk.inj hrest
    unfold write Tensix.cfgView
    dsimp only
    rw [hmem, hoffset]
    congr 2
    split
    · simp only [Sfpu.reseed, hprng]
    · exact hprng

/-- A path has the effects of the abstract event exactly where it is harmless; and runs that put the
same values into the registers by harmless paths end with the same memory, packer offset and random
state. -/
theorem cfg_write_paths_agree (a : CfgAction) (d : CoreMem) :
    (a.SameEffects d ↔ a.Harmless d) ∧
      ∀ (d' t t' : CoreMem) (ls ls' : List (CfgAction × List (ℕ × Word))),
        Run CfgAction.HarmlessStep d ls t → Run CfgAction.HarmlessStep d' ls' t' →
        d.tile.core.cfgView = d'.tile.core.cfgView → ls.flatMap Prod.snd = ls'.flatMap Prod.snd →
        t.tile.core.cfgView = t'.tile.core.cfgView := by
  refine ⟨a.sameEffects_iff d, fun d' t t' ls ls' hrun hrun' hview hwritten => ?_⟩
  rw [CfgAction.harmlessRun_core hrun, CfgAction.harmlessRun_core hrun', hwritten]
  exact registerWrite.writeAll_cfgView _ hview

theorem rmwcib_seed_lost :
    ∃ t, (CfgAction.insn 0 (.rmwcib 0) 0xFF2ABA).exec ⟨{ TensixTile.zero with
        core := tensixInit ⟨none, some fun _ => 0⟩ }, fun _ => 0⟩ = some t ∧
      t.tile.core.mem.tensixReadCfg 186 = 42 ∧ t.tile.core.sfpu.prngState 0 ≠ 42 + w32 0 ∧
      ¬(CfgAction.insn 0 (.rmwcib 0) 0xFF2ABA).SameEffects ⟨{ TensixTile.zero with
        core := tensixInit ⟨none, some fun _ => 0⟩ }, fun _ => 0⟩ := by
  refine ⟨_, rfl, by decide +kernel, by decide, fun h => ?_⟩
  exact (CfgAction.sameEffects_iff _ _).mp h rfl (by decide)

end Rv32Emu
