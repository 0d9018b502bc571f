import Rv32Emu.Cop.Reset
import Rv32Emu.Tile.Mailbox

namespace Rv32Emu

/-- A pointer that the model does not follow; `none` is the null pointer. -/
abbrev Ptr := Option ℕ

inductive DataFormat
  | float32 | float16 | bfp8 | bfp4 | bfp2 | float16b | bfp8b | bfp4b | bfp2b | lf8 | uint16 | int8 | uint8
  | int32 | int16 | tf32 | testMan7 | testMan2 | invalid

structure AddrModVals where
  incr : Word
  clr : Word
  cr : Word

structure AddrModReduced where
  incr : Word
  clr : Word

structure AddrModDest extends AddrModVals where
  cToCr : Word

structure AddrMod where
  srca : AddrModVals
  srcb : AddrModVals
  dest : AddrModDest
  fidelity : AddrModReduced
  bias : AddrModReduced

structure AddrModPack where
  ySrc : AddrModVals
  yDst : AddrModVals
  zSrc : AddrModReduced
  zDst : AddrModReduced

structure CfgCntx where
  baseAddr : Word
  offsetAddr : Word

structure AddrCfg where
  tileInDataFormat : DataFormat
  tileDim : Fin 4 → Word
  ch0Stride : Fin 4 → Word
  ch1Stride : Fin 3 → Word
  cntx : Fin 8 → CfgCntx
  unpCntxOffset : Word
  xEnd : Word
  updateStrides : Bool

structure PackConfig where
  packFp32Dest : Bool
  packSrcFormat : DataFormat
  packDstFormat : DataFormat
  packDim : Fin 3 → Word
  packCh0Stride : Fin 3 → Word
  packCh1Stride : Fin 4 → Word
  packL1Offset : Word
  reluType : Word
  reluThreshold : Word
  packDestOffset : Fin 4 → Word
  packDestAddr : Word
  packL1Acc : Bool
  packUpdateStrides : Bool

structure MopTemplate0 where
  unpackB : Bool
  unpackHalo : Bool
  instrs : Fin 7 → Ptr

structure MopTemplate1 where
  loopOuter : Word
  loopInner : Word
  ops : Fin 7 → Ptr

structure SpareRegs where
  mova2dLatchedBank : BitVec 8
  bias : Word
  addrMod : Fin 8 → AddrMod
  addrModPack : Fin 8 → AddrModPack
  destOffset : Word
  haloizeMode : Word
  tileizeMode : Word
  shiftAmount : Word
  tileXDim : Word
  ovrdCh0Stride : Fin 4 → Word
  ovrdCh1Stride : Fin 3 → Word
  adcCfg : Fin 3 → AddrCfg
  threadId : Word
  cfgReg : Fin 2 → ℕ → Word
  cfgStateId : Tid → Word
  packConfigs : Fin 4 → PackConfig
  packEdgeOffsetMask : Fin 4 → Word
  packEdgeRowSetSelect : Fin 4 → Word
  tileRowSetMapping : Fin 4 → Word
  semMathPack : Word
  mopType : Word
  mopTempl0 : MopTemplate0
  mopTempl1 : MopTemplate1
  log2ReplayBufferDepth : Word
  dbgArrayRdCmd : Word

structure Coprocessor where
  threads : Tid → TensixThreadCop
  stallCycles : Tid → Word
  core : Ptr
  halted : Bool
  totalCycles : ℕ
  memCtx : Ptr
  memReadFn : Ptr
  memWriteFn : Ptr

structure TensixTile where
  core : Tensix
  ldm : Tid → Option Bytes
  cop : Option Coprocessor
  nocXy : BitVec 16
  spare : SpareRegs
  replay : Tid → Replay
  mail : Mailboxes
  coresInKernel : BitVec 8
  hadTriscInKernel : Bool

section wiped

def AddrModVals.zero : AddrModVals := ⟨0, 0, 0⟩

def AddrModReduced.zero : AddrModReduced := ⟨0, 0⟩

def AddrMod.zero : AddrMod := ⟨.zero, .zero, ⟨.zero, 0⟩, .zero, .zero⟩

def AddrModPack.zero : AddrModPack := ⟨.zero, .zero, .zero, .zero⟩

def CfgCntx.zero : CfgCntx := ⟨0, 0⟩

def AddrCfg.zero : AddrCfg where
  tileInDataFormat := .float32
  tileDim := fun _ => 0
  ch0Stride := fun _ => 0
  ch1Stride := fun _ => 0
  cntx := fun _ => .zero
  unpCntxOffset := 0
  xEnd := 0
  updateStrides := false

def PackConfig.zero : PackConfig where
  packFp32Dest := false
  packSrcFormat := .float32
  packDstFormat := .float32
  packDim := fun _ => 0
  packCh0Stride := fun _ => 0
  packCh1Stride := fun _ => 0
  packL1Offset := 0
  reluType := 0
  reluThreshold := 0
  packDestOffset := fun _ => 0
  packDestAddr := 0
  packL1Acc := false
  packUpdateStrides := false

def SpareRegs.zero : SpareRegs where
  mova2dLatchedBank := 0
  bias := 0
  addrMod := fun _ => .zero
  addrModPack := fun _ => .zero
  destOffset := 0
  haloizeMode := 0
  tileizeMode := 0
  shiftAmount := 0
  tileXDim := 0
  ovrdCh0Stride := fun _ => 0
  ovrdCh1Stride := fun _ => 0
  adcCfg := fun _ => .zero
  threadId := 0
  cfgReg := fun _ _ => 0
  cfgStateId := fun _ => 0
  packConfigs := fun _ => .zero
  packEdgeOffsetMask := fun _ => 0
  packEdgeRowSetSelect := fun _ => 0
  tileRowSetMapping := fun _ => 0
  semMathPack := 0
  mopType := 0
  mopTempl0 := ⟨false, false, fun _ => none⟩
  mopTempl1 := ⟨0, 0, fun _ => none⟩
  log2ReplayBufferDepth := 0
  dbgArrayRdCmd := 0

def AddrCtrl.zero : AddrCtrl := ⟨0, 0, 0, 0, 0, 0, 0, 0, 0, 0, 0, 0, 0, 0, 0, 0⟩

def Tensix.zero : Tensix where
  mem := ⟨none, none⟩
  srca := fun _ _ _ => 0
  srcb := fun _ _ _ => 0
  srcaDvalid := fun _ => false
  srcbDvalid := fun _ => false
  srcbZeroed := fun _ => false
  unpSrcaBank := 0
  unpSrcbBank := 0
  mathSrcaBank := 0
  mathSrcbBank := 0
  lastUnpSrcaBank := 0
  mova2dBankValid := false
  dest := fun _ _ => 0
  destDvalid := false
  packL1WriteOffset := 0
  packL1DestAddrRaw := 0
  rwc := fun _ => ⟨0, 0, 0, 0, 0, 0, 0⟩
  adc := fun _ => .zero
  mutex := fun _ => 0
  sem := fun _ => 0
  semMax := fun _ => 0
  thdReg := fun _ _ => 0
  dmaReg := fun _ _ => 0
  sfpu :=
    { lreg := fun _ _ => 0
      laneFlags := fun _ => false
      useLaneFlags := fun _ => false
      flagStack := fun _ => ⟨fun _ => false, fun _ => false⟩
      flagStackTop := 0
      prngState := fun _ => 0 }
  neginf := 0

def TensixThreadCop.zero : TensixThreadCop where
  insnFifo := ⟨fun _ => 0, 0, 0, 0⟩
  state := .idle
  waitGate := ⟨false, 0, 0, 0, 0, 0, 0⟩
  currentInsn := none
  directInsn := none
  mopCfg := fun _ => 0
  zmaskHi16 := 0
  mopState := .zero
  insnExecuted := 0
  cyclesIdle := 0
  cyclesWaiting := 0
  currentOrigin := .fifo
  log := []

def Coprocessor.zero : Coprocessor where
  threads := fun _ => .zero
  stallCycles := fun _ => 0
  core := none
  halted := false
  totalCycles := 0
  memCtx := none
  memReadFn := none
  memWriteFn := none

def TensixTile.zero : TensixTile where
  core := .zero
  ldm := fun _ => none
  cop := none
  nocXy := 0
  spare := .zero
  replay := fun _ => ⟨fun _ => 0, 0, 0, false, false, false, 0, 0, 0⟩
  mail := ⟨fun _ _ => ⟨fun _ => 0, 0, 0⟩, fun _ => false⟩
  coresInKernel := 0
  hadTriscInKernel := false

end wiped

def lregConstants (lreg : ℕ → ℕ → Word) : ℕ → ℕ → Word := fun r i =>
  if r = 8 then 0x3F56594B
  else if r = 9 then 0
  else if r = 10 then 0x3F800000
  else if r = 11 then 0xBF800000
  else if r = 15 then BitVec.ofNat 32 (2 * i)
  else lreg r i

def Coprocessor.init (core : Ptr) : Coprocessor :=
  { Coprocessor.zero with
    core := core
    threads := fun t => tensixCopInitThread (Coprocessor.zero.threads t) }

namespace TensixTile

/-- `self` is the tile's own address, and `allocated` whether there was memory for the coprocessor. -/
def tensixInit (mem : TensixMemory) (ldm : Tid → Option Bytes) (nocXy : BitVec 16) (self : Ptr)
    (allocated : Bool) : TensixTile :=
  { zero with
    nocXy := nocXy
    ldm := ldm
    core :=
      { zero.core with
        mem := mem
        mutex := fun _ => mutexNone
        sem := fun _ => 0
        semMax := fun i => if i = 2 ∨ i = 4 ∨ i = 7 then 1 else 0
        thdReg := fun _ _ => 0
        dmaReg := fun _ _ => 0
        adc := fun _ => .zero
        srca := fun _ _ _ => 0
        srcb := fun _ _ _ => 0
        dest := fun _ _ => 0
        srcaDvalid := fun _ => false
        srcbDvalid := fun _ => false
        unpSrcaBank := 0
        unpSrcbBank := 0
        mathSrcaBank := 0
        mathSrcbBank := 0
        destDvalid := false
        packL1WriteOffset := 0
        packL1DestAddrRaw := 0
        sfpu :=
          { zero.core.sfpu with
            flagStackTop := -1
            laneFlags := fun _ => true
            useLaneFlags := fun _ => true
            lreg := lregConstants zero.core.sfpu.lreg }
        neginf := 0xFF800000 }
    spare :=
      { zero.spare with
        cfgStateId := fun _ => 0
        cfgReg := fun _ _ => 0
        packConfigs := fun _ => .zero
        adcCfg := fun _ => .zero }
    cop := if allocated then some (.init self) else none }

end TensixTile

/-- High memory is cleared on both sides of the configuration registers. -/
def clearHighMem (m : Bytes) : Bytes :=
  let cfgEnd := tensixCfgOffsetInHighMem + cfgRegCount * 4
  fun a => if a < tensixCfgOffsetInHighMem then 0 else if cfgEnd ≤ a ∧ a < 0x600000 then 0 else m a

def Coprocessor.clear (cop : Coprocessor) : Coprocessor :=
  { Coprocessor.zero with
    core := cop.core
    memCtx := cop.memCtx
    memReadFn := cop.memReadFn
    memWriteFn := cop.memWriteFn
    threads := fun t => { Coprocessor.zero.threads t with
      mopCfg := (cop.threads t).mopCfg
      zmaskHi16 := (cop.threads t).zmaskHi16 } }

namespace TensixTile

def tensixClear (tt : TensixTile) : TensixTile :=
  { zero with
    ldm := tt.ldm
    cop := tt.cop.map Coprocessor.clear
    nocXy := tt.nocXy
    coresInKernel := tt.coresInKernel
    core :=
      { zero.core with
        mem := { tt.core.mem with highMem := tt.core.mem.highMem.map clearHighMem }
        semMax := tt.core.semMax
        mutex := fun _ => mutexNone
        sfpu :=
          { zero.core.sfpu with
            flagStackTop := -1
            laneFlags := tt.core.sfpu.laneFlags
            useLaneFlags := tt.core.sfpu.useLaneFlags
            lreg := lregConstants zero.core.sfpu.lreg }
        neginf := 0xFF800000 } }

/-- What a clear saves of the coprocessor: the pointers and callbacks, the MOP configuration and its mask. -/
def keepCop (init cop : Coprocessor) : Coprocessor :=
  { init with
    core := cop.core
    memCtx := cop.memCtx
    memReadFn := cop.memReadFn
    memWriteFn := cop.memWriteFn
    threads := fun t => { init.threads t with
      mopCfg := (cop.threads t).mopCfg, zmaskHi16 := (cop.threads t).zmaskHi16 } }

/-- The initial state, with exactly these values kept from `tt`: the memory pointers, the coprocessor's
callbacks, MOP configuration and mask, the coordinate, the mask of cores in kernel code, the semaphore maxima
and the lane flags with their enables. Of high memory the configuration registers are kept. -/
def keeping (init tt : TensixTile) : TensixTile :=
  { init with
    ldm := tt.ldm
    cop := init.cop.bind fun cop₀ => tt.cop.map (keepCop cop₀)
    nocXy := tt.nocXy
    coresInKernel := tt.coresInKernel
    core :=
      { init.core with
        mem := { tt.core.mem with highMem := tt.core.mem.highMem.map clearHighMem }
        semMax := tt.core.semMax
        sfpu :=
          { init.core.sfpu with
            laneFlags := tt.core.sfpu.laneFlags
            useLaneFlags := tt.core.sfpu.useLaneFlags } } }

theorem clearHighMem_cfg (m : Bytes) {a : ℕ} (h₀ : tensixCfgOffsetInHighMem ≤ a)
    (h₁ : a < tensixCfgOffsetInHighMem + cfgRegCount * 4) : clearHighMem m a = m a := by
  unfold clearHighMem
  rw [if_neg (by omega), if_neg (by omega)]

theorem clearHighMem_clearHighMem (m : Bytes) : clearHighMem (clearHighMem m) = clearHighMem m := by
  funext a
  unfold clearHighMem
  split_ifs <;> rfl

variable (tt : TensixTile)

theorem tensixClear_cfg (idx : ℕ) :
    tt.tensixClear.core.mem.tensixReadCfg idx = tt.core.mem.tensixReadCfg idx := by
  have hmem : tt.tensixClear.core.mem =
      { tt.core.mem with highMem := tt.core.mem.highMem.map clearHighMem } := rfl
  rw [hmem]
  unfold TensixMemory.tensixReadCfg
  cases tt.core.mem.highMem with
  | none => rfl
  | some m =>
    simp only [Option.map_some]
    split_ifs with hidx
    · apply Bytes.load_congr
      intro i hi
      apply clearHighMem_cfg <;> omega
    · rfl

theorem tensixClear_cop (mem : TensixMemory) (ldm : Tid → Option Bytes) (nocXy : BitVec 16) (self : Ptr) :
    (tensixInit mem ldm nocXy self tt.cop.isSome).cop.bind (fun cop₀ => tt.cop.map (keepCop cop₀)) =
      tt.cop.map Coprocessor.clear := by
  cases h : tt.cop with
  | none => rfl
  | some cop => rfl

theorem tensix_clear_reinitialises (mem : TensixMemory) (ldm : Tid → Option Bytes) (nocXy : BitVec 16)
    (self : Ptr) :
    tt.tensixClear = (tensixInit mem ldm nocXy self tt.cop.isSome).keeping tt ∧
      (∀ idx, tt.tensixClear.core.mem.tensixReadCfg idx = tt.core.mem.tensixReadCfg idx) ∧
      tt.tensixClear.tensixClear = tt.tensixClear := by
  refine ⟨?_, tt.tensixClear_cfg, ?_⟩
  · unfold keeping
    rw [tensixClear_cop]
    rfl
  · have hmem : (tt.core.mem.highMem.map clearHighMem).map clearHighMem =
        tt.core.mem.highMem.map clearHighMem := by
      rw [Option.map_map]
      exact congrArg (Option.map · _) (funext clearHighMem_clearHighMem)
    have hcop : (tt.cop.map Coprocessor.clear).map Coprocessor.clear = tt.cop.map Coprocessor.clear := by
      rw [Option.map_map]
      rfl
    unfold tensixClear
    simp only [hmem, hcop]

def toCop (cop : Coprocessor) : TensixCop := ⟨cop.threads, tt.replay, tt.core, cop.halted⟩

theorem tensixInit_toCop (mem : TensixMemory) (ldm : Tid → Option Bytes) (nocXy : BitVec 16) (self : Ptr)
    (allocated : Bool) :
    (tensixInit mem ldm nocXy self allocated).toCop (.init self) =
      tensixCopInit (Rv32Emu.tensixInit mem) fun _ => .init := by
  have hl : lregConstants zero.core.sfpu.lreg = (Rv32Emu.tensixInit mem).sfpu.lreg := by
    funext r i
    simp only [lregConstants, Rv32Emu.tensixInit]
    split_ifs <;> first | rfl | omega
  unfold toCop tensixInit
  rw [hl]
  rfl

theorem clear_discards_work {tt tt₁ : TensixTile} {cop cop₁ : Coprocessor} {cop' : TensixCop}
    {ls : List Label} (hmem : tt.core.mem = tt₁.core.mem) (hsem : tt.core.semMax = tt₁.core.semMax)
    (hcfg : ∀ t, (cop.threads t).mopCfg = (cop₁.threads t).mopCfg)
    (hmask : ∀ t, (cop.threads t).zmaskHi16 = (cop₁.threads t).zmaskHi16)
    (h : CopRun (tt.tensixClear.toCop cop.clear) ls cop') :
    ∃ cop₁', Run ActsTogether (tt.tensixClear.toCop cop.clear, tt₁.tensixClear.toCop cop₁.clear) ls (cop',
      cop₁') := by
  apply CopAlike.run _ h
  refine ⟨?_, rfl, funext fun t => ?_, rfl⟩
  · simp only [toCop, tensixClear, Tensix.issueState, hmem, hsem]
  · simp only [toCop, Coprocessor.clear, hcfg, hmask]

def freshTile : TensixTile := tensixInit ⟨none, none⟩ (fun _ => none) 0 none true

def recordingTile : TensixTile := { freshTile with replay := (powerUp.after 3 recordingTrace).replay }

theorem clear_discards_recording :
    (recordingTile.replay 0).recording = true ∧
      ∃ cop₁', Run ActsTogether (recordingTile.tensixClear.toCop (Coprocessor.init none).clear,
          freshTile.tensixClear.toCop (Coprocessor.init none).clear) [⟨0, .issue 0x02000000, true⟩]
        ((recordingTile.tensixClear.toCop (Coprocessor.init none).clear).after 3 [(0, .issue 0x02000000)],
          cop₁') :=
  ⟨by decide, clear_discards_work rfl rfl (fun _ => rfl) (fun _ => rfl) (TensixCop.exec_after (by decide))⟩

end TensixTile

end Rv32Emu
