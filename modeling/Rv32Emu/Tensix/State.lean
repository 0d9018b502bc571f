import Rv32Emu.Tensix.Word

namespace Rv32Emu

def srcaRows : ℕ := 64
def srcbRows : ℕ := 64
def destRows : ℕ := 1024
def rowSize : ℕ := 16
def lregLanes : ℕ := 32
def flagStackDepth : ℤ := 8
def dmaRegCount : ℕ := 64
def thdRegCount : ℕ := 57
def cfgStateRegs : ℕ := 56 * 4
def cfgRegCount : ℕ := cfgStateRegs * 2
def tensixCfgOffsetInHighMem : ℕ := 0x3F0000
def mutexNone : Word := 0xff

structure AddrCtrl where
  ch0X : Word
  ch0Y : Word
  ch0Z : Word
  ch0W : Word
  ch1X : Word
  ch1Y : Word
  ch1Z : Word
  ch1W : Word
  ch0XCr : Word
  ch0YCr : Word
  ch0ZCr : Word
  ch0WCr : Word
  ch1XCr : Word
  ch1YCr : Word
  ch1ZCr : Word
  ch1WCr : Word

structure TensixMemory where
  l1Scratchpad : Option Bytes
  highMem : Option Bytes

structure Rwc where
  srcaRwc : Word
  srcaRwcCr : Word
  srcbRwc : Word
  srcbRwcCr : Word
  destRwc : Word
  destRwcCr : Word
  fidelity : Word

structure FlagFrame where
  laneFlags : ℕ → Bool
  useLaneFlags : ℕ → Bool

/-- The vector unit: its registers, lane predication and random state. -/
structure Sfpu where
  lreg : ℕ → ℕ → Word
  laneFlags : ℕ → Bool
  useLaneFlags : ℕ → Bool
  flagStack : ℤ → FlagFrame
  flagStackTop : ℤ
  prngState : ℕ → Word

/-- The part of the Tensix state that the three threads share, without the replay state. -/
structure Tensix where
  mem : TensixMemory
  srca : Bank → Grid
  srcb : Bank → Grid
  srcaDvalid : Bank → Bool
  srcbDvalid : Bank → Bool
  srcbZeroed : Bank → Bool
  unpSrcaBank : Bank
  unpSrcbBank : Bank
  mathSrcaBank : Bank
  mathSrcbBank : Bank
  lastUnpSrcaBank : Bank
  mova2dBankValid : Bool
  dest : Grid
  destDvalid : Bool
  packL1WriteOffset : Word
  packL1DestAddrRaw : Word
  rwc : Tid → Rwc
  adc : Fin 3 → AddrCtrl
  mutex : Fin 8 → Word
  sem : Fin 8 → Word
  semMax : Fin 8 → Word
  thdReg : Tid → ℕ → Word
  dmaReg : Tid → ℕ → Word
  sfpu : Sfpu
  neginf : Word

/-- The replay state of one thread: its buffer, recording state and expansion cursor. -/
structure Replay where
  buffer : ℕ → Word
  index : ℕ
  left : ℕ
  executeWhileLoading : Bool
  recording : Bool
  expanding : Bool
  expandStart : ℕ
  expandCount : ℕ
  expandCurrent : ℕ

namespace TensixMemory

def tensixReadCfg (mem : TensixMemory) (regIdx : ℕ) : Word :=
  match mem.highMem with
  | some m => if regIdx < cfgRegCount then m.load (tensixCfgOffsetInHighMem + regIdx * 4) 4 else 0
  | none => 0

def tensixWriteCfg (mem : TensixMemory) (regIdx : ℕ) (value : Word) : TensixMemory :=
  match mem.highMem with
  | some m =>
    if regIdx < cfgRegCount then
      { mem with highMem := some (m.store (tensixCfgOffsetInHighMem + regIdx * 4) 4 value) }
    else mem
  | none => mem

end TensixMemory

namespace Tensix

def setRwc (tt : Tensix) (tid : Tid) (r : Rwc) : Tensix :=
  { tt with rwc := Function.update tt.rwc tid r }

def setAdc (tt : Tensix) (i : Fin 3) (a : AddrCtrl) : Tensix :=
  { tt with adc := Function.update tt.adc i a }

def setThdReg (tt : Tensix) (tid : Tid) (i : ℕ) (w : Word) : Tensix :=
  { tt with thdReg := Function.update tt.thdReg tid (Function.update (tt.thdReg tid) i w) }

def setDmaReg (tt : Tensix) (tid : Tid) (i : ℕ) (w : Word) : Tensix :=
  { tt with dmaReg := Function.update tt.dmaReg tid (Function.update (tt.dmaReg tid) i w) }

def setSfpu (tt : Tensix) (s : Sfpu) : Tensix := { tt with sfpu := s }

def flipSrca (tt : Tensix) : Tensix :=
  { tt with
    srcaDvalid := Function.update tt.srcaDvalid tt.mathSrcaBank false
    mathSrcaBank := tt.mathSrcaBank + 1 }

def flipSrcb (tt : Tensix) : Tensix :=
  { tt with
    srcbDvalid := Function.update tt.srcbDvalid tt.mathSrcbBank false
    mathSrcbBank := tt.mathSrcbBank + 1 }

def flipBanks (tt : Tensix) (a b : Bool) : Tensix :=
  let tt := if a then tt.flipSrca else tt
  if b then tt.flipSrcb else tt

def srcaReady (tt : Tensix) : Bool := tt.srcaDvalid tt.mathSrcaBank

def srcbReady (tt : Tensix) : Bool := tt.srcbDvalid tt.mathSrcbBank

end Tensix

def tensixInit (mem : TensixMemory) : Tensix where
  mem := mem
  srca := fun _ _ _ => 0
  srcb := fun _ _ _ => 0
  srcaDvalid := fun _ => false
  srcbDvalid := fun _ => false
  srcbZeroed := fun _ => false
  unpSrcaBank := 0
  unpSrcbBank := 0
  mathSrcaBank := 0
  mathSrcbBank := 0
  lastUnpSrcaBank := 0
  mova2dBankValid := false
  dest := fun _ _ => 0
  destDvalid := false
  packL1WriteOffset := 0
  packL1DestAddrRaw := 0
  rwc := fun _ => ⟨0, 0, 0, 0, 0, 0, 0⟩
  adc := fun _ => ⟨0, 0, 0, 0, 0, 0, 0, 0, 0, 0, 0, 0, 0, 0, 0, 0⟩
  mutex := fun _ => mutexNone
  sem := fun _ => 0
  semMax := fun i => if i = 2 ∨ i = 4 ∨ i = 7 then 1 else 0
  thdReg := fun _ _ => 0
  dmaReg := fun _ _ => 0
  -- the lane flags are those that the boot firmware sets
  sfpu :=
    { lreg := fun r i =>
        if r = 8 then 0x3F56594B
        else if r = 10 then 0x3F800000
        else if r = 11 then 0xBF800000
        else if r = 15 then BitVec.ofNat 32 (2 * i)
        else 0
      laneFlags := fun _ => true
      useLaneFlags := fun _ => true
      flagStack := fun _ => ⟨fun _ => false, fun _ => false⟩
      flagStackTop := -1
      prngState := fun _ => 0 }
  neginf := 0xFF800000

def Replay.init : Replay := ⟨fun _ => 0, 0, 0, false, false, false, 0, 0, 0⟩

end Rv32Emu
