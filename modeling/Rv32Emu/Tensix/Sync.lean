import Rv32Emu.Tensix.State

namespace Rv32Emu

def mutexId (imm : Word) : Fin 8 := Fin.ofNat 8 (imm &&& 0x7).toNat

def ttatgetm (tt : Tensix) (imm : Word) (tid : Tid) : Tensix :=
  if tt.mutex (mutexId imm) = mutexNone then
    { tt with mutex := Function.update tt.mutex (mutexId imm) (w32 tid) }
  else tt

def ttatrelm (tt : Tensix) (imm : Word) (tid : Tid) : Tensix :=
  if tt.mutex (mutexId imm) = w32 tid then
    { tt with mutex := Function.update tt.mutex (mutexId imm) mutexNone }
  else tt

def semSelected (imm : Word) (i : Fin 8) : Bool := bit (bits imm 2 0xFF) i

def ttseminit (tt : Tensix) (imm : Word) : Tensix :=
  { tt with
    sem := fun i => if semSelected imm i then bits imm 16 0xF else tt.sem i
    semMax := fun i => if semSelected imm i then bits imm 20 0xF else tt.semMax i }

def ttsempost (tt : Tensix) (imm : Word) (tid : Tid) : Tensix :=
  { tt with
    sem := fun i => if semSelected imm i ∧ (tt.sem i).toNat < 15 then tt.sem i + 1 else tt.sem i
    destDvalid := if tid = 1 then true else tt.destDvalid }

def ttsemget (tt : Tensix) (imm : Word) : Tensix :=
  { tt with sem := fun i => if semSelected imm i ∧ (tt.sem i).toNat > 0 then tt.sem i - 1 else tt.sem i }

/-- A configuration write; register 69 also restarts the packer's L1 offset. -/
def writeCfg (tt : Tensix) (idx : ℕ) (value : Word) : Tensix :=
  { tt with
    mem := tt.mem.tensixWriteCfg idx value
    packL1WriteOffset := if idx = 69 then 0 else tt.packL1WriteOffset }

def ttwrcfg (tt : Tensix) (imm : Word) (tid : Tid) : Tensix :=
  let gprAddr := (bits imm 16 0x3F).toNat
  let cfgIndex := (imm &&& 0x7FFF).toNat
  if bit imm 15 then
    let cfgBase := cfgIndex / 4 * 4
    let gprBase := gprAddr / 4 * 4
    forRange 4 tt fun tt i =>
      if cfgBase + i < cfgRegCount ∧ gprBase + i < dmaRegCount then
        writeCfg tt (cfgBase + i) (tt.dmaReg tid (gprBase + i))
      else tt
  else if cfgIndex < cfgRegCount ∧ gprAddr < dmaRegCount then
    let value := tt.dmaReg tid gprAddr
    let tt := writeCfg tt cfgIndex value
    -- only the 32-bit write reseeds the lanes' random state
    if cfgIndex = 186 then
      { tt with
        sfpu := { tt.sfpu with
          prngState := fun lane => if lane < lregLanes then value + w32 lane else tt.sfpu.prngState lane } }
    else tt
  else tt

def ttrdcfg (tt : Tensix) (imm : Word) (tid : Tid) : Tensix :=
  let gprAddr := (bits imm 16 0x3F).toNat
  let cfgIndex := (imm &&& 0xFFFF).toNat
  if cfgIndex < cfgRegCount ∧ gprAddr < dmaRegCount then
    tt.setDmaReg tid gprAddr (tt.mem.tensixReadCfg cfgIndex)
  else tt

def ttsetc16 (tt : Tensix) (imm : Word) (tid : Tid) : Tensix :=
  let cfgIndex := (bits imm 16 0xFF).toNat
  if cfgIndex < thdRegCount then tt.setThdReg tid cfgIndex (imm &&& 0xFFFF) else tt

def rmwcibCommon (tt : Tensix) (imm : Word) (byteOffset : ℕ) : Tensix :=
  let mask := (bits imm 16 0xFF).setWidth 8
  let newValue := (bits imm 8 0xFF).setWidth 8
  let index4 := (imm &&& 0xFF).toNat
  match tt.mem.highMem with
  | none => tt
  | some m =>
    if index4 ≥ cfgRegCount then tt
    else
      let addr := tensixCfgOffsetInHighMem + index4 * 4 + byteOffset
      let m := m.set addr ((newValue &&& mask) ||| (m addr &&& ~~~mask))
      { tt with
        mem := { tt.mem with highMem := some m }
        packL1WriteOffset := if index4 = 69 then 0 else tt.packL1WriteOffset }

def ttrmwcib0 (tt : Tensix) (imm : Word) : Tensix := rmwcibCommon tt imm 0
def ttrmwcib1 (tt : Tensix) (imm : Word) : Tensix := rmwcibCommon tt imm 1
def ttrmwcib2 (tt : Tensix) (imm : Word) : Tensix := rmwcibCommon tt imm 2
def ttrmwcib3 (tt : Tensix) (imm : Word) : Tensix := rmwcibCommon tt imm 3

def ttcfgshiftmask (tt : Tensix) (imm : Word) (tid : Tid) : Tensix :=
  let aluMode := (bits imm 20 0x7).toNat
  let rotateAmt := (bits imm 10 0x1F).toNat
  let scratchSel := (bits imm 8 0x3).toNat
  let cfgIndex := (imm &&& 0xFF).toNat
  if cfgIndex ≥ cfgStateRegs then tt
  else
    let scratchIdx := if scratchSel < 3 then scratchSel else tid.val
    let mask := ((2 : Word) <<< (bits imm 15 0x1F).toNat) - 1
    let scratch := (tt.mem.tensixReadCfg (209 + scratchIdx) &&& mask).rotateRight rotateAmt
    let cfgActual := cfgIndex + (tt.thdReg tid 0 &&& 0x1).toNat * cfgStateRegs
    let v := tt.mem.tensixReadCfg cfgActual
    let v := if bit imm 23 then v else v &&& ~~~(mask.rotateRight rotateAmt)
    let v :=
      match aluMode with
      | 0 => v ||| scratch
      | 1 => v &&& scratch
      | 2 => v ^^^ scratch
      | 3 => v + scratch
      | 4 => v ||| ~~~scratch
      | 5 => v &&& ~~~scratch
      | 6 => v ^^^ ~~~scratch
      | _ => v - scratch
    { tt with mem := tt.mem.tensixWriteCfg cfgActual v }

end Rv32Emu
