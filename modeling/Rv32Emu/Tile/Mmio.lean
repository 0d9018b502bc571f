import Rv32Emu.Tile.Clear

namespace Rv32Emu

def highMemOffset : ℕ := 0xFFB00000

def memSize : ℕ := 0x200000

def ldmSize : ℕ := 0x4000

def isPerCoreAddr (addr : ℕ) : Bool :=
  0xFFB80000 ≤ addr && addr ≤ 0xFFB80023 || 0xFFE00000 ≤ addr && addr ≤ 0xFFE00FFF ||
    0xFFE80000 ≤ addr && addr ≤ 0xFFE8001F

def addrToLdmOffset (addr : ℕ) : ℕ :=
  if 0xFFB80000 ≤ addr ∧ addr ≤ 0xFFB80023 then 0x2000 + (addr - 0xFFB80000)
  else if 0xFFE00000 ≤ addr ∧ addr ≤ 0xFFE00FFF then 0x2100 + (addr - 0xFFE00000)
  else if 0xFFE80000 ≤ addr ∧ addr ≤ 0xFFE8001F then 0x3100 + (addr - 0xFFE80000)
  else 0xFFFFFFFF

def triscOf (coreId : ℤ) : Option Tid :=
  if 0 ≤ coreId ∧ coreId ≤ 2 then some (Fin.ofNat 3 coreId.toNat) else none

def perCore (coreId : ℤ) (addr : ℕ) : Option Tid := if isPerCoreAddr addr then triscOf coreId else none

namespace TensixTile

variable (tt : TensixTile)

def tensixWriteMopCfg (t : Tid) (offset : ℕ) (data : Word) : TensixTile :=
  if offset / 4 < 9 then
    { tt with
      cop := tt.cop.map fun cop => { cop with
        threads := Function.update cop.threads t { cop.threads t with
          mopCfg := Function.update (cop.threads t).mopCfg (offset / 4) data } } }
  else tt

def dbgArrayRdData : Word :=
  let cmd := tt.spare.dbgArrayRdCmd
  let rowAddr := (cmd &&& 0xFFF).toNat
  let col0 := (bits cmd 12 0xF).toNat * 2
  let col1 := col0 + 1
  if bits cmd 16 0x7 = 2 ∧ rowAddr < destRows then
    let v0 := if col0 < rowSize then tt.core.dest rowAddr col0 else 0
    let v1 := if col1 < rowSize then tt.core.dest rowAddr col1 else 0
    (v0 &&& 0xFFFF) ||| ((v1 &&& 0xFFFF) <<< 16)
  else 0

def readPerCore (coreId : ℤ) (addr : ℕ) : Option Word :=
  match perCore coreId addr with
  | none => none
  | some t =>
    match tt.ldm t with
    | none => none
    | some m => if addrToLdmOffset addr < ldmSize then some (m.load (addrToLdmOffset addr) 4) else none

def tensixMmioRead (coreId : ℤ) (addr : Word) : Option Word × TensixTile :=
  let a := addr.toNat
  if inMailboxRange addr then
    let (r, mail) := mailboxRead tt.mail coreId addr
    (r, { tt with mail })
  else if 0xFFE80020 ≤ a ∧ a ≤ 0xFFE8003F then (some (tt.core.sem (Fin.ofNat 8 ((a - 0xFFE80020) / 4))), tt)
  else
    match tt.readPerCore coreId a with
    | some v => (some v, tt)
    | none =>
      -- the instruction buffers are write-only
      if 0xFFE40000 ≤ a ∧ a ≤ 0xFFE6FFFF then (some 0, tt)
      else if 0xFFB40000 ≤ a ∧ a < 0xFFB80000 then
        match tt.core.mem.highMem with
        | some m =>
          if a - highMemOffset < 0x400000 then (some (m.load (a - highMemOffset) 4), tt) else (none, tt)
        | none => (none, tt)
      else if 0xFFEF0000 ≤ a ∧ a ≤ 0xFFEFFFFF then (none, tt)
      -- the wall clock always reads as far in the future
      else if a = 0xFFB121F0 ∨ a = 0xFFB121F8 then (some 0xFFFFFFFF, tt)
      else if a = 0xFFB1206C then (some tt.dbgArrayRdData, tt)
      else (none, tt)

def writeSem (i : Fin 8) (data : Word) : TensixTile :=
  let sem := tt.core.sem i
  let sem :=
    if data = 0 then (if sem.toNat < 15 then sem + 1 else sem)
    else if data = 1 then (if sem.toNat > 0 then sem - 1 else sem)
    else data &&& 0xF
  { tt with core := { tt.core with sem := Function.update tt.core.sem i sem } }

def writePerCore (t : Tid) (addr : ℕ) (data : Word) : TensixTile :=
  let off := addrToLdmOffset addr
  let tt :=
    if off < ldmSize then
      { tt with ldm := Function.update tt.ldm t ((tt.ldm t).map fun m => m.store off 4 data) }
    else tt
  if 0xFFB80000 ≤ addr ∧ addr ≤ 0xFFB80023 then tt.tensixWriteMopCfg t (addr - 0xFFB80000) data else tt

/-- The thread that a store to an instruction buffer pushes to; only BRISC may use the second and third. -/
def instrnTarget (coreId : ℤ) (addr : ℕ) : Option Tid :=
  if addr ≤ 0xFFE4FFFF then (if coreId = -1 then some 0 else triscOf coreId)
  else if coreId = -1 then some (if addr ≤ 0xFFE5FFFF then 1 else 2)
  else none

end TensixTile

/-- Pushes an instruction, with steps of the thread as long as its FIFO is full. `none` is the source's failed
assertion, or a loop that has not ended. -/
def pushDraining (fuel : ℕ) (v : CopView) (insn : Word) (tid : Tid) : Option CopView :=
  loop (fun v =>
    match tensixCopPush v insn with
    | (true, v) => some (.inr v)
    | (false, v) =>
      match tensixCopStep v tid with
      | (true, v) => some (.inl v)
      | (false, _) => none) fuel v

namespace TensixTile

variable (tt : TensixTile)

def pushInstrn (fuel : ℕ) (t : Tid) (insn : Word) : Option TensixTile :=
  match tt.cop with
  | none => none
  | some cop =>
    (pushDraining fuel ((tt.toCop cop).view t) insn t).map fun v =>
      { tt with
        core := v.core
        replay := Function.update tt.replay t v.replay
        cop := some { cop with threads := Function.update cop.threads t v.thread } }

def writeStream (addr : ℕ) (data : Word) : TensixTile :=
  let off := addr - highMemOffset
  let m := tt.core.mem.highMem.map fun m =>
    let m := storeStream m off data
    if off < 0x400000 then m.store off 4 data else m
  { tt with core := { tt.core with mem := { tt.core.mem with highMem := m } } }

def noteRegister (idx : ℕ) (data : Word) : TensixTile :=
  let prng := fun lane => if lane < lregLanes then data + w32 lane else tt.core.sfpu.prngState lane
  { tt with
    core := { tt.core with
      packL1WriteOffset := if idx = 69 then 0 else tt.core.packL1WriteOffset
      sfpu := if idx = 186 ∨ idx = 186 + 224 then { tt.core.sfpu with prngState := prng }
        else tt.core.sfpu } }

def noteCfgWrite (addr : ℕ) (data : Word) : TensixTile := tt.noteRegister ((addr - 0xFFEF0000) / 4) data

def tensixMmioWrite (fuel : ℕ) (coreId : ℤ) (addr data : Word) : Option (Bool × TensixTile) :=
  let a := addr.toNat
  if inMailboxRange addr then some (false, { tt with mail := (mailboxWrite tt.mail coreId addr data).2 })
  else if 0xFFE80020 ≤ a ∧ a ≤ 0xFFE8003F then
    some (true, tt.writeSem (Fin.ofNat 8 ((a - 0xFFE80020) / 4)) data)
  else
    match perCore coreId a with
    | some t => some (true, tt.writePerCore t a data)
    | none =>
      if 0xFFE40000 ≤ a ∧ a ≤ 0xFFE6FFFF then
        match instrnTarget coreId a with
        | some t => (tt.pushInstrn fuel t data).map fun tt => (true, tt)
        | none => some (true, tt)
      else if 0xFFB40000 ≤ a ∧ a < 0xFFB80000 then some (true, tt.writeStream a data)
      else if 0xFFEF0000 ≤ a ∧ a ≤ 0xFFEFFFFF then some (false, tt.noteCfgWrite a data)
      else if a = 0xFFB12064 then some (true, { tt with spare := { tt.spare with dbgArrayRdCmd := data } })
      else if a = 0xFFB12060 then some (true, tt)
      else some (false, tt)

end TensixTile

structure MemConfig where
  coreId : ℤ
  tensix : Bool
  localSize : ℕ
  localSize_le : localSize ≤ 0x2000
  four_dvd_localSize : 4 ∣ localSize

/-- What the accesses of one core reach: its tile, with the shared memories, and its own local memory. -/
structure CoreMem where
  tile : TensixTile
  loc : Bytes

inductive Region
  | l1
  | high
  | loc
  deriving DecidableEq

namespace CoreMem

variable (d : CoreMem)

def region : Region → Bytes
  | .l1 => d.tile.core.mem.l1Scratchpad.getD fun _ => 0
  | .high => d.tile.core.mem.highMem.getD fun _ => 0
  | .loc => d.loc

def setMem (mem : TensixMemory) : CoreMem :=
  { d with tile := { d.tile with core := { d.tile.core with mem } } }

def setRegion (m : Bytes) : Region → CoreMem
  | .l1 => d.setMem { d.tile.core.mem with l1Scratchpad := d.tile.core.mem.l1Scratchpad.map fun _ => m }
  | .high => d.setMem { d.tile.core.mem with highMem := d.tile.core.mem.highMem.map fun _ => m }
  | .loc => { d with loc := m }

end CoreMem

def basePtr (addr : ℕ) : Region × ℕ := if addr < memSize then (.l1, addr) else (.high, addr - memSize)

def memoryPtr (c : MemConfig) (addr : ℕ) : Region × ℕ :=
  if addr < highMemOffset then basePtr addr
  else if addr - highMemOffset < c.localSize then (.loc, addr - highMemOffset)
  else (.high, addr - highMemOffset)

section callbacks

variable (c : MemConfig) (d : CoreMem) (addr : Word)

def memoryRead (n : ℕ) : Word := (d.region (memoryPtr c addr.toNat).1).load (memoryPtr c addr.toNat).2 n

def memoryReadW : Word := memoryRead c d addr 4

def memoryReadS : BitVec 16 := (memoryRead c d addr 2).setWidth 16

def memoryReadB : BitVec 8 := (memoryRead c d addr 1).setWidth 8

def memoryWrite (n : ℕ) (data : Word) : CoreMem :=
  d.setRegion ((d.region (memoryPtr c addr.toNat).1).store (memoryPtr c addr.toNat).2 n data)
    (memoryPtr c addr.toNat).1

def memoryWriteW (data : Word) : CoreMem := memoryWrite c d addr 4 data

def memoryWriteS (data : BitVec 16) : CoreMem := memoryWrite c d addr 2 (data.setWidth 32)

def memoryWriteB (data : BitVec 8) : CoreMem := memoryWrite c d addr 1 (data.setWidth 32)

def memoryIfetch : Word := (d.region (basePtr addr.toNat).1).load (basePtr addr.toNat).2 4

namespace CoreMem

def onMemReadW : Word × CoreMem :=
  if c.tensix then
    match d.tile.tensixMmioRead c.coreId addr with
    | (some v, tile) => (v, { d with tile })
    | (none, tile) => (memoryReadW c { d with tile } addr, { d with tile })
  else (memoryReadW c d addr, d)

def onMemWriteW (fuel : ℕ) (data : Word) : Option CoreMem :=
  if c.tensix then
    match d.tile.tensixMmioWrite fuel c.coreId addr data with
    | none => none
    | some (true, tile) => some { d with tile }
    | some (false, tile) => some (memoryWriteW c { d with tile } addr data)
  else some (memoryWriteW c d addr data)

end CoreMem

end callbacks

end Rv32Emu
