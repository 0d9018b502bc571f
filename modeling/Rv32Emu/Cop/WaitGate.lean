import Rv32Emu.Cop.Dispatch

namespace Rv32Emu

def opcodeMop : Word := 0x01
def opcodeNop : Word := 0x02
def opcodeMopCfg : Word := 0x03
def opcodeReplay : Word := 0x04
def opcodePacr : Word := 0x41
def opcodeUnpacr : Word := 0x42
def opcodeStallwait : Word := 0xA2
def opcodeSemwait : Word := 0xA6
def opcodeStreamwait : Word := 0xA7

def insnGetBlockBits (opcode : Word) : Word :=
  -- B0: miscellaneous
  if opcode ∈ ([0x53, 0x56, 0x52, 0x55, 0x44, 0x50, 0x5e, 0x51, 0x54, 0x57] : List Word) then 0x1 else
  -- B1: sync unit
  if opcode ∈ ([0xa0, 0xa1, 0xa5, 0xa3, 0xa4] : List Word) then 0x2 else
  -- B0 and B2: packer
  if opcode ∈ ([0x41, 0x4a] : List Word) then 0x5 else
  -- B0 and B3: unpacker
  if opcode ∈ ([0x42, 0x43] : List Word) then 0x9 else
  -- B0 and B4: mover
  if opcode ∈ ([0x40] : List Word) then 0x11 else
  -- B0 and B5: scalar unit
  if opcode ∈ ([0x58, 0x64, 0x61, 0x62, 0x63, 0x5b, 0x5d, 0x60, 0x46, 0x49, 0x68, 0x5a, 0x48, 0x45, 0x5c,
       0x66, 0x67, 0x59] : List Word) then 0x21 else
  -- B6: matrix unit
  if opcode ∈ ([0x25, 0x32, 0x36, 0x21, 0x22, 0x23, 0x29, 0x28, 0x27, 0x30, 0x34, 0x35, 0x33, 0x38, 0x3a,
       0x12, 0x0b, 0x13, 0x08, 0x0a, 0x09, 0x24, 0x31, 0x26, 0x37, 0x17, 0x18, 0x16, 0x10, 0x11] :
      List Word) then 0x40 else
  -- B7: configuration unit
  if opcode ∈ ([0xb8, 0xb1, 0xb3, 0xb4, 0xb5, 0xb6, 0xb2, 0xb7, 0xb0] : List Word) then 0x80 else
  -- B8: vector unit
  if opcode ∈ ([0x7d, 0x85, 0x75, 0x7e, 0x99, 0x90, 0x8b, 0x91, 0x76, 0x8a, 0x77, 0x78, 0x97, 0x79, 0x96,
       0x70, 0x71, 0x93, 0x73, 0x95, 0x81, 0x84, 0x7c, 0x86, 0x98, 0x74, 0x8f, 0x80, 0x7f, 0x88,
       0x87, 0x7b, 0x82, 0x83, 0x89, 0x7a, 0x94, 0x8e, 0x72, 0x92, 0x8c, 0x8d] :
      List Word) then 0x100 else
  -- the wait instructions
  if opcode ∈ ([0xa2, 0xa6, 0xa7] : List Word) then 0x1ff else
  0

def isWaitOpcode (opcode : Word) : Bool :=
  opcode = opcodeStallwait || opcode = opcodeSemwait || opcode = opcodeStreamwait

def waitGateLatch (gate : TensixWaitGate) (insn : Word) : TensixWaitGate :=
  let opcode := tensixInsnOpcode insn
  let param := tensixInsnParam insn
  let blockMask := bits param 15 0x1FF
  let blockMask := if blockMask = 0 then 0x40 else blockMask
  let gate := { gate with active := true, opcode := opcode }
  if opcode = opcodeStallwait then
    let cond := param &&& 0x7FFF
    { gate with
      blockMask := blockMask
      conditionMask := if cond = 0 then 0x0F else cond
      semaphoreMask := 0 }
  else if opcode = opcodeSemwait then
    let cond := param &&& 0x03
    if cond = 0 then
      { gate with
        blockMask := blockMask
        opcode := opcodeStallwait
        conditionMask := 0x0F
        semaphoreMask := 0 }
    else
      { gate with
        blockMask := blockMask
        conditionMask := cond
        semaphoreMask := bits param 2 0x1FFF }
  else if opcode = opcodeStreamwait then
    { gate with
      blockMask := blockMask
      streamSelect := param &&& 0x7
      conditionMask := (1 : Word) <<< (bits param 3 0x1).toNat
      targetValue := bits param 4 0x7FF }
  else gate

def waitGateMet (gate : TensixWaitGate) (core : Tensix) : Bool :=
  if gate.opcode = opcodeStallwait then
    let cond := gate.conditionMask
    if bit cond 5 && core.srcaDvalid core.unpSrcaBank then false
    else if bit cond 6 && core.srcbDvalid core.unpSrcbBank then false
    else if bit cond 7 && !core.srcaReady then false
    else if bit cond 8 && !core.srcbReady then false
    else true
  else if gate.opcode = opcodeSemwait then
    let selected := (List.finRange 8).filter fun i : Fin 8 => bit gate.semaphoreMask i
    if bit gate.conditionMask 0 && selected.any (fun i => core.sem i = 0) then false
    else if bit gate.conditionMask 1 && selected.any (fun i => (core.semMax i).toNat ≤ (core.sem i).toNat)
    then false
    else true
  else true

def waitGateCheck (gate : TensixWaitGate) (core : Tensix) : Bool :=
  if !gate.active then true else waitGateMet gate core

def waitGateClear : TensixWaitGate := ⟨false, 0, 0, 0, 0, 0, 0⟩

/-- The gate's mask meets the instruction; a NOP counts only against the full mask. -/
def waitGateMatches (gate : TensixWaitGate) (opcode : Word) : Bool :=
  let blockBits :=
    if opcode = opcodeNop ∧ gate.blockMask = 0x1FF then 0x1FF else insnGetBlockBits opcode
  blockBits &&& gate.blockMask ≠ 0

def insnNeedsSrca (opcode : Word) : Bool :=
  opcode ∈ ([0x28, 0x27, 0x30, 0x29, 0x26, 0x22, 0x23, 0x24, 0x25, 0x31, 0x32, 0x33, 0x34, 0x3a, 0x12] :
    List Word)

def insnNeedsSrcb (opcode : Word) : Bool :=
  opcode ∈ ([0x28, 0x27, 0x30, 0x29, 0x26, 0x22, 0x23] : List Word)

def insnNeedsDest (opcode : Word) : Bool := opcode = opcodePacr

end Rv32Emu
