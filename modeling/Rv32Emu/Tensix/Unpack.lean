import Rv32Emu.Tensix.Pack

namespace Rv32Emu

structure UnpackPlan where
  whichUnp : Bool
  zeroWrite : Bool
  inDataFmt : Word
  outDataFmt : Word
  haloizeMode : Bool
  tileizeMode : Bool
  shiftAmount : Word
  unpackToDst : Bool
  inAddr : Word
  dsb : Word
  numDatums : Word
  firstDatum : Word
  outAddr : Word

def unpAdc (whichUnp : Bool) : Fin 3 := if whichUnp then 1 else 0

def unpackPlan (tt : Tensix) (imm : Word) (tid : Tid) : UnpackPlan :=
  let whichUnp := bit imm 23
  let multiCtxMode := bit imm 7
  let cfg := fun reg => tt.mem.tensixReadCfg (reg + (tt.thdReg tid 0 &&& 0x1).toNat * 224)
  let miscCfg := tt.thdReg tid 41
  let ctxOffset := if whichUnp then bits miscCfg 8 0xF else miscCfg &&& 0xF
  let whichCtx := if multiCtxMode then (ctxOffset &&& 0x3).toNat else 0
  let tdBase := if whichUnp then 112 else 64
  let reg7 := cfg ((if whichUnp then 140 else 92) + whichCtx)
  let td0 := cfg tdBase
  let td1 := cfg (tdBase + 1)
  let xDim :=
    if multiCtxMode && !whichUnp then
      bits (cfg (if whichCtx < 2 then 86 else 87)) (if whichCtx % 2 = 1 then 16 else 0) 0xFFFF
    else bits td0 16 0xFFFF
  let yDim := td1 &&& 0xFF
  let zDim := bits td1 16 0xFF
  let zDim := if zDim = 0 then 1 else zDim
  let digestSize := bits (cfg (tdBase + 3)) 24 0xFF
  let reg2 := cfg (if whichUnp then 120 else 72)
  let ovrd := multiCtxMode && bit reg2 12
  let inDataFmt := if ovrd then reg7 &&& 0xF else td0 &&& 0xF
  let outDataFmt := if ovrd then bits reg7 4 0xF else reg2 &&& 0xF
  let unpackToDst := !whichUnp && (bit (cfg 73) (4 + whichCtx) || bit (cfg 72) 11)
  let baseAddr := cfg ((if whichUnp then 124 else 76) + whichCtx)
  let inAddr := (baseAddr + (reg7 &&& 0xFFFF) + 1 + digestSize) * 16
  let adc := tt.adc (unpAdc whichUnp)
  let xPos := adc.ch0X
  let xEnd := adc.ch1X + 1
  let numDatums := if xEnd.toNat > xPos.toNat then xEnd - xPos else 0
  let numDatums := if numDatums.toNat > 1024 then 1024 else numDatums
  let faceStride := if xDim.toNat > 0 then xDim else numDatums
  let firstDatum := ((adc.ch0W * zDim + adc.ch0Z) * yDim + adc.ch0Y) * faceStride + xPos
  let outXy := cfg (if whichUnp then 58 else 56)
  let outZw := cfg (if whichUnp then 59 else 57)
  let outAddr := (cfg (if whichUnp then 61 else 49) &&& 0x3FFFF) + adc.ch1Y * bits outXy 16 0xFFFF +
    adc.ch1Z * (outZw &&& 0xFFFF) + adc.ch1W * bits outZw 16 0xFFFF
  let outAddr :=
    if outDataFmt ∈ [0, 4, 8] then outAddr >>> 2
    else if outDataFmt ∈ [1, 5, 9, 12] then outAddr >>> 1
    else outAddr
  let cfg84 := tt.mem.tensixReadCfg 84
  let destCtxAddr := if bit miscCfg 0 then bits cfg84 16 0xFFFF else cfg84 &&& 0xFFFF
  { whichUnp, zeroWrite := bit imm 4, inDataFmt, outDataFmt, haloizeMode := bit reg2 8
    tileizeMode := bit reg2 9, shiftAmount := bits reg2 16 0xFFFF, unpackToDst, inAddr
    dsb := getDatumSize inDataFmt, numDatums, firstDatum
    outAddr := if unpackToDst then outAddr + destCtxAddr else outAddr }

def tileizeAddr (u : UnpackPlan) (i : Word) : Word :=
  let numFaceCols : Word := if u.numDatums.toNat > 512 then 2 else 1
  let effI := u.firstDatum + i
  let faceIdx := effI / 256
  let posInFace := effI % 256
  let globalRow := faceIdx / numFaceCols * 16 + posInFace / 16
  let globalCol := faceIdx % numFaceCols * 16 + posInFace % 16
  u.inAddr + globalRow * (u.shiftAmount * 16) + globalCol * u.dsb

def unpackBfp8 (l1 : Bytes) (u : UnpackPlan) (i : Word) : Word × Bool :=
  let e := u.firstDatum + i
  let face := e / 256
  let pos := e % 256
  let expA := u.inAddr + face * 16 + pos / 16
  let mantA := u.inAddr + 64 + face * 256 + pos
  if expA.toNat < l1Size ∧ mantA.toNat < l1Size then
    let shExp := (l1 expA.toNat).setWidth 32
    let mantB := (l1 mantA.toNat).setWidth 32
    let mant7 := mantB &&& 0x7F
    let val : Word :=
      if mant7 ≠ 0 ∧ shExp ≠ 0 then
        ((mantB >>> 7) <<< 31) ||| (shExp <<< 23) ||| ((mant7 <<< 17) &&& 0x7FFFFF)
      else 0
    (val, true)
  else (0, false)

def unpackDatum (l1 : Bytes) (u : UnpackPlan) (i : Word) : Word × Word × Bool :=
  let tileize := u.tileizeMode && u.shiftAmount.toNat > 0
  if u.zeroWrite then (0, 0, false)
  else if !tileize && (u.inDataFmt = 6 || u.inDataFmt = 2) then
    let (val, present) := unpackBfp8 l1 u i
    (val, 0, present)
  else
    let l1Byte := if tileize then tileizeAddr u i else u.inAddr + u.firstDatum * u.dsb + i * u.dsb
    if (l1Byte + u.dsb).toNat ≤ l1Size then
      let raw := Bytes.load l1 l1Byte.toNat u.dsb.toNat
      (datumToFloat raw u.inDataFmt, raw, true)
    else (0, 0, false)

def unpackSrcb (l1 : Bytes) (u : UnpackPlan) (g : Grid) : Grid :=
  forRange u.numDatums.toNat g fun g i =>
    let idx := u.outAddr + w32 i
    Grid.set g (idx / 16 &&& 0x3F).toNat (idx &&& 15).toNat (unpackDatum l1 u (w32 i)).1

def unpackDst (l1 : Bytes) (u : UnpackPlan) (g : Grid) : Grid :=
  forRange u.numDatums.toNat g fun g i =>
    let idx := u.outAddr + w32 i
    let (val, raw, present) := unpackDatum l1 u (w32 i)
    let writeRaw := present && u.inDataFmt = 0 && (u.outDataFmt = 0 || u.outDataFmt = 4 || u.outDataFmt = 8)
    Grid.set g ((idx / 16 - 4) &&& 0x3FF).toNat (idx &&& 15).toNat (if writeRaw then raw else val)

def unpackSrca (l1 : Bytes) (u : UnpackPlan) (g : Grid) : Grid :=
  forRange u.numDatums.toNat g fun g i =>
    let idx := u.outAddr + w32 i
    let row := idx / 16
    let col := idx &&& 15
    let (row, col) := if u.haloizeMode then ((row &&& ~~~(0xf : Word)) ||| col, row &&& 0xf) else (row, col)
    Grid.set g (row &&& 0x3F).toNat col.toNat (unpackDatum l1 u (w32 i)).1

def unpackLoop (tt : Tensix) (u : UnpackPlan) : Tensix :=
  match tt.mem.l1Scratchpad with
  | none => tt
  | some l1 =>
    if u.numDatums = 0 then tt
    else if u.whichUnp then
      { tt with
        srcb := Function.update tt.srcb tt.unpSrcbBank (unpackSrcb l1 u (tt.srcb tt.unpSrcbBank))
        srcbZeroed := Function.update tt.srcbZeroed tt.unpSrcbBank false }
    else if u.unpackToDst then { tt with dest := unpackDst l1 u tt.dest }
    else { tt with srca := Function.update tt.srca tt.unpSrcaBank (unpackSrca l1 u (tt.srca tt.unpSrcaBank)) }

def releaseSrca (tt : Tensix) : Tensix :=
  { tt with
    srcaDvalid := Function.update tt.srcaDvalid tt.unpSrcaBank true
    unpSrcaBank := tt.unpSrcaBank + 1 }

def releaseSrcb (tt : Tensix) : Tensix :=
  { tt with
    srcbDvalid := Function.update tt.srcbDvalid tt.unpSrcbBank true
    unpSrcbBank := tt.unpSrcbBank + 1 }

def releaseSrc (tt : Tensix) (whichUnp : Bool) : Tensix :=
  if whichUnp then releaseSrcb tt else releaseSrca tt

def unpackAddrMod (adc : AddrCtrl) (addrMode : Word) : AddrCtrl :=
  { adc with
    ch0Y := adc.ch0Y + bits addrMode 2 0x3, ch0Z := adc.ch0Z + (addrMode &&& 0x3)
    ch1Y := adc.ch1Y + bits addrMode 6 0x3, ch1Z := adc.ch1Z + bits addrMode 4 0x3 }

def ttunpacr (tt : Tensix) (imm : Word) (tid : Tid) : Bool × Tensix :=
  let whichUnp := bit imm 23
  if bit imm 1 then (true, tt)
  else if bits imm 13 0x3 ≠ 0 then (true, tt)
  else if !whichUnp && tt.srcaDvalid tt.unpSrcaBank then (false, tt)
  else if whichUnp && tt.srcbDvalid tt.unpSrcbBank then (false, tt)
  else
    let tt := unpackLoop tt (unpackPlan tt imm tid)
    let tt :=
      if !bit imm 6 then tt
      else if whichUnp then releaseSrcb tt
      else { releaseSrca tt with lastUnpSrcaBank := tt.unpSrcaBank }
    let i := unpAdc whichUnp
    (true, tt.setAdc i (unpackAddrMod (tt.adc i) (bits imm 15 0xFF)))

def zerosrcBusy (tt : Tensix) (whichUnp waitLikeUnpacr : Bool) : Bool :=
  if whichUnp then tt.srcbDvalid (if waitLikeUnpacr then tt.unpSrcbBank else tt.mathSrcbBank)
  else tt.srcaDvalid (if waitLikeUnpacr then tt.unpSrcaBank else tt.mathSrcaBank)

def ttunpacrNop (tt : Tensix) (imm : Word) : Bool × Tensix :=
  let whichUnp := bit imm 23
  if imm &&& 0x3 = 0x1 then
    let bothBanks := bit imm 3
    if zerosrcBusy tt whichUnp (bit imm 4) then (false, tt)
    else
      let tt :=
        if whichUnp then
          { tt with
            srcb := fillBanks tt.srcb bothBanks tt.unpSrcbBank srcbRows 0
            srcbZeroed := fun b => if bothBanks ∨ b = tt.unpSrcbBank then true else tt.srcbZeroed b }
        else
          { tt with
            srca := fillBanks tt.srca bothBanks tt.unpSrcaBank srcaRows (if bit imm 2 then 0xFFFFFFFF else 0)
            mova2dBankValid := false }
      (true, if bits imm 8 0xF ≠ 0 then releaseSrc tt whichUnp else tt)
  -- SETDVALID neither waits nor clears; the other modes have no effect
  else if imm &&& 0x7 = 0x7 then (true, releaseSrc tt whichUnp)
  else (true, tt)

end Rv32Emu
