import Rv32Emu.Tensix.Datum
import Rv32Emu.Tensix.Matrix

namespace Rv32Emu

def l1Size : ℕ := 0x180000

structure PackPlan where
  dstAccessMode : Bool
  zeroWrite : Bool
  readIntfSel : Word
  outDataFmt : Word
  outDsb : Word
  bytesPerDatum : Word
  adcXMask : Word
  l1BaseByteAddr : Word
  numDatums : Word
  yCount : Word
  byteLaneDup : Bool
  numActive : Word

def packPlan (tt : Tensix) (imm : Word) (tid : Tid) : PackPlan :=
  let dstAccessMode := bit imm 17
  let sel := bits imm 8 0xF
  let readIntfSel := if sel = 0 then 1 else sel
  let adc := tt.adc 2
  let cfg70 := tt.mem.tensixReadCfg 70
  let inDataFmt := bits cfg70 8 0xF
  let outDataFmt := bits cfg70 4 0xF
  let (bytesPerDatum, adcXMask) : Word × Word :=
    if inDataFmt &&& 3 = 0 then (4, 0x3) else if inDataFmt &&& 3 = 1 then (2, 0x7) else (1, 0xf)
  let l1DestAddr := tt.mem.tensixReadCfg 69 + 1
  let ysrcIncr := tt.thdReg tid 37 &&& 0xF
  let yCount := if ysrcIncr.toNat > 0 then ysrcIncr else 1
  let xCount := if adc.ch1X.toNat ≥ adc.ch0X.toNat then adc.ch1X - adc.ch0X + 1 else 0
  let numDatums := if bit imm 1 then 0 else xCount * yCount
  let numDatums := if numDatums.toNat > 1024 then 1024 else numDatums
  let numDatums := if !dstAccessMode && readIntfSel = 0xA then 0 else numDatums
  let byteLaneDup := !dstAccessMode && (readIntfSel = 0x5 || readIntfSel = 0xA)
  let popcount := forRange 4 (0 : Word) fun n i => if bit readIntfSel i then n + 1 else n
  let numActive := if popcount = 0 then 1 else popcount
  { dstAccessMode, zeroWrite := bit imm 12, readIntfSel, outDataFmt
    outDsb := getDatumSize outDataFmt, bytesPerDatum, adcXMask
    l1BaseByteAddr := (l1DestAddr &&& 0x1FFFF) <<< 4, numDatums, yCount, byteLaneDup
    numActive := if byteLaneDup then 1 else numActive }

def packSrcAddr (tt : Tensix) (p : PackPlan) (pck : ℕ) : Word :=
  let adc := tt.adc 2
  let cfg12 := tt.mem.tensixReadCfg 12
  let cfg13 := tt.mem.tensixReadCfg 13
  let destOffIdx := if p.dstAccessMode then 180 else 180 + pck
  let destOffset := if destOffIdx < cfgRegCount then tt.mem.tensixReadCfg destOffIdx &&& 0xFFF else 0
  let raw := (tt.mem.tensixReadCfg 16 &&& 0x3FFFF) + adc.ch0X * ((cfg12 &&& 0xFFFF) &&& 0xF) +
    adc.ch0Y * bits cfg12 16 0xFFFF + adc.ch0Z * (cfg13 &&& 0xFFFF) + adc.ch0W * bits cfg13 16 0xFFFF
  let addr := ((raw / p.bytesPerDatum) &&& ~~~p.adcXMask) + (adc.ch0X &&& p.adcXMask)
  let addr := addr + (destOffset <<< 4)
  let addr := if p.dstAccessMode then addr + w32 pck * (16 * 16) else addr
  addr &&& 0x3FFF

def packValues (tt : Tensix) (p : PackPlan) (srcAddr : Word) : List Word :=
  let xCount := if p.numDatums.toNat > 0 then p.numDatums / p.yCount else 0
  (List.range p.yCount.toNat).flatMap fun row =>
    (List.range xCount.toNat).map fun col =>
      let dIdx := srcAddr + w32 row * 16 + w32 col
      let dRow := (bits dIdx 4 0x3FF).toNat
      if !p.zeroWrite && dRow < destRows then tt.dest dRow (dIdx &&& 0xF).toNat else 0

def bfp8Mantissa (sharedExp b : Word) : Word :=
  let exp := bits b 23 0xFF
  if exp = 0 then 0
  else
    let mant := ((1 : Word) <<< 23) ||| (b &&& 0x7FFFFF)
    let diff := if sharedExp.toNat > exp.toNat then sharedExp - exp else 0
    -- the source shifts in steps of at most 31
    let mant := (mant >>> diff.toNat) >>> 17
    let mant := if mant.toNat > 127 then 127 else mant
    let sign := if mant = 0 then 0 else bits b 31 1
    (sign <<< 7) ||| mant

def storeByte (l1 : Bytes) (addr : Word) (w : Word) : Bytes :=
  if addr.toNat < l1Size then Bytes.set l1 addr.toNat (w.setWidth 8) else l1

/-- Block floats: groups of 16 datums share the exponent byte that the tile header keeps for
them. Entries past those read are indeterminate in the source and zero here. -/
def packBfp8 (l1 : Bytes) (p : PackPlan) (l1ByteAddr : Word) (bvals : List Word) : Bytes :=
  let tileOff := l1ByteAddr - p.l1BaseByteAddr
  let n := p.numDatums.toNat
  forRange ((n + 15) / 16) l1 fun l1 group =>
    let gi := 16 * group
    let len := if gi + 16 ≤ n then 16 else n - gi
    let sharedExp := forRange len (0 : Word) fun e k =>
      let e' := bits (bvals.getD (gi + k) 0) 23 0xFF
      if e'.toNat > e.toNat then e' else e
    let l1 := storeByte l1 (p.l1BaseByteAddr + (tileOff + w32 gi) / 16) sharedExp
    forRange len l1 fun l1 k =>
      storeByte l1 (p.l1BaseByteAddr + 64 + tileOff + w32 (gi + k))
        (bfp8Mantissa sharedExp (bvals.getD (gi + k) 0))

def packPlain (l1 : Bytes) (p : PackPlan) (l1ByteAddr : Word) (vals : List Word) : Bytes :=
  forRange vals.length l1 fun l1 i =>
    let off := l1ByteAddr + w32 i * p.outDsb
    if (off + p.outDsb).toNat ≤ l1Size then
      Bytes.store l1 off.toNat p.outDsb.toNat (floatToDatum (vals.getD i 0) p.outDataFmt)
    else l1

def packLoop (tt : Tensix) (p : PackPlan) (l1 : Bytes) : Bytes × ℕ :=
  forRange 4 (l1, 0) fun acc pck =>
    if !bit p.readIntfSel pck then acc
    else if p.byteLaneDup && (pck = 2 || pck = 3) then acc
    else
      let addr := p.l1BaseByteAddr + tt.packL1WriteOffset + w32 acc.2 * p.numDatums * p.outDsb
      let vals := packValues tt p (packSrcAddr tt p pck)
      let l1 :=
        if p.numDatums = 0 then acc.1
        else if p.outDataFmt = 6 ∨ p.outDataFmt = 2 then packBfp8 acc.1 p addr vals
        else packPlain acc.1 p addr vals
      (l1, acc.2 + 1)

def packAddrMod (adc : AddrCtrl) (packReg : Word) : AddrCtrl :=
  let ysrc := stepCounter (bit packReg 5) (bit packReg 4) (packReg &&& 0xF) adc.ch0Y adc.ch0YCr
  let zsrc := stepCounter (bit packReg 13) false (bits packReg 12 1) adc.ch0Z adc.ch0ZCr
  let ydst := stepCounter (bit packReg 11) (bit packReg 10) (bits packReg 6 0xF) adc.ch1Y adc.ch1YCr
  let zdst := stepCounter (bit packReg 15) false (bits packReg 14 1) adc.ch1Z adc.ch1ZCr
  { adc with
    ch0Y := ysrc.1, ch0YCr := ysrc.2, ch0Z := zsrc.1, ch0ZCr := zsrc.2
    ch1Y := ydst.1, ch1YCr := ydst.2, ch1Z := zdst.1, ch1ZCr := zdst.2 }

def ttpacr (tt : Tensix) (imm : Word) (tid : Tid) : Tensix :=
  let p := packPlan tt imm tid
  let l1 := tt.mem.l1Scratchpad.map fun l1 => (packLoop tt p l1).1
  let offset :=
    if p.numDatums.toNat > 0 then tt.packL1WriteOffset + p.numActive * p.numDatums * p.outDsb
    else tt.packL1WriteOffset
  let packReg := tt.thdReg tid (37 + (bits imm 15 0x3).toNat)
  { tt with
    mem := { tt.mem with l1Scratchpad := l1 }
    packL1DestAddrRaw := tt.mem.tensixReadCfg 69
    packL1WriteOffset := offset
    adc := Function.update tt.adc 2 (packAddrMod (tt.adc 2) packReg) }

end Rv32Emu
