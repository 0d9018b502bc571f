import Rv32Emu.Tensix.Unpack

namespace Rv32Emu

def forAdcs (tt : Tensix) (imm : Word) (f : AddrCtrl → AddrCtrl) : Tensix :=
  { tt with adc := fun t => if bit (bits imm 21 0x7) t then f (tt.adc t) else tt.adc t }

/-- A rule for the four counters of an instruction: the counter's number, its value and its
carriage-return copy give the new pair. -/
abbrev CounterRule := ℕ → Word → Word → Word × Word

def mapXy (rule : CounterRule) (a : AddrCtrl) : AddrCtrl :=
  let x0 := rule 0 a.ch0X a.ch0XCr
  let y0 := rule 1 a.ch0Y a.ch0YCr
  let x1 := rule 2 a.ch1X a.ch1XCr
  let y1 := rule 3 a.ch1Y a.ch1YCr
  { a with
    ch0X := x0.1, ch0XCr := x0.2, ch0Y := y0.1, ch0YCr := y0.2
    ch1X := x1.1, ch1XCr := x1.2, ch1Y := y1.1, ch1YCr := y1.2 }

def mapZw (rule : CounterRule) (a : AddrCtrl) : AddrCtrl :=
  let z0 := rule 0 a.ch0Z a.ch0ZCr
  let w0 := rule 1 a.ch0W a.ch0WCr
  let z1 := rule 2 a.ch1Z a.ch1ZCr
  let w1 := rule 3 a.ch1W a.ch1WCr
  { a with
    ch0Z := z0.1, ch0ZCr := z0.2, ch0W := w0.1, ch0WCr := w0.2
    ch1Z := z1.1, ch1ZCr := z1.2, ch1W := w1.1, ch1WCr := w1.2 }

def adcField (imm : Word) (k : ℕ) : Word := bits imm (6 + 3 * k) 0x7

def setRule (imm : Word) : CounterRule := fun k ctr cr =>
  if bit (imm &&& 0xF) k then (adcField imm k, adcField imm k) else (ctr, cr)

def incRule (imm : Word) : CounterRule := fun k ctr cr => (ctr + adcField imm k, cr)

def crRule (imm : Word) : CounterRule := fun k ctr cr =>
  if bit (imm &&& 0xF) k then (cr + adcField imm k, cr + adcField imm k) else (ctr, cr)

def ttsetadcxy (tt : Tensix) (imm : Word) : Tensix := forAdcs tt imm (mapXy (setRule imm))

def ttincadcxy (tt : Tensix) (imm : Word) : Tensix := forAdcs tt imm (mapXy (incRule imm))

def ttaddrcrxy (tt : Tensix) (imm : Word) : Tensix := forAdcs tt imm (mapXy (crRule imm))

def ttsetadczw (tt : Tensix) (imm : Word) : Tensix := forAdcs tt imm (mapZw (setRule imm))

def ttincadczw (tt : Tensix) (imm : Word) : Tensix := forAdcs tt imm (mapZw (incRule imm))

def ttaddrcrzw (tt : Tensix) (imm : Word) : Tensix := forAdcs tt imm (mapZw (crRule imm))

def ttsetadc (tt : Tensix) (imm : Word) : Tensix :=
  let channel := if bit imm 20 then 2 else 0
  let xyzw := (bits imm 18 0x3).toNat
  let value := imm &&& 0x3FFFF
  let only (n : ℕ) : CounterRule := fun k ctr cr => if k = n then (value, value) else (ctr, cr)
  forAdcs tt imm
    (if xyzw < 2 then mapXy (only (channel + xyzw)) else mapZw (only (channel + (xyzw - 2))))

def ttsetadcxx (tt : Tensix) (imm : Word) : Tensix :=
  let x1 := bits imm 10 0x3FF
  let x0 := imm &&& 0x3FF
  forAdcs tt imm fun a => { a with ch0X := x0, ch0XCr := x0, ch1X := x1, ch1XCr := x1 }

def ttsetdvalid (tt : Tensix) (imm : Word) : Tensix :=
  let tt := if bit imm 0 then releaseSrca tt else tt
  if bit imm 1 then releaseSrcb tt else tt

def setHalf (w : Word) (high : Bool) (v : Word) : Word :=
  if high then (w &&& 0x0000FFFF) ||| (v <<< 16) else (w &&& 0xFFFF0000) ||| v

def setDmaHalf (tt : Tensix) (tid : Tid) (half : ℕ) (v : Word) : Tensix :=
  if half < dmaRegCount * 2 then
    tt.setDmaReg tid (half / 2) (setHalf (tt.dmaReg tid (half / 2)) (half % 2 = 1) v)
  else tt

/-- In the special mode the packer state that is read is always zero in the emulator. -/
def ttsetdmareg (tt : Tensix) (imm : Word) (tid : Tid) : Tensix :=
  let regIndex := (imm &&& 0x7F).toNat
  let resultSize := bits imm 22 0x3
  let base := (w32 (regIndex / 2) &&& 0x3C).toNat
  let gprs := tt.dmaReg tid
  if !bit imm 7 then setDmaHalf tt tid regIndex (bits imm 8 0xFFFF)
  else if resultSize = 0 then setDmaHalf tt tid regIndex 0
  else if resultSize = 1 then
    if regIndex / 2 < dmaRegCount then tt.setDmaReg tid (regIndex / 2) 0 else tt
  else if resultSize = 2 then
    forRange 4 tt fun tt i => if base + i < dmaRegCount then tt.setDmaReg tid (base + i) 0 else tt
  else if base + 3 < dmaRegCount then
    ((tt.setDmaReg tid base (gprs base &&& 0xFFFF0000)).setDmaReg tid (base + 1)
      (gprs (base + 1) &&& 0xFF00FFFF)).setDmaReg tid (base + 2) 0
  else tt

def readDma (tt : Tensix) (tid : Tid) (r : Word) : Word :=
  if r.toNat < dmaRegCount then tt.dmaReg tid r.toNat else 0

def dmaAlu (tt : Tensix) (imm : Word) (tid : Tid) (op : Word → Word → Word) : Tensix :=
  let resultR := (bits imm 12 0x3F).toNat
  let opb := bits imm 6 0x3F
  let left := readDma tt tid (imm &&& 0x3F)
  let right := if bit imm 23 then opb else readDma tt tid opb
  if resultR < dmaRegCount then tt.setDmaReg tid resultR (op left right) else tt

def ttadddmareg (tt : Tensix) (imm : Word) (tid : Tid) : Tensix := dmaAlu tt imm tid (· + ·)

def ttsubdmareg (tt : Tensix) (imm : Word) (tid : Tid) : Tensix := dmaAlu tt imm tid (· - ·)

def ttmuldmareg (tt : Tensix) (imm : Word) (tid : Tid) : Tensix :=
  dmaAlu tt imm tid fun a b => (a &&& 0xFFFF) * (b &&& 0xFFFF)

def ttbitwopdmareg (tt : Tensix) (imm : Word) (tid : Tid) : Tensix :=
  let mode := bits imm 18 0x7
  dmaAlu tt imm tid fun a b =>
    if mode = 0 then a &&& b else if mode = 1 then a ||| b else if mode = 2 then a ^^^ b else 0

def ttshiftdmareg (tt : Tensix) (imm : Word) (tid : Tid) : Tensix :=
  let mode := bits imm 18 0x7
  dmaAlu tt imm tid fun a b =>
    let b := (b &&& 0x1F).toNat
    if mode = 0 then a <<< b else if mode = 1 then a >>> b else 0

def ttcmpdmareg (tt : Tensix) (imm : Word) (tid : Tid) : Tensix :=
  let mode := bits imm 18 0x7
  dmaAlu tt imm tid fun a b =>
    if mode = 0 then (if a.toNat > b.toNat then 1 else 0)
    else if mode = 1 then (if a.toNat < b.toNat then 1 else 0)
    else if mode = 2 then (if a = b then 1 else 0)
    else 0

def highMemSize : ℕ := 0x400000

/-- The offset in high memory that STOREREG and LOADREG address; `none` below 0xFFB11000. -/
def mmioOffset (imm : Word) : Option ℕ :=
  let target : Word := 0xFFB00000 + ((imm &&& 0x3FFFF) <<< 2)
  if target.toNat < 0xFFB11000 then none else some (target - 0xFFB00000).toNat

def storeStream (m : Bytes) (offset : ℕ) (value : Word) : Bytes :=
  if 0x40000 ≤ offset ∧ offset < 0x80000 ∧ (offset - 0x40000) % 0x1000 = 0x438 then
    let raw := bits value 6 0x1FFFF
    let increment := if bit raw 16 then raw ||| 0xFFFE0000 else raw
    let avail := offset + 0x6C
    if avail < highMemSize then m.store avail 4 (m.load avail 4 + increment) else m
  else m

def ttstorereg (tt : Tensix) (imm : Word) (tid : Tid) : Tensix :=
  let value := tt.dmaReg tid (bits imm 18 0x3F).toNat
  match mmioOffset imm, tt.mem.highMem with
  | some offset, some m =>
    if offset < highMemSize then
      { tt with mem := { tt.mem with highMem := some (storeStream (m.store offset 4 value) offset value) } }
    else tt
  | _, _ => tt

def ttloadreg (tt : Tensix) (imm : Word) (tid : Tid) : Tensix :=
  let resultReg := (bits imm 18 0x3F).toNat
  match mmioOffset imm with
  | none => tt
  | some offset =>
    let value :=
      match tt.mem.highMem with
      | some m => if offset < highMemSize then m.load offset 4 else 0
      | none => 0
    if resultReg < dmaRegCount then tt.setDmaReg tid resultReg value else tt

end Rv32Emu
