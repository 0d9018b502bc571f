import Rv32Emu.Tensix.Matrix
import Rv32Emu.Tensix.SfpuTables

namespace Rv32Emu

open Word

namespace Sfpu

def laneEnabled (s : Sfpu) (lane : ℕ) : Bool := !s.useLaneFlags lane || s.laneFlags lane

def setLreg (s : Sfpu) (r lane : ℕ) (x : Word) : Sfpu := { s with lreg := Grid.set s.lreg r lane x }

def setLaneFlag (s : Sfpu) (lane : ℕ) (b : Bool) : Sfpu :=
  { s with laneFlags := Function.update s.laneFlags lane b }

def setUseLaneFlag (s : Sfpu) (lane : ℕ) (b : Bool) : Sfpu :=
  { s with useLaneFlags := Function.update s.useLaneFlags lane b }

def lanewise (s : Sfpu) (f : Sfpu → ℕ → Sfpu) : Sfpu :=
  forRange lregLanes s fun s lane => if s.laneEnabled lane then f s lane else s

def topFlags (s : Sfpu) (lane : ℕ) (dflt : Bool) : Bool × Bool :=
  if s.flagStackTop ≥ 0 then
    ((s.flagStack s.flagStackTop).useLaneFlags lane, (s.flagStack s.flagStackTop).laneFlags lane)
  else (dflt, dflt)

def setTop (s : Sfpu) (lane : ℕ) (useFlag flag : Bool) : Sfpu :=
  let top := s.flagStack s.flagStackTop
  { s with
    flagStack := Function.update s.flagStack s.flagStackTop
      ⟨Function.update top.laneFlags lane flag, Function.update top.useLaneFlags lane useFlag⟩ }

end Sfpu

def fieldVb (imm : Word) : ℕ := (bits imm 12 0xF).toNat
def fieldVc (imm : Word) : ℕ := (bits imm 8 0xF).toNat
def fieldVd (imm : Word) : ℕ := (bits imm 4 0xF).toNat

/-- LReg[0..7] and LReg[16] take results; the others are constants or configuration. -/
def lregWritable (r : ℕ) : Bool := r < 8 || r = 16

def sfpResult (s : Sfpu) (imm : Word) (f : Sfpu → ℕ → Word) : Sfpu :=
  let vd := fieldVd imm
  if lregWritable vd then s.lanewise fun s lane => s.setLreg vd lane (f s lane) else s

def sfploadi (s : Sfpu) (imm : Word) : Sfpu :=
  let vd := (bits imm 20 0xF).toNat
  let mod0 := bits imm 16 0xF
  let imm16 := imm &&& 0xFFFF
  if vd ≥ 8 then s
  else s.lanewise fun s lane =>
    s.setLreg vd lane
      (if mod0 = 2 then imm16
       else if mod0 = 4 then (imm16.setWidth 16).signExtend 32
       else if mod0 = 8 then (imm16 <<< 16) ||| (s.lreg vd lane &&& 0xFFFF)
       else if mod0 = 10 then (s.lreg vd lane &&& 0xFFFF0000) ||| imm16
       else if mod0 = 1 then
         (bits imm16 15 1 <<< 31) ||| ((bits imm16 10 0x1f + 112) <<< 23) ||| ((imm16 &&& 0x3ff) <<< 13)
       else imm16 <<< 16)

def indirectVd (s : Sfpu) (imm : Word) (lane : ℕ) : ℕ :=
  if bit imm 3 then (s.lreg 7 lane &&& 15).toNat else fieldVd imm

def storeIndirect (s : Sfpu) (imm : Word) (lane : ℕ) (x : Word) : Sfpu :=
  let dst := indirectVd s imm lane
  if lregWritable dst then s.setLreg dst lane x else s

def sfpmuli (s : Sfpu) (imm : Word) : Sfpu :=
  let bf16 := bits imm 8 0xFFFF <<< 16
  s.lanewise fun s lane =>
    let c := s.lreg (fieldVd imm) lane
    let c := if bit imm 1 then fneg c else c
    storeIndirect s imm lane (fadd (fmul bf16 c) 0)

def sfpaddi (s : Sfpu) (imm : Word) : Sfpu :=
  let bf16 := bits imm 8 0xFFFF <<< 16
  s.lanewise fun s lane =>
    let c := s.lreg (fieldVd imm) lane
    let c := if bit imm 1 then fneg c else c
    storeIndirect s imm lane (fadd bf16 c)

def signFlags (s : Sfpu) (lane : ℕ) (set comp : Bool) (result : Word) : Sfpu :=
  let s := if set then s.setLaneFlag lane (bit result 31) else s
  if comp then s.setLaneFlag lane (!s.laneFlags lane) else s

def sfpexexp (s : Sfpu) (imm : Word) : Sfpu :=
  let vd := fieldVd imm
  if !lregWritable vd then s
  else s.lanewise fun s lane =>
    let exp := bits (s.lreg (fieldVc imm) lane) 23 0xFF
    let exp := if bit imm 0 then exp else exp - 127
    let s := s.setLreg vd lane exp
    if vd < 8 then signFlags s lane (bit imm 1) (bit imm 3) exp else s

def sfpexman (s : Sfpu) (imm : Word) : Sfpu :=
  sfpResult s imm fun s lane =>
    let mantissa := s.lreg (fieldVc imm) lane &&& 0x7FFFFF
    if bit imm 0 then mantissa else mantissa ||| ((1 : Word) <<< 23)

def signedImm12 (imm : Word) : Word :=
  let imm12 := bits imm 12 0xFFF
  if bit imm12 11 then imm12 ||| 0xFFFFF000 else imm12

def sfpiadd (s : Sfpu) (imm : Word) : Sfpu :=
  let vd := fieldVd imm
  if !lregWritable vd then s
  else s.lanewise fun s lane =>
    let c := s.lreg (fieldVc imm) lane
    let result :=
      if bit imm 0 then c + signedImm12 imm
      else if bit imm 1 then c - s.lreg vd lane
      else c + s.lreg vd lane
    let s := s.setLreg vd lane result
    if vd < 8 then signFlags s lane (!bit imm 2) (bit imm 3) result else s

def sfpshft (s : Sfpu) (imm : Word) : Sfpu :=
  sfpResult s imm fun s lane =>
    let val := if bit imm 0 && bit imm 2 then s.lreg (fieldVc imm) lane else s.lreg (fieldVd imm) lane
    let shift := if bit imm 0 then signedImm12 imm else s.lreg (fieldVc imm) lane
    if !bit shift 31 then val <<< (shift &&& 31).toNat
    else
      let n := (-shift &&& 31).toNat
      if bit imm 1 then val.sshiftRight n else val >>> n

def sfpsetcc (s : Sfpu) (imm : Word) : Sfpu :=
  let mod1 := imm &&& 0xF
  if fieldVd imm ≥ 12 then s
  else s.lanewise fun s lane =>
    let c := s.lreg (fieldVc imm) lane
    if !s.useLaneFlags lane then s.setLaneFlag lane false
    else if bit mod1 3 then s.setLaneFlag lane false
    else if bit mod1 0 then s.setLaneFlag lane (bit imm 12)
    else if mod1 = 0 then s.setLaneFlag lane (bit c 31)
    else if mod1 = 2 then s.setLaneFlag lane (c ≠ 0)
    else if mod1 = 4 then s.setLaneFlag lane (!bit c 31)
    else if mod1 = 6 then s.setLaneFlag lane (c = 0)
    else s

def popcount (w : Word) : ℕ := forRange 32 0 fun n i => if bit w i then n + 1 else n

/-- The lane's random word before the step, and the state after it. -/
def advancePrng (s : Sfpu) (lane : ℕ) : Word × Sfpu :=
  let result := s.prngState lane
  let taps := w32 (popcount (result &&& 0x80200003))
  (result, { s with prngState := Function.update s.prngState lane ((~~~taps <<< 31) ||| (result >>> 1)) })

def sfpmov (s : Sfpu) (imm : Word) : Sfpu :=
  let vc := fieldVc imm
  let vd := fieldVd imm
  if vd ≥ 12 then s
  else forRange lregLanes s fun s lane =>
    if !s.laneEnabled lane && imm &&& 0xF ≠ 2 then s
    else
      let (x, s) :=
        if bit imm 3 then (if vc = 9 then advancePrng s lane else (0, s))
        else (if bit imm 0 then s.lreg vc lane ^^^ 0x80000000 else s.lreg vc lane, s)
      if lregWritable vd then s.setLreg vd lane x else s

def sfpabs (s : Sfpu) (imm : Word) : Sfpu :=
  sfpResult s imm fun s lane =>
    let x := s.lreg (fieldVc imm) lane
    if !bit x 31 then x
    else if !bit imm 0 then -x
    else if x.toNat ≤ 0xff800000 then x &&& 0x7fffffff
    else x

def useVb (imm : Word) : ℕ := if bit imm 0 then fieldVb imm else fieldVd imm

def sfpand (s : Sfpu) (imm : Word) : Sfpu :=
  sfpResult s imm fun s lane => s.lreg (useVb imm) lane &&& s.lreg (fieldVc imm) lane

def sfpor (s : Sfpu) (imm : Word) : Sfpu :=
  sfpResult s imm fun s lane => s.lreg (useVb imm) lane ||| s.lreg (fieldVc imm) lane

def sfpxor (s : Sfpu) (imm : Word) : Sfpu :=
  sfpResult s imm fun s lane => s.lreg (fieldVd imm) lane ^^^ s.lreg (fieldVc imm) lane

def sfpnot (s : Sfpu) (imm : Word) : Sfpu :=
  sfpResult s imm fun s lane => ~~~s.lreg (fieldVc imm) lane

def sfpsetexp (s : Sfpu) (imm : Word) : Sfpu :=
  sfpResult s imm fun s lane =>
    let c := s.lreg (fieldVc imm) lane
    let d := s.lreg (fieldVd imm) lane
    let exp :=
      if bit imm 0 then bits imm 12 0xFFF &&& 0xFF else if bit imm 1 then bits d 23 0xFF else d &&& 0xFF
    (c &&& 0x80000000) ||| (exp <<< 23) ||| (c &&& 0x7FFFFF)

/-- SFPMAD, SFPADD and SFPMUL are one computation: `±(VA * VB) ± VC`. -/
def sfpMadCommon (s : Sfpu) (imm : Word) : Sfpu :=
  if fieldVd imm ≥ 12 then s
  else s.lanewise fun s lane =>
    let srcA := if bit imm 2 then (s.lreg 7 lane &&& 15).toNat else (bits imm 16 0xF).toNat
    let a := s.lreg srcA lane
    let c := s.lreg (fieldVc imm) lane
    let a := if bit imm 0 then fneg a else a
    let c := if bit imm 1 then fneg c else c
    storeIndirect s imm lane (fadd (fmul a (s.lreg (fieldVb imm) lane)) c)

def booleanOp (mod1 : ℕ) (a b : Bool) : Bool :=
  match mod1 with
  | 1 => b
  | 2 => !b
  | 3 => a && b
  | 4 => a || b
  | 5 => a && !b
  | 6 => a || !b
  | 7 => !a && b
  | 8 => !a || b
  | 9 => !a && !b
  | 10 => !a || !b
  | 11 => a != b
  | 12 => a == b
  | _ => false

def sfppushc (s : Sfpu) (imm : Word) : Sfpu :=
  let mod1 := (imm &&& 0xF).toNat
  if fieldVd imm ≥ 12 then s
  else
    let s :=
      if mod1 = 0 ∧ s.flagStackTop < flagStackDepth - 1 then { s with flagStackTop := s.flagStackTop + 1 }
      else s
    forRange lregLanes s fun s lane =>
      if s.flagStackTop < 0 then s
      else if mod1 = 0 then s.setTop lane (s.useLaneFlags lane) (s.laneFlags lane)
      else if mod1 ≤ 12 then
        s.setTop lane (s.useLaneFlags lane)
          (booleanOp mod1 ((s.flagStack s.flagStackTop).laneFlags lane) (s.laneFlags lane))
      else if mod1 = 13 then
        let s := s.setLaneFlag lane (!s.laneFlags lane)
        s.setTop lane (s.useLaneFlags lane) (s.laneFlags lane)
      else s.setTop lane true (mod1 = 14)

def sfppopc (s : Sfpu) (imm : Word) : Sfpu :=
  let mod1 := (imm &&& 0xF).toNat
  let s :=
    if fieldVd imm ≥ 12 then s
    else forRange lregLanes s fun s lane =>
      let (topUse, topFlag) := s.topFlags lane false
      if mod1 = 0 then (s.setUseLaneFlag lane topUse).setLaneFlag lane topFlag
      else if mod1 ≤ 12 then
        (s.setUseLaneFlag lane topUse).setLaneFlag lane (booleanOp mod1 (s.laneFlags lane) topFlag)
      else if mod1 = 13 then s.setLaneFlag lane (!s.laneFlags lane)
      else (s.setUseLaneFlag lane true).setLaneFlag lane (mod1 = 14)
  if mod1 = 0 ∧ s.flagStackTop ≥ 0 then { s with flagStackTop := s.flagStackTop - 1 } else s

def sfpsetsgn (s : Sfpu) (imm : Word) : Sfpu :=
  sfpResult s imm fun s lane =>
    let sign := if bit imm 0 then bits imm 12 1 else s.lreg (fieldVd imm) lane >>> 31
    (sign <<< 31) ||| (s.lreg (fieldVc imm) lane &&& 0x7FFFFFFF)

def sfpencc (s : Sfpu) (imm : Word) : Sfpu :=
  if fieldVd imm ≥ 12 then s
  else forRange lregLanes s fun s lane =>
    let s :=
      if bit imm 1 then s.setUseLaneFlag lane (bit imm 12)
      else if bit imm 0 then s.setUseLaneFlag lane (!s.useLaneFlags lane)
      else s
    s.setLaneFlag lane (if bit imm 3 then bit imm 13 else true)

def sfpcompc (s : Sfpu) (imm : Word) : Sfpu :=
  if fieldVd imm ≥ 12 then s
  else forRange lregLanes s fun s lane =>
    let (topUse, topFlag) := s.topFlags lane true
    s.setLaneFlag lane (if topUse && s.useLaneFlags lane then topFlag && !s.laneFlags lane else false)

/-- Swaps the first two axes of LReg[0..3] and LReg[4..7], each read as a 4×4×8 tensor. -/
def sfptransp (s : Sfpu) (imm : Word) : Sfpu :=
  if fieldVd imm ≥ 12 then s
  else forRange 2 s fun s half => forRange 8 s fun s col => forRange 4 s fun s i => forRange i s fun s j =>
    let base := 4 * half
    let laneIj := j * 8 + col
    let laneJi := i * 8 + col
    let ij := s.lreg (base + i) laneIj
    let ji := s.lreg (base + j) laneJi
    let s := if s.laneEnabled laneIj then s.setLreg (base + i) laneIj ji else s
    if s.laneEnabled laneJi then s.setLreg (base + j) laneJi ij else s

def roundMantissa (x mask threshold ulp : Word) : Word :=
  let discarded := x &&& mask
  if discarded.toNat ≥ threshold.toNat then x - discarded + ulp else x - discarded

def sfpstochrnd (s : Sfpu) (imm : Word) : Sfpu :=
  let rndMode := bits imm 21 0x7
  let mod1 := (imm &&& 0xF).toNat
  let vd := fieldVd imm
  if vd ≥ 12 then s
  else s.lanewise fun s lane =>
    let (random, s) := advancePrng s lane
    let prngBits : Word :=
      if rndMode = 0 then 0x400000 else if rndMode = 2 then 0x7fffff else random &&& 0x7fffff
    let x := s.lreg (fieldVc imm) lane
    let exp := bits x 23 0xFF
    let x :=
      if mod1 > 1 then x
      else if exp = 0 then 0
      else if exp = 0xFF then x &&& 0xff800000
      else if mod1 = 0 then roundMantissa x 0x1fff (prngBits >>> 10) 0x2000
      else roundMantissa x 0xffff (prngBits >>> 7) 0x10000
    if lregWritable vd then s.setLreg vd lane x else s

def sfpcast (s : Sfpu) (imm : Word) : Sfpu :=
  let mod1 := imm &&& 0xF
  sfpResult s imm fun s lane =>
    let c := s.lreg (fieldVc imm) lane
    if mod1 = 3 then (if bit c 31 then 0x80000000 ||| -c else c)
    else if mod1 = 2 then (if bit c 31 then -c else c)
    else (ofNatF (c &&& 0x7FFFFFFF).toNat &&& 0x7FFFFFFF) ||| (c &&& 0x80000000)

def sfpconfig (s : Sfpu) (imm : Word) : Sfpu :=
  let vd := fieldVd imm
  if 11 ≤ vd ∧ vd ≤ 14 then
    forRange lregLanes s fun s lane =>
      s.setLreg vd lane (if bit imm 0 then bits imm 8 0xFFFF <<< 16 else s.lreg 0 (lane % 8))
  else s

def sfpswap (s : Sfpu) (imm : Word) : Sfpu :=
  let mod1 := imm &&& 0xF
  let vc := fieldVc imm
  let vd := fieldVd imm
  if !lregWritable vd then s
  else s.lanewise fun s lane =>
    let d := s.lreg vd lane
    let c := s.lreg vc lane
    if mod1 = 0 ∨ (mod1 = 1 ∧ flt c d) then
      let s := s.setLreg vd lane c
      if lregWritable vc then s.setLreg vc lane d else s
    else s

def lut16ToFp32 (x : Word) : Word :=
  let exp := bits x 10 0x1f
  (bits x 15 1 <<< 31) ||| ((if exp = 0x1f then 0 else 112 + exp) <<< 23) ||| ((x &&& 0x3ff) <<< 13)

def lutEntry (s : Sfpu) (mod1 : Word) (lane : ℕ) (b : Word) : Word × Word :=
  let i := if flt b 0x3F800000 then 0 else if flt b 0x40000000 then 1 else 2
  let lo := s.lreg i lane
  let hi := s.lreg (4 + i) lane
  if !bit mod1 1 then (lo, hi)
  else if mod1 &&& 10 = 10 then (lut16ToFp32 (bits lo 16 0xffff), lut16ToFp32 (lo &&& 0xffff))
  else
    let cut : Word := if mod1 &&& 3 = 3 then 0x40800000 else 0x40400000
    let j :=
      if flt b 0x3F000000 then 0 else if flt b 0x3F800000 then 16
      else if flt b 0x3FC00000 then 0 else if flt b 0x40000000 then 16
      else if flt b cut then 0 else 16
    (lut16ToFp32 (bits lo j 0xffff), lut16ToFp32 (bits hi j 0xffff))

def sfplutfp32 (s : Sfpu) (imm : Word) : Sfpu :=
  let mod1 := imm &&& 0xF
  if fieldVd imm ≥ 12 then s
  else s.lanewise fun s lane =>
    let l3 := s.lreg 3 lane
    let (a, c) := lutEntry s mod1 lane (fabs l3)
    let d := fadd (fmul a (fabs l3)) c
    let d := if bit mod1 2 then (d &&& 0x7FFFFFFF) ||| (l3 &&& 0x80000000) else d
    storeIndirect s imm lane d

def sfparecip (s : Sfpu) (imm : Word) : Sfpu :=
  let mod1 := imm &&& 0xF
  let vb := (bits imm 16 0xF).toNat
  sfpResult s imm fun s lane =>
    let x := s.lreg (fieldVc imm) lane
    let sign := x &&& 0x80000000
    if mod1 = 0 then sign + sfparecipApproxRecip (x - sign)
    else if mod1 = 1 then (if bit (s.lreg vb lane) 31 then sfparecipApproxRecip (x - sign) else x)
    else sign + sfparecipApproxExp (x - sign)

def sfpuPlace (tt : Tensix) (imm : Word) (tid : Tid) (lane : ℕ) : ℕ × ℕ :=
  let addr := (imm &&& 0x1FFF) + tt.thdReg tid 1 + (tt.rwc tid).destRwc
  (((addr &&& ~~~(3 : Word)) + w32 (lane / 8)).toNat, lane % 8 * 2 + (if bit addr 1 then 1 else 0))

def sfpload (tt : Tensix) (imm : Word) (tid : Tid) : Tensix :=
  let lregInd := (bits imm 20 0xF).toNat
  let sfpu :=
    if lregInd ≥ 8 then tt.sfpu
    else forRange lregLanes tt.sfpu fun s lane =>
      let (row, col) := sfpuPlace tt imm tid lane
      if row < destRows ∧ col < rowSize then s.setLreg lregInd lane (tt.dest row col) else s
  applyAddrMod { tt with sfpu := sfpu } (bits imm 13 0x7) tid

def sfpstore (tt : Tensix) (imm : Word) (tid : Tid) : Tensix :=
  let lregInd := (bits imm 20 0xF).toNat
  let instrMod0 := bits imm 16 0xF
  let dest := forRange lregLanes tt.dest fun g lane =>
    let (row, col) := sfpuPlace tt imm tid lane
    if !tt.sfpu.laneEnabled lane && instrMod0 ≠ 10 then g
    else if row < destRows ∧ col < rowSize then Grid.set g row col (tt.sfpu.lreg lregInd lane)
    else g
  applyAddrMod { tt with dest := dest } (bits imm 13 0x7) tid

end Rv32Emu
