import Rv32Emu.Tensix.State

namespace Rv32Emu

open Word

def stepCounter (clr cr : Bool) (incr ctr ctrCr : Word) : Word × Word :=
  if clr then (0, 0) else if cr then (ctrCr + incr, ctrCr + incr) else (ctr + incr, ctrCr)

def applyAddrMod (tt : Tensix) (modIdx : Word) (tid : Tid) : Tensix :=
  if modIdx.toNat ≥ 8 then tt
  else
    let abReg := tt.thdReg tid (12 + modIdx.toNat)
    let dstReg := tt.thdReg tid (28 + modIdx.toNat)
    let r := tt.rwc tid
    let a := stepCounter (bit abReg 7) (bit abReg 6) (abReg &&& 0x3F) r.srcaRwc r.srcaRwcCr
    let b := stepCounter (bit abReg 15) (bit abReg 14) (bits abReg 8 0x3F) r.srcbRwc r.srcbRwcCr
    let incr := dstReg &&& 0x3FF
    let d :=
      if bit dstReg 11 then (0, 0)
      else if bit dstReg 12 then (r.destRwc + incr, r.destRwc + incr)
      else stepCounter false (bit dstReg 10) incr r.destRwc r.destRwcCr
    let fidelity := if bit dstReg 15 then 0 else r.fidelity + bits dstReg 13 0x3
    tt.setRwc tid ⟨a.1, a.2, b.1, b.2, d.1, d.2, fidelity⟩

theorem applyAddrMod_sfpu (tt : Tensix) (modIdx : Word) (tid : Tid) :
    (applyAddrMod tt modIdx tid).sfpu = tt.sfpu := by
  unfold applyAddrMod
  split <;> rfl

theorem applyAddrMod_dest (tt : Tensix) (modIdx : Word) (tid : Tid) :
    (applyAddrMod tt modIdx tid).dest = tt.dest := by
  unfold applyAddrMod
  split <;> rfl

def copyRows (n : ℕ) (dst : Grid) (d : Word) (dRows : ℕ) (src : Grid) (s : Word) (sRows : ℕ) : Grid :=
  forRange n dst fun g i =>
    let dIdx := (d + w32 i).toNat
    let sIdx := (s + w32 i).toNat
    if dIdx ≥ dRows ∨ sIdx ≥ sRows then g
    else forRange rowSize g fun g j => Grid.set g dIdx j (src sIdx j)

def ttmovd2a (tt : Tensix) (imm : Word) (tid : Tid) : Tensix :=
  let addrMode := bits imm 14 0x7
  let move4rows := bit (bits imm 12 0x3) 1
  let destBase := (imm &&& 0xFFF) + tt.thdReg tid 1 + (tt.rwc tid).destRwc
  let srcaRow := bits imm 17 0x3F + (tt.rwc tid).srcaRwc
  let numRows := if move4rows then 4 else 1
  let destBase := destBase &&& (if move4rows then 0x3FC else 0x3FF)
  let srcaRow := srcaRow &&& (if move4rows then 0x3C else 0x3F)
  let bank := tt.mathSrcaBank
  let rows := copyRows numRows (tt.srca bank) srcaRow srcaRows tt.dest destBase destRows
  applyAddrMod
    { tt with
      srca := Function.update tt.srca bank rows
      srcaDvalid := Function.update tt.srcaDvalid bank true } addrMode tid

def ttmovd2b (tt : Tensix) (imm : Word) (tid : Tid) : Tensix :=
  let addrMode := bits imm 14 0x7
  let move4rows := bit (bits imm 12 0x3) 1
  let destBase := (imm &&& 0xFFF) + tt.thdReg tid 1 + (tt.rwc tid).destRwc
  let srcbRow := bits imm 17 0x3F + (tt.rwc tid).srcbRwc
  let numRows := if move4rows then 4 else 1
  let destBase := destBase &&& (if move4rows then 0x3FC else 0x3FF)
  let srcbRow := srcbRow &&& (if move4rows then 0x3C else 0x3F)
  let bank := tt.mathSrcbBank
  let rows := copyRows numRows (tt.srcb bank) srcbRow srcbRows tt.dest destBase destRows
  applyAddrMod
    { tt with
      srcb := Function.update tt.srcb bank rows
      srcbDvalid := Function.update tt.srcbDvalid bank true } addrMode tid

def ttmovb2a (tt : Tensix) (imm : Word) (tid : Tid) : Tensix :=
  let addrMode := bits imm 14 0x7
  let move4rows := bit (bits imm 12 0x3) 1
  let mask : Word := if move4rows then 0x3C else 0x3F
  let numRows := if move4rows then 4 else 1
  let srcaRow := (bits imm 17 0x3F + (tt.rwc tid).srcaRwc) &&& mask
  let srcbRow := ((imm &&& 0x3F) + (tt.rwc tid).srcbRwc) &&& mask
  let banka := tt.mathSrcaBank
  let rows := copyRows numRows (tt.srca banka) srcaRow srcaRows
    (tt.srcb tt.mathSrcbBank) srcbRow srcbRows
  applyAddrMod
    { tt with
      srca := Function.update tt.srca banka rows
      srcaDvalid := Function.update tt.srcaDvalid banka true } addrMode tid

def clearRows (g : Grid) (start : Word) (n : ℕ) : Grid :=
  forRange n g fun g i =>
    let row := (start + w32 i).toNat
    if row < destRows then forRange rowSize g fun g j => Grid.set g row j 0 else g

def ttzeroacc (tt : Tensix) (imm : Word) (tid : Tid) : Tensix :=
  let mode := bits imm 19 0x1F &&& 0x3
  let use32b := bit imm 18
  let target := imm &&& 0x3FFF
  let mathOffset := tt.thdReg tid 1
  -- clear_zero_flags touches metadata the emulator does not keep
  if bit imm 17 then tt
  else if mode = 0 then
    { tt with dest := clearRows tt.dest (target + mathOffset + (tt.rwc tid).destRwc) 1 }
  else if mode = 1 then
    let faceRows : Word := if use32b then 32 else 16
    { tt with dest := clearRows tt.dest (((target &&& 0xFF) + mathOffset / faceRows) * faceRows) 16 }
  else if mode = 2 then
    { tt with dest := clearRows tt.dest (if bit target 0 then 512 else 0) 512 }
  else { tt with dest := clearRows tt.dest 0 destRows }

def fillBanks (src : Bank → Grid) (both : Bool) (target : Bank) (rows : ℕ) (fill : Word) : Bank → Grid :=
  fun b r c => if (both ∨ b = target) ∧ r < rows ∧ c < rowSize then fill else src b r c

def ttzerosrc (tt : Tensix) (imm : Word) : Tensix :=
  let writeMode := bit imm 3
  let bankMask := bit imm 2
  let fill := if bit imm 4 then tt.neginf else 0
  let targetA := if writeMode then tt.mathSrcaBank else tt.unpSrcaBank
  let targetB := if writeMode then tt.mathSrcbBank else tt.unpSrcbBank
  { tt with
    srca := if bit imm 0 then fillBanks tt.srca bankMask targetA srcaRows fill else tt.srca
    srcb := if bit imm 1 then fillBanks tt.srcb bankMask targetB srcbRows 0 else tt.srcb }

def ttmova2d (tt : Tensix) (imm : Word) (tid : Tid) : Bool × Tensix :=
  let addrMode := bits imm 14 0x7
  let move8rows := bit (bits imm 12 0x3) 1
  let srcaRow := bits imm 17 0x3F + (tt.rwc tid).srcaRwc
  let destBase := (imm &&& 0xFFF) + tt.thdReg tid 1 + (tt.rwc tid).destRwc
  let numRows := if move8rows then 8 else 1
  let destBase := destBase &&& (if move8rows then 0x3F8 else 0x3FF)
  let srcaRow := srcaRow &&& (if move8rows then 0x38 else 0x3F)
  if !tt.srcaReady then (false, tt)
  else
    let rows := copyRows numRows tt.dest destBase destRows (tt.srca tt.mathSrcaBank) srcaRow srcaRows
    (true, applyAddrMod { tt with dest := rows } addrMode tid)

def ttmovb2d (tt : Tensix) (imm : Word) (tid : Tid) : Tensix :=
  let addrMode := bits imm 14 0x7
  let move4rows := bit (bits imm 11 0x7) 2
  let destBase := (imm &&& 0x7FF) + tt.thdReg tid 1 + (tt.rwc tid).destRwc
  let srcbRow := bits imm 17 0x3F + (tt.rwc tid).srcbRwc
  let numRows := if move4rows then 4 else 1
  let destBase := destBase &&& (if move4rows then 0x3FC else 0x3FF)
  let srcbRow := srcbRow &&& (if move4rows then 0x3C else 0x3F)
  let rows := copyRows numRows tt.dest destBase destRows (tt.srcb tt.mathSrcbBank) srcbRow srcbRows
  applyAddrMod { tt with dest := rows } addrMode tid

/-- The 16×16 block in rows 16..31 of SrcB, swapped below the diagonal one pair at a time. -/
def tttrnspsrcb (tt : Tensix) : Tensix :=
  let bank := tt.mathSrcbBank
  let g := forRange 16 (tt.srcb bank) fun g i =>
    forRange i g fun g j =>
      let tmp := g (16 + i) j
      Grid.set (Grid.set g (16 + i) j (g (16 + j) i)) (16 + j) i tmp
  { tt with srcb := Function.update tt.srcb bank g }

/-- MVMUL skips a SrcB bank that holds only zeros when the other one has real data. -/
def skipZeroedSrcb (tt : Tensix) : Tensix :=
  let bank := tt.mathSrcbBank
  if tt.srcbZeroed bank && tt.srcbDvalid (bank + 1) && !tt.srcbZeroed (bank + 1) then
    { tt with
      srcbDvalid := Function.update tt.srcbDvalid bank false
      srcbZeroed := Function.update tt.srcbZeroed bank false
      mathSrcbBank := bank + 1 }
  else tt

def mvmulRows (tt : Tensix) (maskBit16 bcastSrcbRow : Bool) (numRows : ℕ)
    (srcaRow srcbRow destBase : Word) : Grid :=
  forRange numRows tt.dest fun g i =>
    let sbIdx := (srcbRow + (if bcastSrcbRow then 0 else w32 i)).toNat
    let dIdx := (destBase + w32 i).toNat
    if sbIdx ≥ srcbRows ∨ dIdx ≥ destRows then g
    else forRange rowSize g fun g j =>
      let sum := forRange rowSize 0 fun sum k =>
        let saIdx := (srcaRow + w32 k).toNat
        if saIdx ≥ srcaRows then sum
        else
          let b := tt.srcb tt.mathSrcbBank sbIdx k
          let b := if maskBit16 then b &&& ~~~(0x00010000 : Word) else b
          fadd sum (fmul b (tt.srca tt.mathSrcaBank saIdx j))
      Grid.set g dIdx j (fadd (g dIdx j) sum)

def ttmvmul (tt : Tensix) (mopCfg : ℕ → Word) (imm : Word) (tid : Tid) : Bool × Tensix :=
  if !tt.srcaReady then (false, tt)
  else if !tt.srcbReady then (false, tt)
  else
    let tt := skipZeroedSrcb tt
    let clearDvalid := bits imm 22 0x3
    let addrMode := bits imm 14 0x1F
    let bcastSrcbRow := bit (bits imm 19 0x7) 0
    let numRows := if bcastSrcbRow then 7 else 8
    let srcaRow := (tt.rwc tid).srcaRwc &&& 0x38
    let srcbRow := (tt.rwc tid).srcbRwc &&& (if bcastSrcbRow then 0x3F else 0x38)
    let destBase := ((imm &&& 0x3FFF) + tt.thdReg tid 1 + (tt.rwc tid).destRwc) &&&
      (0x400 - w32 numRows)
    let srcbMaskBit16 := (mopCfg 1 &&& 127).toNat ≤ 2
    -- fidelity phases after the first add nothing
    let dest :=
      if (tt.rwc tid).fidelity ≠ 0 then tt.dest
      else mvmulRows tt srcbMaskBit16 bcastSrcbRow numRows srcaRow srcbRow destBase
    let tt := Tensix.flipBanks { tt with dest := dest } (bit clearDvalid 0) (bit clearDvalid 1)
    (true, applyAddrMod tt (addrMode &&& 0x7) tid)

def elwmulSrcaBits (x phase : Word) : Word :=
  if phase &&& 1 = 0 then x &&& 0xfff80000 else fsub x (x &&& 0xfff83fff)

def elwmulSrcbBits (x phase : Word) : Word :=
  if phase &&& 2 = 0 then x &&& 0xfffe0000 else fsub x (x &&& 0xfffe1fff)

/-- The three element-wise instructions: an 8×16 block of SrcA and SrcB into Dest, where
`value a b d` is the new datum at a place that held `d`. -/
def elementwise (tt : Tensix) (imm : Word) (tid : Tid) (value : Word → Word → Word → Word) :
    Bool × Tensix :=
  if !tt.srcaReady then (false, tt)
  else if !tt.srcbReady then (false, tt)
  else
    let clearDvalid := bits imm 22 0x3
    let instrMod19 := bits imm 19 0x3
    let addrMode := bits imm 14 0x7
    let bcastSrcbRow := bit instrMod19 1
    let bcastSrcbCol0 := bit instrMod19 0
    let srcaRow := (tt.rwc tid).srcaRwc &&& 0x38
    let srcbRow := (tt.rwc tid).srcbRwc &&& (if bcastSrcbRow then 0x3F else 0x38)
    let destBase := ((imm &&& 0x3FFF) + (tt.rwc tid).destRwc + tt.thdReg tid 1) &&& 0x3F8
    let dest := forRange 8 tt.dest fun g i =>
      let saIdx := (srcaRow + w32 i).toNat
      let sbIdx := (srcbRow + (if bcastSrcbRow then 0 else w32 i)).toNat
      let dIdx := (destBase + w32 i).toNat
      if saIdx ≥ srcaRows ∨ sbIdx ≥ srcbRows ∨ dIdx ≥ destRows then g
      else forRange rowSize g fun g j =>
        Grid.set g dIdx j (value (tt.srca tt.mathSrcaBank saIdx j)
          (tt.srcb tt.mathSrcbBank sbIdx (if bcastSrcbCol0 then 0 else j)) (g dIdx j))
    let tt := Tensix.flipBanks { tt with dest := dest } (bit clearDvalid 0) (bit clearDvalid 1)
    (true, applyAddrMod tt addrMode tid)

def ttelwmul (tt : Tensix) (imm : Word) (tid : Tid) : Bool × Tensix :=
  let fid := (tt.rwc tid).fidelity &&& 3
  elementwise tt imm tid fun a b d => fadd d (fmul (elwmulSrcaBits a fid) (elwmulSrcbBits b fid))

def ttelwadd (tt : Tensix) (imm : Word) (tid : Tid) : Bool × Tensix :=
  elementwise tt imm tid fun a b d => if bit imm 21 then fadd (fadd a b) d else fadd a b

def ttelwsub (tt : Tensix) (imm : Word) (tid : Tid) : Bool × Tensix :=
  elementwise tt imm tid fun a b d => if bit imm 21 then fadd (fsub a b) d else fsub a b

def gmpoolRow (tt : Tensix) (srcaRow destBase : Word) : Grid :=
  forRange rowSize tt.dest fun g j =>
    let cur := forRange rowSize (g destBase.toNat j) fun cur k =>
      let row := (srcaRow + w32 k).toNat
      let a := if row < srcaRows then tt.srca tt.mathSrcaBank row j else 0
      if flt cur a then a else cur
    let g := Grid.set g destBase.toNat j cur
    forRange 3 g fun g i =>
      let row := (destBase + w32 (i + 1)).toNat
      if row < destRows then Grid.set g row j 0 else g

def ttgmpool (tt : Tensix) (imm : Word) (tid : Tid) : Bool × Tensix :=
  if !tt.srcaReady then (false, tt)
  else
    let clearDvalid := bits imm 22 0x3
    let addrMode := bits imm 15 0xF
    let srcaRow := (tt.rwc tid).srcaRwc &&& 0x30
    let destBase := ((imm &&& 0x3FFF) + tt.thdReg tid 1 + (tt.rwc tid).destRwc) &&& 0x3FF
    let dest := if destBase.toNat < destRows then gmpoolRow tt srcaRow destBase else tt.dest
    let tt := Tensix.flipBanks { tt with dest := dest } (bit clearDvalid 0) (bit clearDvalid 1)
    (true, applyAddrMod tt (addrMode &&& 0x7) tid)

def gapoolRow (tt : Tensix) (srcaRow srcbRow destBase : Word) : Grid :=
  forRange rowSize tt.dest fun g j =>
    let sum := forRange rowSize 0 fun sum k =>
      let row := (srcaRow + w32 k).toNat
      let a := if row < srcaRows then tt.srca tt.mathSrcaBank row j else 0
      let b := if srcbRow.toNat < srcbRows then tt.srcb tt.mathSrcbBank srcbRow.toNat k else 0
      fadd sum (fmul b a)
    Grid.set g destBase.toNat j (fadd (g destBase.toNat j) sum)

def ttgapool (tt : Tensix) (imm : Word) (tid : Tid) : Bool × Tensix :=
  if !tt.srcaReady then (false, tt)
  else
    let clearDvalid := bits imm 22 0x3
    let addrMode := bits imm 15 0xF
    let srcaRow := (tt.rwc tid).srcaRwc &&& 0x38
    let srcbRow := (tt.rwc tid).srcbRwc &&& 0x38
    let destBase := ((imm &&& 0x3FFF) + tt.thdReg tid 1 + (tt.rwc tid).destRwc) &&& 0x3FF
    let dest :=
      if (tt.rwc tid).fidelity = 0 ∧ destBase.toNat < destRows then
        gapoolRow tt srcaRow srcbRow destBase
      else tt.dest
    let tt := Tensix.flipBanks { tt with dest := dest } (bit clearDvalid 0) (bit clearDvalid 1)
    (true, applyAddrMod tt (addrMode &&& 0x7) tid)

def ttcleardvalid (tt : Tensix) (imm : Word) : Tensix :=
  let flip := bits imm 22 0x3
  if bit imm 0 then
    { tt with
      srcaDvalid := fun _ => false
      srcbDvalid := fun _ => false
      unpSrcaBank := 0
      unpSrcbBank := 0
      mathSrcaBank := 0
      mathSrcbBank := 0
      destDvalid := false }
  else tt.flipBanks (bit flip 0) (bit flip 1)

def ttsetrwc (tt : Tensix) (imm : Word) (tid : Tid) : Bool × Tensix :=
  let clearAbVld := bits imm 22 0x3
  let rwcCr := bits imm 18 0xF
  let bitmask := imm &&& 0x3F
  if bit clearAbVld 0 && !tt.srcaReady then (false, tt)
  else if bit clearAbVld 1 && !tt.srcbReady then (false, tt)
  else
    let r := tt.rwc tid
    let a := bits imm 6 0xF + (if bit rwcCr 0 then r.srcaRwcCr else 0)
    let b := bits imm 10 0xF + (if bit rwcCr 1 then r.srcbRwcCr else 0)
    let d := bits imm 14 0xF +
      (if bit rwcCr 3 then r.destRwc else if bit rwcCr 2 then r.destRwcCr else 0)
    let r := if bit bitmask 0 then { r with srcaRwc := a, srcaRwcCr := a } else r
    let r := if bit bitmask 1 then { r with srcbRwc := b, srcbRwcCr := b } else r
    let r := if bit bitmask 2 then { r with destRwc := d, destRwcCr := d } else r
    let r := if bit bitmask 3 then { r with fidelity := 0 } else r
    let tt := tt.setRwc tid r
    (true, tt.flipBanks (bit clearAbVld 0 && tt.srcaReady) (bit clearAbVld 1 && tt.srcbReady))

def ttincrwc (tt : Tensix) (imm : Word) (tid : Tid) : Tensix :=
  let rwcCr := bits imm 18 0x7
  let r := tt.rwc tid
  let a := stepCounter false (bit rwcCr 0) (bits imm 6 0xF) r.srcaRwc r.srcaRwcCr
  let b := stepCounter false (bit rwcCr 1) (bits imm 10 0xF) r.srcbRwc r.srcbRwcCr
  let d := stepCounter false (bit rwcCr 2) (bits imm 14 0xF) r.destRwc r.destRwcCr
  tt.setRwc tid ⟨a.1, a.2, b.1, b.2, d.1, d.2, r.fidelity⟩

end Rv32Emu
