import Rv32Emu.Lib.Writes
import Rv32Emu.Tensix.Tile

namespace Rv32Emu

def byteWrites (a n : ℕ) (w : Word) : List (ℕ × BitVec 8) := (List.range n).map fun k => (a + k, byteOf w k)

theorem store_eq_applyWrites (m : Bytes) (a n : ℕ) (w : Word) :
    m.store a n w = applyWrites m (byteWrites a n w) := by
  have hloop := forRange_applyWrites n m fun k => [(a + k, byteOf w k)]
  rw [byteWrites, ← List.flatMap_singleton' ((List.range n).map _), List.flatMap_map]
  exact hloop

theorem byteWrites_fst (a n : ℕ) (w : Word) : (byteWrites a n w).map Prod.fst = List.range' a n := by
  rw [byteWrites, List.map_map, List.range'_eq_map_range]
  rfl

def byteWrite (addr w : Word) : List (ℕ × BitVec 8) :=
  if addr.toNat < l1Size then [(addr.toNat, w.setWidth 8)] else []

theorem storeByte_eq_applyWrites (l1 : Bytes) (addr w : Word) :
    storeByte l1 addr w = applyWrites l1 (byteWrite addr w) := by
  unfold storeByte byteWrite
  split <;> rfl

def plainWrites (p : PackPlan) (l1ByteAddr : Word) (vals : List Word) : List (ℕ × BitVec 8) :=
  (List.range vals.length).flatMap fun i =>
    let off := l1ByteAddr + w32 i * p.outDsb
    if (off + p.outDsb).toNat ≤ l1Size then
      byteWrites off.toNat p.outDsb.toNat (floatToDatum (vals.getD i 0) p.outDataFmt)
    else []

theorem packPlain_eq_applyWrites (l1 : Bytes) (p : PackPlan) (l1ByteAddr : Word) (vals : List Word) :
    packPlain l1 p l1ByteAddr vals = applyWrites l1 (plainWrites p l1ByteAddr vals) := by
  rw [plainWrites, ← forRange_applyWrites]
  apply forRange_congr
  intro i _ l1
  dsimp only
  split
  · exact store_eq_applyWrites ..
  · rfl

def sharedExpOf (n gi : ℕ) (bvals : List Word) : Word :=
  forRange (if gi + 16 ≤ n then 16 else n - gi) (0 : Word) fun e k =>
    let e' := bits (bvals.getD (gi + k) 0) 23 0xFF
    if e'.toNat > e.toNat then e' else e

def bfp8Writes (p : PackPlan) (l1ByteAddr : Word) (bvals : List Word) : List (ℕ × BitVec 8) :=
  let tileOff := l1ByteAddr - p.l1BaseByteAddr
  let n := p.numDatums.toNat
  (List.range ((n + 15) / 16)).flatMap fun group =>
    let gi := 16 * group
    byteWrite (p.l1BaseByteAddr + (tileOff + w32 gi) / 16) (sharedExpOf n gi bvals) ++
      (List.range (if gi + 16 ≤ n then 16 else n - gi)).flatMap fun k =>
        byteWrite (p.l1BaseByteAddr + 64 + tileOff + w32 (gi + k))
          (bfp8Mantissa (sharedExpOf n gi bvals) (bvals.getD (gi + k) 0))

theorem packBfp8_eq_applyWrites (l1 : Bytes) (p : PackPlan) (l1ByteAddr : Word) (bvals : List Word) :
    packBfp8 l1 p l1ByteAddr bvals = applyWrites l1 (bfp8Writes p l1ByteAddr bvals) := by
  dsimp only [bfp8Writes]
  rw [← forRange_applyWrites]
  unfold packBfp8
  dsimp only
  apply forRange_congr
  intro group _ l1
  rw [applyWrites_append, ← forRange_applyWrites, ← storeByte_eq_applyWrites]
  apply forRange_congr
  intro k _ l1
  exact storeByte_eq_applyWrites ..

section pacr

variable (tt : Tensix) (p : PackPlan)

def packerWrites (pck idx : ℕ) : List (ℕ × BitVec 8) :=
  let addr := p.l1BaseByteAddr + tt.packL1WriteOffset + w32 idx * p.numDatums * p.outDsb
  let vals := packValues tt p (packSrcAddr tt p pck)
  if p.numDatums = 0 then []
  else if p.outDataFmt = 6 ∨ p.outDataFmt = 2 then bfp8Writes p addr vals
  else plainWrites p addr vals

def packWrites (n : ℕ) : List (ℕ × BitVec 8) :=
  (List.range n).flatMap fun pck =>
    if packs p pck then packerWrites tt p pck ((List.range pck).countP (packs p ·)) else []

theorem packWrites_succ (n : ℕ) : packWrites tt p (n + 1) =
    packWrites tt p n ++ if packs p n then packerWrites tt p n ((List.range n).countP (packs p ·))
      else [] := by
  rw [packWrites, List.range_succ, List.flatMap_append, List.flatMap_singleton]
  rfl

theorem packer_eq_applyWrites {acc : Bytes × ℕ} {pck : ℕ} (h : packs p pck = true) :
    packer tt p acc pck = (applyWrites acc.1 (packerWrites tt p pck acc.2), acc.2 + 1) := by
  simp only [packs, Bool.and_eq_true, Bool.not_eq_true'] at h
  simp only [packer, packerWrites, h.1, h.2, Bool.not_true, Bool.false_eq_true, if_false]
  split
  · rfl
  · rw [packBfp8_eq_applyWrites, packPlain_eq_applyWrites, apply_ite (applyWrites acc.1)]

theorem packLoop_eq_applyWrites (l1 : Bytes) : (packLoop tt p l1).1 = applyWrites l1 (packWrites tt p 4) := by
  have hloop : forRange 4 (l1, 0) (packer tt p) =
      (applyWrites l1 (packWrites tt p 4), (List.range 4).countP (packs p ·)) := by
    apply forRange_induction
      (P := fun n acc => acc = (applyWrites l1 (packWrites tt p n), (List.range n).countP (packs p ·)))
    · rfl
    · rintro n _ acc rfl
      rw [packWrites_succ, countP_packs_succ]
      cases hp : packs p n with
      | false =>
        rw [packer_of_not_packs hp, if_neg Bool.false_ne_true, if_neg Bool.false_ne_true, List.append_nil,
          Nat.add_zero]
      | true => rw [packer_eq_applyWrites tt p hp, if_pos rfl, if_pos rfl, applyWrites_append]
  exact congrArg Prod.fst hloop

end pacr

def pacrWrites (tt : Tensix) (imm : Word) (tid : Tid) : List (ℕ × BitVec 8) :=
  if tt.mem.l1Scratchpad.isSome then packWrites tt (packPlan tt imm tid) 4 else []

theorem ttpacr_l1 (tt : Tensix) (imm : Word) (tid : Tid) : (ttpacr tt imm tid).mem.l1Scratchpad =
    tt.mem.l1Scratchpad.map fun l1 => applyWrites l1 (pacrWrites tt imm tid) := by
  unfold pacrWrites
  dsimp only [ttpacr]
  cases tt.mem.l1Scratchpad with
  | none => rfl
  | some l1 => exact congrArg some (packLoop_eq_applyWrites tt _ l1)

end Rv32Emu
