import Rv32Emu.Tensix.Half
import Rv32Emu.Tensix.PackRange
import Rv32Emu.Tensix.TileRoundTrip
import Rv32Emu.Tensix.UnpackReads

namespace Rv32Emu

section packed

variable {tt : Tensix} {p : PackPlan} {pck j : ℕ}

def packPlace (tt : Tensix) (p : PackPlan) (pck j : ℕ) : ℕ × ℕ :=
  let xCount := p.numDatums.toNat / p.yCount.toNat
  let dIdx := packSrcAddr tt p pck + w32 (j / xCount) * 16 + w32 (j % xCount)
  ((bits dIdx 4 0x3FF).toNat, (dIdx &&& 0xF).toNat)

def packAddr (tt : Tensix) (p : PackPlan) (pck j : ℕ) : Word :=
  p.l1BaseByteAddr + tt.packL1WriteOffset + w32 ((List.range pck).countP (packs p ·)) * p.numDatums *
    p.outDsb +
    w32 j * p.outDsb

theorem flatMap_range_map {α : Type} (f : ℕ → ℕ → α) (y x : ℕ) :
    (List.range y).flatMap (fun row => (List.range x).map (f row)) =
      (List.range (y * x)).map fun j => f (j / x) (j % x) := by
  induction y with
  | zero => simp
  | succ y ih =>
    have hrow : (List.range x).map (f y) = (List.range x).map fun c =>
        f ((y * x + c) / x) ((y * x + c) % x) := by
      apply List.map_congr_left
      intro c hc
      have hlt := List.mem_range.mp hc
      rw [Nat.mul_comm y x, Nat.mul_add_div (by omega), Nat.mul_add_mod, Nat.div_eq_of_lt hlt,
        Nat.mod_eq_of_lt hlt, Nat.add_zero]
    rw [List.range_succ, List.flatMap_append, ih, List.flatMap_singleton, Nat.add_mul, Nat.one_mul,
      List.range_add, List.map_append, List.map_map, hrow]
    rfl

theorem packValues_getD (tt : Tensix) (pck : ℕ) (hzero : p.zeroWrite = false)
    (hj : j < p.yCount.toNat * (p.numDatums.toNat / p.yCount.toNat)) :
    (packValues tt p (packSrcAddr tt p pck)).getD j 0 =
      tt.dest (packPlace tt p pck j).1 (packPlace tt p pck j).2 := by
  have hx : (if p.numDatums.toNat > 0 then p.numDatums / p.yCount else 0 : Word).toNat =
      p.numDatums.toNat / p.yCount.toNat := xCount_toNat p
  have hrow (w : Word) : (bits w 4 0x3FF).toNat < destRows := by
    rw [bits_mask_toNat w 4 10 rfl]
    exact Nat.mod_lt _ (by decide)
  unfold packValues
  simp only [hx, hzero, Bool.not_false, Bool.true_and, hrow, decide_true, if_true]
  rw [flatMap_range_map fun row col =>
      tt.dest (bits (packSrcAddr tt p pck + w32 row * 16 + w32 col) 4 0x3FF).toNat
        ((packSrcAddr tt p pck + w32 row * 16 + w32 col) &&& 0xF).toNat,
    List.getD_eq_getElem _ _ (by simpa using hj), List.getElem_map, List.getElem_range]
  rfl

theorem packPlan_numDatums_le (tt : Tensix) (imm : Word) (tid : Tid) :
    (packPlan tt imm tid).numDatums.toNat ≤ 1024 := by
  have hclamp : ∀ (n : Word) (b : Bool), (if b then 0 else if n.toNat > 1024 then 1024
      else n : Word).toNat ≤ 1024 := by
    intro n b
    split_ifs
    · exact Nat.zero_le _
    · exact le_refl 1024
    · omega
  exact hclamp _ _

end packed

section stored

variable {tt : Tensix} {p : PackPlan} {addr : Word} {vals : List Word} {a pck j : ℕ}

theorem half_addrs_apart {s t : ℕ} (hs : s < 4096) (ht : t < 4096) (hne : s ≠ t) :
    (addr + w32 s * 2).toNat + 2 ≤ (addr + w32 t * 2).toNat ∨
      (addr + w32 t * 2).toNat + 2 ≤ (addr + w32 s * 2).toNat := by
  have hval (n : ℕ) (hn : n < 4096) : (addr + w32 n * 2).toNat = (addr.toNat + n * 2) % 2 ^ 32 := by
    have htwo : (2 : Word).toNat = 2 := rfl
    rw [BitVec.toNat_add, BitVec.toNat_mul, w32, BitVec.toNat_ofNat, htwo]
    omega
  rw [hval s hs, hval t ht]
  omega

theorem packPlain_keeps (hdsb : p.outDsb = 2)
    (h : ∀ i < vals.length, a + 2 ≤ (addr + w32 i * 2).toNat ∨ (addr + w32 i * 2).toNat + 2 ≤ a)
    (l1 : Bytes) :
    (packPlain l1 p addr vals).load a 2 = l1.load a 2 := by
  apply forRange_keeps fun l1 : Bytes => l1.load a 2
  intro i hi l1
  rw [hdsb]
  dsimp only
  split_ifs
  · exact Bytes.load_store_apart (h i hi) ..
  · rfl

theorem packPlain_load (hdsb : p.outDsb = 2) (hj : j < vals.length) (hlen : vals.length ≤ 1024)
    (hin : (addr + w32 j * 2).toNat + 2 ≤ l1Size)
    (hval : (floatToDatum (vals.getD j 0) p.outDataFmt).toNat < 2 ^ 16) (l1 : Bytes) :
    (packPlain l1 p addr vals).load (addr + w32 j * 2).toNat 2 =
      floatToDatum (vals.getD j 0) p.outDataFmt := by
  apply forRange_writes (fun l1 : Bytes => l1.load (addr + w32 j * 2).toNat 2) hj
  · intro l1
    have hsize : l1Size = 0x180000 := rfl
    have hguard : (addr + w32 j * 2 + 2).toNat ≤ l1Size := by
      have htwo : (2 : Word).toNat = 2 := rfl
      rw [BitVec.toNat_add, htwo]
      omega
    rw [hdsb]
    dsimp only
    rw [if_pos hguard]
    exact Bytes.load_store_of_lt l1 _ (by decide) hval
  · intro i hi hne l1
    rw [hdsb]
    dsimp only
    split_ifs
    · exact Bytes.load_store_apart (half_addrs_apart (by omega) (by omega) hne.symm) ..
    · rfl

theorem packer_of_plain {acc : Bytes × ℕ} (hfmt : p.outDataFmt = 1) (hnum : p.numDatums ≠ 0)
    (h : packs p pck) :
    packer tt p acc pck =
      (packPlain acc.1 p (p.l1BaseByteAddr + tt.packL1WriteOffset + w32 acc.2 * p.numDatums * p.outDsb)
          (packValues tt p (packSrcAddr tt p pck)),
        acc.2 + 1) := by
  simp only [packs, Bool.and_eq_true, Bool.not_eq_true'] at h
  simp only [packer, h.1, h.2, hfmt, if_neg hnum]
  rfl

theorem countP_packs_mono (p : PackPlan) {m n : ℕ} (h : m ≤ n) :
    (List.range m).countP (packs p ·) ≤ (List.range n).countP (packs p ·) :=
  (List.range_sublist.mpr h).countP_le

theorem countP_packs_le (p : PackPlan) (n : ℕ) : (List.range n).countP (packs p ·) ≤ n :=
  List.countP_le_length.trans_eq List.length_range

theorem packAddr_eq (hdsb : p.outDsb = 2) (pck j : ℕ) : packAddr tt p pck j =
    p.l1BaseByteAddr + tt.packL1WriteOffset +
      w32 ((List.range pck).countP (packs p ·) * p.numDatums.toNat + j) * 2 := by
  rw [packAddr, hdsb, w32_add, w32_mul, w32_toNat, BitVec.add_mul, BitVec.add_assoc]

structure StoredBelow (tt : Tensix) (p : PackPlan) (pck j n : ℕ) (acc : Bytes × ℕ) : Prop where
  count : acc.2 = (List.range n).countP (packs p ·)
  load : pck < n → acc.1.load (packAddr tt p pck j).toNat 2 =
    floatToDatum ((packValues tt p (packSrcAddr tt p pck)).getD j 0) 1

structure StoresHalf (tt : Tensix) (p : PackPlan) (pck j : ℕ) : Prop where
  fmt : p.outDataFmt = 1
  size : p.outDsb = 2
  few : p.numDatums.toNat ≤ 1024
  packs : packs p pck = true
  datum : j < p.yCount.toNat * (p.numDatums.toNat / p.yCount.toNat)
  inside : (packAddr tt p pck j).toNat + 2 ≤ l1Size
  fits : (floatToDatum ((packValues tt p (packSrcAddr tt p pck)).getD j 0) 1).toNat < 2 ^ 16

theorem packValues_length_le (tt : Tensix) (p : PackPlan) (pck : ℕ) :
    (packValues tt p (packSrcAddr tt p pck)).length ≤ p.numDatums.toNat := by
  rw [length_packValues]
  exact Nat.mul_div_le ..

namespace StoresHalf

theorem lt_length (h : StoresHalf tt p pck j) : j < (packValues tt p (packSrcAddr tt p pck)).length := by
  rw [length_packValues]
  exact h.datum

theorem numDatums_ne (h : StoresHalf tt p pck j) : p.numDatums ≠ 0 := by
  intro hzero
  have hlt := h.lt_length.trans_le (packValues_length_le tt p pck)
  rw [hzero] at hlt
  exact Nat.not_lt_zero j hlt

theorem own_round (h : StoresHalf tt p pck j) (l1 : Bytes) :
    (packPlain l1 p (p.l1BaseByteAddr + tt.packL1WriteOffset +
        w32 ((List.range pck).countP (Rv32Emu.packs p ·)) * p.numDatums * p.outDsb)
      (packValues tt p (packSrcAddr tt p pck))).load (packAddr tt p pck j).toNat 2 =
      floatToDatum ((packValues tt p (packSrcAddr tt p pck)).getD j 0) 1 := by
  have haddr : packAddr tt p pck j = p.l1BaseByteAddr + tt.packL1WriteOffset +
      w32 ((List.range pck).countP (Rv32Emu.packs p ·)) * p.numDatums * p.outDsb + w32 j * 2 := by
    rw [packAddr, h.size]
  have hstore := packPlain_load h.size h.lt_length ((packValues_length_le tt p pck).trans h.few)
    (haddr ▸ h.inside) (h.fmt ▸ h.fits) l1
  rw [haddr, hstore, h.fmt]

theorem later_round (h : StoresHalf tt p pck j) {n : ℕ} (hn : n < 4) (hlater : pck < n) (l1 : Bytes) :
    (packPlain l1 p (p.l1BaseByteAddr + tt.packL1WriteOffset +
        w32 ((List.range n).countP (Rv32Emu.packs p ·)) * p.numDatums * p.outDsb)
      (packValues tt p (packSrcAddr tt p n))).load (packAddr tt p pck j).toNat 2 =
      l1.load (packAddr tt p pck j).toNat 2 := by
  have hcount : (List.range (pck + 1)).countP (Rv32Emu.packs p ·) =
      (List.range pck).countP (Rv32Emu.packs p ·) + 1 := by
    rw [countP_packs_succ, h.packs, if_pos rfl]
  have hmono := countP_packs_mono p (show pck + 1 ≤ n from hlater)
  have hfew := countP_packs_le p n
  have hblock : ((List.range pck).countP (Rv32Emu.packs p ·) + 1) * p.numDatums.toNat ≤
      (List.range n).countP (Rv32Emu.packs p ·) * p.numDatums.toNat := Nat.mul_le_mul_right _ (by omega)
  have hblocks : (List.range n).countP (Rv32Emu.packs p ·) * p.numDatums.toNat ≤ 3 * 1024 :=
    Nat.mul_le_mul (by omega) h.few
  have hj := h.lt_length.trans_le (packValues_length_le tt p pck)
  rw [Nat.add_mul, Nat.one_mul] at hblock
  apply packPlain_keeps h.size
  intro i hi
  have hi' := hi.trans_le (packValues_length_le tt p n)
  have hfew' := h.few
  have haddr : p.l1BaseByteAddr + tt.packL1WriteOffset +
      w32 ((List.range n).countP (Rv32Emu.packs p ·)) * p.numDatums * p.outDsb + w32 i * 2 =
        packAddr tt p n i := by
    rw [packAddr, h.size]
  rw [haddr, packAddr_eq h.size, packAddr_eq h.size]
  exact half_addrs_apart (by omega) (by omega) (by omega)

theorem step (h : StoresHalf tt p pck j) {n : ℕ} (hn : n < 4) {acc : Bytes × ℕ}
    (ha : StoredBelow tt p pck j n acc) :
    StoredBelow tt p pck j (n + 1) (packer tt p acc n) := by
  have hsucc := countP_packs_succ p n
  cases hp : Rv32Emu.packs p n with
  | false =>
    rw [hp, if_neg Bool.false_ne_true] at hsucc
    rw [packer_of_not_packs hp]
    refine ⟨ha.count.trans hsucc.symm, fun hlt => ha.load (lt_of_le_of_ne (Nat.lt_succ_iff.mp hlt) ?_)⟩
    rintro rfl
    exact absurd (h.packs.symm.trans hp) (by decide)
  | true =>
    rw [hp, if_pos rfl] at hsucc
    rw [packer_of_plain h.fmt h.numDatums_ne hp, ha.count]
    refine ⟨hsucc.symm, fun hlt => ?_⟩
    rcases (Nat.lt_succ_iff.mp hlt).eq_or_lt with rfl | hlater
    · exact h.own_round acc.1
    · exact (h.later_round hn hlater acc.1).trans (ha.load hlater)

theorem packLoop_load (h : StoresHalf tt p pck j) (hpck : pck < 4) (l1 : Bytes) :
    (packLoop tt p l1).1.load (packAddr tt p pck j).toNat 2 =
      floatToDatum ((packValues tt p (packSrcAddr tt p pck)).getD j 0) 1 := by
  have hloop : StoredBelow tt p pck j 4 (forRange 4 (l1, 0) (packer tt p)) := by
    apply forRange_induction
    · exact ⟨rfl, fun hlt => absurd hlt (Nat.not_lt_zero pck)⟩
    · intro n hn acc ha
      exact h.step hn ha
  exact hloop.load hpck

end StoresHalf

end stored

section path

variable {tt tt' : Tensix} {imm raw : Word} {tid : Tid} {i pck j : ℕ} {cell : ℕ × ℕ} {addr : ℕ}

/-- UNPACR reads the pattern `raw` from L1 as datum `i`, in format Float16, and fills the cell of Dest
with it. -/
structure UnpacksHalf (tt : Tensix) (imm : Word) (tid : Tid) (tt' : Tensix) (i : ℕ) (raw : Word)
    (cell : ℕ × ℕ) : Prop where
  done : ttunpacr tt imm tid = (true, tt')
  notFlush : bit imm 1 = false
  notCtx : bits imm 13 0x3 = 0
  fmt : (unpackPlan tt imm tid).inDataFmt = 1
  toDst : (unpackPlan tt imm tid).unpackToDst = true
  notZero : (unpackPlan tt imm tid).zeroWrite = false
  datum : i < (unpackPlan tt imm tid).numDatums.toNat
  inside : ((unpackPlan tt imm tid).datumAddr (w32 i)).toNat + 2 ≤ l1Size
  read : tt.mem.l1Scratchpad.map (·.load ((unpackPlan tt imm tid).datumAddr (w32 i)).toNat 2) = some raw
  place : unpackPlace (unpackPlan tt imm tid) i = cell

/-- PACR takes datum `j` of packer `pck` from the cell of Dest and writes it to L1 at `addr`, in format
Float16. -/
structure PacksHalf (tt : Tensix) (imm : Word) (tid : Tid) (pck j : ℕ) (cell : ℕ × ℕ) (addr : ℕ) : Prop where
  fmt : (packPlan tt imm tid).outDataFmt = 1
  notZero : (packPlan tt imm tid).zeroWrite = false
  packer : pck < 4
  packs : packs (packPlan tt imm tid) pck = true
  datum : j < (packPlan tt imm tid).yCount.toNat *
    ((packPlan tt imm tid).numDatums.toNat / (packPlan tt imm tid).yCount.toNat)
  place : packPlace tt (packPlan tt imm tid) pck j = cell
  write : (packAddr tt (packPlan tt imm tid) pck j).toNat = addr
  inside : addr + 2 ≤ l1Size
  l1 : tt.mem.l1Scratchpad.isSome

theorem whichUnp_of_toDst (h : (unpackPlan tt imm tid).unpackToDst = true) :
    (unpackPlan tt imm tid).whichUnp = false := by
  have hand : (!(unpackPlan tt imm tid).whichUnp && _) = true := h
  rw [Bool.and_eq_true, Bool.not_eq_true'] at hand
  exact hand.1

theorem UnpacksHalf.dest (h : UnpacksHalf tt imm tid tt' i raw cell) :
    tt'.dest cell.1 cell.2 = halfToFloat raw := by
  obtain ⟨l1, hl1, hraw⟩ := Option.map_eq_some_iff.mp h.read
  have hcell := ttunpacr_cell hl1 (by rw [h.fmt]; decide) h.notFlush h.notCtx h.done h.datum
  have hplain : (unpackPlan tt imm tid).blockFloat = false := by
    rw [UnpackPlan.blockFloat, h.fmt]
    exact Bool.and_false _
  have hdsb : (unpackPlan tt imm tid).dsb = 2 := by
    have heq : (unpackPlan tt imm tid).dsb = getDatumSize (unpackPlan tt imm tid).inDataFmt := rfl
    rw [heq, h.fmt]
    rfl
  have hguard : ((unpackPlan tt imm tid).datumAddr (w32 i) + 2).toNat ≤ l1Size := by
    have hsize : l1Size = 0x180000 := rfl
    have htwo : (2 : Word).toNat = 2 := rfl
    have := h.inside
    rw [BitVec.toNat_add, htwo]
    omega
  rw [unpackDatum_of_plain l1 h.notZero hplain, fetchDatum, hdsb, if_pos hguard, h.fmt] at hcell
  rw [unpackedCell, h.place, whichUnp_of_toDst h.toDst, h.toDst] at hcell
  rw [← hraw]
  exact hcell

theorem PacksHalf.l1_load (h : PacksHalf tt imm tid pck j cell addr)
    (hfits : (floatToHalf (tt.dest cell.1 cell.2)).toNat < 2 ^ 16) :
    (ttpacr tt imm tid).mem.l1Scratchpad.map (·.load addr 2) =
      some (floatToHalf (tt.dest cell.1 cell.2)) := by
  obtain ⟨l1, hl1⟩ := Option.isSome_iff_exists.mp h.l1
  have hdsb : (packPlan tt imm tid).outDsb = 2 := by
    have heq : (packPlan tt imm tid).outDsb = getDatumSize (packPlan tt imm tid).outDataFmt := rfl
    rw [heq, h.fmt]
    rfl
  have hval := packValues_getD tt pck h.notZero h.datum
  rw [h.place] at hval
  have hstores : StoresHalf tt (packPlan tt imm tid) pck j :=
    ⟨h.fmt, hdsb, packPlan_numDatums_le .., h.packs, h.datum, h.write ▸ h.inside, by rw [hval]; exact hfits⟩
  have hload := hstores.packLoop_load h.packer l1
  rw [h.write, hval] at hload
  have hafter : (ttpacr tt imm tid).mem.l1Scratchpad = some (packLoop tt (packPlan tt imm tid) l1).1 := by
    simp only [ttpacr, hl1]
    rfl
  rw [hafter, Option.map_some, hload]
  rfl

theorem halfToFloat_exp_le (hfin : halfExp raw ≠ 31) : floatExp (halfToFloat raw) ≤ 142 := by
  have hlt := halfExp_lt raw
  by_cases hexp : halfExp raw = 0
  · by_cases hfrac : halfFrac raw = 0
    · have he := (float_fields (e := 0) (f := 0) (by decide) (by decide) (halfToFloat_zero hexp hfrac)).2.1
      omega
    · obtain ⟨k, -, -, -, -, he, -⟩ := halfToFloat_subnormal hexp hfrac
      omega
  · have he := (halfToFloat_normal hexp hfin).2.1
    omega

theorem load_two_lt (m : Bytes) (a : ℕ) : (m.load a 2).toNat < 2 ^ 16 := by
  apply Nat.lt_pow_two_of_testBit
  intro k hk
  have hbit := Bytes.load_getLsbD m a 2 k (by decide)
  rw [decide_eq_false (by omega), Bool.false_and] at hbit
  exact hbit

theorem UnpacksHalf.raw_lt (h : UnpacksHalf tt imm tid tt' i raw cell) : raw.toNat < 2 ^ 16 := by
  obtain ⟨l1, -, rfl⟩ := Option.map_eq_some_iff.mp h.read
  exact load_two_lt ..

theorem through_dest_iff {tt₂ : Tensix} {imm₂ : Word} {tid₂ : Tid}
    (hu : UnpacksHalf tt imm tid tt' i raw cell) (hp : PacksHalf tt₂ imm₂ tid₂ pck j cell addr)
    (hkept : tt₂.dest cell.1 cell.2 = tt'.dest cell.1 cell.2) (hfin : halfExp raw ≠ 31) :
    (ttpacr tt₂ imm₂ tid₂).mem.l1Scratchpad.map (·.load addr 2) = some raw ↔ halfExp raw ≠ 0 ∨
      halfFrac raw = 0 := by
  have hdest := hkept.trans hu.dest
  have hload := hp.l1_load (by rw [hdest]; exact (floatToHalf_lt (halfToFloat_exp_le hfin)).1)
  rw [hload, hdest, Option.some_inj]
  exact floatToHalf_halfToFloat_iff hu.raw_lt hfin

end path

/-- A float below 65536 is packed to its truncation exactly if that is zero or a normal half, and a
finite half goes through Dest unchanged exactly if it is zero or normal. The formula of `floatValue`
gives infinities and NaNs magnitudes from 2^128 on. -/
theorem half_round_trip_iff (f raw : Word) :
    (|floatValue f| < 65536 →
      (TruncatesToHalf (floatValue f) (floatValue (datumToFloat (floatToDatum f 1) 1)) ↔
        |floatValue f| < 2 ^ (-24 : ℤ) ∨ 2 ^ (-14 : ℤ) ≤ |floatValue f|)) ∧
    ∀ (tt tt' tt₂ : Tensix) (imm imm₂ : Word) (tid tid₂ : Tid) (i pck j addr : ℕ) (cell : ℕ × ℕ),
      UnpacksHalf tt imm tid tt' i raw cell → PacksHalf tt₂ imm₂ tid₂ pck j cell addr →
      tt₂.dest cell.1 cell.2 = tt'.dest cell.1 cell.2 → halfExp raw ≠ 31 →
      ((ttpacr tt₂ imm₂ tid₂).mem.l1Scratchpad.map (·.load addr 2) = some raw ↔ halfExp raw ≠ 0 ∨
        halfFrac raw = 0) :=
  ⟨fun hlt => truncatesToHalf_iff hlt, fun _ _ _ _ _ _ _ _ _ _ _ _ hu hp hkept hfin =>
    through_dest_iff hu hp hkept hfin⟩

/-- A half at 0x1000 of L1, Float16 on both sides, row 0 of Dest between them, and the packer's output
at 0x2000. -/
def halfTile (raw : Word) : Tensix :=
  { tensixInit
      { l1Scratchpad := some (Bytes.store (fun _ => 0) 0x1000 2 raw)
        highMem := some fun a =>
          if a = tensixCfgOffsetInHighMem + 64 * 4 ∨ a = tensixCfgOffsetInHighMem + 72 * 4 ∨
              a = tensixCfgOffsetInHighMem + 69 * 4 + 1 then 0x01
          else if a = tensixCfgOffsetInHighMem + 72 * 4 + 1 then 0x08
          else if a = tensixCfgOffsetInHighMem + 84 * 4 then 0x40
          else if a = tensixCfgOffsetInHighMem + 70 * 4 then 0x10
          else if a = tensixCfgOffsetInHighMem + 69 * 4 ∨ a = tensixCfgOffsetInHighMem + 76 * 4 then 0xFF
          else 0 } with
    adc := fun _ => { (tensixInit ⟨none, none⟩).adc 0 with ch1X := 15 } }

def unpackedHalf (raw : Word) : Tensix := (ttunpacr (halfTile raw) 0 0).2

theorem halfTile_plan (raw : Word) : unpackPlan (halfTile raw) 0 0 = unpackPlan (halfTile 0) 0 0 := by
  have htile : halfTile raw = (halfTile 0).withL1 (Bytes.store (fun _ => 0) 0x1000 2 raw) := rfl
  rw [htile]
  generalize halfTile 0 = tt
  rfl

theorem halfTile_unpacks (raw : Word) (h : raw.toNat < 2 ^ 16) :
    UnpacksHalf (halfTile raw) 0 0 (unpackedHalf raw) 0 raw (0, 0) := by
  have haddr : (unpackPlan (halfTile 0) 0 0).datumAddr (w32 0) = 0x1000 := by decide
  have hdone : (ttunpacr (halfTile raw) 0 0).1 = true := by
    have hstarts : unpacrStarts (halfTile raw) 0 = true := rfl
    rw [ttunpacr_eq_ite, hstarts, if_pos rfl]
  have hpair : ttunpacr (halfTile raw) 0 0 = (true, unpackedHalf raw) := Prod.ext hdone rfl
  refine ⟨hpair, by decide, by decide, ?_, ?_, ?_, ?_, ?_, ?_, ?_⟩
  all_goals rw [halfTile_plan]
  · decide
  · decide
  · decide
  · decide
  · rw [haddr]
    decide
  · rw [haddr]
    exact congrArg some (Bytes.load_store_of_lt _ 0x1000 (by decide) h)
  · decide

theorem unpackedHalf_eq (raw : Word) : ∃ g adc, unpackedHalf raw = { halfTile raw with dest := g, adc } ∧
    adc 2 = (halfTile 0).adc 2 := by
  have hstarts : unpacrStarts (halfTile raw) 0 = true := rfl
  have hnum : (unpackPlan (halfTile 0) 0 0).numDatums ≠ 0 := by decide
  have hsrca : (unpackPlan (halfTile 0) 0 0).whichUnp = false := by decide
  have hdst : (unpackPlan (halfTile 0) 0 0).unpackToDst = true := by decide
  have hadc : Function.update (halfTile raw).adc 0 (unpackAddrMod ((halfTile raw).adc 0) (bits 0 15 0xFF)) 2 =
      (halfTile raw).adc 2 := Function.update_of_ne (by decide) ..
  refine ⟨unpackDst (Bytes.store (fun _ => 0) 0x1000 2 raw) (unpackPlan (halfTile 0) 0 0)
    (halfTile raw).dest, _, ?_, hadc⟩
  rw [unpackedHalf, ttunpacr_eq_ite, hstarts, if_pos rfl, halfTile_plan]
  unfold unpackLoop
  rw [hsrca, hdst]
  simp only [if_neg hnum]
  rfl

theorem unpackedHalf_packs (raw : Word) : PacksHalf (unpackedHalf raw) 0x100 2 0 0 (0, 0) 0x2000 := by
  obtain ⟨g, adc, hg, hadc⟩ := unpackedHalf_eq raw
  have hplan : packPlan { halfTile raw with dest := g, adc } 0x100 2 = packPlan (halfTile 0) 0x100 2 := by
    unfold packPlan
    dsimp only
    rw [hadc]
    rfl
  have hplace : packPlace { halfTile raw with dest := g, adc } (packPlan (halfTile 0) 0x100 2) 0 0 =
      packPlace (halfTile 0) (packPlan (halfTile 0) 0x100 2) 0 0 := by
    unfold packPlace packSrcAddr
    dsimp only
    rw [hadc]
    rfl
  have haddr : packAddr { halfTile raw with dest := g, adc } (packPlan (halfTile 0) 0x100 2) 0 0 =
      packAddr (halfTile 0) (packPlan (halfTile 0) 0x100 2) 0 0 := rfl
  rw [hg]
  refine ⟨?_, ?_, by decide, ?_, ?_, ?_, ?_, by decide, rfl⟩
  all_goals rw [hplan]
  · decide
  · decide
  · decide
  · decide
  · rw [hplace]
    decide
  · rw [haddr]
    decide

theorem half_round_trip_normal :
    |floatValue 0x3F8FFFFF| < 65536 ∧
      TruncatesToHalf (floatValue 0x3F8FFFFF) (floatValue (datumToFloat (floatToDatum 0x3F8FFFFF 1) 1)) ∧
      UnpacksHalf (halfTile 0x3C01) 0 0 (unpackedHalf 0x3C01) 0 0x3C01 (0, 0) ∧
      (ttpacr (unpackedHalf 0x3C01) 0x100 2).mem.l1Scratchpad.map (·.load 0x2000 2) = some 0x3C01 := by
  have hlt : |floatValue 0x3F8FFFFF| < 65536 := abs_floatValue_lt_65536_iff.mpr (by decide)
  have hnormal : 2 ^ (-14 : ℤ) ≤ |floatValue 0x3F8FFFFF| :=
    not_lt.mp (mt abs_floatValue_lt_normal_iff.mp (by decide))
  have hunpacks := halfTile_unpacks 0x3C01 (by decide)
  refine ⟨hlt, ((half_round_trip_iff _ 0x3C01).1 hlt).mpr (.inr hnormal), hunpacks, ?_⟩
  have hthrough :=
    (half_round_trip_iff 0x3F8FFFFF 0x3C01).2 _ _ _ _ _ _ _ _ _ _ _ _ hunpacks (unpackedHalf_packs _) rfl
  exact (hthrough (by decide)).mpr (.inl (by decide))

theorem half_round_trip_subnormal :
    |floatValue 0x38000000| < 65536 ∧
      ¬TruncatesToHalf (floatValue 0x38000000) (floatValue (datumToFloat (floatToDatum 0x38000000 1) 1)) ∧
      UnpacksHalf (halfTile 0x200) 0 0 (unpackedHalf 0x200) 0 0x200 (0, 0) ∧
      PacksHalf (unpackedHalf 0x200) 0x100 2 0 0 (0, 0) 0x2000 ∧ halfExp 0x200 ≠ 31 ∧
      (ttpacr (unpackedHalf 0x200) 0x100 2).mem.l1Scratchpad.map (·.load 0x2000 2) ≠ some 0x200 := by
  have hlt : |floatValue 0x38000000| < 65536 := abs_floatValue_lt_65536_iff.mpr (by decide)
  have hunpacks := halfTile_unpacks 0x200 (by decide)
  refine ⟨hlt, ?_, hunpacks, unpackedHalf_packs _, by decide, ?_⟩
  · intro h
    rcases (truncatesToHalf_iff hlt).mp h with hleast | hnormal
    · exact absurd (abs_floatValue_lt_least_iff.mp hleast) (by decide)
    · exact absurd (abs_floatValue_lt_normal_iff.mpr (by decide)) (not_lt.mpr hnormal)
  · intro h
    have hkept := (through_dest_iff hunpacks (unpackedHalf_packs _) rfl (by decide)).mp h
    exact absurd hkept (by decide)

end Rv32Emu
