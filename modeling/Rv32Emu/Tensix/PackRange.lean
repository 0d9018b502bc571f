import Rv32Emu.Lib.Runs
import Rv32Emu.Tensix.PackWrites

namespace Rv32Emu

section packers

variable {tt : Tensix} {p : PackPlan}

theorem xCount_toNat (p : PackPlan) :
    (if p.numDatums.toNat > 0 then p.numDatums / p.yCount else 0 : Word).toNat =
      p.numDatums.toNat / p.yCount.toNat := by
  split_ifs with h
  · exact BitVec.toNat_udiv ..
  · rw [Nat.eq_zero_of_not_pos h, Nat.zero_div]
    rfl

theorem length_packValues (tt : Tensix) (p : PackPlan) (srcAddr : Word) : (packValues tt p srcAddr).length =
    p.yCount.toNat * (p.numDatums.toNat / p.yCount.toNat) := by
  simp only [packValues, List.length_flatMap, List.length_map, List.length_range, xCount_toNat,
    List.map_const', List.sum_replicate_nat]

theorem add_mul_toNat {addr step : Word} {i : ℕ} (h : addr.toNat + i * step.toNat < 2 ^ 32) :
    (addr + w32 i * step).toNat = addr.toNat + i * step.toNat := by
  have heq : addr + w32 i * step = w32 (addr.toNat + i * step.toNat) := by
    rw [w32_add, w32_mul, w32_toNat, w32_toNat]
  rw [heq]
  exact Nat.mod_eq_of_lt h

theorem plainWrites_fst {addr : Word} {vals : List Word}
    (hin : addr.toNat + vals.length * p.outDsb.toNat ≤ l1Size) :
    (plainWrites p addr vals).map Prod.fst = List.range' addr.toNat (vals.length * p.outDsb.toNat) := by
  have hsize : l1Size = 0x180000 := rfl
  rw [← flatMap_range_chunks, plainWrites, List.map_flatMap]
  apply List.flatMap_congr
  intro i hi
  have hle : (i + 1) * p.outDsb.toNat ≤ vals.length * p.outDsb.toNat :=
    Nat.mul_le_mul_right _ (List.mem_range.mp hi)
  rw [Nat.add_mul, Nat.one_mul] at hle
  have haddr : (addr + w32 i * p.outDsb).toNat = addr.toNat + i * p.outDsb.toNat := by
    apply add_mul_toNat
    omega
  have hguard : (addr + w32 i * p.outDsb + p.outDsb).toNat ≤ l1Size := by
    rw [BitVec.toNat_add, haddr]
    omega
  dsimp only
  rw [if_pos hguard, byteWrites_fst, haddr]

def PackPlan.rowDatums (p : PackPlan) : ℕ := p.yCount.toNat * (p.numDatums.toNat / p.yCount.toNat)

theorem PackPlan.rowDatums_le (p : PackPlan) : p.rowDatums ≤ p.numDatums.toNat := Nat.mul_div_le ..

variable {start : ℕ}

theorem packerWrites_fst (hplain : ¬(p.outDataFmt = 6 ∨ p.outDataFmt = 2)) {pck idx : ℕ}
    (hstart : p.l1BaseByteAddr.toNat + tt.packL1WriteOffset.toNat = start)
    (hin : start + (idx + 1) * (p.numDatums.toNat * p.outDsb.toNat) ≤ l1Size) :
    (packerWrites tt p pck idx).map Prod.fst =
      List.range' (start + idx * (p.numDatums.toNat * p.outDsb.toNat)) (p.rowDatums * p.outDsb.toNat) := by
  have hsize : l1Size = 0x180000 := rfl
  unfold packerWrites
  dsimp only
  split_ifs with hzero
  · have hnone : p.rowDatums = 0 := by
      have hle := p.rowDatums_le
      rw [hzero] at hle
      exact Nat.le_zero.mp hle
    rw [hnone, Nat.zero_mul]
    rfl
  · have hrows : p.rowDatums * p.outDsb.toNat ≤ p.numDatums.toNat * p.outDsb.toNat :=
      Nat.mul_le_mul_right _ p.rowDatums_le
    rw [Nat.add_mul, Nat.one_mul] at hin
    have haddr : (p.l1BaseByteAddr + tt.packL1WriteOffset + w32 idx * p.numDatums * p.outDsb).toNat =
        start + idx * (p.numDatums.toNat * p.outDsb.toNat) := by
      have heq : p.l1BaseByteAddr + tt.packL1WriteOffset + w32 idx * p.numDatums * p.outDsb =
          w32 (start + idx * (p.numDatums.toNat * p.outDsb.toNat)) := by
        rw [← hstart, w32_add, w32_add, w32_mul, w32_mul, w32_toNat, w32_toNat, w32_toNat, w32_toNat,
          BitVec.mul_assoc]
      rw [heq]
      exact Nat.mod_eq_of_lt (by omega)
    have hlen := length_packValues tt p (packSrcAddr tt p pck)
    rw [plainWrites_fst, haddr, hlen]
    · rfl
    · rw [haddr, hlen]
      change _ + p.rowDatums * _ ≤ _
      omega

theorem packWrites_fst (hplain : ¬(p.outDataFmt = 6 ∨ p.outDataFmt = 2))
    (hstart : p.l1BaseByteAddr.toNat + tt.packL1WriteOffset.toNat = start) {n : ℕ}
    (hin : start + (List.range n).countP (packs p ·) * (p.numDatums.toNat * p.outDsb.toNat) ≤ l1Size) :
    (packWrites tt p n).map Prod.fst = (List.range ((List.range n).countP (packs p ·))).flatMap fun j =>
      List.range' (start + j * (p.numDatums.toNat * p.outDsb.toNat)) (p.rowDatums * p.outDsb.toNat) := by
  induction n with
  | zero => rfl
  | succ n ih =>
    rw [countP_packs_succ] at hin
    rw [packWrites_succ, List.map_append, countP_packs_succ]
    cases hp : packs p n with
    | false =>
      rw [hp] at hin
      simpa using ih hin
    | true =>
      rw [hp, if_pos rfl] at hin
      have hbelow := ih ((Nat.add_le_add_left (Nat.mul_le_mul_right _ (Nat.le_succ _)) _).trans hin)
      rw [if_pos rfl, if_pos rfl, hbelow, packerWrites_fst hplain hstart hin, List.range_succ,
        List.flatMap_append, List.flatMap_singleton]

end packers

section pacr

variable (tt : Tensix) (imm : Word) (tid : Tid)

def writingPackers : ℕ := (List.range 4).countP (packs (packPlan tt imm tid) ·)

def tileDataAddr : ℕ := ((tt.mem.tensixReadCfg 69 + 1 &&& 0x1FFFF) <<< 4 : Word).toNat

def packedBytes : ℕ :=
  writingPackers tt imm tid * ((packPlan tt imm tid).numDatums.toNat * (packPlan tt imm tid).outDsb.toNat)

def PlainOutput : Prop := ¬((packPlan tt imm tid).outDataFmt = 6 ∨ (packPlan tt imm tid).outDataFmt = 2)

structure OutputInL1 : Prop where
  l1 : tt.mem.l1Scratchpad.isSome = true
  fits : tileDataAddr tt + tt.packL1WriteOffset.toNat + packedBytes tt imm tid ≤ l1Size

structure PacksRange : Prop where
  writes : (pacrWrites tt imm tid).map Prod.fst =
    List.range' (tileDataAddr tt + tt.packL1WriteOffset.toNat) (packedBytes tt imm tid)
  advance : (ttpacr tt imm tid).packL1WriteOffset.toNat = tt.packL1WriteOffset.toNat + packedBytes tt imm tid

def packRows : ℕ := max 1 (tt.thdReg tid 37 &&& 0xF).toNat

def packCols : ℕ := (tt.adc 2).ch1X.toNat + 1 - (tt.adc 2).ch0X.toNat

/-- The datums of one packer: none for a flush or for the second pass of a byte-lane split, and
otherwise columns times rows in 32 bits, cut off at 1024. -/
def packDatums : ℕ :=
  if bit imm 1 = true ∨ (bit imm 17 = false ∧ bits imm 8 0xF = 0xA) then 0
  else min 1024 (packCols tt * packRows tt tid % 2 ^ 32)

def WholeRows : Prop := packRows tt tid ∣ packDatums tt imm tid

variable {tt imm tid}

theorem writingPackers_pos : 0 < writingPackers tt imm tid := by
  have key : ∀ (sel : Fin 16) (mode : Bool),
      let readIntfSel : Word := if w32 sel = 0 then 1 else w32 sel
      let byteLaneDup := !mode && (readIntfSel = 0x5 || readIntfSel = 0xA)
      0 < (List.range 4).countP fun pck => bit readIntfSel pck && !(byteLaneDup && (pck = 2 || pck = 3)) := by
    decide
  obtain ⟨sel, hsel⟩ := bits_eq_ofFin imm 8
  have h := key sel (bit imm 17)
  rw [← hsel] at h
  exact h

theorem yCount_toNat : (packPlan tt imm tid).yCount.toNat = packRows tt tid := by
  change (if (tt.thdReg tid 37 &&& 0xF).toNat > 0 then tt.thdReg tid 37 &&& 0xF else 1 : Word).toNat = _
  unfold packRows
  split_ifs with h
  · exact (Nat.max_eq_right h).symm
  · rw [Nat.eq_zero_of_not_pos h]
    rfl

theorem ttpacr_offset (h : OutputInL1 tt imm tid) :
    (ttpacr tt imm tid).packL1WriteOffset.toNat = tt.packL1WriteOffset.toNat + packedBytes tt imm tid := by
  have hsize : l1Size = 0x180000 := rfl
  have hfits := h.fits
  have heq : (ttpacr tt imm tid).packL1WriteOffset =
      w32 (tt.packL1WriteOffset.toNat + packedBytes tt imm tid) := by
    rw [w32_add, packedBytes, w32_mul, w32_mul, w32_toNat, w32_toNat, w32_toNat,
      writingPackers, ← numActive_eq, ← BitVec.mul_assoc]
    dsimp only [ttpacr]
    split_ifs with hd
    · rfl
    · have hz : (packPlan tt imm tid).numDatums = 0 := BitVec.eq_of_toNat_eq (Nat.eq_zero_of_not_pos hd)
      simp [hz]
  rw [heq]
  exact Nat.mod_eq_of_lt (by omega)

theorem pacrWrites_fst (hplain : PlainOutput tt imm tid) (h : OutputInL1 tt imm tid) :
    (pacrWrites tt imm tid).map Prod.fst = (List.range (writingPackers tt imm tid)).flatMap fun j =>
      List.range' (tileDataAddr tt + tt.packL1WriteOffset.toNat +
          j * ((packPlan tt imm tid).numDatums.toNat * (packPlan tt imm tid).outDsb.toNat))
        ((packPlan tt imm tid).rowDatums * (packPlan tt imm tid).outDsb.toNat) := by
  rw [pacrWrites, if_pos h.l1]
  exact packWrites_fst hplain rfl h.fits

theorem packsRange_iff_rows (hplain : PlainOutput tt imm tid) (h : OutputInL1 tt imm tid) :
    PacksRange tt imm tid ↔ packRows tt tid ∣ (packPlan tt imm tid).numDatums.toNat := by
  have hdsb : 0 < (packPlan tt imm tid).outDsb.toNat := getDatumSize_pos _
  have hwrites := pacrWrites_fst hplain h
  have hy : (packPlan tt imm tid).yCount.toNat = packRows tt tid := yCount_toNat
  rw [← hy]
  constructor
  · intro hrange
    have hlen := congrArg List.length (hwrites.symm.trans hrange.writes)
    simp only [List.length_flatMap, List.length_range', List.map_const', List.length_range,
      List.sum_replicate_nat, packedBytes] at hlen
    have hblock := Nat.eq_of_mul_eq_mul_left writingPackers_pos hlen
    have hrows := Nat.eq_of_mul_eq_mul_right hdsb hblock
    exact ⟨_, hrows.symm⟩
  · intro hdvd
    have hrows : (packPlan tt imm tid).rowDatums = (packPlan tt imm tid).numDatums.toNat :=
      Nat.mul_div_cancel' hdvd
    refine ⟨?_, ttpacr_offset h⟩
    rw [hwrites, hrows, flatMap_range_chunks]
    rfl

theorem readIntfSel_eq_ten : (if bits imm 8 0xF = 0 then 1 else bits imm 8 0xF : Word) = 0xA ↔
    bits imm 8 0xF = 0xA := by
  split_ifs with h
  · rw [h]
    decide
  · rfl

theorem packCols_eq : (if (tt.adc 2).ch1X.toNat ≥ (tt.adc 2).ch0X.toNat then (tt.adc 2).ch1X -
      (tt.adc 2).ch0X + 1 else 0 : Word) =
    w32 (packCols tt) := by
  unfold packCols
  split_ifs with hle
  · rw [Nat.sub_add_comm hle, w32_add, ← BitVec.toNat_sub_of_le (BitVec.le_def.mpr hle), w32_toNat]
    rfl
  · rw [Nat.sub_eq_zero_of_le (by omega)]
    rfl

theorem clamp_toNat (n : Word) : (if n.toNat > 1024 then 1024 else n : Word).toNat = min 1024 n.toNat := by
  split_ifs with hbig
  · exact (Nat.min_eq_left hbig.le).symm
  · exact (Nat.min_eq_right (Nat.le_of_not_lt hbig)).symm

theorem numDatums_toNat : (packPlan tt imm tid).numDatums.toNat = packDatums tt imm tid := by
  unfold packDatums
  split_ifs with hnone
  · have hzero : (packPlan tt imm tid).numDatums = 0 := by
      dsimp only [packPlan]
      rcases hnone with hflush | ⟨hmode, hsel⟩
      · rw [hflush]
        exact ite_self _
      · rw [hmode, hsel]
        rfl
    rw [hzero]
    rfl
  · obtain ⟨hflush, hsecond⟩ := not_or.mp hnone
    have hcount : ((if (tt.adc 2).ch1X.toNat ≥ (tt.adc 2).ch0X.toNat then (tt.adc 2).ch1X -
        (tt.adc 2).ch0X + 1 else 0) *
        (packPlan tt imm tid).yCount).toNat = packCols tt * packRows tt tid % 2 ^ 32 := by
      rw [packCols_eq, ← w32_toNat (packPlan tt imm tid).yCount, ← w32_mul, yCount_toNat]
      rfl
    have hkeep : ¬((!bit imm 17 && decide ((if bits imm 8 0xF = 0 then 1 else bits imm 8 0xF : Word) =
        0xA)) = true) := by
      intro h
      rw [Bool.and_eq_true, Bool.not_eq_true', decide_eq_true_eq, readIntfSel_eq_ten] at h
      exact hsecond h
    dsimp only [packPlan] at hcount ⊢
    rw [if_neg hkeep, if_neg hflush, clamp_toNat, hcount]

theorem packsRange_iff (hplain : PlainOutput tt imm tid) (h : OutputInL1 tt imm tid) :
    PacksRange tt imm tid ↔ WholeRows tt imm tid := by
  rw [WholeRows, ← numDatums_toNat]
  exact packsRange_iff_rows hplain h

end pacr

/-- What happens between two writes of the destination address, labelled with the bytes that the
packers write: PACRs for which `Ok` holds, and steps that leave address and offset alone. -/
inductive PackStep (Ok : Tensix → Word → Tid → Prop) : Tensix → List (ℕ × BitVec 8) → Tensix → Prop
  | pacr {tt : Tensix} {imm : Word} {tid : Tid} (hplain : PlainOutput tt imm tid)
      (hin : OutputInL1 tt imm tid)
      (hok : Ok tt imm tid) : PackStep Ok tt (pacrWrites tt imm tid) (ttpacr tt imm tid)
  | other {tt tt' : Tensix} (hoffset : tt'.packL1WriteOffset = tt.packL1WriteOffset)
      (haddr : tt'.mem.tensixReadCfg 69 = tt.mem.tensixReadCfg 69) : PackStep Ok tt [] tt'

variable {tt tt' : Tensix}

theorem PackStep.range {ws : List (ℕ × BitVec 8)} (h : PackStep WholeRows tt ws tt') :
    tileDataAddr tt' = tileDataAddr tt ∧
      ∃ n, tt'.packL1WriteOffset.toNat = tt.packL1WriteOffset.toNat + n ∧
        ws.map Prod.fst = List.range' (tileDataAddr tt + tt.packL1WriteOffset.toNat) n := by
  cases h with
  | pacr hplain hin hok =>
    obtain ⟨hwrites, hadvance⟩ := (packsRange_iff hplain hin).mpr hok
    exact ⟨rfl, _, hadvance, hwrites⟩
  | other hoffset haddr =>
    refine ⟨?_, 0, congrArg BitVec.toNat hoffset, rfl⟩
    rw [tileDataAddr, haddr]
    rfl

theorem packRun_range {wss : List (List (ℕ × BitVec 8))} (hrun : Run (PackStep WholeRows) tt wss tt') :
    tileDataAddr tt' = tileDataAddr tt ∧
      ∃ n, tt'.packL1WriteOffset.toNat = tt.packL1WriteOffset.toNat + n ∧
        wss.flatten.map Prod.fst = List.range' (tileDataAddr tt + tt.packL1WriteOffset.toNat) n := by
  induction hrun with
  | nil => exact ⟨rfl, 0, rfl, rfl⟩
  | cons hstep _ ih =>
    obtain ⟨haddr, n, hoffset, hwrites⟩ := hstep.range
    obtain ⟨haddr', m, hoffset', hwrites'⟩ := ih
    refine ⟨haddr'.trans haddr, n + m, by omega, ?_⟩
    rw [List.flatten_cons, List.map_append, hwrites, hwrites', haddr, hoffset, ← Nat.add_assoc,
      List.range'_append_1]

/-- A PACR of a plain format whose output lies in L1 fills the next bytes exactly if it packs whole
rows. When the PACRs since the last write of the destination address all do, they fill one range
that starts at the tile's data and is as long as the offset. -/
theorem packed_output_contiguous (tt : Tensix) (imm : Word) (tid : Tid) :
    (PlainOutput tt imm tid → OutputInL1 tt imm tid → (PacksRange tt imm tid ↔ WholeRows tt imm tid)) ∧
    ∀ (tt' : Tensix) (wss : List (List (ℕ × BitVec 8))), tt.packL1WriteOffset = 0 →
      Run (PackStep WholeRows) tt wss tt' →
      wss.flatten.map Prod.fst = List.range' (tileDataAddr tt) tt'.packL1WriteOffset.toNat := by
  refine ⟨packsRange_iff, fun tt' wss hzero hrun => ?_⟩
  obtain ⟨-, n, hoffset, hwrites⟩ := packRun_range hrun
  have hstart : tt.packL1WriteOffset.toNat = 0 := congrArg BitVec.toNat hzero
  rw [hwrites, hoffset, hstart, Nat.zero_add, Nat.add_zero]

def oneRow : Tensix :=
  { tensixInit { l1Scratchpad := some fun _ => 0, highMem := some fun _ => 0 } with
    adc := fun _ => { (tensixInit ⟨none, none⟩).adc 2 with ch1X := 15 } }

theorem packed_output_contiguous_oneRow :
    ([pacrWrites oneRow 0x100 2, pacrWrites (ttpacr oneRow 0x100 2) 0x100 2].flatten).map Prod.fst =
      List.range' 16 128 := by
  have hstep : ∀ tt ∈ [oneRow, ttpacr oneRow 0x100 2], PlainOutput tt 0x100 2 ∧ WholeRows tt 0x100 2 ∧
      tileDataAddr tt + tt.packL1WriteOffset.toNat + packedBytes tt 0x100 2 ≤ l1Size := by
    unfold PlainOutput WholeRows
    decide
  obtain ⟨hplain, hrows, hfits⟩ := hstep _ (.head _)
  obtain ⟨hplain', hrows', hfits'⟩ := hstep _ (.tail _ (.head _))
  have hrun : Run (PackStep WholeRows) oneRow [pacrWrites oneRow 0x100 2,
      pacrWrites (ttpacr oneRow 0x100 2) 0x100 2]
      (ttpacr (ttpacr oneRow 0x100 2) 0x100 2) :=
    .cons (.pacr hplain ⟨rfl, hfits⟩ hrows) (.cons (.pacr hplain' ⟨rfl, hfits'⟩ hrows') (.nil _))
  exact (packed_output_contiguous oneRow 0x100 2).2 _ _ rfl hrun

def threeLongRows : Tensix :=
  { tensixInit { l1Scratchpad := some fun _ => 0, highMem := some fun _ => 0 } with
    thdReg := fun _ _ => 3
    adc := fun _ => { (tensixInit ⟨none, none⟩).adc 2 with ch1X := 499 } }

theorem packed_rows_cut_off : PlainOutput threeLongRows 0x100 2 ∧ OutputInL1 threeLongRows 0x100 2 ∧
    ¬PacksRange threeLongRows 0x100 2 := by
  have hplain : PlainOutput threeLongRows 0x100 2 := by
    unfold PlainOutput
    decide
  have hin : OutputInL1 threeLongRows 0x100 2 := by
    refine ⟨rfl, ?_⟩
    decide
  refine ⟨hplain, hin, ?_⟩
  rw [packsRange_iff_rows hplain hin]
  decide

end Rv32Emu
