import Rv32Emu.Tensix.PackRange
import Rv32Emu.Tensix.Tileize
import Rv32Emu.Tile.KernelSwitch

namespace Rv32Emu

def InL1 (addrs : List ℕ) : Prop := ∀ a ∈ addrs, a < l1Size

theorem inL1_nil : InL1 [] := fun _ ha => nomatch ha

theorem inL1_append {as bs : List ℕ} : InL1 (as ++ bs) ↔ InL1 as ∧ InL1 bs := List.forall_mem_append

theorem inL1_flatMap {n : ℕ} {f : ℕ → List ℕ} : InL1 ((List.range n).flatMap f) ↔ ∀ i < n, InL1 (f i) := by
  simp only [InL1, List.mem_flatMap, List.mem_range]
  exact ⟨fun h i hi a ha => h a ⟨i, hi, ha⟩, fun h a ⟨i, hi, ha⟩ => h i hi a ha⟩

theorem inL1_checked_iff {addr size : Word} (hpos : 0 < size.toNat) (hle : size.toNat ≤ 40) :
    InL1 (if (addr + size).toNat ≤ l1Size then List.range' addr.toNat size.toNat else []) ↔
      addr.toNat + size.toNat < 2 ^ 32 := by
  have hsize : l1Size = 0x180000 := rfl
  have hcheck : ((addr.toNat + size.toNat) % 2 ^ 32 ≤ l1Size → ∀ k < size.toNat, addr.toNat + k < l1Size) ↔
      _ :=
    wrapped_check_iff hpos (by omega) (by omega) addr.isLt
  rw [← hcheck, ← BitVec.toNat_add]
  split_ifs with hcheck
  · simp only [InL1, List.mem_range'_1, hcheck, forall_const]
    constructor
    · intro h k hk
      exact h _ ⟨Nat.le_add_right .., Nat.add_lt_add_left hk _⟩
    · rintro h a ⟨hlo, hhi⟩
      have hk := h (a - addr.toNat) (by omega)
      omega
  · exact iff_of_true inL1_nil fun h => absurd h hcheck

theorem add_mul_toNat_mod (addr step : Word) (i : ℕ) :
    (addr + w32 i * step).toNat = (addr.toNat + i * step.toNat) % 2 ^ 32 := by
  have heq : addr + w32 i * step = w32 (addr.toNat + i * step.toNat) := by
    rw [w32_add, w32_mul, w32_toNat, w32_toNat]
  rw [heq]
  rfl

section pack

variable {tt : Tensix} {p : PackPlan} {imm : Word} {tid : Tid}

theorem plainWrites_inL1_iff {addr : Word} {vals : List Word} (hpos : 0 < p.outDsb.toNat)
    (hle : p.outDsb.toNat ≤ 4) :
    InL1 ((plainWrites p addr vals).map Prod.fst) ↔
      vals.length = 0 ∨ addr.toNat + vals.length * p.outDsb.toNat < 2 ^ 32 := by
  rw [plainWrites, List.map_flatMap, inL1_flatMap, ← wrapped_block_iff hpos addr.isLt]
  apply forall₂_congr
  intro i _
  dsimp only
  rw [apply_ite (List.map Prod.fst), byteWrites_fst, List.map_nil, inL1_checked_iff hpos (by omega),
    add_mul_toNat_mod]

theorem byteWrite_inL1 (addr w : Word) : InL1 ((byteWrite addr w).map Prod.fst) := by
  unfold byteWrite
  split_ifs with h
  · exact List.forall_mem_singleton.mpr h
  · exact inL1_nil

theorem bfp8Writes_inL1 (addr : Word) (vals : List Word) : InL1 ((bfp8Writes p addr vals).map Prod.fst) := by
  dsimp only [bfp8Writes]
  rw [List.map_flatMap, inL1_flatMap]
  intro group _
  rw [List.map_append, inL1_append, List.map_flatMap, inL1_flatMap]
  exact ⟨byteWrite_inL1 _ _, fun k _ => byteWrite_inL1 _ _⟩

def packBlock (tt : Tensix) (imm : Word) (tid : Tid) (j : ℕ) : ℕ :=
  (tileDataAddr tt + tt.packL1WriteOffset.toNat +
    j * (packDatums tt imm tid * (packPlan tt imm tid).outDsb.toNat)) % 2 ^ 32

def packBlockBytes (tt : Tensix) (imm : Word) (tid : Tid) : ℕ :=
  packRows tt tid * (packDatums tt imm tid / packRows tt tid) * (packPlan tt imm tid).outDsb.toNat

def PackFits (tt : Tensix) (imm : Word) (tid : Tid) : Prop :=
  tt.mem.l1Scratchpad.isSome = true → PlainOutput tt imm tid → ∀ j < writingPackers tt imm tid,
    packBlockBytes tt imm tid = 0 ∨ packBlock tt imm tid j + packBlockBytes tt imm tid < 2 ^ 32

theorem packerWrites_inL1_iff {pck j : ℕ} (hplain : PlainOutput tt imm tid) :
    InL1 ((packerWrites tt (packPlan tt imm tid) pck j).map Prod.fst) ↔
      packBlockBytes tt imm tid = 0 ∨ packBlock tt imm tid j + packBlockBytes tt imm tid < 2 ^ 32 := by
  have hpos : 0 < (packPlan tt imm tid).outDsb.toNat := getDatumSize_pos _
  have hle : (packPlan tt imm tid).outDsb.toNat ≤ 4 := getDatumSize_le _
  have hlen : ∀ addr, (packValues tt (packPlan tt imm tid) addr).length =
      packRows tt tid * (packDatums tt imm tid / packRows tt tid) := by
    intro addr
    rw [length_packValues, yCount_toNat, numDatums_toNat]
  have haddr : ((packPlan tt imm tid).l1BaseByteAddr + tt.packL1WriteOffset +
      w32 j * (packPlan tt imm tid).numDatums * (packPlan tt imm tid).outDsb).toNat =
        packBlock tt imm tid j := by
    have hsum : (packPlan tt imm tid).l1BaseByteAddr + tt.packL1WriteOffset =
        w32 (tileDataAddr tt + tt.packL1WriteOffset.toNat) := by
      rw [w32_add, tileDataAddr, w32_toNat, w32_toNat]
      rfl
    rw [hsum, packBlock, ← numDatums_toNat, ← w32_toNat (packPlan tt imm tid).numDatums,
      ← w32_toNat (packPlan tt imm tid).outDsb, ← w32_mul, ← w32_mul, ← w32_add, Nat.mul_assoc]
    simp only [w32_toNat]
    rfl
  have hfmt : ¬((packPlan tt imm tid).outDataFmt = 6 ∨ (packPlan tt imm tid).outDataFmt = 2) := hplain
  unfold packerWrites
  dsimp only
  rw [if_neg hfmt]
  split_ifs with hzero
  · have hnone : packDatums tt imm tid = 0 := by
      rw [← numDatums_toNat, hzero]
      rfl
    have hbytes : packBlockBytes tt imm tid = 0 := by
      rw [packBlockBytes, hnone, Nat.zero_div, Nat.mul_zero, Nat.zero_mul]
    exact iff_of_true inL1_nil (Or.inl hbytes)
  · have hbytes : packBlockBytes tt imm tid = 0 ↔
        packRows tt tid * (packDatums tt imm tid / packRows tt tid) = 0 :=
      Nat.mul_eq_zero.trans (or_iff_left hpos.ne')
    rw [plainWrites_inL1_iff hpos hle, hlen, haddr, hbytes]
    rfl

theorem forall_packs_iff (Q : ℕ → Prop) (n : ℕ) :
    (∀ pck < n, packs p pck = true → Q ((List.range pck).countP (packs p ·))) ↔
    ∀ j < (List.range n).countP (packs p ·), Q j := by
  induction n with
  | zero => simp
  | succ n ih =>
    rw [Nat.forall_lt_succ_right, ih, countP_packs_succ]
    cases packs p n with
    | false => simp
    | true =>
      rw [if_pos rfl, Nat.forall_lt_succ_right]
      simp

theorem packerWrites_inL1 {pck j : ℕ} (hblock : ¬PlainOutput tt imm tid) :
    InL1 ((packerWrites tt (packPlan tt imm tid) pck j).map Prod.fst) := by
  unfold packerWrites
  dsimp only
  rw [if_pos (not_not.mp hblock)]
  split_ifs
  · exact inL1_nil
  · exact bfp8Writes_inL1 _ _

theorem pacrWrites_inL1_iff : InL1 ((pacrWrites tt imm tid).map Prod.fst) ↔ PackFits tt imm tid := by
  unfold pacrWrites PackFits packWrites
  split_ifs with hl1
  · rw [List.map_flatMap, inL1_flatMap]
    have hpck : ∀ pck < 4, (InL1 ((if packs (packPlan tt imm tid) pck then packerWrites tt
        (packPlan tt imm tid) pck
        ((List.range pck).countP (packs (packPlan tt imm tid) ·)) else []).map Prod.fst) ↔
        (packs (packPlan tt imm tid) pck = true → InL1 ((packerWrites tt (packPlan tt imm tid) pck
          ((List.range pck).countP (packs (packPlan tt imm tid) ·))).map Prod.fst))) := by
      intro pck _
      split_ifs with hp
      · simp only [hp, forall_const]
      · exact iff_of_true inL1_nil fun h => absurd h hp
    rw [forall₂_congr hpck]
    by_cases hplain : PlainOutput tt imm tid
    · simp only [packerWrites_inL1_iff hplain, hl1, hplain, forall_const]
      exact forall_packs_iff (fun j => packBlockBytes tt imm tid = 0 ∨
        packBlock tt imm tid j + packBlockBytes tt imm tid < 2 ^ 32) 4
    · exact iff_of_true (fun pck _ _ => packerWrites_inL1 hplain) fun _ h => absurd h hplain
  · exact iff_of_true inL1_nil fun h => absurd h hl1

end pack

section unpack

variable {u : UnpackPlan}

theorem bfp8Reads_inL1 (i : Word) : InL1 (u.bfp8Reads i) := by
  unfold UnpackPlan.bfp8Reads
  dsimp only
  split_ifs with h
  · exact List.forall_mem_cons.mpr ⟨h.1, List.forall_mem_singleton.mpr h.2⟩
  · exact inL1_nil

namespace UnpackPlan

def tileOffset (u : UnpackPlan) (e : ℕ) : ℕ :=
  let cols := if 512 < u.numDatums.toNat then 2 else 1
  (16 * (e / 256 / cols) + e % 256 / 16) * (u.shiftAmount.toNat * 16) +
    (16 * (e / 256 % cols) + e % 16) * u.dsb.toNat

def Fits (u : UnpackPlan) : Prop :=
  if u.tileizes then
    ∀ i < u.numDatums.toNat,
      (u.inAddr.toNat + u.tileOffset ((u.firstDatum.toNat + i) % 2 ^ 32)) % 2 ^ 32 + u.dsb.toNat < 2 ^ 32
  else
    u.numDatums.toNat = 0 ∨
      (u.inAddr.toNat + u.firstDatum.toNat * u.dsb.toNat) % 2 ^ 32 + u.numDatums.toNat * u.dsb.toNat < 2 ^ 32

def place (u : UnpackPlan) (i : ℕ) : ℕ :=
  if u.tileizes then (u.inAddr.toNat + u.tileOffset ((u.firstDatum.toNat + i) % 2 ^ 32)) % 2 ^ 32
  else ((u.inAddr.toNat + u.firstDatum.toNat * u.dsb.toNat) % 2 ^ 32 + i * u.dsb.toNat) % 2 ^ 32

theorem datumAddr_toNat (u : UnpackPlan) (i : ℕ) : (u.datumAddr (w32 i)).toNat = u.place i := by
  unfold datumAddr place
  split_ifs
  · have he : u.firstDatum + w32 i = w32 ((u.firstDatum.toNat + i) % 2 ^ 32) := by
      have hmod : w32 ((u.firstDatum.toNat + i) % 2 ^ 32) = w32 (u.firstDatum.toNat + i) :=
        BitVec.eq_of_toNat_eq (Nat.mod_mod ..)
      rw [hmod, w32_add, w32_toNat]
    rw [tileizeAddr_eq he (Nat.mod_lt _ (by decide)) rfl, BitVec.toNat_add]
    exact Nat.add_mod_mod ..
  · rw [add_mul_toNat_mod, ← w32_toNat u.firstDatum, add_mul_toNat_mod, w32_toNat]

theorem fits_iff (u : UnpackPlan) (hpos : 0 < u.dsb.toNat) :
    (∀ i < u.numDatums.toNat, u.place i + u.dsb.toNat < 2 ^ 32) ↔ u.Fits := by
  unfold place Fits
  split_ifs
  · rfl
  · exact wrapped_block_iff hpos (Nat.mod_lt _ (by decide))

end UnpackPlan

theorem plainReads_inL1_iff (hpos : 0 < u.dsb.toNat) (hle : u.dsb.toNat ≤ 4) (i : ℕ) :
    InL1 (u.plainReads (w32 i)) ↔ u.place i + u.dsb.toNat < 2 ^ 32 := by
  rw [UnpackPlan.plainReads, inL1_checked_iff hpos (by omega), u.datumAddr_toNat]

theorem reads_inL1_iff (hpos : 0 < u.dsb.toNat) (hle : u.dsb.toNat ≤ 4) :
    InL1 u.reads ↔ (u.zeroWrite = false → u.blockFloat = false → u.Fits) := by
  unfold UnpackPlan.reads UnpackPlan.datumReads
  rw [inL1_flatMap]
  cases u.zeroWrite with
  | true => exact iff_of_true (fun _ _ => inL1_nil) nofun
  | false =>
    cases u.blockFloat with
    | true => exact iff_of_true (fun i _ => bfp8Reads_inL1 _) nofun
    | false =>
      rw [← u.fits_iff hpos]
      simp [plainReads_inL1_iff hpos hle]

def UnpackFits (tt : Tensix) (imm : Word) (tid : Tid) : Prop :=
  unpacrStarts tt imm = true → tt.mem.l1Scratchpad.isSome = true → (unpackPlan tt imm tid).zeroWrite = false →
    (unpackPlan tt imm tid).blockFloat = false → (unpackPlan tt imm tid).Fits

theorem unpacrReads_inL1_iff {tt : Tensix} {imm : Word} {tid : Tid} :
    InL1 (unpacrReads tt imm tid) ↔ UnpackFits tt imm tid := by
  have hpos : 0 < (unpackPlan tt imm tid).dsb.toNat := getDatumSize_pos _
  have hle : (unpackPlan tt imm tid).dsb.toNat ≤ 4 := getDatumSize_le _
  unfold unpacrReads UnpackFits
  split_ifs with h
  · obtain ⟨hstarts, hl1⟩ := Bool.and_eq_true_iff.mp h
    rw [reads_inL1_iff hpos hle]
    simp only [hstarts, hl1, forall_const]
  · exact iff_of_true inL1_nil fun hstarts hl1 => absurd (Bool.and_eq_true_iff.mpr ⟨hstarts, hl1⟩) h

end unpack

theorem rtaWrites_inL1_iff (memLocal : Bytes) :
    InL1 ((rtaWrites memLocal).map Prod.fst) ↔ (rtaPtr memLocal).toNat + 40 < 2 ^ 32 := by
  have hiff : _ ↔ (rtaPtr memLocal).toNat + (40 : Word).toNat < 2 ^ 32 :=
    inL1_checked_iff (by decide) (by decide)
  have hfst : (rtaWrites memLocal).map Prod.fst =
      if (rtaPtr memLocal + (40 : Word)).toNat ≤ l1Size then List.range' (rtaPtr memLocal).toNat
        (40 : Word).toNat else [] := by
    rw [rtaWrites, apply_ite (List.map Prod.fst), List.map_map, List.range'_eq_map_range]
    rfl
  rw [hfst]
  exact hiff

/-- The bytes of L1 that a PACR writes, an UNPACR reads and the exit from a kernel clears lie in L1
exactly if no access, by its unwrapped end, reaches the end of the 32-bit address space. -/
theorem l1_accesses_in_l1_iff (tt : Tensix) (imm : Word) (tid : Tid) (memLocal : Bytes) :
    (InL1 ((pacrWrites tt imm tid).map Prod.fst) ↔ PackFits tt imm tid) ∧
    (InL1 (unpacrReads tt imm tid) ↔ UnpackFits tt imm tid) ∧
    (InL1 ((rtaWrites memLocal).map Prod.fst) ↔ (rtaPtr memLocal).toNat + 40 < 2 ^ 32) :=
  ⟨pacrWrites_inL1_iff, unpacrReads_inL1_iff, rtaWrites_inL1_iff memLocal⟩

def packAtEnd : Tensix :=
  { tensixInit { l1Scratchpad := some fun _ => 0, highMem := some fun _ => 0 }
    with packL1WriteOffset := 0xFFFFFFEC }

def unpackAtEnd : Tensix :=
  { tensixInit
      { l1Scratchpad := some fun _ => 0
        highMem := some fun a =>
          if a = tensixCfgOffsetInHighMem + 76 * 4 then 0xFE
          else if a = tensixCfgOffsetInHighMem + 76 * 4 + 1 ∨
            a = tensixCfgOffsetInHighMem + 76 * 4 + 2 then 0xFF
          else if a = tensixCfgOffsetInHighMem + 76 * 4 + 3 then 0x0F
          else 0 } with
    adc := fun _ => { (tensixInit ⟨none, none⟩).adc 0 with ch1X := 3 } }

theorem accesses_outside_l1 : ¬InL1 ((pacrWrites packAtEnd 0x100 2).map Prod.fst) ∧
    ¬InL1 (unpacrReads unpackAtEnd 0 0) ∧ ¬InL1 ((rtaWrites fun _ => 0xFF).map Prod.fst) := by
  have hpack : 0xFFFFFFFC ∈ (pacrWrites packAtEnd 0x100 2).map Prod.fst := by decide
  have hunpack : 0xFFFFFFFC ∈ unpacrReads unpackAtEnd 0 0 := by decide
  have hclear : 0xFFFFFFFF ∈ (rtaWrites fun _ => 0xFF).map Prod.fst := by decide
  refine ⟨fun h => ?_, fun h => ?_, fun h => ?_⟩
  · exact absurd (h _ hpack) (by decide)
  · exact absurd (h _ hunpack) (by decide)
  · exact absurd (h _ hclear) (by decide)

end Rv32Emu
