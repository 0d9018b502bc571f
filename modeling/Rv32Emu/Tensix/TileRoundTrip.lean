import Rv32Emu.Tensix.Tile
import Mathlib.Tactic.IntervalCases

namespace Rv32Emu

section run

/-- A run of PACRs to the tile at `base`: L1 and the write offset after it, and the datums that it packed.
Between two of its PACRs anything but these two may change. -/
inductive PacrRun (base : Word) : Bytes → Word → List Word → Prop
  | start (l1 : Bytes) : PacrRun base l1 0 []
  | pacr {l1 l1' : Bytes} {vals : List Word} {tt : Tensix} {imm : Word} {tid : Tid} :
      PacrRun base l1 tt.packL1WriteOffset vals →
      tt.mem.l1Scratchpad = some l1 →
      (packPlan tt imm tid).outDataFmt = 6 →
      (packPlan tt imm tid).l1BaseByteAddr = base →
      16 ∣ (packPlan tt imm tid).numDatums.toNat →
      (ttpacr tt imm tid).mem.l1Scratchpad = some l1' →
      PacrRun base l1' (ttpacr tt imm tid).packL1WriteOffset (vals ++ pacrValues tt imm tid)

variable {base off : Word} {l1 : Bytes} {vals : List Word}

theorem packPlan_outDsb {tt : Tensix} {imm : Word} {tid : Tid} (h : (packPlan tt imm tid).outDataFmt = 6) :
    (packPlan tt imm tid).outDsb = 1 := by
  have hdsb : (packPlan tt imm tid).outDsb = getDatumSize (packPlan tt imm tid).outDataFmt := rfl
  rw [hdsb, h]
  decide

namespace PacrRun

theorem aligned (h : PacrRun base l1 off vals) : 16 ∣ vals.length := by
  induction h with
  | start => exact dvd_zero _
  | pacr _ _ _ _ hn _ ih =>
    rw [List.length_append, pacrValues, length_packedBelow]
    exact dvd_add ih (hn.mul_left _)

theorem offset (h : PacrRun base l1 off vals) : off = w32 vals.length := by
  induction h with
  | start => rfl
  | pacr _ _ hfmt _ _ _ ih => exact ttpacr_packL1WriteOffset (packPlan_outDsb hfmt) ih

theorem base_lt (h : PacrRun base l1 off vals) (hne : vals ≠ []) : base.toNat < 2 ^ 21 := by
  cases h with
  | start => exact absurd rfl hne
  | pacr _ _ _ hbase =>
    rw [← hbase]
    exact l1BaseByteAddr_lt ..

theorem tileAt (h : PacrRun base l1 off vals) (htile : vals.length ≤ 1024) : TileAt base.toNat l1 vals := by
  induction h with
  | start => exact fun k hk => absurd hk (by simp)
  | @pacr l1 l1' vals tt imm tid hrun hl1 hfmt hbase hn hl1' ih =>
    have hpack : PacksTile tt (packPlan tt imm tid) vals :=
      ⟨hrun.aligned, hn, hfmt, packPlan_outDsb hfmt, l1BaseByteAddr_lt .., hrun.offset⟩
    have hlen : vals.length ≤ 1024 := by
      rw [List.length_append] at htile
      omega
    have hout : some (packLoop tt (packPlan tt imm tid) l1).1 = some l1' := by
      rw [← hl1']
      simp only [ttpacr, hl1]
      rfl
    rw [← Option.some.inj hout, ← hbase]
    rw [← hbase] at ih
    exact packLoop_tile hpack (ih hlen) htile

end PacrRun

end run

section unpack

variable {u : UnpackPlan} {base : Word} {l1 : Bytes} {i : Word} {k : ℕ}

def ReadsDatum (u : UnpackPlan) (k : ℕ) : Prop :=
  u.zeroWrite = false ∧ (u.tileizeMode && u.shiftAmount.toNat > 0) = false ∧ u.inAddr.toNat + 64 + k < l1Size

instance decidableReadsDatum (u : UnpackPlan) (k : ℕ) : Decidable (ReadsDatum u k) :=
  inferInstanceAs (Decidable (_ ∧ _ ∧ _))

theorem unpackBfp8_eq (l1 : Bytes) (hk : (u.firstDatum + i).toNat = k) (htile : k < 1024)
    (hbase : u.inAddr.toNat < 2 ^ 21) :
    (unpackBfp8 l1 u i).1 =
      if u.inAddr.toNat + 64 + k < l1Size then
        bfp8Decode ((l1 (u.inAddr.toNat + k / 16)).setWidth 32) ((l1 (u.inAddr.toNat + 64 + k)).setWidth 32)
      else 0 := by
  have hexp : (u.inAddr + (u.firstDatum + i) / 256 * 16 + (u.firstDatum + i) % 256 / 16).toNat =
      u.inAddr.toNat + k / 16 := by
    simp only [BitVec.toNat_add, BitVec.toNat_mul, BitVec.toNat_udiv, BitVec.toNat_umod, BitVec.reduceToNat]
      at hk ⊢
    omega
  have hmant : (u.inAddr + 64 + (u.firstDatum + i) / 256 * 256 + (u.firstDatum + i) % 256).toNat =
      u.inAddr.toNat + 64 + k := by
    simp only [BitVec.toNat_add, BitVec.toNat_mul, BitVec.toNat_udiv, BitVec.toNat_umod, BitVec.reduceToNat]
      at hk ⊢
    omega
  unfold unpackBfp8
  simp only [hexp, hmant]
  by_cases h : u.inAddr.toNat + 64 + k < l1Size
  · rw [if_pos ⟨by omega, h⟩, if_pos h]
    rfl
  · rw [if_neg fun hin => h hin.2, if_neg h]

theorem unpackDatum_eq (l1 : Bytes) (hfmt : u.inDataFmt = 6) (hk : (u.firstDatum + i).toNat = k)
    (htile : k < 1024) (hbase : u.inAddr.toNat < 2 ^ 21) :
    (unpackDatum l1 u i).1 =
      if ReadsDatum u k then
        bfp8Decode ((l1 (u.inAddr.toNat + k / 16)).setWidth 32) ((l1 (u.inAddr.toNat + 64 + k)).setWidth 32)
      else 0 := by
  have hplain : ∀ raw, datumToFloat raw 6 = 0 := fun _ => rfl
  unfold unpackDatum
  simp only [hfmt]
  cases hz : u.zeroWrite with
  | true => simp [ReadsDatum, hz]
  | false =>
    cases ht : u.tileizeMode && u.shiftAmount.toNat > 0 with
    | true =>
      have hno : ¬ReadsDatum u k := by
        intro h
        exact absurd (ht.symm.trans h.2.1) (by decide)
      rw [if_neg hno]
      simp only [Bool.false_eq_true, if_false, Bool.not_true, Bool.false_and, hplain]
      rw [apply_ite Prod.fst, ite_self]
    | false =>
      have hreads : ReadsDatum u k ↔ u.inAddr.toNat + 64 + k < l1Size := by
        simp only [ReadsDatum, hz, ht, true_and]
      exact (unpackBfp8_eq l1 hk htile hbase).trans (if_congr hreads.symm rfl rfl)

def unpackPlace (u : UnpackPlan) (i : ℕ) : ℕ × ℕ :=
  let idx := u.outAddr + w32 i
  let row := idx / 16
  let col := idx &&& 15
  if u.whichUnp then ((row &&& 0x3F).toNat, col.toNat)
  else if u.unpackToDst then (((row - 4) &&& 0x3FF).toNat, col.toNat)
  else
    let (row, col) := if u.haloizeMode then ((row &&& ~~~(0xf : Word)) ||| col, row &&& 0xf) else (row, col)
    ((row &&& 0x3F).toNat, col.toNat)

def unpackedCell (tt tt' : Tensix) (u : UnpackPlan) (i : ℕ) : Word :=
  let (row, col) := unpackPlace u i
  if u.whichUnp then tt'.srcb tt.unpSrcbBank row col
  else if u.unpackToDst then tt'.dest row col
  else tt'.srca tt.unpSrcaBank row col

theorem haloize_toNat (row col : Word) :
    ((row &&& ~~~(0xf : Word) ||| (col &&& 15)) &&& 0x3F).toNat =
      2 ^ 4 * (row.toNat / 2 ^ 4 % 2 ^ 2) + col.toNat % 2 ^ 4 := by
  have hsplit : (row &&& ~~~(0xf : Word) ||| (col &&& (15 : Word))) &&& (0x3F : Word) =
      ((row >>> 4) &&& (3 : Word)) <<< 4 ||| (col &&& (15 : Word)) := by
    ext i hi
    simp only [BitVec.getElem_and, BitVec.getElem_or, BitVec.getElem_not, BitVec.getElem_shiftLeft]
    interval_cases i <;> simp
  have hrow : ((row >>> 4) &&& 3).toNat = row.toNat / 2 ^ 4 % 2 ^ 2 := bits_mask_toNat row 4 2 rfl
  rw [hsplit, BitVec.toNat_or, BitVec.toNat_shiftLeft, Nat.shiftLeft_eq, and_mask_toNat col 4 rfl, hrow,
    Nat.mod_eq_of_lt (by omega), Nat.mul_comm,
      Nat.two_pow_add_eq_or_of_lt (Nat.mod_lt _ (by decide) : _ < 2 ^ 4)]

theorem unpackPlace_inj {i j : ℕ} (hi : i < 1024) (hj : j < 1024) (h : unpackPlace u i = unpackPlace u j) :
    i = j := by
  have hidx : ∀ n, (u.outAddr + w32 n).toNat = (u.outAddr.toNat + n % 2 ^ 32) % 2 ^ 32 := by
    intro n
    rw [w32, BitVec.toNat_add, BitVec.toNat_ofNat]
  have hrow : ∀ n, ((u.outAddr + w32 n) / 16).toNat = (u.outAddr.toNat + n % 2 ^ 32) % 2 ^ 32 / 16 := by
    intro n
    rw [BitVec.toNat_udiv, hidx]
    rfl
  have hcol : ∀ n, ((u.outAddr + w32 n) &&& 15).toNat = (u.outAddr.toNat + n % 2 ^ 32) % 2 ^ 32 % 2 ^ 4 := by
    intro n
    rw [and_mask_toNat _ 4 rfl, hidx]
  have hdst : ∀ n, (((u.outAddr + w32 n) / 16 - 4) &&& 0x3FF).toNat =
      (2 ^ 32 - 4 + (u.outAddr.toNat + n % 2 ^ 32) % 2 ^ 32 / 16) % 2 ^ 32 % 1024 := by
    intro n
    rw [and_mask_toNat _ 10 rfl, BitVec.toNat_sub, hrow]
    rfl
  unfold unpackPlace at h
  dsimp only at h
  split_ifs at h
  · rw [Prod.mk.injEq, and_mask_toNat _ 6 rfl, and_mask_toNat _ 6 rfl, hrow, hrow, hcol, hcol] at h
    omega
  · rw [Prod.mk.injEq, hdst, hdst, hcol, hcol] at h
    omega
  · rw [Prod.mk.injEq, haloize_toNat, haloize_toNat, and_mask_toNat _ 4 rfl, and_mask_toNat _ 4 rfl, hrow,
      hrow, hidx, hidx] at h
    omega
  · rw [Prod.mk.injEq, and_mask_toNat _ 6 rfl, and_mask_toNat _ 6 rfl, hrow, hrow, hcol, hcol] at h
    omega

theorem unpackPlan_numDatums_le (tt : Tensix) (imm : Word) (tid : Tid) :
    (unpackPlan tt imm tid).numDatums.toNat ≤ 1024 := by
  have hclamp : ∀ n : Word, (if n.toNat > 1024 then 1024 else n).toNat ≤ 1024 := by
    intro n
    split_ifs with h
    · decide
    · omega
  exact hclamp _

theorem Grid.set_self (g : Grid) (r c : ℕ) (x : Word) : Grid.set g r c x r c = x := if_pos ⟨rfl, rfl⟩

theorem Grid.set_of_ne (g : Grid) {r c r' c' : ℕ} (x : Word) (h : (r, c) ≠ (r', c')) :
    Grid.set g r c x r' c' = g r' c' := by
  apply if_neg
  rintro ⟨rfl, rfl⟩
  exact h rfl

theorem forRange_place {n i : ℕ} (g : Grid) (place : ℕ → ℕ × ℕ) (val : ℕ → Word) (hi : i < n)
    (hinj : ∀ j < n, j ≠ i → place j ≠ place i) :
    (forRange n g fun g j => Grid.set g (place j).1 (place j).2 (val j)) (place i).1 (place i).2 = val i := by
  apply forRange_writes (fun g : Grid => g (place i).1 (place i).2) hi
  · intro g
    exact Grid.set_self ..
  · intro j hj hne g
    exact Grid.set_of_ne _ _ (hinj j hj hne)

def unpackGrid (l1 : Bytes) (u : UnpackPlan) (g : Grid) : Grid :=
  forRange u.numDatums.toNat g fun g j =>
    Grid.set g (unpackPlace u j).1 (unpackPlace u j).2 (unpackDatum l1 u (w32 j)).1

theorem unpackSrcb_eq (l1 : Bytes) (hw : u.whichUnp = true) (g : Grid) :
    unpackSrcb l1 u g = unpackGrid l1 u g := by
  simp only [unpackSrcb, unpackGrid, unpackPlace, hw, if_true]

theorem unpackDst_eq (l1 : Bytes) (hw : u.whichUnp = false) (hd : u.unpackToDst = true)
    (hfmt : u.inDataFmt ≠ 0) (g : Grid) :
    unpackDst l1 u g = unpackGrid l1 u g := by
  simp only [unpackDst, unpackGrid, unpackPlace, hw, hd, hfmt, decide_false, Bool.and_false, Bool.false_and,
    Bool.false_eq_true, if_false, if_true]

theorem unpackSrca_eq (l1 : Bytes) (hw : u.whichUnp = false) (hd : u.unpackToDst = false) (g : Grid) :
    unpackSrca l1 u g = unpackGrid l1 u g := by
  simp [unpackSrca, unpackGrid, unpackPlace, hw, hd]

theorem unpackGrid_place (l1 : Bytes) (g : Grid) {i : ℕ} (hn : u.numDatums.toNat ≤ 1024)
    (hi : i < u.numDatums.toNat) :
    unpackGrid l1 u g (unpackPlace u i).1 (unpackPlace u i).2 = (unpackDatum l1 u (w32 i)).1 := by
  apply forRange_place g (unpackPlace u) (fun j => (unpackDatum l1 u (w32 j)).1) hi
  intro j hj hne h
  exact hne (unpackPlace_inj (by omega) (by omega) h)

theorem unpackLoop_cell {tt : Tensix} {i : ℕ} (hl1 : tt.mem.l1Scratchpad = some l1) (hfmt : u.inDataFmt ≠ 0)
    (hn : u.numDatums.toNat ≤ 1024) (hi : i < u.numDatums.toNat) :
    unpackedCell tt (unpackLoop tt u) u i = (unpackDatum l1 u (w32 i)).1 := by
  have hne : u.numDatums ≠ 0 := by
    intro h
    rw [h] at hi
    exact Nat.not_lt_zero i hi
  rw [← unpackGrid_place l1 (fun _ _ => 0) hn hi]
  unfold unpackLoop unpackedCell
  simp only [hl1, if_neg hne]
  cases hw : u.whichUnp with
  | true =>
    simp only [if_true, Function.update_self, unpackSrcb_eq l1 hw, unpackGrid_place l1 _ hn hi]
  | false =>
    cases hd : u.unpackToDst with
    | true => simp [unpackDst_eq l1 hw hd hfmt, unpackGrid_place l1 _ hn hi]
    | false => simp [unpackSrca_eq l1 hw hd, unpackGrid_place l1 _ hn hi]

theorem unpackedCell_congr {tt tt₁ tt₂ : Tensix} (ha : tt₁.srca = tt₂.srca) (hb : tt₁.srcb = tt₂.srcb)
    (hd : tt₁.dest = tt₂.dest) (u : UnpackPlan) (i : ℕ) :
    unpackedCell tt tt₁ u i = unpackedCell tt tt₂ u i := by
  simp only [unpackedCell, ha, hb, hd]

theorem ttunpacr_cell {tt tt' : Tensix} {imm : Word} {tid : Tid} {i : ℕ} (hl1 : tt.mem.l1Scratchpad = some l1)
    (hfmt : (unpackPlan tt imm tid).inDataFmt ≠ 0) (hflush : bit imm 1 = false) (hctx : bits imm 13 0x3 = 0)
    (h : ttunpacr tt imm tid = (true, tt')) (hi : i < (unpackPlan tt imm tid).numDatums.toNat) :
    unpackedCell tt tt' (unpackPlan tt imm tid) i = (unpackDatum l1 (unpackPlan tt imm tid) (w32 i)).1 := by
  rw [← unpackLoop_cell hl1 hfmt (unpackPlan_numDatums_le ..) hi]
  unfold ttunpacr at h
  simp only [hflush, hctx, Bool.false_eq_true, if_false, ne_eq, not_true_eq_false] at h
  split_ifs at h with ha hb hset hw
  · cases (Prod.mk.inj h).1
  · cases (Prod.mk.inj h).1
  all_goals
    rw [← (Prod.mk.inj h).2]
    exact unpackedCell_congr rfl rfl rfl _ _

end unpack

variable {base off : Word} {l1 : Bytes} {vals : List Word} {tt tt' : Tensix} {imm : Word} {tid : Tid}
  {i k : ℕ}

/-- A datum of a packed tile comes back as its value truncated toward zero to the step of its group exactly
when the truncated value is zero, or UNPACR reads the datum and the datum has the group's exponent. -/
theorem bfp8_tile_round_trip_iff (hrun : PacrRun base l1 off vals) (htile : vals.length ≤ 1024)
    (hvals : ∀ b ∈ vals, ZeroOrNormal b) (hl1 : tt.mem.l1Scratchpad = some l1)
    (hfmt : (unpackPlan tt imm tid).inDataFmt = 6) (hbase : (unpackPlan tt imm tid).inAddr = base)
    (hflush : bit imm 1 = false) (hctx : bits imm 13 0x3 = 0) (h : ttunpacr tt imm tid = (true, tt'))
    (hi : i < (unpackPlan tt imm tid).numDatums.toNat)
    (hk : ((unpackPlan tt imm tid).firstDatum + w32 i).toNat = k) (hlen : k < vals.length) :
    Truncates (groupExp vals (k / 16)) (vals.getD k 0) (unpackedCell tt tt' (unpackPlan tt imm tid) i) ∧
        |floatValue (vals.getD k 0) - floatValue (unpackedCell tt tt' (unpackPlan tt imm tid) i)| <
          2 ^ ((groupExp vals (k / 16) : ℤ) - 133) ↔
      floatExp (vals.getD k 0) = 0 ∨ floatExp (vals.getD k 0) + 7 ≤ groupExp vals (k / 16) ∨
        floatExp (vals.getD k 0) = groupExp vals (k / 16) ∧ ReadsDatum (unpackPlan tt imm tid) k := by
  have hb : ZeroOrNormal (vals.getD k 0) := by
    rw [List.getD_eq_getElem _ _ hlen]
    exact hvals _ (List.getElem_mem hlen)
  have hlt : (unpackPlan tt imm tid).inAddr.toNat < 2 ^ 21 := by
    rw [hbase]
    apply hrun.base_lt
    rintro rfl
    exact Nat.not_lt_zero k hlen
  have hle := floatExp_le_groupExp vals k
  rw [and_iff_left_of_imp Truncates.abs_sub_lt, ttunpacr_cell hl1 (by rw [hfmt]; decide) hflush hctx h hi,
    unpackDatum_eq l1 hfmt hk (by omega) hlt]
  by_cases hread : ReadsDatum (unpackPlan tt imm tid) k
  · obtain ⟨hexp, hmant⟩ := hrun.tileAt htile k hlen (by rw [← hbase]; exact hread.2.2)
    have hE : (w32 (groupExp vals (k / 16))).toNat = groupExp vals (k / 16) := by
      have := groupExp_lt vals (k / 16)
      rw [w32, BitVec.toNat_ofNat, Nat.mod_eq_of_lt (by omega)]
    have hexp' : (l1 (base.toNat + k / 16)).setWidth 32 = w32 (groupExp vals (k / 16)) := by
      apply BitVec.eq_of_toNat_eq
      rw [hE, ← hexp, BitVec.toNat_setWidth]
      omega
    have hmant' : (l1 (base.toNat + 64 + k)).setWidth 32 =
        bfp8Mantissa (w32 (groupExp vals (k / 16))) (vals.getD k 0) := by
      have hbyte := bfp8Mantissa_lt (hle.trans_eq hE.symm)
      apply BitVec.eq_of_toNat_eq
      rw [hmant, BitVec.toNat_setWidth, BitVec.toNat_setWidth]
      omega
    have hiff := truncates_decode_iff hb (by rw [hE]; exact groupExp_lt ..) (hle.trans_eq hE.symm)
    rw [hE] at hiff
    rw [if_pos hread, hbase, hexp', hmant', hiff]
    simp [hread]
  · rw [if_neg hread, truncates_zero_iff hb hle]
    simp [hread]

def oneAndHalf : Tensix :=
  { tensixInit
      { l1Scratchpad := some fun _ => 0
        highMem := some fun a =>
          if a = tensixCfgOffsetInHighMem + 64 * 4 then 0x06
          else if a = tensixCfgOffsetInHighMem + 70 * 4 then 0x60
          else if a = tensixCfgOffsetInHighMem + 69 * 4 ∨ a = tensixCfgOffsetInHighMem + 76 * 4 then 0xFF
          else 0 } with
    dest := fun r c => if r = 0 ∧ c = 0 then 0x3F800000 else if r = 0 ∧ c = 1 then 0x3F000000 else 0
    adc := fun _ => { (tensixInit ⟨none, none⟩).adc 0 with ch1X := 15 } }

def oneAndHalfVals : List Word := [0x3F800000, 0x3F000000] ++ List.replicate 14 0

def packedTile : Tensix := ttpacr oneAndHalf 0x100 2

def unpackedTile : Tensix := (ttunpacr packedTile 0 0).2

theorem packedTile_run :
    ∃ l1 off, PacrRun 0x1000 l1 off oneAndHalfVals ∧ packedTile.mem.l1Scratchpad = some l1 := by
  have hvals : pacrValues oneAndHalf 0x100 2 = oneAndHalfVals := by decide
  have hfmt : (packPlan oneAndHalf 0x100 2).outDataFmt = 6 := by decide
  have hbase : (packPlan oneAndHalf 0x100 2).l1BaseByteAddr = 0x1000 := by decide
  have hn : 16 ∣ (packPlan oneAndHalf 0x100 2).numDatums.toNat := by decide
  have hrun : PacrRun 0x1000 (packLoop oneAndHalf (packPlan oneAndHalf 0x100 2) fun _ => 0).1
      packedTile.packL1WriteOffset ([] ++ pacrValues oneAndHalf 0x100 2) :=
    .pacr (.start fun _ => 0) rfl hfmt hbase hn rfl
  rw [List.nil_append, hvals] at hrun
  exact ⟨_, _, hrun, rfl⟩

theorem oneAndHalf_zeroOrNormal : ∀ b ∈ oneAndHalfVals, ZeroOrNormal b := by
  have hall : oneAndHalfVals.all (ZeroOrNormal ·) = true := by decide
  intro b hb
  exact of_decide_eq_true (List.all_eq_true.mp hall b hb)

theorem unpackedTile_half : unpackedCell packedTile unpackedTile (unpackPlan packedTile 0 0) 1 =
    0x3FC00000 := by decide

theorem bfp8_tile_round_trip_one :
    ∃ l1 off, PacrRun 0x1000 l1 off oneAndHalfVals ∧ ttunpacr packedTile 0 0 = (true, unpackedTile) ∧
      oneAndHalfVals.getD 0 0 = 0x3F800000 ∧
      Truncates (groupExp oneAndHalfVals 0) (oneAndHalfVals.getD 0 0)
        (unpackedCell packedTile unpackedTile (unpackPlan packedTile 0 0) 0) := by
  obtain ⟨l1, off, hrun, hl1⟩ := packedTile_run
  have hfmt : (unpackPlan packedTile 0 0).inDataFmt = 6 := by decide
  have hbase : (unpackPlan packedTile 0 0).inAddr = 0x1000 := by decide
  have hdone : ttunpacr packedTile 0 0 = (true, unpackedTile) := rfl
  have hdatum : ((unpackPlan packedTile 0 0).firstDatum + w32 0).toNat = 0 := by decide
  have hiff :=
    bfp8_tile_round_trip_iff hrun (by decide) oneAndHalf_zeroOrNormal hl1 hfmt hbase (by decide) (by decide)
      hdone
    (i := 0) (by decide) hdatum (by decide)
  exact ⟨l1, off, hrun, hdone, rfl, (hiff.mpr (by decide)).1⟩

theorem bfp8_tile_round_trip_half :
    ∃ l1 off, PacrRun 0x1000 l1 off oneAndHalfVals ∧ oneAndHalfVals.length ≤ 1024 ∧
      (∀ b ∈ oneAndHalfVals, ZeroOrNormal b) ∧ packedTile.mem.l1Scratchpad = some l1 ∧
      (unpackPlan packedTile 0 0).inDataFmt = 6 ∧ (unpackPlan packedTile 0 0).inAddr = 0x1000 ∧
      ttunpacr packedTile 0 0 = (true, unpackedTile) ∧
      ((unpackPlan packedTile 0 0).firstDatum + w32 1).toNat = 1 ∧
      oneAndHalfVals.getD 1 0 = 0x3F000000 ∧
      unpackedCell packedTile unpackedTile (unpackPlan packedTile 0 0) 1 = 0x3FC00000 ∧
      ¬Truncates (groupExp oneAndHalfVals 0) (oneAndHalfVals.getD 1 0)
        (unpackedCell packedTile unpackedTile (unpackPlan packedTile 0 0) 1) := by
  obtain ⟨l1, off, hrun, hl1⟩ := packedTile_run
  refine ⟨l1, off, hrun, by decide, oneAndHalf_zeroOrNormal,
    hl1, by decide, by decide, rfl, by decide, rfl, unpackedTile_half, ?_⟩
  have hexp : groupExp oneAndHalfVals 0 = (127 : Word).toNat := by decide
  have hdecode : (0x3FC00000 : Word) = bfp8Decode 127 (bfp8Mantissa 127 0x3F000000) := by decide
  have hhalf : floatExp 0x3F000000 = 126 := by decide
  rw [unpackedTile_half, hexp, hdecode]
  intro h
  have hkept := (truncates_decode_iff (b := 0x3F000000) (by decide) (by decide) (by decide)).mp h
  rw [hhalf] at hkept
  exact absurd hkept (by decide)

end Rv32Emu
