import Rv32Emu.Tensix.Tile
import Rv32Emu.Tensix.Unpack

namespace Rv32Emu

namespace UnpackPlan

variable (u : UnpackPlan)

def tileizes : Bool := u.tileizeMode && u.shiftAmount.toNat > 0

def blockFloat : Bool := !u.tileizes && (u.inDataFmt = 6 || u.inDataFmt = 2)

def datumAddr (i : Word) : Word :=
  if u.tileizes then tileizeAddr u i else u.inAddr + u.firstDatum * u.dsb + i * u.dsb

def bfp8Reads (i : Word) : List ℕ :=
  let e := u.firstDatum + i
  let expA := u.inAddr + e / 256 * 16 + e % 256 / 16
  let mantA := u.inAddr + 64 + e / 256 * 256 + e % 256
  if expA.toNat < l1Size ∧ mantA.toNat < l1Size then [expA.toNat, mantA.toNat] else []

def plainReads (i : Word) : List ℕ :=
  if (u.datumAddr i + u.dsb).toNat ≤ l1Size then List.range' (u.datumAddr i).toNat u.dsb.toNat else []

def datumReads (i : Word) : List ℕ :=
  if u.zeroWrite then [] else if u.blockFloat then u.bfp8Reads i else u.plainReads i

def reads : List ℕ := (List.range u.numDatums.toNat).flatMap fun i => u.datumReads (w32 i)

end UnpackPlan

def fetchDatum (l1 : Bytes) (dsb fmt addr : Word) : Word × Word × Bool :=
  if (addr + dsb).toNat ≤ l1Size then
    let raw := Bytes.load l1 addr.toNat dsb.toNat
    (datumToFloat raw fmt, raw, true)
  else (0, 0, false)

section datum

variable {u : UnpackPlan} {l1 l1' : Bytes}

theorem unpackDatum_of_zeroWrite (l1 : Bytes) (h : u.zeroWrite = true) (i : Word) :
    unpackDatum l1 u i = (0, 0, false) := by
  unfold unpackDatum
  dsimp only
  rw [if_pos h]

theorem unpackDatum_of_blockFloat (l1 : Bytes) (hzero : u.zeroWrite = false) (h : u.blockFloat = true)
    (i : Word) :
    unpackDatum l1 u i = ((unpackBfp8 l1 u i).1, 0, (unpackBfp8 l1 u i).2) := by
  unfold UnpackPlan.blockFloat UnpackPlan.tileizes at h
  unfold unpackDatum
  dsimp only
  rw [hzero, h]
  rfl

theorem unpackDatum_of_plain (l1 : Bytes) (hzero : u.zeroWrite = false) (h : u.blockFloat = false)
    (i : Word) :
    unpackDatum l1 u i = fetchDatum l1 u.dsb u.inDataFmt (u.datumAddr i) := by
  unfold UnpackPlan.blockFloat UnpackPlan.tileizes at h
  unfold unpackDatum
  dsimp only
  rw [hzero, h]
  rfl

theorem unpackBfp8_congr {i : Word} (h : ∀ a ∈ u.bfp8Reads i, l1' a = l1 a) :
    unpackBfp8 l1' u i = unpackBfp8 l1 u i := by
  unfold UnpackPlan.bfp8Reads at h
  unfold unpackBfp8
  dsimp only at h ⊢
  by_cases hin : (u.inAddr + (u.firstDatum + i) / 256 * 16 + (u.firstDatum + i) % 256 / 16).toNat < l1Size ∧
      (u.inAddr + 64 + (u.firstDatum + i) / 256 * 256 + (u.firstDatum + i) % 256).toNat < l1Size
  · rw [if_pos hin] at h
    rw [if_pos hin, if_pos hin, h _ (.head _), h _ (.tail _ (.head _))]
  · rw [if_neg hin, if_neg hin]

theorem fetchDatum_congr {i : Word} (h : ∀ a ∈ u.plainReads i, l1' a = l1 a) :
    fetchDatum l1' u.dsb u.inDataFmt (u.datumAddr i) = fetchDatum l1 u.dsb u.inDataFmt (u.datumAddr i) := by
  unfold UnpackPlan.plainReads at h
  unfold fetchDatum
  dsimp only
  split_ifs at h ⊢ with hin
  · have hload : Bytes.load l1' (u.datumAddr i).toNat u.dsb.toNat =
        Bytes.load l1 (u.datumAddr i).toNat u.dsb.toNat := by
      apply Bytes.load_congr
      intro k hk
      apply h
      rw [List.mem_range'_1]
      omega
    rw [hload]
  · rfl

theorem unpackDatum_congr {i : Word} (h : ∀ a ∈ u.datumReads i, l1' a = l1 a) :
    unpackDatum l1' u i = unpackDatum l1 u i := by
  unfold UnpackPlan.datumReads at h
  cases hzero : u.zeroWrite with
  | true => rw [unpackDatum_of_zeroWrite l1' hzero, unpackDatum_of_zeroWrite l1 hzero]
  | false =>
    rw [hzero, if_neg Bool.false_ne_true] at h
    cases hfmt : u.blockFloat with
    | true =>
      rw [hfmt, if_pos rfl] at h
      rw [unpackDatum_of_blockFloat l1' hzero hfmt, unpackDatum_of_blockFloat l1 hzero hfmt,
        unpackBfp8_congr h]
    | false =>
      rw [hfmt, if_neg Bool.false_ne_true] at h
      rw [unpackDatum_of_plain l1' hzero hfmt, unpackDatum_of_plain l1 hzero hfmt, fetchDatum_congr h]

end datum

section unpacr

variable {u : UnpackPlan} {l1 l1' : Bytes}

theorem unpackDatum_congr_of_reads (h : ∀ a ∈ u.reads, l1' a = l1 a) {i : ℕ} (hi : i < u.numDatums.toNat) :
    unpackDatum l1' u (w32 i) = unpackDatum l1 u (w32 i) := by
  apply unpackDatum_congr
  intro a ha
  exact h a (List.mem_flatMap.mpr ⟨i, List.mem_range.mpr hi, ha⟩)

def Tensix.withL1 (tt : Tensix) (l1 : Bytes) : Tensix :=
  { tt with mem := { tt.mem with l1Scratchpad := some l1 } }

theorem unpackLoop_congr (h : ∀ a ∈ u.reads, l1' a = l1 a) (tt : Tensix) :
    unpackLoop (tt.withL1 l1') u = (unpackLoop (tt.withL1 l1) u).withL1 l1' := by
  have hb : ∀ g, unpackSrcb l1' u g = unpackSrcb l1 u g := fun g => forRange_congr fun i hi g => by
    rw [unpackDatum_congr_of_reads h hi]
  have hd : ∀ g, unpackDst l1' u g = unpackDst l1 u g := fun g => forRange_congr fun i hi g => by
    rw [unpackDatum_congr_of_reads h hi]
  have ha : ∀ g, unpackSrca l1' u g = unpackSrca l1 u g := fun g => forRange_congr fun i hi g => by
    rw [unpackDatum_congr_of_reads h hi]
  unfold unpackLoop
  dsimp only [Tensix.withL1]
  rw [ha, hb, hd]
  split_ifs <;> rfl

def unpacrStarts (tt : Tensix) (imm : Word) : Bool :=
  !bit imm 1 && bits imm 13 0x3 = 0 && !(!bit imm 23 && tt.srcaDvalid tt.unpSrcaBank) &&
    !(bit imm 23 && tt.srcbDvalid tt.unpSrcbBank)

def unpacrReads (tt : Tensix) (imm : Word) (tid : Tid) : List ℕ :=
  if unpacrStarts tt imm && tt.mem.l1Scratchpad.isSome then (unpackPlan tt imm tid).reads else []

def unpacrFinish (imm : Word) (tt : Tensix) : Tensix :=
  let tt :=
    if !bit imm 6 then tt
    else if bit imm 23 then releaseSrcb tt
    else { releaseSrca tt with lastUnpSrcaBank := tt.unpSrcaBank }
  tt.setAdc (unpAdc (bit imm 23)) (unpackAddrMod (tt.adc (unpAdc (bit imm 23))) (bits imm 15 0xFF))

theorem unpacrFinish_withL1 (imm : Word) (tt : Tensix) (l1 : Bytes) :
    unpacrFinish imm (tt.withL1 l1) = (unpacrFinish imm tt).withL1 l1 := by
  unfold unpacrFinish
  dsimp only
  split_ifs <;> rfl

theorem ttunpacr_eq_ite (tt : Tensix) (imm : Word) (tid : Tid) : ttunpacr tt imm tid =
    if unpacrStarts tt imm then (true, unpacrFinish imm (unpackLoop tt (unpackPlan tt imm tid)))
    else (bit imm 1 || bits imm 13 0x3 ≠ 0, tt) := by
  unfold ttunpacr unpacrStarts unpacrFinish
  dsimp only
  cases bit imm 1 with
  | true => rfl
  | false =>
    by_cases hform : bits imm 13 0x3 = 0
    · rw [if_neg Bool.false_ne_true, if_neg (not_not.mpr hform), decide_eq_true hform,
        decide_eq_false (not_not.mpr hform)]
      cases bit imm 23 with
      | true => cases tt.srcbDvalid tt.unpSrcbBank <;> rfl
      | false => cases tt.srcaDvalid tt.unpSrcaBank <;> rfl
    · rw [if_neg Bool.false_ne_true, if_pos hform, decide_eq_false hform, decide_eq_true hform]
      rfl

theorem ttunpacr_congr (tt : Tensix) (imm : Word) (tid : Tid)
    (h : ∀ a ∈ unpacrReads (tt.withL1 l1) imm tid, l1' a = l1 a) :
    ttunpacr (tt.withL1 l1') imm tid =
      ((ttunpacr (tt.withL1 l1) imm tid).1, (ttunpacr (tt.withL1 l1) imm tid).2.withL1 l1') := by
  have hsame : unpacrStarts (tt.withL1 l1') imm = unpacrStarts (tt.withL1 l1) imm := rfl
  have hplan : unpackPlan (tt.withL1 l1') imm tid = unpackPlan (tt.withL1 l1) imm tid := rfl
  rw [ttunpacr_eq_ite, ttunpacr_eq_ite, hsame, hplan]
  cases hstarts : unpacrStarts (tt.withL1 l1) imm with
  | false => rfl
  | true =>
    have hreads : ∀ a ∈ (unpackPlan (tt.withL1 l1) imm tid).reads, l1' a = l1 a := by
      intro a ha
      apply h a
      rw [unpacrReads, hstarts]
      exact ha
    rw [if_pos rfl, if_pos rfl, unpackLoop_congr hreads, unpacrFinish_withL1]

end unpacr

end Rv32Emu
