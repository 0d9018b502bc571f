import Rv32Emu.Lib.Runs
import Rv32Emu.Tensix.TileRoundTrip
import Rv32Emu.Tensix.UnpackReads

namespace Rv32Emu

structure TileInput where
  inAddr : Word
  shiftAmount : Word
  inDataFmt : Word

namespace TileInput

variable (t : TileInput)

def dsb : ℕ := (getDatumSize t.inDataFmt).toNat

def element (row col : ℕ) : Word := t.inAddr + w32 (row * (t.shiftAmount.toNat * 16) + col * t.dsb)

def tileElement (e : ℕ) : Word := t.element (16 * (e / 256 / 2) + e % 256 / 16) (16 * (e / 256 % 2) + e % 16)

def columnElement (e : ℕ) : Word := t.element (16 * (e / 256) + e % 256 / 16) (e % 16)

variable {t}

theorem element_inj (hshift : t.shiftAmount.toNat < 2 ^ 16) {row col row' col' : ℕ} (hrow : row < 64)
    (hcol : col < 1024) (hrow' : row' < 64) (hcol' : col' < 1024) : t.element row col = t.element row' col' ↔
      row * (t.shiftAmount.toNat * 16) + col * t.dsb = row' * (t.shiftAmount.toNat * 16) + col' * t.dsb := by
  have hlt : ∀ r < 64, ∀ c < 1024, r * (t.shiftAmount.toNat * 16) + c * t.dsb < 2 ^ 32 := by
    intro r hr c hc
    have hr' : r * (t.shiftAmount.toNat * 16) ≤ 64 * (2 ^ 16 * 16) := Nat.mul_le_mul (by omega) (by omega)
    have hc' : c * t.dsb ≤ 1024 * 4 := Nat.mul_le_mul (by omega) (getDatumSize_le _)
    omega
  unfold element
  constructor
  · intro h
    have hw := congrArg BitVec.toNat ((BitVec.add_right_inj _).mp h)
    rwa [w32, w32, BitVec.toNat_ofNat, BitVec.toNat_ofNat, Nat.mod_eq_of_lt (hlt _ hrow _ hcol),
      Nat.mod_eq_of_lt (hlt _ hrow' _ hcol')] at hw
  · intro h
    rw [h]

theorem columnElement_eq_iff (hshift : t.shiftAmount.toNat < 2 ^ 16) (hpos : 0 < t.shiftAmount.toNat)
    {e : ℕ} (he : e < 1024) :
    t.columnElement e = t.tileElement e ↔ e < 256 := by
  have hdsb : 0 < t.dsb := getDatumSize_pos _
  have hdsb' : t.dsb ≤ 4 := getDatumSize_le _
  unfold columnElement tileElement
  rw [element_inj hshift (by omega) (by omega) (by omega) (by omega), Nat.add_mul, Nat.add_mul,
    Nat.add_mul (16 * _) (e % 16)]
  generalize e % 256 / 16 * (t.shiftAmount.toNat * 16) = a
  generalize e % 16 * t.dsb = b
  have hface : e / 256 = 0 ∨ e / 256 = 1 ∨ e / 256 = 2 ∨ e / 256 = 3 := by omega
  rcases hface with hface | hface | hface | hface <;> rw [hface] <;> omega

theorem linear_eq_tileElement_iff (hshift : t.shiftAmount.toNat = 0) {e : ℕ} (he : e < 1024) :
    t.element 0 e = t.tileElement e ↔ e < 16 := by
  have hdsb : 0 < t.dsb := getDatumSize_pos _
  unfold tileElement
  rw [element_inj (by omega) (by omega) (by omega) (by omega) (by omega), hshift, Nat.zero_mul, Nat.mul_zero,
    Nat.zero_add, Nat.zero_add, Nat.mul_left_inj hdsb.ne']
  omega

end TileInput

theorem w32_div {a b : ℕ} (ha : a < 2 ^ 32) (hb : b < 2 ^ 32) : w32 a / w32 b = w32 (a / b) := by
  have hq : a / b < 2 ^ 32 := Nat.lt_of_le_of_lt (Nat.div_le_self ..) ha
  apply BitVec.eq_of_toNat_eq
  rw [BitVec.toNat_udiv, w32, w32, w32, BitVec.toNat_ofNat, BitVec.toNat_ofNat, BitVec.toNat_ofNat,
    Nat.mod_eq_of_lt ha, Nat.mod_eq_of_lt hb, Nat.mod_eq_of_lt hq]

theorem w32_mod {a b : ℕ} (ha : a < 2 ^ 32) (hb : b < 2 ^ 32) : w32 a % w32 b = w32 (a % b) := by
  have hr : a % b < 2 ^ 32 := Nat.lt_of_le_of_lt (Nat.mod_le ..) ha
  apply BitVec.eq_of_toNat_eq
  rw [BitVec.toNat_umod, w32, w32, w32, BitVec.toNat_ofNat, BitVec.toNat_ofNat, BitVec.toNat_ofNat,
    Nat.mod_eq_of_lt ha, Nat.mod_eq_of_lt hb, Nat.mod_eq_of_lt hr]

theorem tileizeAddr_eq {u : UnpackPlan} {i : Word} {e cols : ℕ} (he : u.firstDatum + i = w32 e)
    (hlt : e < 2 ^ 32) (hcols : cols = if 512 < u.numDatums.toNat then 2 else 1) :
    tileizeAddr u i = u.inAddr +
      w32 ((16 * (e / 256 / cols) + e % 256 / 16) * (u.shiftAmount.toNat * 16) +
        (16 * (e / 256 % cols) + e % 16) * u.dsb.toNat) := by
  have hc : (if u.numDatums.toNat > 512 then 2 else 1 : Word) = w32 cols := by
    rw [hcols, apply_ite w32]
    rfl
  have hcols' : cols < 2 ^ 32 := by
    rw [hcols]
    split <;> decide
  have h256 : (256 : Word) = w32 256 := rfl
  have h16 : (16 : Word) = w32 16 := rfl
  have hdiv : e / 256 < 2 ^ 32 := by omega
  have hmod : e % 256 < 2 ^ 32 := by omega
  have hcol : e % 256 % 16 = e % 16 := Nat.mod_mod_of_dvd _ (by decide)
  unfold tileizeAddr
  dsimp only
  rw [he, hc, h256, h16, w32_div hlt (by decide), w32_mod hlt (by decide), w32_div hdiv hcols',
    w32_mod hdiv hcols', w32_div hmod (by decide), w32_mod hmod (by decide), hcol, w32_add, BitVec.add_assoc]
  simp only [w32_add, w32_mul, w32_toNat, BitVec.mul_comm (w32 16)]

structure UnpacrCall where
  tt : Tensix
  imm : Word
  tid : Tid

namespace UnpacrCall

variable (c : UnpacrCall)

def plan : UnpackPlan := unpackPlan c.tt c.imm c.tid

def fetched : List Word := (List.range c.plan.numDatums.toNat).map fun i => c.plan.datumAddr (w32 i)

def datums (l1 : Bytes) : List (Word × Word × Bool) :=
  (List.range c.plan.numDatums.toNat).map fun i => unpackDatum l1 c.plan (w32 i)

def KnowsWidth (c : UnpacrCall) : Prop :=
  c.plan.numDatums.toNat = 0 ∨ 512 < c.plan.numDatums.toNat ∨
    c.plan.firstDatum.toNat + c.plan.numDatums.toNat ≤ 256

def InFirstRow (c : UnpacrCall) : Prop :=
  c.plan.numDatums.toNat = 0 ∨ c.plan.firstDatum.toNat + c.plan.numDatums.toNat ≤ 16

end UnpacrCall

structure Unpacks (t : TileInput) (n : ℕ) (c : UnpacrCall) (n' : ℕ) : Prop where
  starts : unpacrStarts c.tt c.imm = true
  zeroWrite : c.plan.zeroWrite = false
  tileizeMode : c.plan.tileizeMode = true
  inAddr : c.plan.inAddr = t.inAddr
  shiftAmount : c.plan.shiftAmount = t.shiftAmount
  inDataFmt : c.plan.inDataFmt = t.inDataFmt
  plain : ¬(t.inDataFmt = 6 ∨ t.inDataFmt = 2)
  first : c.plan.firstDatum.toNat = n
  next : n + c.plan.numDatums.toNat = n'
  tile : n' ≤ 1024

variable {t : TileInput} {c : UnpacrCall} {n n' : ℕ}

theorem unpackPlan_shiftAmount_lt (tt : Tensix) (imm : Word) (tid : Tid) :
    (unpackPlan tt imm tid).shiftAmount.toNat < 2 ^ 16 := by
  have hbits : ∀ w : Word, (bits w 16 0xFFFF).toNat < 2 ^ 16 := fun w => by
    rw [bits, BitVec.toNat_and]
    exact Nat.and_lt_two_pow _ (by decide)
  exact hbits _

namespace Unpacks

theorem shiftAmount_lt (h : Unpacks t n c n') : t.shiftAmount.toNat < 2 ^ 16 := by
  rw [← h.shiftAmount]
  exact unpackPlan_shiftAmount_lt ..

theorem dsbNat (h : Unpacks t n c n') : c.plan.dsb.toNat = t.dsb := by
  have hplan : c.plan.dsb = getDatumSize c.plan.inDataFmt := rfl
  rw [hplan, h.inDataFmt, TileInput.dsb]

theorem dsb (h : Unpacks t n c n') : c.plan.dsb = w32 t.dsb := by
  rw [← h.dsbNat, w32_toNat]

theorem tileizes (h : Unpacks t n c n') : c.plan.tileizes = (t.shiftAmount.toNat > 0 : Bool) := by
  rw [UnpackPlan.tileizes, h.tileizeMode, h.shiftAmount, Bool.true_and]

theorem effI (h : Unpacks t n c n') {i : ℕ} : c.plan.firstDatum + w32 i = w32 (n + i) := by
  rw [w32_add, ← h.first, w32_toNat]

theorem datumAddr (h : Unpacks t n c n') {i : ℕ} (hi : n + i < n') : c.plan.datumAddr (w32 i) =
    if t.shiftAmount.toNat = 0 then t.element 0 (n + i)
    else if 512 < n' - n then t.tileElement (n + i)
    else t.columnElement (n + i) := by
  have hnum : c.plan.numDatums.toNat = n' - n := by
    have := h.next
    omega
  have he : n + i < 1024 := Nat.lt_of_lt_of_le hi h.tile
  unfold UnpackPlan.datumAddr
  rw [h.tileizes]
  by_cases hzero : t.shiftAmount.toNat = 0
  · rw [if_pos hzero, hzero, h.inAddr, h.dsb, TileInput.element, Nat.zero_mul, Nat.zero_add, BitVec.add_assoc,
      ← w32_toNat c.plan.firstDatum, h.first, ← w32_mul, ← w32_mul, ← w32_add, ← Nat.add_mul]
    rfl
  · have hpos : t.shiftAmount.toNat > 0 := Nat.pos_of_ne_zero hzero
    rw [if_neg hzero, decide_eq_true hpos, if_pos rfl, ← hnum]
    rw [tileizeAddr_eq h.effI (by omega) rfl, h.inAddr, h.shiftAmount, h.dsbNat]
    split_ifs
    · rfl
    · simp [TileInput.columnElement, TileInput.element, Nat.mod_one]

theorem le (h : Unpacks t n c n') : n ≤ n' := h.next ▸ Nat.le_add_right ..

theorem length_fetched (h : Unpacks t n c n') : c.fetched.length = n' - n := by
  have := h.next
  rw [UnpacrCall.fetched, List.length_map, List.length_range]
  omega

theorem fetched_iff (h : Unpacks t n c n') : c.fetched = (List.range' n (n' - n)).map t.tileElement ↔
    if t.shiftAmount.toNat = 0 then c.InFirstRow else c.KnowsWidth := by
  have hnum : c.plan.numDatums.toNat = n' - n := by
    have := h.next
    omega
  have htile := h.tile
  unfold UnpacrCall.fetched UnpacrCall.InFirstRow UnpacrCall.KnowsWidth
  rw [List.range'_eq_map_range, List.map_map, hnum, h.first, List.map_inj_left]
  have heach : ∀ i ∈ List.range (n' - n), (c.plan.datumAddr (w32 i) = t.tileElement (n + i) ↔
      if t.shiftAmount.toNat = 0 then n + i < 16 else 512 < n' - n ∨ n + i < 256) := by
    intro i hi
    have hlt := List.mem_range.mp hi
    rw [h.datumAddr (by omega)]
    split_ifs with hzero hwide
    · exact TileInput.linear_eq_tileElement_iff hzero (by omega)
    · exact iff_of_true rfl (Or.inl hwide)
    · rw [TileInput.columnElement_eq_iff h.shiftAmount_lt (Nat.pos_of_ne_zero hzero) (by omega),
        or_iff_right hwide]
  refine (forall₂_congr heach).trans ?_
  -- the last datum of the call decides
  split_ifs with hzero
  · constructor
    · intro hall
      by_contra hlate
      have := hall (n' - n - 1) (List.mem_range.mpr (by omega))
      omega
    · intro hrow i hi
      have := List.mem_range.mp hi
      omega
  · constructor
    · intro hall
      by_contra hlate
      have := hall (n' - n - 1) (List.mem_range.mpr (by omega))
      omega
    · intro hface i hi
      have := List.mem_range.mp hi
      omega

theorem datums_eq (h : Unpacks t n c n') (l1 : Bytes) :
    c.datums l1 = c.fetched.map (fetchDatum l1 (w32 t.dsb) t.inDataFmt) := by
  have hfmt : c.plan.blockFloat = false := by
    have hplain := not_or.mp h.plain
    rw [UnpackPlan.blockFloat, h.inDataFmt, decide_eq_false hplain.1, decide_eq_false hplain.2]
    exact Bool.and_false _
  rw [UnpacrCall.fetched, List.map_map, ← h.dsb, ← h.inDataFmt]
  apply List.map_congr_left
  intro i _
  exact unpackDatum_of_plain l1 h.zeroWrite hfmt _

end Unpacks

section sequences

variable {calls : List UnpacrCall}

theorem unpacks_run (hrun : Run (Unpacks t) n calls n') : n ≤ n' ∧
    (calls.flatMap UnpacrCall.fetched = (List.range' n (n' - n)).map t.tileElement ↔
      ∀ c ∈ calls, if t.shiftAmount.toNat = 0 then c.InFirstRow else c.KnowsWidth) := by
  induction hrun with
  | nil n => simp
  | @cons n m n' c calls hcall _ ih =>
    obtain ⟨hle, ih⟩ := ih
    have hle' := hcall.le
    refine ⟨hle'.trans hle, ?_⟩
    have hsplit : (List.range' n (n' - n)).map t.tileElement =
        (List.range' n (m - n)).map t.tileElement ++ (List.range' m (n' - m)).map t.tileElement := by
      have hm : n + (m - n) = m := Nat.add_sub_cancel' hle'
      have hsum : m - n + (n' - m) = n' - n := by omega
      have happend : List.range' n (m - n) ++ List.range' (n + (m - n)) (n' - m) =
          List.range' n (m - n + (n' - m)) :=
        List.range'_append_1 ..
      rw [hm, hsum] at happend
      rw [← List.map_append, happend]
    have hlen : c.fetched.length = ((List.range' n (m - n)).map t.tileElement).length := by
      rw [hcall.length_fetched, List.length_map, List.length_range']
    rw [List.flatMap_cons, hsplit, List.forall_mem_cons, ← hcall.fetched_iff, ← ih]
    exact ⟨fun h => List.append_inj h hlen, fun h => by rw [h.1, h.2]⟩

theorem unpacks_tile (hrun : Run (Unpacks t) 0 calls 1024) :
    calls.flatMap UnpacrCall.fetched = (List.range 1024).map t.tileElement ↔
      ∀ c ∈ calls, if t.shiftAmount.toNat = 0 then c.InFirstRow else c.KnowsWidth := by
  have hiff := (unpacks_run hrun).2
  rwa [Nat.sub_zero, ← List.range_eq_range'] at hiff

theorem datums_run (hrun : Run (Unpacks t) n calls n') (l1 : Bytes) :
    calls.flatMap (·.datums l1) = (calls.flatMap UnpacrCall.fetched).map
      (fetchDatum l1 (w32 t.dsb) t.inDataFmt) := by
  induction hrun with
  | nil => rfl
  | cons hcall _ ih => rw [List.flatMap_cons, List.flatMap_cons, List.map_append, hcall.datums_eq, ih]

theorem last_call (hrun : Run (Unpacks t) n calls n') (hlt : n < n') :
    ∃ c ∈ calls, c.plan.numDatums.toNat ≠ 0 ∧ c.plan.firstDatum.toNat + c.plan.numDatums.toNat = n' := by
  induction hrun with
  | nil => exact absurd hlt (Nat.lt_irrefl _)
  | @cons n m n' c calls hcall hrest ih =>
    by_cases hm : m < n'
    · obtain ⟨c', hc', hlast⟩ := ih hm
      exact ⟨c', .tail _ hc', hlast⟩
    · obtain rfl : m = n' := Nat.le_antisymm (unpacks_run hrest).1 (Nat.le_of_not_lt hm)
      have hnext := hcall.next
      exact ⟨c, .head _, by omega, by rw [hcall.first, hnext]⟩

end sequences

/-- However the datums of a tile are shared between UNPACR calls, they are fetched from their places
in the row-major input exactly if there is a row stride and every call knows that the tile is
wide. -/
theorem tileize_split_iff {calls : List UnpacrCall} (hrun : Run (Unpacks t) 0 calls 1024) :
    (calls.flatMap UnpacrCall.fetched = (List.range 1024).map t.tileElement ↔
      t.shiftAmount.toNat ≠ 0 ∧ ∀ c ∈ calls, c.KnowsWidth) ∧
    ∀ l1, calls.flatMap (·.datums l1) =
      (calls.flatMap UnpacrCall.fetched).map (fetchDatum l1 (w32 t.dsb) t.inDataFmt) := by
  refine ⟨?_, datums_run hrun⟩
  rw [unpacks_tile hrun]
  split_ifs with hzero
  · constructor
    · intro hall
      obtain ⟨c, hc, hne, hlast⟩ := last_call hrun (by decide)
      rcases hall c hc with hnone | hrow
      · exact absurd hnone hne
      · omega
    · exact fun h => absurd hzero h.1
  · exact (and_iff_right hzero).symm

def bf16Tile : TileInput := ⟨16, 4, 5⟩

def bf16Call (z width : Word) : UnpacrCall where
  tt :=
    { tensixInit
        { l1Scratchpad := some fun _ => 0
          highMem := some fun a =>
            if a = tensixCfgOffsetInHighMem + 64 * 4 then 0x05
            else if a = tensixCfgOffsetInHighMem + 64 * 4 + 3 ∨
              a = tensixCfgOffsetInHighMem + 65 * 4 then 0x01
            else if a = tensixCfgOffsetInHighMem + 72 * 4 + 1 then 0x02
            else if a = tensixCfgOffsetInHighMem + 72 * 4 + 2 then 0x04
            else 0 } with
      adc := fun _ => { (tensixInit ⟨none, none⟩).adc 0 with ch0Z := z, ch1X := width - 1 } }
  imm := 0
  tid := 0

theorem bf16Call_starts : unpacrStarts (bf16Call 0 0).tt 0 = true := by decide

theorem bf16Call_tile : (bf16Call 0 0).plan.zeroWrite = false ∧ (bf16Call 0 0).plan.tileizeMode = true ∧
    (bf16Call 0 0).plan.inAddr = bf16Tile.inAddr ∧ (bf16Call 0 0).plan.shiftAmount = bf16Tile.shiftAmount ∧
    (bf16Call 0 0).plan.inDataFmt = bf16Tile.inDataFmt := by
  decide

theorem bf16Call_unpacks {z width : Word} {n n' : ℕ}
    (h : ((bf16Call z width).plan.firstDatum.toNat = n ∧ n + (bf16Call z width).plan.numDatums.toNat = n') ∧
      n' ≤ 1024) :
    Unpacks bf16Tile n (bf16Call z width) n' where
  starts := bf16Call_starts
  zeroWrite := bf16Call_tile.1
  tileizeMode := bf16Call_tile.2.1
  inAddr := bf16Call_tile.2.2.1
  shiftAmount := bf16Call_tile.2.2.2.1
  inDataFmt := bf16Call_tile.2.2.2.2
  plain := by decide
  first := h.1.1
  next := h.1.2
  tile := h.2

/-- The rest of the tile behind its first face, in one call. -/
def bf16Rest : UnpacrCall :=
  { bf16Call 0 0 with
    tt := { (bf16Call 0 0).tt with adc := fun _ =>
      { (bf16Call 0 0).tt.adc 0 with ch0X := 256, ch1X := 1023 } } }

theorem bf16Rest_unpacks : Unpacks bf16Tile 256 bf16Rest 1024 where
  starts := bf16Call_starts
  zeroWrite := bf16Call_tile.1
  tileizeMode := bf16Call_tile.2.1
  inAddr := bf16Call_tile.2.2.1
  shiftAmount := bf16Call_tile.2.2.2.1
  inDataFmt := bf16Call_tile.2.2.2.2
  plain := by decide
  first := by decide
  next := by decide
  tile := by decide

theorem tileize_split_faces :
    (bf16Call 0 256).plan.numDatums = 256 ∧ bf16Rest.plan.numDatums = 768 ∧
      [bf16Call 0 256, bf16Rest].flatMap UnpacrCall.fetched = (List.range 1024).map bf16Tile.tileElement := by
  have hrun : Run (Unpacks bf16Tile) 0 [bf16Call 0 256, bf16Rest] 1024 :=
    .cons (u := 256) (bf16Call_unpacks (by decide)) (.cons bf16Rest_unpacks (.nil _))
  have hface : (bf16Call 0 256).KnowsWidth := .inr (.inr (by decide))
  have hrest : bf16Rest.KnowsWidth := .inr (.inl (by decide))
  have hall : ∀ c ∈ [bf16Call 0 256, bf16Rest], c.KnowsWidth :=
    List.forall_mem_cons.mpr ⟨hface, List.forall_mem_singleton.mpr hrest⟩
  exact ⟨by decide, by decide, (tileize_split_iff hrun).1.mpr ⟨by decide, hall⟩⟩

theorem tileize_faces_misplaced :
    Run (Unpacks bf16Tile) 0 [bf16Call 0 256, bf16Call 1 256, bf16Call 2 256, bf16Call 3 256] 1024 ∧
      [bf16Call 0 256, bf16Call 1 256, bf16Call 2 256, bf16Call 3 256].flatMap UnpacrCall.fetched ≠
        (List.range 1024).map bf16Tile.tileElement := by
  have hrun : Run (Unpacks bf16Tile) 0 [bf16Call 0 256, bf16Call 1 256, bf16Call 2 256, bf16Call 3 256]
      1024 :=
    .cons (u := 256) (bf16Call_unpacks (by decide)) (.cons (u := 512) (bf16Call_unpacks (by decide))
      (.cons (u := 768) (bf16Call_unpacks (by decide)) (.cons (bf16Call_unpacks (by decide)) (.nil _))))
  have hstride : bf16Tile.shiftAmount.toNat ≠ 0 := by decide
  have hface : ¬(bf16Call 1 256).KnowsWidth := by
    unfold UnpacrCall.KnowsWidth
    decide
  refine ⟨hrun, fun hfetched => hface ?_⟩
  have hall := (unpacks_tile hrun).mp hfetched
  have hsecond := (List.forall_mem_cons.mp (List.forall_mem_cons.mp hall).2).1
  rwa [if_neg hstride] at hsecond

end Rv32Emu
