import Rv32Emu.Lib.RoutedMemory
import Rv32Emu.Tile.Mmio

namespace Rv32Emu

inductive Route
  | word
  | narrow
  | fetch
  deriving DecidableEq

inductive StoreWidth
  | sb
  | sh
  | sw
  deriving DecidableEq

namespace StoreWidth

def bytes : StoreWidth → ℕ
  | .sb => 1
  | .sh => 2
  | .sw => 4

def route : StoreWidth → Route
  | .sw => .word
  | _ => .narrow

end StoreWidth

structure StoreInsn where
  width : StoreWidth
  addr : Word
  value : Word

def StoreInsn.exec (fuel : ℕ) (c : MemConfig) (d : CoreMem) (s : StoreInsn) : Option CoreMem :=
  match s.width with
  | .sw => d.onMemWriteW c s.addr fuel s.value
  | .sh => some (memoryWriteS c d s.addr (s.value.setWidth 16))
  | .sb => some (memoryWriteB c d s.addr (s.value.setWidth 8))

inductive LoadKind
  | lb
  | lbu
  | lh
  | lhu
  | lw
  | fetch
  deriving DecidableEq

namespace LoadKind

def bytes : LoadKind → ℕ
  | .lb | .lbu => 1
  | .lh | .lhu => 2
  | .lw | .fetch => 4

def route : LoadKind → Route
  | .lw => .word
  | .fetch => .fetch
  | _ => .narrow

def exec (c : MemConfig) (d : CoreMem) (addr : Word) : LoadKind → Word
  | .lb => (memoryReadB c d addr).signExtend 32
  | .lbu => (memoryReadB c d addr).setWidth 32
  | .lh => (memoryReadS c d addr).signExtend 32
  | .lhu => (memoryReadS c d addr).setWidth 32
  | .lw => (d.onMemReadW c addr).1
  | .fetch => memoryIfetch d addr

end LoadKind

inductive Cell
  | mem (r : Region) (off : ℕ)
  | ldm (t : Tid) (off : ℕ)
  deriving DecidableEq

def Cell.shift (i : ℕ) : Cell → Cell
  | .mem r off => .mem r (off + i)
  | .ldm t off => .ldm t (off + i)

def ownWindow (c : MemConfig) (x : ℕ) : Option Tid := if c.tensix then perCore c.coreId x else none

def cellOf (c : MemConfig) (x : ℕ) : Route → Cell
  | .word =>
    match ownWindow c x with
    | some t => .ldm t (addrToLdmOffset x)
    | none => .mem (memoryPtr c x).1 (memoryPtr c x).2
  | .narrow => .mem (memoryPtr c x).1 (memoryPtr c x).2
  | .fetch => .mem (basePtr x).1 (basePtr x).2

def CoreMem.cell (d : CoreMem) : Cell → BitVec 8
  | .mem r off => d.region r off
  | .ldm t off => (d.tile.ldm t).getD (fun _ => 0) off

structure CoreMem.Mapped (d : CoreMem) : Prop where
  l1 : d.tile.core.mem.l1Scratchpad.isSome
  high : d.tile.core.mem.highMem.isSome
  ldm : ∀ t, (d.tile.ldm t).isSome

/-- The addresses without side effects: L1, local memory, the windows, and the stream overlay apart from its
UPDATE registers. -/
def PlainAddr (c : MemConfig) (x : ℕ) : Prop :=
  x < l1Size ∨ highMemOffset ≤ x ∧ x < highMemOffset + c.localSize ∨ isPerCoreAddr x = true ∨
    0xFFB40000 ≤ x ∧ x < 0xFFB80000 ∧ x % 0x1000 / 4 ≠ 0x438 / 4

section cells

variable {c : MemConfig} {x y i : ℕ} {r r' : Route}

theorem isPerCoreAddr_iff : isPerCoreAddr x = true ↔
    0xFFB80000 ≤ x ∧ x ≤ 0xFFB80023 ∨ 0xFFE00000 ≤ x ∧ x ≤ 0xFFE00FFF ∨ 0xFFE80000 ≤ x ∧ x ≤ 0xFFE8001F := by
  simp [isPerCoreAddr, or_assoc]

def addrOf : Cell → ℕ
  | .mem .l1 off => off
  | .mem .high off => highMemOffset + off
  | .mem .loc off => highMemOffset + off
  | .ldm _ off =>
    if off < 0x2100 then 0xFFB80000 + (off - 0x2000)
    else if off < 0x3100 then 0xFFE00000 + (off - 0x2100)
    else 0xFFE80000 + (off - 0x3100)

theorem plainAddr_iff : PlainAddr c x ↔
    x < 0x180000 ∨ 0xFFB00000 ≤ x ∧ x < 0xFFB00000 + c.localSize ∨
      (0xFFB80000 ≤ x ∧ x ≤ 0xFFB80023 ∨ 0xFFE00000 ≤ x ∧ x ≤ 0xFFE00FFF ∨ 0xFFE80000 ≤ x ∧ x ≤ 0xFFE8001F) ∨
      0xFFB40000 ≤ x ∧ x < 0xFFB80000 ∧ x % 0x1000 / 4 ≠ 0x438 / 4 := by
  unfold PlainAddr
  rw [isPerCoreAddr_iff]
  rfl

theorem addrOf_memoryPtr (hx : PlainAddr c x) : addrOf (.mem (memoryPtr c x).1 (memoryPtr c x).2) = x := by
  have hl := c.localSize_le
  have hhigh : highMemOffset = 0xFFB00000 := rfl
  have hsize : memSize = 0x200000 := rfl
  rw [plainAddr_iff] at hx
  unfold memoryPtr basePtr
  split_ifs <;> simp only [addrOf] <;> omega

theorem addrOf_ldm (t : Tid) (hx : isPerCoreAddr x = true) : addrOf (.ldm t (addrToLdmOffset x)) = x := by
  rw [isPerCoreAddr_iff] at hx
  unfold addrToLdmOffset
  simp only [addrOf]
  split_ifs <;> omega

theorem ownWindow_window {t : Tid} (h : ownWindow c x = some t) : isPerCoreAddr x = true := by
  unfold ownWindow perCore at h
  split_ifs at h with _ hp
  exact hp

theorem addrOf_cellOf (hx : PlainAddr c x) (hr : r = .fetch → x < highMemOffset) :
    addrOf (cellOf c x r) = x := by
  cases r with
  | word =>
    cases hw : ownWindow c x with
    | some t =>
      simp only [cellOf, hw]
      exact addrOf_ldm t (ownWindow_window hw)
    | none =>
      simp only [cellOf, hw]
      exact addrOf_memoryPtr hx
  | narrow => exact addrOf_memoryPtr hx
  | fetch =>
    have hb : basePtr x = memoryPtr c x := (if_pos (hr rfl)).symm
    simp only [cellOf, hb]
    exact addrOf_memoryPtr hx

theorem addrOf_fetch (hx : highMemOffset ≤ x) : 2 ^ 32 ≤ addrOf (cellOf c x .fetch) := by
  have hhigh : highMemOffset = 0xFFB00000 := rfl
  have hsize : memSize = 0x200000 := rfl
  have hb : basePtr x = (.high, x - memSize) := if_neg (by omega)
  simp only [cellOf, hb, addrOf]
  omega

theorem PlainAddr.lt (hx : PlainAddr c x) : x < 2 ^ 32 := by
  have hl := c.localSize_le
  rw [plainAddr_iff] at hx
  omega

theorem cellOf_inj (hx : PlainAddr c x) (hy : PlainAddr c y) (hr : r' ≠ .fetch)
    (h : cellOf c x r = cellOf c y r') :
    x = y := by
  have hy' := addrOf_cellOf hy fun hf => absurd hf hr
  by_cases hf : r = .fetch → x < highMemOffset
  · rw [← addrOf_cellOf hx hf, h, hy']
  · obtain ⟨rfl, hlt⟩ := Classical.not_imp.mp hf
    have hbig : 2 ^ 32 ≤ addrOf (cellOf c x .fetch) := addrOf_fetch (Nat.le_of_not_lt hlt)
    rw [h, hy'] at hbig
    exact absurd hy.lt (Nat.not_lt.mpr hbig)

theorem memoryPtr_add {n : ℕ} (hx : x % 4 + n ≤ 4) (hi : i < n) :
    memoryPtr c (x + i) = ((memoryPtr c x).1, (memoryPtr c x).2 + i) := by
  obtain ⟨k, hk⟩ := c.four_dvd_localSize
  have hhigh : highMemOffset = 0xFFB00000 := rfl
  have hsize : memSize = 0x200000 := rfl
  unfold memoryPtr basePtr
  split_ifs <;> first | omega | (simp only [Prod.mk.injEq, true_and] <;> omega)

theorem isPerCoreAddr_add {n : ℕ} (hx : x % 4 + n ≤ 4) (hi : i < n) :
    isPerCoreAddr (x + i) = isPerCoreAddr x := by
  apply Bool.eq_iff_iff.mpr
  rw [isPerCoreAddr_iff, isPerCoreAddr_iff]
  omega

theorem addrToLdmOffset_add {n : ℕ} (hx : x % 4 + n ≤ 4) (hi : i < n) (hp : isPerCoreAddr x = true) :
    addrToLdmOffset (x + i) = addrToLdmOffset x + i := by
  rw [isPerCoreAddr_iff] at hp
  simp only [addrToLdmOffset]
  split_ifs <;> omega

theorem cellOf_add {n : ℕ} (hx : x % 4 + n ≤ 4) (hi : i < n) (hr : r ≠ .fetch) :
    cellOf c (x + i) r = (cellOf c x r).shift i := by
  have hmem : Cell.mem (memoryPtr c (x + i)).1 (memoryPtr c (x + i)).2 =
      (Cell.mem (memoryPtr c x).1 (memoryPtr c x).2).shift i := by
    rw [memoryPtr_add hx hi]
    rfl
  cases r with
  | fetch => exact absurd rfl hr
  | narrow => exact hmem
  | word =>
    have hown : ownWindow c (x + i) = ownWindow c x := by
      simp only [ownWindow, perCore, isPerCoreAddr_add hx hi]
    cases hw : ownWindow c x with
    | some t =>
      simp only [cellOf, hown, hw, addrToLdmOffset_add hx hi (ownWindow_window hw), Cell.shift]
    | none =>
      simp only [cellOf, hown, hw]
      exact hmem

end cells

section store

variable {c : MemConfig} {d : CoreMem}

theorem CoreMem.setRegion_cell (hd : d.Mapped) (m : Bytes) (r : Region) (cell : Cell) :
    (d.setRegion m r).cell cell =
      match cell with
      | .mem r' off => if r' = r then m off else d.cell (.mem r' off)
      | .ldm t off => d.cell (.ldm t off) := by
  obtain ⟨l1, hl1⟩ := Option.isSome_iff_exists.mp hd.l1
  obtain ⟨high, hhigh⟩ := Option.isSome_iff_exists.mp hd.high
  cases cell with
  | mem r' off =>
    cases r <;> cases r' <;> simp [CoreMem.cell, CoreMem.setRegion, CoreMem.setMem, CoreMem.region, hl1,
      hhigh]
  | ldm t off => cases r <;> rfl

theorem CoreMem.Mapped.setRegion (hd : d.Mapped) (m : Bytes) (r : Region) : (d.setRegion m r).Mapped := by
  cases r with
  | l1 => exact ⟨by simpa [CoreMem.setRegion, CoreMem.setMem] using hd.l1, hd.high, hd.ldm⟩
  | high => exact ⟨hd.l1, by simpa [CoreMem.setRegion, CoreMem.setMem] using hd.high, hd.ldm⟩
  | loc => exact ⟨hd.l1, hd.high, hd.ldm⟩

structure Stored (d : CoreMem) (cell : Cell) (n : ℕ) (w : Word) (d' : CoreMem) : Prop where
  mapped : d'.Mapped
  inside : ∀ i < n, d'.cell (cell.shift i) = byteOf w i
  outside : ∀ cell', (∀ i < n, cell' ≠ cell.shift i) → d'.cell cell' = d.cell cell'

theorem memoryWrite_stored (hd : d.Mapped) (addr : Word) (n : ℕ) (w : Word) :
    Stored d (cellOf c addr.toNat .narrow) n w (memoryWrite c d addr n w) := by
  unfold memoryWrite cellOf
  generalize memoryPtr c addr.toNat = p
  obtain ⟨r, off⟩ := p
  refine ⟨hd.setRegion _ _, fun i hi => ?_, fun cell' h => ?_⟩
  · simp only [Cell.shift, CoreMem.setRegion_cell hd, if_true]
    rw [Bytes.store_apply, if_pos (by omega), Nat.add_sub_cancel_left]
  · rw [CoreMem.setRegion_cell hd]
    cases cell' with
    | ldm t o => rfl
    | mem r' o =>
      dsimp only
      split_ifs with hr
      · subst hr
        rw [Bytes.store_apply, if_neg]
        · rfl
        · rintro ⟨h₀, h₁⟩
          refine h (o - off) (by omega) ?_
          simp only [Cell.shift, Cell.mem.injEq, true_and]
          omega
      · rfl

theorem plain_inMailboxRange {addr : Word} (hx : PlainAddr c addr.toNat) : inMailboxRange addr = false := by
  have hl := c.localSize_le
  rw [plainAddr_iff] at hx
  have hbase : mailboxAddrBase.toNat = 0xFFEC0000 := rfl
  have hend : mailboxAddrEnd.toNat = 0xFFEC3FFF := rfl
  simp only [inMailboxRange, hbase, hend, Bool.and_eq_false_iff, decide_eq_false_iff_not]
  omega

section mmio

variable (tt : TensixTile) {addr : Word} (hx : PlainAddr c addr.toNat)

include hx

theorem plain_mmioWrite_window {t : Tid} (hp : perCore c.coreId addr.toNat = some t) (fuel : ℕ) (w : Word) :
    tt.tensixMmioWrite fuel c.coreId addr w = some (true, tt.writePerCore t addr.toNat w) := by
  have hmail := plain_inMailboxRange hx
  have hl := c.localSize_le
  rw [plainAddr_iff] at hx
  unfold TensixTile.tensixMmioWrite
  dsimp only
  rw [hmail, if_neg Bool.false_ne_true, if_neg (by omega), hp]

theorem plain_mmioWrite_rest (hp : perCore c.coreId addr.toNat = none) (fuel : ℕ) (w : Word) :
    tt.tensixMmioWrite fuel c.coreId addr w =
      if 0xFFB40000 ≤ addr.toNat ∧ addr.toNat < 0xFFB80000 then some (true, tt.writeStream addr.toNat w)
      else some (false, tt) := by
  have hmail := plain_inMailboxRange hx
  have hl := c.localSize_le
  rw [plainAddr_iff] at hx
  unfold TensixTile.tensixMmioWrite
  dsimp only
  rw [hmail, if_neg Bool.false_ne_true, if_neg (by omega), hp]
  dsimp only
  rw [if_neg (by omega)]
  by_cases hs : 0xFFB40000 ≤ addr.toNat ∧ addr.toNat < 0xFFB80000
  · rw [if_pos hs, if_pos hs]
  · rw [if_neg hs, if_neg hs, if_neg (by omega), if_neg (by omega), if_neg (by omega)]

theorem plain_mmioRead_window {v : Word} (hp : tt.readPerCore c.coreId addr.toNat = some v) :
    tt.tensixMmioRead c.coreId addr = (some v, tt) := by
  have hmail := plain_inMailboxRange hx
  have hl := c.localSize_le
  rw [plainAddr_iff] at hx
  unfold TensixTile.tensixMmioRead
  dsimp only
  rw [hmail, if_neg Bool.false_ne_true, if_neg (by omega), hp]

theorem plain_mmioRead_rest (hp : tt.readPerCore c.coreId addr.toNat = none) :
    tt.tensixMmioRead c.coreId addr =
      if 0xFFB40000 ≤ addr.toNat ∧ addr.toNat < 0xFFB80000 then
        (tt.core.mem.highMem.map fun m => m.load (addr.toNat - highMemOffset) 4, tt)
      else (none, tt) := by
  have hmail := plain_inMailboxRange hx
  have hl := c.localSize_le
  have hhigh : highMemOffset = 0xFFB00000 := rfl
  rw [plainAddr_iff] at hx
  unfold TensixTile.tensixMmioRead
  dsimp only
  rw [hmail, if_neg Bool.false_ne_true, if_neg (by omega), hp]
  dsimp only
  rw [if_neg (by omega)]
  by_cases hs : 0xFFB40000 ≤ addr.toNat ∧ addr.toNat < 0xFFB80000
  · rw [if_pos hs, if_pos hs]
    cases tt.core.mem.highMem with
    | none => rfl
    | some m =>
      dsimp only
      rw [if_pos (by omega)]
      rfl
  · rw [if_neg hs, if_neg hs, if_neg (by omega), if_neg (by omega), if_neg (by omega)]

end mmio

theorem stream_memoryPtr {x : ℕ} (hs : 0xFFB40000 ≤ x ∧ x < 0xFFB80000) :
    memoryPtr c x = (.high, x - highMemOffset) := by
  have hl := c.localSize_le
  have hhigh : highMemOffset = 0xFFB00000 := rfl
  unfold memoryPtr
  rw [if_neg (by omega), if_neg (by omega)]

theorem writeStream_eq (hd : d.Mapped) {addr : Word} (hx : PlainAddr c addr.toNat)
    (hs : 0xFFB40000 ≤ addr.toNat ∧ addr.toNat < 0xFFB80000) (w : Word) :
    { d with tile := d.tile.writeStream addr.toNat w } = memoryWriteW c d addr w := by
  have hl := c.localSize_le
  have hhigh : highMemOffset = 0xFFB00000 := rfl
  rw [plainAddr_iff] at hx
  obtain ⟨m, hm⟩ := Option.isSome_iff_exists.mp hd.high
  have hstream : storeStream m (addr.toNat - highMemOffset) w = m := by
    unfold storeStream
    rw [if_neg (by omega)]
  have hptr : memoryPtr c addr.toNat = (.high, addr.toNat - highMemOffset) := stream_memoryPtr hs
  unfold TensixTile.writeStream memoryWriteW memoryWrite
  dsimp only
  rw [hptr]
  simp only [CoreMem.setRegion, CoreMem.setMem, CoreMem.region, hm, Option.map_some, Option.getD_some,
    hstream]
  rw [if_pos (by omega)]

theorem writePerCore_core (tt : TensixTile) (t : Tid) (x : ℕ) (w : Word) :
    (tt.writePerCore t x w).core = tt.core := by
  unfold TensixTile.writePerCore TensixTile.tensixWriteMopCfg
  dsimp only
  split_ifs <;> rfl

theorem writePerCore_ldm (tt : TensixTile) (t : Tid) {x : ℕ} (hx : isPerCoreAddr x = true) (w : Word) :
    (tt.writePerCore t x w).ldm =
      Function.update tt.ldm t ((tt.ldm t).map fun m => m.store (addrToLdmOffset x) 4 w) := by
  have hoff : addrToLdmOffset x < ldmSize := by
    have hsize : ldmSize = 0x4000 := rfl
    rw [isPerCoreAddr_iff] at hx
    unfold addrToLdmOffset
    split_ifs <;> omega
  unfold TensixTile.writePerCore TensixTile.tensixWriteMopCfg
  dsimp only
  rw [if_pos hoff]
  split_ifs <;> rfl

theorem writePerCore_stored (hd : d.Mapped) (t : Tid) {x : ℕ} (hx : isPerCoreAddr x = true) (w : Word) :
    Stored d (.ldm t (addrToLdmOffset x)) 4 w { d with tile := d.tile.writePerCore t x w } := by
  obtain ⟨m, hm⟩ := Option.isSome_iff_exists.mp (hd.ldm t)
  have hcore := writePerCore_core d.tile t x w
  have hldm := writePerCore_ldm d.tile t hx w
  rw [hm, Option.map_some] at hldm
  refine ⟨⟨?_, ?_, fun u => ?_⟩, fun i hi => ?_, fun cell h => ?_⟩
  · rw [hcore]
    exact hd.l1
  · rw [hcore]
    exact hd.high
  · rw [hldm]
    by_cases hu : u = t
    · subst hu
      rw [Function.update_self]
      rfl
    · rw [Function.update_of_ne hu]
      exact hd.ldm u
  · simp only [Cell.shift, CoreMem.cell, hldm, Function.update_self, Option.getD_some]
    rw [Bytes.store_apply, if_pos (by omega), Nat.add_sub_cancel_left]
  · cases cell with
    | mem r off => cases r <;> simp only [CoreMem.cell, CoreMem.region, hcore]
    | ldm u off =>
      simp only [CoreMem.cell, hldm]
      by_cases hu : u = t
      · subst hu
        rw [Function.update_self, hm, Option.getD_some, Option.getD_some, Bytes.store_apply, if_neg]
        rintro ⟨h₀, h₁⟩
        refine h (off - addrToLdmOffset x) (by omega) ?_
        simp only [Cell.shift, Cell.ldm.injEq, true_and]
        omega
      · rw [Function.update_of_ne hu]

theorem cellOf_word_of_none {x : ℕ} (h : ownWindow c x = none) : cellOf c x .word = cellOf c x .narrow := by
  simp only [cellOf, h]

theorem onMemWriteW_stored (hd : d.Mapped) {addr : Word} (hx : PlainAddr c addr.toNat) (fuel : ℕ) (w : Word) :
    ∃ d', d.onMemWriteW c addr fuel w = some d' ∧ Stored d (cellOf c addr.toNat .word) 4 w d' := by
  unfold CoreMem.onMemWriteW
  cases ht : c.tensix with
  | false =>
    rw [cellOf_word_of_none (by simp [ownWindow, ht])]
    exact ⟨_, rfl, memoryWrite_stored hd addr 4 w⟩
  | true =>
    have hown : ownWindow c addr.toNat = perCore c.coreId addr.toNat := by simp [ownWindow, ht]
    cases hp : perCore c.coreId addr.toNat with
    | some t =>
      rw [plain_mmioWrite_window d.tile hx hp]
      refine ⟨_, rfl, ?_⟩
      rw [hp] at hown
      simp only [cellOf, hown]
      exact writePerCore_stored hd t (ownWindow_window hown) w
    | none =>
      rw [plain_mmioWrite_rest d.tile hx hp, cellOf_word_of_none (hown.trans hp)]
      by_cases hs : 0xFFB40000 ≤ addr.toNat ∧ addr.toNat < 0xFFB80000
      · rw [if_pos hs]
        refine ⟨_, rfl, ?_⟩
        rw [writeStream_eq hd hx hs]
        exact memoryWrite_stored hd addr 4 w
      · rw [if_neg hs]
        exact ⟨_, rfl, memoryWrite_stored hd addr 4 w⟩

structure StoreInsn.Plain (c : MemConfig) (s : StoreInsn) : Prop where
  addr : PlainAddr c s.addr.toNat
  aligned : s.addr.toNat % s.width.bytes = 0

theorem StoreInsn.Plain.fits {s : StoreInsn} (hs : s.Plain c) : s.addr.toNat % 4 + s.width.bytes ≤ 4 := by
  have ha := hs.aligned
  cases hw : s.width <;> rw [hw] at ha <;> simp only [StoreWidth.bytes] at ha ⊢ <;> omega

theorem Stored.mono_value {cell : Cell} {n : ℕ} {w w' : Word} {d' : CoreMem} (h : Stored d cell n w d')
    (hw : ∀ i < n, byteOf w i = byteOf w' i) : Stored d cell n w' d' :=
  ⟨h.mapped, fun i hi => (h.inside i hi).trans (hw i hi), h.outside⟩

theorem byteOf_setWidth (w : Word) {k i : ℕ} (hi : 8 * i + 8 ≤ k) (hk : k ≤ 32) :
    byteOf ((w.setWidth k).setWidth 32) i = byteOf w i := by
  apply BitVec.eq_of_getLsbD_eq
  intro j hj
  simp [byteOf, hj, show 8 * i + j < k by omega, show 8 * i + j < 32 by omega]

theorem StoreInsn.exec_stored (hd : d.Mapped) {s : StoreInsn} (hs : s.Plain c) (fuel : ℕ) :
    ∃ d', s.exec fuel c d = some d' ∧ Stored d (cellOf c s.addr.toNat s.width.route) s.width.bytes s.value
      d' := by
  unfold StoreInsn.exec
  cases s.width with
  | sw => exact onMemWriteW_stored hd hs.addr fuel s.value
  | sh =>
    refine ⟨_, rfl, (memoryWrite_stored hd s.addr 2 _).mono_value fun i hi => ?_⟩
    exact byteOf_setWidth s.value (by omega) (by omega)
  | sb =>
    refine ⟨_, rfl, (memoryWrite_stored hd s.addr 1 _).mono_value fun i hi => ?_⟩
    exact byteOf_setWidth s.value (by omega) (by omega)

theorem StoreWidth.route_ne_fetch (w : StoreWidth) : w.route ≠ .fetch := by cases w <;> decide

theorem PlainAddr.add {x n i : ℕ} (hx : PlainAddr c x) (hn : x % 4 + n ≤ 4) (hi : i < n) :
    PlainAddr c (x + i) := by
  obtain ⟨k, hk⟩ := c.four_dvd_localSize
  rw [plainAddr_iff] at hx ⊢
  omega

def StoreInsn.Covers (s : StoreInsn) (x : ℕ) : Prop := s.addr.toNat ≤ x ∧ x < s.addr.toNat + s.width.bytes

def routedMemory (fuel : ℕ) (c : MemConfig) : RoutedMemory CoreMem StoreInsn Route ℕ (BitVec 8) where
  read d r x := d.cell (cellOf c x r)
  write d s := (s.exec fuel c d).getD d
  route s := s.width.route
  covers := StoreInsn.Covers
  value s x := byteOf s.value (x - s.addr.toNat)
  same r r' x := cellOf c x r = cellOf c x r'

theorem routedMemory_lawful (fuel : ℕ) (c : MemConfig) :
    (routedMemory fuel c).Lawful CoreMem.Mapped (StoreInsn.Plain c) (PlainAddr c) := by
  constructor
  · intro d s hd hs
    obtain ⟨d', he, hst⟩ := s.exec_stored hd hs fuel
    simp only [routedMemory, he, Option.getD_some]
    exact hst.mapped
  · intro d s r x hd hs hx hc hsame
    obtain ⟨d', he, hst⟩ := s.exec_stored hd hs fuel
    simp only [routedMemory, StoreInsn.Covers, he, Option.getD_some] at hc hsame ⊢
    obtain ⟨i, rfl⟩ := Nat.exists_eq_add_of_le hc.1
    have hi : i < s.width.bytes := by omega
    rw [← hsame, cellOf_add hs.fits hi s.width.route_ne_fetch, hst.inside i hi, Nat.add_sub_cancel_left]
  · intro d s r x hd hs hx hno
    obtain ⟨d', he, hst⟩ := s.exec_stored hd hs fuel
    simp only [routedMemory, StoreInsn.Covers, he, Option.getD_some] at hno ⊢
    apply hst.outside
    intro i hi heq
    rw [← cellOf_add hs.fits hi s.width.route_ne_fetch] at heq
    obtain rfl := cellOf_inj hx (hs.addr.add hs.fits hi) s.width.route_ne_fetch heq
    exact hno ⟨⟨by omega, by omega⟩, heq.symm⟩

def storeAll (fuel : ℕ) (c : MemConfig) (d : CoreMem) (ss : List StoreInsn) : Option CoreMem :=
  ss.foldlM (StoreInsn.exec fuel c) d

theorem storeAll_eq (hd : d.Mapped) {ss : List StoreInsn} (hs : ∀ s ∈ ss, s.Plain c) (fuel : ℕ) :
    storeAll fuel c d ss = some ((routedMemory fuel c).writeAll d ss) := by
  unfold storeAll
  induction ss generalizing d with
  | nil => rfl
  | cons s ss ih =>
    obtain ⟨d', he, hst⟩ := s.exec_stored hd (hs s List.mem_cons_self) fuel
    rw [List.foldlM_cons, he]
    refine (ih hst.mapped fun u hu => hs u (List.mem_cons_of_mem _ hu)).trans ?_
    simp only [RoutedMemory.writeAll, List.foldl_cons, routedMemory, he, Option.getD_some]

end store

section load

variable {c : MemConfig} {d : CoreMem} {addr : Word} {n i : ℕ}

theorem memoryRead_byte (ha : addr.toNat % 4 + n ≤ 4) (hi : i < n) :
    byteOf (memoryRead c d addr n) i = d.cell (cellOf c (addr.toNat + i) .narrow) := by
  unfold memoryRead
  rw [Bytes.byteOf_load _ _ (by omega) hi, cellOf_add ha hi (by decide)]
  rfl

theorem onMemReadW_byte (hd : d.Mapped) (hx : PlainAddr c addr.toNat) (ha : addr.toNat % 4 + 4 ≤ 4)
    (hi : i < 4) :
    byteOf (d.onMemReadW c addr).1 i = d.cell (cellOf c (addr.toNat + i) .word) := by
  rw [cellOf_add ha hi (by decide)]
  unfold CoreMem.onMemReadW
  have hraw : byteOf (memoryReadW c d addr) i = d.cell ((cellOf c addr.toNat .narrow).shift i) := by
    rw [← cellOf_add ha hi (by decide)]
    exact memoryRead_byte ha hi
  cases ht : c.tensix with
  | false =>
    rw [cellOf_word_of_none (by simp [ownWindow, ht])]
    exact hraw
  | true =>
    have hown : ownWindow c addr.toNat = perCore c.coreId addr.toNat := by simp [ownWindow, ht]
    cases hp : perCore c.coreId addr.toNat with
    | some t =>
      obtain ⟨m, hm⟩ := Option.isSome_iff_exists.mp (hd.ldm t)
      rw [hp] at hown
      have hread : d.tile.readPerCore c.coreId addr.toNat = some (m.load (addrToLdmOffset addr.toNat) 4) := by
        have hwin := ownWindow_window hown
        have hsize : ldmSize = 0x4000 := rfl
        have hoff : addrToLdmOffset addr.toNat < ldmSize := by
          rw [isPerCoreAddr_iff] at hwin
          unfold addrToLdmOffset
          split_ifs <;> omega
        simp only [TensixTile.readPerCore, hp, hm, if_pos hoff]
      rw [plain_mmioRead_window d.tile hx hread]
      simp only [if_true, cellOf, hown, Cell.shift, CoreMem.cell, hm, Option.getD_some]
      exact Bytes.byteOf_load _ _ (by omega) hi
    | none =>
      have hread : d.tile.readPerCore c.coreId addr.toNat = none := by simp only [TensixTile.readPerCore, hp]
      rw [plain_mmioRead_rest d.tile hx hread, cellOf_word_of_none (hown.trans hp)]
      by_cases hs : 0xFFB40000 ≤ addr.toNat ∧ addr.toNat < 0xFFB80000
      · obtain ⟨m, hm⟩ := Option.isSome_iff_exists.mp hd.high
        have hptr : memoryPtr c addr.toNat = (.high, addr.toNat - highMemOffset) := stream_memoryPtr hs
        simp only [if_pos hs, if_true, hm, Option.map_some, cellOf, hptr, Cell.shift, CoreMem.cell,
          CoreMem.region, Option.getD_some]
        exact Bytes.byteOf_load _ _ (by omega) hi
      · simp only [if_neg hs, if_true]
        exact hraw

structure LoadKind.Plain (c : MemConfig) (k : LoadKind) (addr : Word) : Prop where
  plain : ∀ i < k.bytes, PlainAddr c (addr.toNat + i)
  aligned : k ≠ .fetch → addr.toNat % k.bytes = 0

theorem memoryIfetch_byte (hx : ∀ i < 4, PlainAddr c (addr.toNat + i)) (hi : i < 4) :
    byteOf (memoryIfetch d addr) i = d.cell (cellOf c (addr.toNat + i) .fetch) := by
  have hl := c.localSize_le
  have hsize : memSize = 0x200000 := rfl
  have h₀ := plainAddr_iff.mp (hx 0 (by omega))
  have h₁ := plainAddr_iff.mp (hx i hi)
  have hptr : basePtr (addr.toNat + i) = ((basePtr addr.toNat).1, (basePtr addr.toNat).2 + i) := by
    unfold basePtr
    split_ifs <;> first | omega | (simp only [Prod.mk.injEq, true_and] <;> omega)
  unfold memoryIfetch
  rw [Bytes.byteOf_load _ _ (by omega) hi]
  simp only [cellOf, hptr, CoreMem.cell]

theorem byteOf_signExtend (w : Word) {k : ℕ} (hi : 8 * i + 8 ≤ k) (hk : k ≤ 32) :
    byteOf ((w.setWidth k).signExtend 32) i = byteOf w i := by
  apply BitVec.eq_of_getLsbD_eq
  intro j hj
  simp [byteOf, hj, BitVec.getElem_signExtend, show 8 * i + j < k by omega, show 8 * i + j < 32 by omega]

theorem LoadKind.exec_byte (hd : d.Mapped) {k : LoadKind} (hk : k.Plain c addr) (hi : i < k.bytes) :
    byteOf (k.exec c d addr) i = d.cell (cellOf c (addr.toNat + i) k.route) := by
  have ha := hk.aligned
  cases k with
  | lb =>
    simp only [LoadKind.bytes] at hi
    exact (byteOf_signExtend _ (by omega) (by omega)).trans (memoryRead_byte (by omega) hi)
  | lbu =>
    simp only [LoadKind.bytes] at hi
    exact (byteOf_setWidth _ (by omega) (by omega)).trans (memoryRead_byte (by omega) hi)
  | lh =>
    have ha := ha (by decide)
    simp only [LoadKind.bytes] at ha hi
    exact (byteOf_signExtend _ (by omega) (by omega)).trans (memoryRead_byte (by omega) hi)
  | lhu =>
    have ha := ha (by decide)
    simp only [LoadKind.bytes] at ha hi
    exact (byteOf_setWidth _ (by omega) (by omega)).trans (memoryRead_byte (by omega) hi)
  | lw =>
    have ha := ha (by decide)
    simp only [LoadKind.bytes] at ha hi
    exact onMemReadW_byte hd (hk.plain 0 (by decide)) (by omega) hi
  | fetch => exact memoryIfetch_byte hk.plain hi

def LoadKind.Extends (w : Word) : LoadKind → Prop
  | .lb => w = (w.setWidth 8).signExtend 32
  | .lbu => w = (w.setWidth 8).setWidth 32
  | .lh => w = (w.setWidth 16).signExtend 32
  | .lhu => w = (w.setWidth 16).setWidth 32
  | .lw | .fetch => True

theorem setWidth_signExtend {v : ℕ} (b : BitVec v) (hv : v ≤ 32) : (b.signExtend 32).setWidth v = b := by
  apply BitVec.eq_of_getLsbD_eq
  intro j hj
  simp [hj, BitVec.getElem_signExtend, show j < 32 by omega]

theorem setWidth_setWidth {v : ℕ} (b : BitVec v) (hv : v ≤ 32) : (b.setWidth 32).setWidth v = b := by
  apply BitVec.eq_of_getLsbD_eq
  intro j hj
  simp [hj, show j < 32 by omega]

theorem LoadKind.exec_extends (k : LoadKind) : k.Extends (k.exec c d addr) := by
  cases k with
  | lb => exact congrArg (BitVec.signExtend 32) (setWidth_signExtend _ (by decide)).symm
  | lbu => exact congrArg (BitVec.setWidth 32) (setWidth_setWidth _ (by decide)).symm
  | lh => exact congrArg (BitVec.signExtend 32) (setWidth_signExtend _ (by decide)).symm
  | lhu => exact congrArg (BitVec.setWidth 32) (setWidth_setWidth _ (by decide)).symm
  | lw => trivial
  | fetch => trivial

end load

section agree

variable {c : MemConfig} {ss ss' : List StoreInsn} {x : ℕ}

def LastStore (ss : List StoreInsn) (x : ℕ) (s : StoreInsn) : Prop :=
  ∃ before after, ss = before ++ s :: after ∧ s.Covers x ∧ ∀ u ∈ after, ¬u.Covers x

def ReadsBack (ss : List StoreInsn) (k : LoadKind) (addr w : Word) : Prop :=
  k.Extends w ∧ ∀ i < k.bytes, ∀ s, LastStore ss (addr.toNat + i) s →
    byteOf w i = byteOf s.value (addr.toNat + i - s.addr.toNat)

/-- A fetch stays below the high addresses, and in the windows of a TRISC that has its coprocessor attached a
word is loaded if and only if a word was stored. -/
def SameWay (c : MemConfig) (width : StoreWidth) (k : LoadKind) (x : ℕ) : Prop :=
  (k = .fetch → x < highMemOffset) ∧ ((ownWindow c x).isSome → (width = .sw ↔ k = .lw))

theorem cellOf_narrow_eq_fetch (hx : PlainAddr c x) :
    cellOf c x .narrow = cellOf c x .fetch ↔ x < highMemOffset := by
  constructor
  · intro h
    by_contra hlt
    have hbig : 2 ^ 32 ≤ addrOf (cellOf c x .fetch) := addrOf_fetch (Nat.le_of_not_lt hlt)
    have hn : addrOf (cellOf c x .narrow) = x := addrOf_cellOf hx fun hf => absurd hf (by decide)
    rw [← h, hn] at hbig
    exact absurd hx.lt (Nat.not_lt.mpr hbig)
  · intro hlt
    have hb : basePtr x = memoryPtr c x := (if_pos hlt).symm
    simp only [cellOf, hb]

theorem ownWindow_high {t : Tid} (h : ownWindow c x = some t) : highMemOffset ≤ x := by
  have hhigh : highMemOffset = 0xFFB00000 := rfl
  have hp := isPerCoreAddr_iff.mp (ownWindow_window h)
  omega

theorem cellOf_storeRoute_of_none (h : ownWindow c x = none) (width : StoreWidth) :
    cellOf c x width.route = cellOf c x .narrow := by
  cases width with
  | sw => exact cellOf_word_of_none h
  | sh => rfl
  | sb => rfl

theorem cellOf_window {t : Tid} (h : ownWindow c x = some t) :
    cellOf c x .word = .ldm t (addrToLdmOffset x) := by
  simp only [cellOf, h]

theorem sameWay_iff (hx : PlainAddr c x) (width : StoreWidth) (k : LoadKind) :
    cellOf c x width.route = cellOf c x k.route ↔ SameWay c width k x := by
  have hfetch := cellOf_narrow_eq_fetch hx
  cases hw : ownWindow c x with
  | none =>
    rw [cellOf_storeRoute_of_none hw]
    have hword := cellOf_word_of_none hw
    cases k <;> simp [SameWay, hw, LoadKind.route, hword, hfetch]
  | some t =>
    have hhigh := ownWindow_high hw
    have hnot : ¬x < highMemOffset := by omega
    have hword : ∀ r off, cellOf c x .word ≠ .mem r off := by
      rw [cellOf_window hw]
      exact fun r off h => Cell.noConfusion h
    have hnarrow : cellOf c x .word ≠ cellOf c x .narrow := hword _ _
    have hbase : cellOf c x .word ≠ cellOf c x .fetch := hword _ _
    rw [iff_false_right hnot] at hfetch
    cases width <;> cases k <;>
      simp [SameWay, hw, LoadKind.route, StoreWidth.route, hnot, hfetch, hnarrow, hnarrow.symm, hbase]

def StoreInsn.shape (s : StoreInsn) : StoreWidth × Word := (s.width, s.addr)

theorem StoreInsn.Plain.of_shape {s s' : StoreInsn} (h : s'.shape = s.shape) (hs : s.Plain c) :
    s'.Plain c := by
  obtain ⟨hw, ha⟩ := Prod.mk.injEq .. ▸ h
  exact ⟨ha ▸ hs.addr, ha ▸ hw ▸ hs.aligned⟩

theorem StoreInsn.Covers.of_shape {s s' : StoreInsn} (h : s'.shape = s.shape) (hs : s.Covers x) :
    s'.Covers x := by
  obtain ⟨hw, ha⟩ := Prod.mk.injEq .. ▸ h
  unfold StoreInsn.Covers
  rw [hw, ha]
  exact hs

theorem plain_of_shapes (h : ss'.map StoreInsn.shape = ss.map StoreInsn.shape) (hs : ∀ s ∈ ss, s.Plain c) :
    ∀ s ∈ ss', s.Plain c := by
  intro s hmem
  have hshape : s.shape ∈ ss.map StoreInsn.shape := h ▸ List.mem_map_of_mem hmem
  obtain ⟨u, hu, heq⟩ := List.mem_map.mp hshape
  exact (hs u hu).of_shape heq.symm

theorem LastStore.of_shapes {s : StoreInsn} (h : ss'.map StoreInsn.shape = ss.map StoreInsn.shape)
    (hs : LastStore ss' x s) : ∃ u, LastStore ss x u ∧ u.shape = s.shape := by
  obtain ⟨before, after, rfl, hc, hno⟩ := hs
  rw [List.map_append, List.map_cons] at h
  obtain ⟨b, rest, rfl, hb, hrest⟩ := List.map_eq_append_iff.mp h.symm
  obtain ⟨u, a, rfl, hu, ha⟩ := List.map_eq_cons_iff.mp hrest
  refine ⟨u, ⟨b, a, rfl, hc.of_shape hu, fun v hv hcv => ?_⟩, hu⟩
  have hshape : v.shape ∈ after.map StoreInsn.shape := ha ▸ List.mem_map_of_mem hv
  obtain ⟨v', hv', heq⟩ := List.mem_map.mp hshape
  exact hno v' hv' (hcv.of_shape heq)

theorem readsBack_of_sameWay {d : CoreMem} {k : LoadKind} {addr : Word} (hd : d.Mapped)
    (hs : ∀ s ∈ ss, s.Plain c) (hk : k.Plain c addr)
    (hsame : ∀ i < k.bytes, ∀ s, LastStore ss (addr.toNat + i) s → SameWay c s.width k (addr.toNat + i))
    (fuel : ℕ) : ReadsBack ss k addr (k.exec c ((routedMemory fuel c).writeAll d ss) addr) := by
  have hlaw := routedMemory_lawful fuel c
  refine ⟨k.exec_extends, fun i hi s hlast => ?_⟩
  have hx := hk.plain i hi
  rw [LoadKind.exec_byte (hlaw.writeAll_keeps hd hs) hk hi]
  apply hlaw.read_lastWrite (r := k.route) hd hs hx hlast
  exact (sameWay_iff hx s.width k).mpr (hsame i hi s hlast)

def StoreInsn.blank (s : StoreInsn) : StoreInsn := { s with value := 0 }

def CoreMem.blank : CoreMem where
  tile := TensixTile.tensixInit ⟨some fun _ => 0, some fun _ => 0⟩ (fun _ => some fun _ => 0) 0 (some 0) true
  loc := fun _ => 0

theorem CoreMem.blank_mapped : CoreMem.blank.Mapped := ⟨rfl, rfl, fun _ => rfl⟩

theorem CoreMem.blank_cell (cell : Cell) : CoreMem.blank.cell cell = 0 := by
  cases cell with
  | mem r off => cases r <;> rfl
  | ldm t off => rfl

theorem byteOf_zero (i : ℕ) : byteOf 0 i = 0 := by simp [byteOf]

theorem byteOf_ones : ∀ i < 4, byteOf 0xFFFFFFFF i ≠ 0 := by decide

theorem zero_read {before after : List StoreInsn} {s : StoreInsn} {k : LoadKind}
    (hs : ∀ u ∈ before.map StoreInsn.blank ++ s :: after.map StoreInsn.blank, u.Plain c) (hx : PlainAddr c x)
    (hne : cellOf c x s.width.route ≠ cellOf c x k.route) (fuel : ℕ) :
    ((routedMemory fuel c).writeAll .blank (before.map StoreInsn.blank ++
      s :: after.map StoreInsn.blank)).cell
      (cellOf c x k.route) = 0 := by
  apply (routedMemory_lawful fuel c).read_writeAll (r := k.route) CoreMem.blank_mapped hs hx
    (CoreMem.blank_cell _)
  intro u hu _ hsame
  have hblank : ∀ l : List StoreInsn, u ∈ l.map StoreInsn.blank → byteOf u.value (x - u.addr.toNat) = 0 := by
    intro l hl
    obtain ⟨v, _, rfl⟩ := List.mem_map.mp hl
    exact byteOf_zero _
  rcases List.mem_append.mp hu with hu | hu
  · exact hblank before hu
  rcases List.mem_cons.mp hu with rfl | hu
  · exact absurd hsame hne
  · exact hblank after hu

theorem access_widths_agree {k : LoadKind} {addr : Word} (hs : ∀ s ∈ ss, s.Plain c) (hk : k.Plain c addr) :
    (∀ fuel (d : CoreMem) ss', d.Mapped → ss'.map StoreInsn.shape = ss.map StoreInsn.shape →
        ∃ d', storeAll fuel c d ss' = some d' ∧ ReadsBack ss' k addr (k.exec c d' addr)) ↔
      ∀ i < k.bytes, ∀ s, LastStore ss (addr.toNat + i) s → SameWay c s.width k (addr.toNat + i) := by
  constructor
  · intro h i hi s hlast
    by_contra hway
    obtain ⟨before, after, rfl, hc, hno⟩ := hlast
    have hx := hk.plain i hi
    have hne := mt (sameWay_iff hx s.width k).mp hway
    let ones : StoreInsn := { s with value := 0xFFFFFFFF }
    let ss' := before.map StoreInsn.blank ++ ones :: after.map StoreInsn.blank
    have hshape : ss'.map StoreInsn.shape = (before ++ s :: after).map StoreInsn.shape := by
      have hblank : StoreInsn.shape ∘ StoreInsn.blank = StoreInsn.shape := rfl
      simp [ss', ones, hblank, StoreInsn.shape]
    have hs' := plain_of_shapes hshape hs
    obtain ⟨d', he, -, hread⟩ := h 0 .blank ss' CoreMem.blank_mapped hshape
    have hlast' : LastStore ss' (addr.toNat + i) ones := by
      refine ⟨_, _, rfl, hc, fun u hu hcu => ?_⟩
      obtain ⟨v, hv, rfl⟩ := List.mem_map.mp hu
      exact hno v hv hcu
    obtain rfl := Option.some.inj ((storeAll_eq CoreMem.blank_mapped hs' 0).symm.trans he)
    have hmapped := (routedMemory_lawful 0 c).writeAll_keeps CoreMem.blank_mapped hs'
    have hbyte := hread i hi ones hlast'
    rw [LoadKind.exec_byte hmapped hk hi, zero_read hs' hx hne] at hbyte
    have hbytes : s.width.bytes ≤ 4 := by cases s.width <;> decide
    have hlt : addr.toNat + i - s.addr.toNat < 4 := by
      have := hc.1
      have := hc.2
      omega
    exact byteOf_ones _ hlt hbyte.symm
  · intro hway fuel d ss' hd hshape
    have hs' := plain_of_shapes hshape hs
    refine ⟨_, storeAll_eq hd hs' fuel, readsBack_of_sameWay hd hs' hk (fun i hi s hlast => ?_) fuel⟩
    obtain ⟨u, hu, heq⟩ := hlast.of_shapes hshape
    have hwidth : u.width = s.width := congrArg Prod.fst heq
    exact hwidth ▸ hway i hi u hu

def trisc0Mem : MemConfig := ⟨0, true, 0x2000, by decide, by decide⟩

theorem StoreInsn.plain_of_lt {s : StoreInsn} (h : s.addr.toNat < l1Size)
    (ha : s.addr.toNat % s.width.bytes = 0) :
    s.Plain c :=
  ⟨.inl h, ha⟩

theorem access_widths_agree_l1 :
    (∀ s ∈ [StoreInsn.mk .sw 0x100 0, StoreInsn.mk .sb 0x101 0], s.Plain trisc0Mem) ∧
    LoadKind.lw.Plain trisc0Mem 0x100 ∧
    ∀ fuel (d : CoreMem) ss', d.Mapped → ss'.map StoreInsn.shape = [(.sw, 0x100), (.sb, 0x101)] →
      ∃ d', storeAll fuel trisc0Mem d ss' = some d' ∧
        ReadsBack ss' .lw 0x100 (LoadKind.lw.exec trisc0Mem d' 0x100) := by
  have hs : ∀ s ∈ [StoreInsn.mk .sw 0x100 0, StoreInsn.mk .sb 0x101 0], s.Plain trisc0Mem := by
    simp only [List.mem_cons, List.not_mem_nil, or_false, forall_eq_or_imp, forall_eq]
    exact ⟨StoreInsn.plain_of_lt (by decide) (by decide), StoreInsn.plain_of_lt (by decide) (by decide)⟩
  have hk : LoadKind.lw.Plain trisc0Mem 0x100 := by
    refine ⟨fun i hi => .inl ?_, fun _ => by decide⟩
    have hlt : i < 4 := hi
    have haddr : (0x100 : Word).toNat = 0x100 := rfl
    have hsize : l1Size = 0x180000 := rfl
    omega
  refine ⟨hs, hk, (access_widths_agree hs hk).mpr ?_⟩
  intro i hi s _
  refine ⟨fun h => absurd h (by decide), fun h => ?_⟩
  obtain ⟨t, ht⟩ := Option.isSome_iff_exists.mp h
  have hhigh := ownWindow_high ht
  have hlt : i < 4 := hi
  have haddr : (0x100 : Word).toNat = 0x100 := rfl
  have hoff : highMemOffset = 0xFFB00000 := rfl
  omega

theorem regfile_byte_lost :
    (StoreInsn.mk .sb 0xFFE00000 0x5A).Plain trisc0Mem ∧ LoadKind.lw.Plain trisc0Mem 0xFFE00000 ∧
    ∃ d', storeAll 0 trisc0Mem .blank [⟨.sb, 0xFFE00000, 0x5A⟩] = some d' ∧
      LoadKind.lw.exec trisc0Mem d' 0xFFE00000 = 0 ∧ LoadKind.lbu.exec trisc0Mem d' 0xFFE00000 = 0x5A ∧
      ¬ReadsBack [⟨.sb, 0xFFE00000, 0x5A⟩] .lw 0xFFE00000 (LoadKind.lw.exec trisc0Mem d' 0xFFE00000) := by
  refine ⟨⟨.inr (.inr (.inl (by decide))), by decide⟩,
    ⟨fun i hi => .inr (.inr (.inl ?_)), fun _ => by decide⟩, _, rfl, by decide, by decide, fun h => ?_⟩
  · have hlt : i < 4 := hi
    have haddr : (0xFFE00000 : Word).toNat = 0xFFE00000 := rfl
    rw [isPerCoreAddr_iff]
    omega
  · have hbyte := h.2 0 (by decide) ⟨.sb, 0xFFE00000, 0x5A⟩ ⟨[], [], rfl, ⟨by decide, by decide⟩, nofun⟩
    exact absurd hbyte (by decide)

end agree

end Rv32Emu
