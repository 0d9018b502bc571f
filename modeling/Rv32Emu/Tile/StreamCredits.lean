import Mathlib.Tactic.IntervalCases
import Rv32Emu.Tile.HighRegion

namespace Rv32Emu

section registers

def streamBase (i : Fin 64) : ℕ := 0x40000 + i * 0x1000

def updateOffset (i : Fin 64) : ℕ := streamBase i + 0x438

def availOffset (i : Fin 64) : ℕ := streamBase i + 0x4A4

def updateAddr (i : Fin 64) : Word := w32 (highMemOffset + updateOffset i)

def InStream (i : Fin 64) (off : ℕ) : Prop := InBytes (streamBase i) 0x1000 off

def increment (data : Word) : ℤ := (data.extractLsb' 6 17).toInt

def credit (m : Bytes) (i : Fin 64) (data : Word) : Bytes :=
  (m.store (updateOffset i) 4 data).store (availOffset i) 4
    (m.load (availOffset i) 4 + BitVec.ofInt 32 (increment data))

end registers

section paths

variable {tt : TensixTile} {imm : Word} {tid : Tid} {i : Fin 64}

theorem isUpdate (i : Fin 64) : IsUpdate (updateOffset i) := by
  have hi : (i : ℕ) < 64 := i.isLt
  simp only [IsUpdate, updateOffset, streamBase]
  omega

theorem increment_eq (data : Word) :
    (if bit (bits data 6 0x1FFFF) 16 then bits data 6 0x1FFFF ||| 0xFFFE0000 else bits data 6 0x1FFFF) =
      BitVec.ofInt 32 (increment data) := by
  have hext : BitVec.ofInt 32 (increment data) = (data.extractLsb' 6 17).signExtend 32 := rfl
  have hraw : bits data 6 0x1FFFF = (data.extractLsb' 6 17).setWidth 32 := by
    apply BitVec.eq_of_getLsbD_eq
    intro k hk
    simp only [bits, BitVec.getLsbD_and, BitVec.getLsbD_ushiftRight, BitVec.getLsbD_setWidth,
      BitVec.getLsbD_extractLsb']
    interval_cases k <;> simp
  rw [hext, hraw]
  generalize data.extractLsb' 6 17 = x
  have hmsb : bit (x.setWidth 32) 16 = x.msb := by simp [bit, BitVec.msb_eq_getLsbD_last]
  rw [hmsb]
  apply BitVec.eq_of_getLsbD_eq
  intro k hk
  rw [BitVec.getLsbD_signExtend]
  cases hx : x.msb with
  | false =>
    by_cases hlow : k < 17
    · simp [hk, hlow]
    · simp [hk, hlow, BitVec.getLsbD_of_ge x k (Nat.le_of_not_lt hlow)]
  | true =>
    interval_cases k <;> simp

theorem storeStream_update (m : Bytes) (i : Fin 64) (data : Word) :
    storeStream m (updateOffset i) data =
      m.store (availOffset i) 4 (m.load (availOffset i) 4 + BitVec.ofInt 32 (increment data)) := by
  have hu := isUpdate i
  have hi : (i : ℕ) < 64 := i.isLt
  have havail : updateOffset i + 0x6C = availOffset i := rfl
  have hlt : availOffset i < highMemSize := by
    have hsize : highMemSize = 0x400000 := rfl
    simp only [availOffset, streamBase]
    omega
  unfold IsUpdate at hu
  unfold storeStream
  rw [if_pos hu]
  simp only [havail, if_pos hlt, increment_eq]

theorem update_avail_apart (i : Fin 64) : updateOffset i + 4 ≤ availOffset i := by
  simp only [updateOffset, availOffset]
  omega

theorem updateAddr_toNat (i : Fin 64) : (updateAddr i).toNat = highMemOffset + updateOffset i := by
  have hi : (i : ℕ) < 64 := i.isLt
  have hhigh : highMemOffset = 0xFFB00000 := rfl
  simp only [updateAddr, w32, BitVec.toNat_ofNat, updateOffset, streamBase]
  omega

theorem mmioWrite_update (tt : TensixTile) (fuel : ℕ) (coreId : ℤ) (i : Fin 64) (data : Word) :
    ∃ t, tt.tensixMmioWrite fuel coreId (updateAddr i) data = some (true, t) ∧
      t.core.mem.highMem = tt.core.mem.highMem.map fun m => credit m i data := by
  have hi : (i : ℕ) < 64 := i.isLt
  have hhigh : highMemOffset = 0xFFB00000 := rfl
  have haddr := updateAddr_toNat i
  have hoff : highMemOffset + updateOffset i - highMemOffset = updateOffset i := Nat.add_sub_cancel_left ..
  have hbound : updateOffset i < 0x80000 ∧ 0x40000 ≤ updateOffset i := by
    simp only [updateOffset, streamBase]
    omega
  have hwindow : InWindow (updateAddr i).toNat := by
    rw [haddr]
    exact .inl (by omega)
  refine ⟨tt.writeStream (updateAddr i).toNat data, ?_, ?_⟩
  · rw [window_mmioWrite hwindow, if_pos (by omega)]
  · unfold TensixTile.writeStream
    rw [haddr]
    simp only [hoff, if_pos (show updateOffset i < 0x400000 by omega)]
    refine congrArg (Option.map · tt.core.mem.highMem) (funext fun m => ?_)
    rw [storeStream_update, credit]
    exact Bytes.store_comm_apart (.inl (update_avail_apart i)) m _ _

theorem ttstorereg_update (h : mmioOffset imm = some (updateOffset i)) (core : Tensix) (tid : Tid) :
    (ttstorereg core imm tid).mem.highMem =
      core.mem.highMem.map fun m => credit m i (core.dmaReg tid (bits imm 18 0x3F).toNat) := by
  have hlt : updateOffset i < highMemSize := Nat.lt_trans (mmioOffset_lt h) (by decide)
  unfold ttstorereg
  cases hm : core.mem.highMem with
  | none =>
    simp only [h, hm]
    rfl
  | some m =>
    simp only [h, if_pos hlt, storeStream_update, Option.map_some, credit]
    rw [Bytes.load_store_apart (.inr (update_avail_apart i))]

end paths

inductive CreditEvent
  | update (i : Fin 64) (data : Word)
  | other

inductive CreditStep : TensixTile → CreditEvent → TensixTile → Prop
  | mmio {tt tt' : TensixTile} {fuel : ℕ} {coreId : ℤ} {i : Fin 64} {data : Word} {handled : Bool} :
      tt.tensixMmioWrite fuel coreId (updateAddr i) data = some (handled, tt') →
        CreditStep tt (.update i data) tt'
  | storereg {tt : TensixTile} {imm : Word} {tid : Tid} {i : Fin 64} : mmioOffset imm =
      some (updateOffset i) →
      CreditStep tt (.update i (tt.core.dmaReg tid (bits imm 18 0x3F).toNat))
        { tt with core := ttstorereg tt.core imm tid }
  | other {tt tt' : TensixTile} : tt'.core.mem.highMem = tt.core.mem.highMem → CreditStep tt .other tt'

def CreditEvent.apply (m : Bytes) : CreditEvent → Bytes
  | .update i data => credit m i data
  | .other => m

def CreditEvent.increment (i : Fin 64) : CreditEvent → ℤ
  | .update j data => if j = i then Rv32Emu.increment data else 0
  | .other => 0

def available (tt : TensixTile) (i : Fin 64) : Option Word :=
  tt.core.mem.highMem.map fun m => m.load (availOffset i) 4

section runs

variable {s t : TensixTile} {e : CreditEvent} {es : List CreditEvent} {i j : Fin 64}

theorem CreditStep.highMem (h : CreditStep s e t) : t.core.mem.highMem = s.core.mem.highMem.map e.apply := by
  cases h with
  | @mmio _ fuel coreId i data _ h =>
    obtain ⟨t', ht, hm⟩ := mmioWrite_update s fuel coreId i data
    cases ht.symm.trans h
    exact hm
  | storereg h => exact ttstorereg_update h s.core _
  | other h =>
    rw [h]
    exact Option.map_id'.symm

theorem credit_load_self (m : Bytes) (i : Fin 64) (data : Word) :
    (credit m i data).load (availOffset i) 4 = m.load (availOffset i) 4 + BitVec.ofInt 32 (increment data) :=
  Bytes.load_store_self ..

theorem credit_apply_of_not (m : Bytes) (data : Word) {off : ℕ} (hu : ¬InBytes (updateOffset i) 4 off)
    (ha : ¬InBytes (availOffset i) 4 off) : credit m i data off = m off := by
  unfold InBytes at hu ha
  rw [credit, Bytes.store_apply, if_neg ha, Bytes.store_apply, if_neg hu]

theorem credit_other_stream (m : Bytes) (data : Word) (hij : j ≠ i) {off : ℕ} (hoff : InStream i off) :
    credit m j data off = m off := by
  have hne : (j : ℕ) ≠ i := fun h => hij (Fin.ext h)
  have hlt : (i : ℕ) < 64 := i.isLt
  simp only [InStream, InBytes, streamBase] at hoff
  apply credit_apply_of_not
  · simp only [InBytes, updateOffset, streamBase]
    omega
  · simp only [InBytes, availOffset, streamBase]
    omega

theorem CreditEvent.load_apply (m : Bytes) (e : CreditEvent) (i : Fin 64) :
    (e.apply m).load (availOffset i) 4 = m.load (availOffset i) 4 + BitVec.ofInt 32 (e.increment i) := by
  cases e with
  | other => simp [CreditEvent.apply, CreditEvent.increment]
  | update j data =>
    by_cases hij : j = i
    · subst hij
      simp only [CreditEvent.apply, CreditEvent.increment, if_true]
      exact credit_load_self m j data
    · have hload : (credit m j data).load (availOffset i) 4 = m.load (availOffset i) 4 := by
        apply Bytes.load_congr
        intro k hk
        apply credit_other_stream m data hij
        simp only [InStream, InBytes, availOffset]
        omega
      simp [CreditEvent.apply, CreditEvent.increment, hij, hload]

theorem CreditStep.available (h : CreditStep s e t) (i : Fin 64) :
    available t i = (available s i).map (· + BitVec.ofInt 32 (e.increment i)) := by
  rw [Rv32Emu.available, h.highMem, Rv32Emu.available, Option.map_map, Option.map_map]
  exact congrArg (Option.map · s.core.mem.highMem) (funext fun m => e.load_apply m i)

theorem Run.available (h : Run CreditStep s es t) (i : Fin 64) :
    available t i = (available s i).map (· + BitVec.ofInt 32 (es.map (CreditEvent.increment i)).sum) := by
  induction h with
  | nil s => simp
  | cons hs _ ih =>
    rw [ih, hs.available i, Option.map_map, List.map_cons, List.sum_cons, BitVec.ofInt_add]
    congr 1
    funext w
    exact BitVec.add_assoc ..

theorem Run.stream_unchanged (h : Run CreditStep s es t) (hi : ∀ j data, .update j data ∈ es → j ≠ i)
    {off : ℕ} (hoff : InStream i off) : t.core.mem.highMem.map (· off) = s.core.mem.highMem.map (· off) := by
  induction h with
  | nil => rfl
  | @cons s u t e es hs _ ih =>
    rw [ih fun j data hj => hi j data (List.mem_cons_of_mem e hj), hs.highMem, Option.map_map]
    refine congrArg (Option.map · s.core.mem.highMem) (funext fun m => ?_)
    cases e with
    | other => rfl
    | update j data => exact credit_other_stream m data (hi j data List.mem_cons_self) hoff

/-- Over any writes to UPDATE registers, AVAILABLE adds up the increments, whichever path they take;
both paths leave the same high memory; and the registers of other streams stay. -/
theorem stream_credits (h : Run CreditStep s es t) :
    (∀ i, available t i = (available s i).map (· + BitVec.ofInt 32 (es.map (CreditEvent.increment i)).sum)) ∧
      (∀ i fuel coreId imm tid, mmioOffset imm = some (updateOffset i) →
        (t.tensixMmioWrite fuel coreId (updateAddr i) (t.core.dmaReg tid (bits imm 18 0x3F).toNat)).map
            (fun r => r.2.core.mem.highMem) = some (ttstorereg t.core imm tid).mem.highMem) ∧
      ∀ i off, (∀ j data, .update j data ∈ es → j ≠ i) → InStream i off →
        t.core.mem.highMem.map (· off) = s.core.mem.highMem.map (· off) := by
  refine ⟨h.available, fun i fuel coreId imm tid himm => ?_, fun i off hi hoff => h.stream_unchanged hi hoff⟩
  obtain ⟨t', ht, hm⟩ := mmioWrite_update t fuel coreId i (t.core.dmaReg tid (bits imm 18 0x3F).toNat)
  rw [ht, ttstorereg_update himm, ← hm]
  rfl

theorem stream_credits_three_taken :
    let tile := (CoreMem.blank.withHigh fun _ => 0).tile
    let s : TensixTile := { tile with core := { tile.core with dmaReg := fun _ _ => 0x7FFF80 } }
    ∃ t, Run CreditStep s [.update 3 0x7FFF80, .update 3 0x7FFFC0] t ∧ available t 3 = some 0xFFFFFFFD := by
  intro tile s
  have hstore : CreditStep s (.update 3 0x7FFF80) _ := @CreditStep.storereg s 0x10D0E 1 3 rfl
  obtain ⟨t, ht, -⟩ := mmioWrite_update { s with core := ttstorereg s.core 0x10D0E 1 } 0 (-1) 3 0x7FFFC0
  have hrun := Run.cons hstore (.cons (.mmio ht) (.nil t))
  exact ⟨t, hrun, ((stream_credits hrun).1 3).trans rfl⟩

end runs

end Rv32Emu
