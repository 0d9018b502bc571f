import Rv32Emu.Cop.ArrayBounds
import Rv32Emu.Cop.Mutexes
import Rv32Emu.Tile.Semaphores
import Rv32Emu.Tile.VectorConstants

namespace Rv32Emu

/-- A core whose counters are in range, and that holds past the ends of its arrays what it held at
power-up. -/
structure Tensix.Safe (core : Tensix) : Prop where
  arrays : core.outOfBounds = Tensix.zero.outOfBounds
  vector : core.sfpu.outOfBounds = (tensixInit ⟨none, none⟩).sfpu.outOfBounds
  top : core.sfpu.TopInRange
  sem : ∀ i, (core.sem i).toNat ≤ 15
  semMax : ∀ i, (core.semMax i).toNat ≤ 15
  mutex : ∀ i, core.mutex i = mutexNone ∨ ∃ t : Tid, core.mutex i = w32 t

section core

variable {core core' : Tensix} {tid : Tid} {insn : Word}

theorem Completes.semInRange (h : Completes tid core insn core') (i : Fin 8)
    (hi : (core.sem i).toNat ≤ 15 ∧ (core.semMax i).toNat ≤ 15) :
    (core'.sem i).toNat ≤ 15 ∧ (core'.semMax i).toNat ≤ 15 := by
  have hvalue := insn_value h (c := ⟨_, Nat.lt_succ_of_le hi.1⟩) rfl
  have hmax := insn_max h (c := ⟨_, Nat.lt_succ_of_le hi.2⟩) rfl
  rw [hvalue, hmax]
  exact ⟨Nat.le_of_lt_succ (Fin.isLt _), Nat.le_of_lt_succ (Fin.isLt _)⟩

theorem Completes.mutexInRange (h : Completes tid core insn core')
    (hm : ∀ i, core.mutex i = mutexNone ∨ ∃ t : Tid, core.mutex i = w32 t) (i : Fin 8) :
    core'.mutex i = mutexNone ∨ ∃ t : Tid, core'.mutex i = w32 t := by
  by_cases hg : tensixInsnOpcode insn = opcodeAtgetm
  · rw [h.mutex_atgetm hg]
    split
    · by_cases hi : i = mutexOf insn
      · rw [hi, Function.update_self]
        exact .inr ⟨tid, rfl⟩
      · rw [Function.update_of_ne hi]
        exact hm i
    · exact hm i
  by_cases hr : tensixInsnOpcode insn = opcodeAtrelm
  · rw [h.mutex_atrelm hr]
    split
    · by_cases hi : i = mutexOf insn
      · rw [hi, Function.update_self]
        exact .inl rfl
      · rw [Function.update_of_ne hi]
        exact hm i
    · exact hm i
  · rw [h.mutex_other hg hr]
    exact hm i

theorem Completes.safe (h : Completes tid core insn core') (hs : core.Safe) : core'.Safe := by
  have hsem (i : Fin 8) := h.semInRange i ⟨hs.sem i, hs.semMax i⟩
  have hmutex := h.mutexInRange hs.mutex
  obtain ⟨cfg, hrun⟩ := h
  have harrays := runCoreImpl_outOfBounds (insnImpl insn) core cfg (tensixInsnParam insn) tid
  have hvector := runCoreImpl_sfpuOutOfBounds (insnImpl insn) cfg (tensixInsnParam insn) tid hs.top
  have htop := (runCoreImpl_frames (insnImpl insn) core cfg (tensixInsnParam insn) tid hs.top).1
  rw [hrun] at harrays hvector htop
  exact ⟨harrays.trans hs.arrays, hvector.trans hs.vector, htop, fun i => (hsem i).1, fun i => (hsem i).2,
    hmutex⟩

theorem safe_of_items {is : List Item} (h : Run CoreStep core is core') (hs : core.Safe) : core'.Safe := by
  refine h.invariant (fun core i core' hcore hstep => ?_) hs
  have hreach := hstep.reaches
  cases hx : i.executed with
  | none =>
    rw [hx] at hreach
    obtain rfl : core' = core := hreach
    exact hcore
  | some insn =>
    rw [hx] at hreach
    exact Completes.safe hreach hcore

end core

section tile

variable {tt tt' : TensixTile} {t : Tid} {c : MemConfig}

def SameCore (tt tt' : TensixTile) : Prop := ∃ mem, tt'.core = { tt.core with mem }

theorem SameCore.safe (hs : SameCore tt tt') (h : tt.core.Safe) : tt'.core.Safe := by
  obtain ⟨mem, hcore⟩ := hs
  rw [hcore]
  exact ⟨h.arrays, h.vector, h.top, h.sem, h.semMax, h.mutex⟩

theorem tensixMmioRead_sameCore (tt : TensixTile) (coreId : ℤ) (addr : Word) :
    SameCore tt (tt.tensixMmioRead coreId addr).2 := by
  unfold TensixTile.tensixMmioRead
  dsimp only
  repeat' split
  all_goals exact ⟨_, rfl⟩

theorem onMemReadW_sameCore (c : MemConfig) (d : CoreMem) (addr : Word) :
    SameCore d.tile (CoreMem.onMemReadW c d addr).2.tile := by
  have hmmio := tensixMmioRead_sameCore d.tile c.coreId addr
  unfold CoreMem.onMemReadW
  split
  · split
    · next hread =>
      rw [hread] at hmmio
      exact hmmio
    · next hread =>
      rw [hread] at hmmio
      exact hmmio
  · exact ⟨_, rfl⟩

theorem memoryWrite_sameCore (c : MemConfig) (d : CoreMem) (addr : Word) (n : ℕ) (data : Word) :
    SameCore d.tile (memoryWrite c d addr n data).tile := by
  unfold memoryWrite
  cases (memoryPtr c addr.toNat).1 <;> exact ⟨_, rfl⟩

theorem writeSem_safe (h : tt.core.Safe) (i : Fin 8) (data : Word) : (tt.writeSem i data).core.Safe := by
  refine ⟨h.arrays, h.vector, h.top, fun j => ?_, h.semMax, h.mutex⟩
  change (Function.update tt.core.sem i _ j).toNat ≤ 15
  by_cases hj : j = i
  · rw [hj, Function.update_self]
    have hi := h.sem i
    have hmask : (data &&& 0xF).toNat ≤ 15 := by
      rw [BitVec.toNat_and]
      exact Nat.and_le_right
    split_ifs <;> first | assumption | bv_omega
  · rw [Function.update_of_ne hj]
    exact h.sem j

theorem noteCfgWrite_safe (h : tt.core.Safe) (addr : ℕ) (data : Word) :
    (tt.noteCfgWrite addr data).core.Safe := by
  have hset {s : Sfpu} (w : Word) (hs : s.outOfBounds = tt.core.sfpu.outOfBounds) (ht : s.TopInRange) :
      Tensix.Safe { tt.core with packL1WriteOffset := w, sfpu := s } :=
    ⟨h.arrays, hs.trans h.vector, ht, h.sem, h.semMax, h.mutex⟩
  unfold TensixTile.noteCfgWrite TensixTile.noteRegister
  dsimp only
  refine hset _ ?_ ?_
  · split <;> rfl
  · split <;> exact h.top

theorem tensixMmioWrite_safe {fuel : ℕ} {coreId : ℤ} {addr data : Word} {handled : Bool} (h : tt.core.Safe)
    (hw : tt.tensixMmioWrite fuel coreId addr data = some (handled, tt')) : tt'.core.Safe := by
  have hown (t : Tid) (a : ℕ) : SameCore tt (tt.writePerCore t a data) := by
    unfold TensixTile.writePerCore TensixTile.tensixWriteMopCfg
    dsimp only
    split_ifs <;> exact ⟨_, rfl⟩
  unfold TensixTile.tensixMmioWrite at hw
  dsimp only at hw
  split at hw
  · cases hw
    exact h
  split at hw
  · cases hw
    exact writeSem_safe h _ data
  split at hw
  · cases hw
    exact (hown _ _).safe h
  split at hw
  · split at hw
    · obtain ⟨u, hu, he⟩ := Option.map_eq_some_iff.mp hw
      cases he
      obtain ⟨is, hbetween⟩ := pushInstrn_executedBetween hu
      exact safe_of_items hbetween.core h
    · cases hw
      exact h
  split at hw
  · cases hw
    exact SameCore.safe ⟨_, rfl⟩ h
  split at hw
  · cases hw
    exact noteCfgWrite_safe h _ data
  repeat' split at hw
  all_goals
    cases hw
    exact h

theorem onMemWriteW_safe {fuel : ℕ} {d d' : CoreMem} {addr data : Word} (h : d.tile.core.Safe)
    (hw : CoreMem.onMemWriteW c d addr fuel data = some d') : d'.tile.core.Safe := by
  unfold CoreMem.onMemWriteW at hw
  split at hw
  · split at hw
    · cases hw
    · next hmmio =>
      cases hw
      exact tensixMmioWrite_safe h hmmio
    · next hmmio =>
      cases hw
      exact (memoryWrite_sameCore c _ addr 4 data).safe (tensixMmioWrite_safe h hmmio)
  · cases hw
    exact (memoryWrite_sameCore c d addr 4 data).safe h

theorem powerUp_lreg : lregConstants TensixTile.zero.core.sfpu.lreg = (tensixInit ⟨none, none⟩).sfpu.lreg :=
  congrArg (fun cop : TensixCop => cop.core.sfpu.lreg)
    (TensixTile.tensixInit_toCop ⟨none, none⟩ (fun _ => none) 0 none true)

theorem topInRange_empty {s : Sfpu} (h : s.flagStackTop = -1) : s.TopInRange := by
  unfold Sfpu.TopInRange
  rw [h]
  decide

theorem tensixClear_safe (h : tt.core.Safe) : tt.tensixClear.core.Safe := by
  refine ⟨rfl, ?_, topInRange_empty rfl, fun _ => Nat.zero_le _, h.semMax, fun _ => .inl rfl⟩
  unfold TensixTile.tensixClear
  simp only [Sfpu.outOfBounds, powerUp_lreg]
  rfl

theorem tensixInit_safe (mem : TensixMemory) (ldm : Tid → Option Bytes) (nocXy : BitVec 16) (self : Ptr)
    (allocated : Bool) : (TensixTile.tensixInit mem ldm nocXy self allocated).core.Safe := by
  refine ⟨rfl, ?_, topInRange_empty rfl, fun _ => Nat.zero_le _, fun i => ?_, fun _ => .inl rfl⟩
  · unfold TensixTile.tensixInit
    simp only [Sfpu.outOfBounds, powerUp_lreg]
    rfl
  · change (if i = 2 ∨ i = 4 ∨ i = 7 then (1 : Word) else 0).toNat ≤ 15
    split <;> decide

end tile

end Rv32Emu
