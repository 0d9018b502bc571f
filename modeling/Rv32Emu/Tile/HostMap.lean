import Rv32Emu.Tile.Mmio

namespace Rv32Emu

/-- `memory_t` as `rv32_create` fills it in, both sizes being nonnegative values of type `int`. -/
structure MemoryT where
  memSize : ℕ
  localSize : ℕ
  memSize_lt : memSize < 2 ^ 31
  localSize_lt : localSize < 2 ^ 31

/-- A byte behind `mem_base`, where the buffer of L1 and the high region begins, or behind `mem_local`. -/
inductive HostByte
  | buffer (off : ℕ)
  | loc (off : ℕ)
  deriving DecidableEq

def HostByte.add (i : ℕ) : HostByte → HostByte
  | .buffer off => .buffer (off + i)
  | .loc off => .loc (off + i)

abbrev HostMem := HostByte → BitVec 8

def highSize : ℕ := 0x400000

namespace MemoryT

variable (m : MemoryT)

def hostPtr (addr : ℕ) : HostByte :=
  if addr < highMemOffset then .buffer addr
  else if addr - highMemOffset < m.localSize then .loc (addr - highMemOffset)
  else .buffer (m.memSize + (addr - highMemOffset))

def memoryRead (h : HostMem) (addr : Word) (size : ℕ) : List (BitVec 8) :=
  (List.range size).map fun i => h ((m.hostPtr addr.toNat).add i)

/-- `Touches addr size b`: an access of `size` bytes at `addr` reaches the host's byte `b`. -/
def Touches (addr : Word) (size : ℕ) (b : HostByte) : Prop := ∃ i < size, b = (m.hostPtr addr.toNat).add i

def memoryWrite (h : HostMem) (addr : Word) (src : List (BitVec 8)) : HostMem :=
  (List.range src.length).foldl (fun h i => Function.update h ((m.hostPtr addr.toNat).add i) (src.getD i 0)) h

def wordOf (bs : List (BitVec 8)) : Word := bs.foldr (fun b w => b.setWidth 32 ||| w <<< 8) 0

def memoryReadW (h : HostMem) (addr : Word) : Word := wordOf (m.memoryRead h addr 4)

def memoryReadS (h : HostMem) (addr : Word) : BitVec 16 := (wordOf (m.memoryRead h addr 2)).setWidth 16

def memoryReadB (h : HostMem) (addr : Word) : BitVec 8 := (wordOf (m.memoryRead h addr 1)).setWidth 8

def memoryWriteW (h : HostMem) (addr data : Word) : HostMem :=
  m.memoryWrite h addr ((List.range 4).map (byteOf data))

def memoryWriteS (h : HostMem) (addr : Word) (data : BitVec 16) : HostMem :=
  m.memoryWrite h addr ((List.range 2).map (byteOf (data.setWidth 32)))

def memoryWriteB (h : HostMem) (addr : Word) (data : BitVec 8) : HostMem := m.memoryWrite h addr [data]

def hostOf : Region × ℕ → HostByte
  | (.l1, off) => .buffer off
  | (.high, off) => .buffer (m.memSize + off)
  | (.loc, off) => .loc off

end MemoryT

def MemConfig.memoryT (c : MemConfig) : MemoryT :=
  ⟨memSize, c.localSize, by decide, Nat.lt_of_le_of_lt c.localSize_le (by decide)⟩

theorem hostPtr_memoryT (c : MemConfig) (addr : ℕ) :
    c.memoryT.hostPtr addr = c.memoryT.hostOf (memoryPtr c addr) := by
  have hmem : c.memoryT.memSize = memSize := rfl
  have hloc : c.memoryT.localSize = c.localSize := rfl
  unfold MemoryT.hostPtr memoryPtr basePtr
  rw [hloc, hmem]
  by_cases hlow : addr < highMemOffset
  · rw [if_pos hlow, if_pos hlow]
    by_cases hl1 : addr < memSize
    · rw [if_pos hl1]
      rfl
    · rw [if_neg hl1, MemoryT.hostOf, hmem, Nat.add_sub_cancel' (Nat.le_of_not_lt hl1)]
  · rw [if_neg hlow, if_neg hlow]
    by_cases hl : addr - highMemOffset < c.localSize
    · rw [if_pos hl, if_pos hl]
      rfl
    · rw [if_neg hl, if_neg hl]
      rfl

inductive HostRegion
  | l1
  | loc
  | high
  deriving DecidableEq

namespace MemoryT

variable (m : MemoryT)

def Holds : HostRegion → HostByte → Prop
  | .l1, .buffer off => off < m.memSize
  | .high, .buffer off => m.memSize ≤ off ∧ off < m.memSize + highSize
  | .loc, .loc off => off < m.localSize
  | _, _ => False

def regionOf (addr : Word) : Option HostRegion :=
  if addr.toNat < m.memSize then some .l1
  else if addr.toNat < highMemOffset then none
  else if addr.toNat - highMemOffset < m.localSize then some .loc
  else if addr.toNat - highMemOffset < highSize then some .high
  else none

def Confined (addr : Word) (size : ℕ) : Prop :=
  ∀ b, m.Touches addr size b → ∃ r, m.regionOf addr = some r ∧ m.Holds r b

def Inside (addr : Word) (size : ℕ) : Prop :=
  size = 0 ∨ addr.toNat + size ≤ m.memSize ∨
    highMemOffset ≤ addr.toNat ∧ addr.toNat - highMemOffset + size ≤ m.localSize ∨
    highMemOffset + m.localSize ≤ addr.toNat ∧ addr.toNat - highMemOffset + size ≤ highSize

def Apart (a : Word) (k : ℕ) (b : Word) (n : ℕ) : Prop := ∀ i < k, ∀ j < n, a.toNat + i ≠ b.toNat + j

variable {m} {a b addr : Word} {k n size : ℕ}

theorem confined_of_inside (h : m.Inside addr size) : m.Confined addr size := by
  rintro _ ⟨i, hi, rfl⟩
  have hhigh : highMemOffset = 0xFFB00000 := rfl
  have hm := m.memSize_lt
  unfold regionOf hostPtr
  rcases h with h | h | h | h
  · omega
  · rw [if_pos (by omega), if_pos (by omega)]
    refine ⟨.l1, rfl, ?_⟩
    simp only [HostByte.add, Holds]
    omega
  · rw [if_neg (by omega), if_neg (by omega), if_pos (by omega), if_neg (by omega), if_pos (by omega)]
    refine ⟨.loc, rfl, ?_⟩
    simp only [HostByte.add, Holds]
    omega
  · rw [if_neg (by omega), if_neg (by omega), if_neg (by omega), if_pos (by omega), if_neg (by omega),
      if_neg (by omega)]
    refine ⟨.high, rfl, ?_⟩
    simp only [HostByte.add, Holds]
    omega

theorem Confined.inside (h : m.Confined addr size) : m.Inside addr size := by
  by_cases h₀ : size = 0
  · exact .inl h₀
  -- the first and the last byte of the access decide
  obtain ⟨r, hr, -⟩ := h _ ⟨0, by omega, rfl⟩
  obtain ⟨r', hr', hlast⟩ := h _ ⟨size - 1, by omega, rfl⟩
  obtain rfl := Option.some.inj (hr.symm.trans hr')
  have hhigh : highMemOffset = 0xFFB00000 := rfl
  have hm := m.memSize_lt
  refine .inr ?_
  unfold regionOf at hr
  unfold hostPtr at hlast
  split_ifs at hr with h₁ h₂ h₃ h₄
  · obtain rfl := Option.some.inj hr
    rw [if_pos (by omega)] at hlast
    simp only [HostByte.add, Holds] at hlast
    omega
  · obtain rfl := Option.some.inj hr
    rw [if_neg h₂, if_pos h₃] at hlast
    simp only [HostByte.add, Holds] at hlast
    omega
  · obtain rfl := Option.some.inj hr
    rw [if_neg h₂, if_neg h₃] at hlast
    simp only [HostByte.add, Holds] at hlast
    omega

theorem hostPtr_add_ne (ha : m.Inside a k) (hb : m.Inside b n) {i j : ℕ} (hi : i < k) (hj : j < n)
    (hne : a.toNat + i ≠ b.toNat + j) : (m.hostPtr a.toNat).add i ≠ (m.hostPtr b.toNat).add j := by
  have hhigh : highMemOffset = 0xFFB00000 := rfl
  have hm := m.memSize_lt
  unfold hostPtr
  unfold Inside at ha hb
  split_ifs <;> simp only [HostByte.add, ne_eq, HostByte.buffer.injEq, HostByte.loc.injEq, reduceCtorEq,
    not_false_eq_true] <;> omega

theorem memoryWrite_of_not_touches (h : HostMem) {src : List (BitVec 8)} {b : HostByte}
    (hb : ¬m.Touches addr src.length b) : m.memoryWrite h addr src b = h b := by
  unfold memoryWrite
  generalize hl : List.range src.length = is
  have hne : ∀ i ∈ is, b ≠ (m.hostPtr addr.toNat).add i := by
    intro i hi heq
    exact hb ⟨i, List.mem_range.mp (hl ▸ hi), heq⟩
  clear hl
  induction is generalizing h with
  | nil => rfl
  | cons i is ih =>
    rw [List.foldl_cons, ih _ fun j hj => hne j (List.mem_cons_of_mem _ hj)]
    exact Function.update_of_ne (hne i List.mem_cons_self) _ _

theorem memoryRead_memoryWrite (ha : m.Inside a k) (hb : m.Inside b n) (hd : Apart a k b n) (h : HostMem)
    {src : List (BitVec 8)} (hsrc : src.length = k) :
    m.memoryRead (m.memoryWrite h a src) b n = m.memoryRead h b n := by
  apply List.map_congr_left
  intro j hj
  apply memoryWrite_of_not_touches
  rintro ⟨i, hi, heq⟩
  have hj := List.mem_range.mp hj
  exact hostPtr_add_ne ha hb (hsrc ▸ hi) hj (hd i (hsrc ▸ hi) j hj) heq.symm

/-- Two accesses stay in the regions of their addresses, and a store by the one is not seen by the other
unless they share a byte, exactly if each of them begins and ends inside one region. -/
theorem memory_map_confined (m : MemoryT) (a b : Word) (k n : ℕ) :
    (m.Confined a k ∧ m.Confined b n ∧ (Apart a k b n →
      ∀ (h : HostMem) (src : List (BitVec 8)), src.length = k →
        m.memoryRead (m.memoryWrite h a src) b n = m.memoryRead h b n)) ↔
      m.Inside a k ∧ m.Inside b n := by
  constructor
  · rintro ⟨ha, hb, -⟩
    exact ⟨ha.inside, hb.inside⟩
  · rintro ⟨ha, hb⟩
    exact ⟨confined_of_inside ha, confined_of_inside hb,
      fun hd h src hsrc => memoryRead_memoryWrite ha hb hd h hsrc⟩

def documented : MemoryT := ⟨0x200000, 0x2000, by decide, by decide⟩

theorem store_behind_l1_aliases :
    Apart 0x240000 4 0xFFB40000 4 ∧ ¬documented.Confined 0x240000 4 ∧
      documented.memoryReadW (fun _ => 0) 0xFFB40000 = 0 ∧
      documented.memoryReadW (documented.memoryWriteW (fun _ => 0) 0x240000 0x12345678) 0xFFB40000 =
        0x12345678 := by
  refine ⟨fun i hi j hj heq => ?_, fun h => ?_, by decide +kernel, by decide +kernel⟩
  · have ha : (0x240000 : Word).toNat = 0x240000 := rfl
    have hb : (0xFFB40000 : Word).toNat = 0xFFB40000 := rfl
    omega
  · obtain ⟨r, hr, -⟩ := h _ ⟨0, by decide, rfl⟩
    have hnone : documented.regionOf 0x240000 = none := by decide +kernel
    exact absurd (hnone.symm.trans hr) nofun

end MemoryT

end Rv32Emu
