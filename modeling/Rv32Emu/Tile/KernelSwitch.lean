import Rv32Emu.Tensix.PackWrites

namespace Rv32Emu

def rtaPtr (memLocal : Bytes) : Word := Bytes.load memLocal 0x38 4

def clearRta (memLocal memBase : Bytes) : Bytes :=
  if (rtaPtr memLocal + 10 * 4).toNat ≤ l1Size then
    forRange (10 * 4) memBase fun m i => Bytes.set m ((rtaPtr memLocal).toNat + i) 0
  else memBase

def rtaWrites (memLocal : Bytes) : List (ℕ × BitVec 8) :=
  if (rtaPtr memLocal + 10 * 4).toNat ≤ l1Size then (List.range (10 * 4)).map fun i =>
    ((rtaPtr memLocal).toNat + i, 0)
  else []

theorem clearRta_eq_applyWrites (memLocal memBase : Bytes) :
    clearRta memLocal memBase = applyWrites memBase (rtaWrites memLocal) := by
  unfold clearRta rtaWrites
  split_ifs
  · have hloop :=
      forRange_applyWrites (10 * 4) memBase fun i => [((rtaPtr memLocal).toNat + i, (0 : BitVec 8))]
    rw [← List.flatMap_singleton' ((List.range (10 * 4)).map _), List.flatMap_map]
    exact hloop
  · rfl

end Rv32Emu
