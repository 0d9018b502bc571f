import Mathlib.Tactic.SplitIfs
import Rv32Emu.Tensix.State

namespace Rv32Emu

open Word

def getDatumSize (fmt : Word) : Word :=
  if fmt ∈ [0, 4, 8] then 4
  else if fmt ∈ [1, 5, 9, 12] then 2
  else if fmt ∈ [10, 14, 30, 2, 6, 3, 7, 11, 15] then 1
  else 4

theorem getDatumSize_pos (fmt : Word) : 0 < (getDatumSize fmt).toNat := by
  unfold getDatumSize
  split_ifs <;> decide

theorem getDatumSize_le (fmt : Word) : (getDatumSize fmt).toNat ≤ 4 := by
  unfold getDatumSize
  split_ifs <;> decide

def normalizeHalf : ℕ → Word → Word → Word × Word
  | 0, mant, exp => (mant, exp)
  | n + 1, mant, exp => if bit mant 10 then (mant, exp) else normalizeHalf n (mant <<< 1) (exp - 1)

def halfToFloat (raw : Word) : Word :=
  let sign := bits raw 15 1
  let exp := bits raw 10 0x1F
  let mant := raw &&& 0x3FF
  if exp = 0 then
    if mant = 0 then sign <<< 31
    else
      let (mant, exp) := normalizeHalf 10 mant 1
      (sign <<< 31) ||| ((exp + 112) <<< 23) ||| ((mant &&& 0x3FF) <<< 13)
  else if exp = 31 then (sign <<< 31) ||| 0x7F800000 ||| (mant <<< 13)
  else (sign <<< 31) ||| ((exp + 112) <<< 23) ||| (mant <<< 13)

def datumToFloat (raw fmt : Word) : Word :=
  if fmt = 0 ∨ fmt = 4 then raw
  else if fmt = 5 then raw <<< 16
  else if fmt = 1 then halfToFloat raw
  else if fmt = 8 then ofIntF raw.toInt
  else if fmt = 9 then ofNatF (raw.setWidth 16).toNat
  else if fmt = 12 then ofIntF (raw.setWidth 16).toInt
  else if fmt = 14 then
    let mag := ofNatF (raw &&& 0x7F).toNat
    if bit raw 7 then fneg mag else mag
  else if fmt = 30 then ofNatF (raw.setWidth 8).toNat
  else 0

def floatToHalf (f : Word) : Word :=
  let sign := bits f 31 1
  let biased := bits f 23 0xFF
  let exp : ℤ := (biased.toNat : ℤ) - 127 + 15
  let mant := bits f 13 0x3FF
  if biased = 0 then sign <<< 15
  else if biased = 0xFF then (sign <<< 15) ||| 0x7C00 ||| mant
  else if exp ≤ 0 then sign <<< 15
  else if exp ≥ 31 then (sign <<< 15) ||| 0x7C00
  else (sign <<< 15) ||| (BitVec.ofInt 32 exp <<< 10) ||| mant

/-- A float outside the range of the integer type is undefined in the source; it saturates here. -/
def floatToDatum (f fmt : Word) : Word :=
  if fmt = 0 ∨ fmt = 4 then f
  else if fmt = 5 then bits f 16 0xFFFF
  else if fmt = 1 then floatToHalf f
  else if fmt = 8 then (toFloat f).toInt32.toBitVec
  else if fmt = 9 then (toFloat f).toUInt16.toBitVec.setWidth 32
  else if fmt = 12 then (toFloat f).toInt16.toBitVec.setWidth 32
  else if fmt = 14 then
    let neg := flt f 0
    let mag := (toFloat (if neg then fneg f else f)).toInt32.toInt
    let mag := if mag > 127 then 127 else mag
    (if neg then 0x80 else 0) ||| BitVec.ofInt 32 mag
  else if fmt = 30 then (toFloat f).toUInt8.toBitVec.setWidth 32
  else 0

end Rv32Emu
