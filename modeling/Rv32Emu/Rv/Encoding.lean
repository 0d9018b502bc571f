import Mathlib.Tactic.IntervalCases
import Rv32Emu.Rv.Extensions

namespace Rv32Emu

section fields

def rdField (w : Word) : Reg := (w.extractLsb' 7 5).toFin

def rs1Field (w : Word) : Reg := (w.extractLsb' 15 5).toFin

def rs2Field (w : Word) : Reg := (w.extractLsb' 20 5).toFin

def immI (w : Word) : Word := (w.extractLsb' 20 12).signExtend 32

def immS (w : Word) : Word := (w.extractLsb' 25 7 ++ w.extractLsb' 7 5).signExtend 32

def immB (w : Word) : Word :=
  (w.extractLsb' 31 1 ++ w.extractLsb' 7 1 ++ w.extractLsb' 25 6 ++ w.extractLsb' 8 4 ++ 0#1).signExtend 32

def immU (w : Word) : Word := w.extractLsb' 12 20 ++ 0#12

def immJ (w : Word) : Word :=
  (w.extractLsb' 31 1 ++ w.extractLsb' 12 8 ++ w.extractLsb' 20 1 ++ w.extractLsb' 21 10 ++ 0#1).signExtend 32

theorem ofNat_bits (w : Word) (s : ℕ) : Fin.ofNat 32 (bits w s 0x1F).toNat = (w.extractLsb' s 5).toFin := by
  apply Fin.ext
  have hfield : (bits w s 0x1F).toNat = w.toNat / 2 ^ s % 2 ^ 5 := bits_mask_toNat w s 5 rfl
  simp only [hfield, Fin.ofNat, BitVec.extractLsb', BitVec.ofNat, Nat.shiftRight_eq_div_pow]
  exact Nat.mod_mod _ 32

theorem decodeRd_eq (w : Word) : decodeRd w = rdField w := ofNat_bits w 7

theorem decodeRs1_eq (w : Word) : decodeRs1 w = rs1Field w := ofNat_bits w 15

theorem decodeRs2_eq (w : Word) : decodeRs2 w = rs2Field w := ofNat_bits w 20

-- The five immediates are compared bit by bit.
theorem decodeItypeImm_eq (w : Word) : decodeItypeImm w = immI w := by
  apply BitVec.eq_of_getLsbD_eq
  intro i hi
  simp only [decodeItypeImm, immI, BitVec.getLsbD_sshiftRight, BitVec.getLsbD_signExtend,
    BitVec.msb_eq_getLsbD_last, BitVec.getLsbD_and, BitVec.getLsbD_extractLsb']
  interval_cases i <;> simp

theorem decodeUtypeImm_eq (w : Word) : decodeUtypeImm w = immU w := by
  apply BitVec.eq_of_getLsbD_eq
  intro i hi
  simp only [decodeUtypeImm, immU, BitVec.getLsbD_and, BitVec.getLsbD_append, BitVec.getLsbD_extractLsb']
  interval_cases i <;> simp

theorem decodeStypeImm_eq (w : Word) : decodeStypeImm w = immS w := by
  apply BitVec.eq_of_getLsbD_eq
  intro i hi
  simp only [decodeStypeImm, immS, BitVec.getLsbD_sshiftRight, BitVec.getLsbD_signExtend,
    BitVec.msb_eq_getLsbD_last, BitVec.getLsbD_and, BitVec.getLsbD_or, BitVec.getLsbD_shiftLeft,
    BitVec.getLsbD_append, BitVec.getLsbD_extractLsb']
  interval_cases i <;> simp

theorem decodeBtypeImm_eq (w : Word) : decodeBtypeImm w = immB w := by
  apply BitVec.eq_of_getLsbD_eq
  intro i hi
  simp only [decodeBtypeImm, immB, BitVec.getLsbD_sshiftRight, BitVec.getLsbD_signExtend,
    BitVec.msb_eq_getLsbD_last, BitVec.getLsbD_and, BitVec.getLsbD_or, BitVec.getLsbD_shiftLeft,
    BitVec.getLsbD_ushiftRight, BitVec.getLsbD_append, BitVec.getLsbD_extractLsb']
  interval_cases i <;> simp

theorem decodeJtypeImm_eq (w : Word) : decodeJtypeImm w = immJ w := by
  apply BitVec.eq_of_getLsbD_eq
  intro i hi
  simp only [decodeJtypeImm, immJ, BitVec.getLsbD_sshiftRight, BitVec.getLsbD_signExtend,
    BitVec.msb_eq_getLsbD_last, BitVec.getLsbD_and, BitVec.getLsbD_or, BitVec.getLsbD_shiftLeft,
    BitVec.getLsbD_ushiftRight, BitVec.getLsbD_append, BitVec.getLsbD_extractLsb']
  interval_cases i <;> simp

end fields

section patterns

structure Pattern where
  mask : Word
  value : Word

namespace Pattern

def Matches (p : Pattern) (w : Word) : Prop := w &&& p.mask = p.value

instance (p : Pattern) (w : Word) : Decidable (p.Matches w) := inferInstanceAs (Decidable (_ = _))

def opcode (op : Word) : Pattern := ⟨0x7F, op⟩

def funct3 (f3 op : Word) : Pattern := ⟨0x707F, f3 <<< 12 ||| op⟩

def funct7 (f7 f3 op : Word) : Pattern := ⟨0xFE00707F, f7 <<< 25 ||| f3 <<< 12 ||| op⟩

def rounding (f7 : Word) : Pattern := ⟨0xFE00007F, f7 <<< 25 ||| 0x53⟩

def funct12 (f12 f3 op : Word) : Pattern := ⟨0xFFF0707F, f12 <<< 20 ||| f3 <<< 12 ||| op⟩

variable {p : Pattern} {w : Word}

theorem Matches.bits_eq (h : p.Matches w) {s : ℕ} {k : Word} (hm : bits p.mask s k = k) :
    bits w s k = bits p.value s k := by
  have hk : k = (p.mask >>> s) &&& k := hm.symm
  calc (w >>> s) &&& k = (w >>> s) &&& ((p.mask >>> s) &&& k) := by rw [← hk]
    _ = ((w &&& p.mask) >>> s) &&& k := by rw [BitVec.ushiftRight_and_distrib, BitVec.and_assoc]
    _ = (p.value >>> s) &&& k := by rw [h]

theorem Matches.and_eq (h : p.Matches w) {k : Word} (hm : p.mask &&& k = k) : w &&& k = p.value &&& k := by
  rw [← h, BitVec.and_assoc, hm]

theorem Matches.low (h : p.Matches w) (hm : p.mask &&& 3 = 3) (hv : p.value &&& 3 = 3) : w &&& 3 = 3 :=
  (h.and_eq hm).trans hv

theorem Matches.opcode_eq (h : p.Matches w) (hm : bits p.mask 2 0x1F = 0x1F) :
    (bits w 2 0x1F).toNat = (bits p.value 2 0x1F).toNat := congrArg BitVec.toNat (h.bits_eq hm)

theorem Matches.funct3_eq (h : p.Matches w) (hm : bits p.mask 12 0x7 = 0x7) :
    decodeFunct3 w = decodeFunct3 p.value := congrArg BitVec.toNat (h.bits_eq hm)

theorem Matches.funct7_eq (h : p.Matches w) (hm : bits p.mask 25 0x7F = 0x7F) :
    decodeFunct7 w = decodeFunct7 p.value := congrArg BitVec.toNat (h.bits_eq hm)

theorem Matches.rs2_eq (h : p.Matches w) (hm : bits p.mask 20 0x1F = 0x1F) :
    decodeRs2 w = decodeRs2 p.value := by
  unfold decodeRs2
  rw [h.bits_eq hm]

theorem Matches.itypeImm_eq (h : p.Matches w) (hm : p.mask &&& 0xFFF00000 = 0xFFF00000) :
    decodeItypeImm w = decodeItypeImm p.value := by
  unfold decodeItypeImm
  rw [h.and_eq hm]

end Pattern

end patterns

section mnemonics

inductive FpOp
  | fmadds | fmsubs | fnmsubs | fnmadds
  | fadds | fsubs | fmuls | fdivs | fsqrts
  | fsgnjs | fsgnjns | fsgnjxs | fmins | fmaxs
  | fcvtws | fcvtwus | fmvxw | fclasss | feqs | flts | fles
  | fcvtsw | fcvtswu | fmvwx

inductive ExtMnemonic
  | mul (op : MulOp)
  | bitOp (op : BitOp)
  | lrw | scw
  | amo (op : AmoOp)
  | csr (op : CsrOp)
  | csri (op : CsrOp)
  | flw | fsw
  | fp (op : FpOp)
  | fence | fencei | ecall | ebreak | wfi | mret | sfencevma

inductive Mnemonic
  | lui | auipc | jal | jalr
  | branch (cond : BranchCond)
  | load (op : LoadOp)
  | lw
  | store (op : StoreOp)
  | sw
  | imm (op : ImmOp)
  | alu (op : AluOp)
  | ext (x : ExtMnemonic)

def BranchCond.funct3 : BranchCond → Word
  | beq => 0 | bne => 1 | blt => 4 | bge => 5 | bltu => 6 | bgeu => 7

def LoadOp.funct3 : LoadOp → Word
  | lb => 0 | lh => 1 | lbu => 4 | lhu => 5

def StoreOp.funct3 : StoreOp → Word
  | sb => 0 | sh => 1

def ImmOp.pattern : ImmOp → Pattern
  | addi => .funct3 0 0x13
  | slti => .funct3 2 0x13
  | sltiu => .funct3 3 0x13
  | xori => .funct3 4 0x13
  | ori => .funct3 6 0x13
  | andi => .funct3 7 0x13
  | slli => .funct7 0x00 1 0x13
  | srli => .funct7 0x00 5 0x13
  | srai => .funct7 0x20 5 0x13

def AluOp.pattern : AluOp → Pattern
  | add => .funct7 0x00 0 0x33
  | sub => .funct7 0x20 0 0x33
  | sll => .funct7 0x00 1 0x33
  | slt => .funct7 0x00 2 0x33
  | sltu => .funct7 0x00 3 0x33
  | xor => .funct7 0x00 4 0x33
  | srl => .funct7 0x00 5 0x33
  | sra => .funct7 0x20 5 0x33
  | or => .funct7 0x00 6 0x33
  | and => .funct7 0x00 7 0x33

def MulOp.funct3 : MulOp → Word
  | mul => 0 | mulh => 1 | mulhsu => 2 | mulhu => 3 | div => 4 | divu => 5 | rem => 6 | remu => 7

def BitOp.pattern : BitOp → Pattern
  | sh1add => .funct7 0x10 2 0x33
  | sh2add => .funct7 0x10 4 0x33
  | sh3add => .funct7 0x10 6 0x33
  | andn => .funct7 0x20 7 0x33
  | orn => .funct7 0x20 6 0x33
  | xnor => .funct7 0x20 4 0x33
  | clz => .funct12 0x600 1 0x13
  | ctz => .funct12 0x601 1 0x13
  | cpop => .funct12 0x602 1 0x13
  | max => .funct7 0x05 6 0x33
  | maxu => .funct7 0x05 7 0x33
  | min => .funct7 0x05 4 0x33
  | minu => .funct7 0x05 5 0x33
  | sextb => .funct12 0x604 1 0x13
  | sexth => .funct12 0x605 1 0x13
  | zexth => .funct12 0x080 4 0x33
  | rol => .funct7 0x30 1 0x33
  | ror => .funct7 0x30 5 0x33
  | rori => .funct7 0x30 5 0x13
  | orcb => .funct12 0x287 5 0x13
  | rev8 => .funct12 0x698 5 0x13
  | clmul => .funct7 0x05 1 0x33
  | clmulh => .funct7 0x05 3 0x33
  | clmulr => .funct7 0x05 2 0x33
  | bclr => .funct7 0x24 1 0x33
  | bclri => .funct7 0x24 1 0x13
  | bext => .funct7 0x24 5 0x33
  | bexti => .funct7 0x24 5 0x13
  | binv => .funct7 0x34 1 0x33
  | binvi => .funct7 0x34 1 0x13
  | bset => .funct7 0x14 1 0x33
  | bseti => .funct7 0x14 1 0x13

def AmoOp.funct5 : AmoOp → Word
  | swap => 0x01 | add => 0x00 | xor => 0x04 | and => 0x0C | or => 0x08
  | min => 0x10 | max => 0x14 | minu => 0x18 | maxu => 0x1C

def CsrOp.funct3 : CsrOp → Word
  | csrrw => 1 | csrrs => 2 | csrrc => 3

def FpOp.pattern : FpOp → Pattern
  | fmadds => ⟨0x0600007F, 0x43⟩
  | fmsubs => ⟨0x0600007F, 0x47⟩
  | fnmsubs => ⟨0x0600007F, 0x4B⟩
  | fnmadds => ⟨0x0600007F, 0x4F⟩
  | fadds => .rounding 0x00
  | fsubs => .rounding 0x04
  | fmuls => .rounding 0x08
  | fdivs => .rounding 0x0C
  | fsqrts => ⟨0xFFF0007F, 0x58000053⟩
  | fsgnjs => .funct7 0x10 0 0x53
  | fsgnjns => .funct7 0x10 1 0x53
  | fsgnjxs => .funct7 0x10 2 0x53
  | fmins => .funct7 0x14 0 0x53
  | fmaxs => .funct7 0x14 1 0x53
  | fcvtws => ⟨0xFFF0007F, 0xC0000053⟩
  | fcvtwus => ⟨0xFFF0007F, 0xC0100053⟩
  | fmvxw => .funct12 0xE00 0 0x53
  | fclasss => .funct12 0xE00 1 0x53
  | feqs => .funct7 0x50 2 0x53
  | flts => .funct7 0x50 1 0x53
  | fles => .funct7 0x50 0 0x53
  | fcvtsw => ⟨0xFFF0007F, 0xD0000053⟩
  | fcvtswu => ⟨0xFFF0007F, 0xD0100053⟩
  | fmvwx => .funct12 0xF00 0 0x53

def FpOp.rounds : FpOp → Bool
  | fmadds | fmsubs | fnmsubs | fnmadds | fadds | fsubs | fmuls | fdivs | fsqrts
  | fcvtws | fcvtwus | fcvtsw | fcvtswu => true
  | _ => false

def ExtMnemonic.pattern : ExtMnemonic → Pattern
  | mul op => .funct7 1 op.funct3 0x33
  | bitOp op => op.pattern
  | lrw => ⟨0xF9F0707F, 0x1000202F⟩
  | scw => ⟨0xF800707F, 0x1800202F⟩
  | amo op => ⟨0xF800707F, op.funct5 <<< 27 ||| 0x202F⟩
  | csr op => .funct3 op.funct3 0x73
  | csri op => .funct3 (op.funct3 ||| 4) 0x73
  | flw => .funct3 2 0x07
  | fsw => .funct3 2 0x27
  | fp op => op.pattern
  | fence => .funct3 0 0x0F
  | fencei => .funct3 1 0x0F
  | ecall => ⟨0xFFFFFFFF, 0x00000073⟩
  | ebreak => ⟨0xFFFFFFFF, 0x00100073⟩
  | wfi => ⟨0xFFFFFFFF, 0x10500073⟩
  | mret => ⟨0xFFFFFFFF, 0x30200073⟩
  | sfencevma => ⟨0xFE007FFF, 0x12000073⟩

def Mnemonic.pattern : Mnemonic → Pattern
  | lui => .opcode 0x37
  | auipc => .opcode 0x17
  | jal => .opcode 0x6F
  | jalr => .funct3 0 0x67
  | branch cond => .funct3 cond.funct3 0x63
  | load op => .funct3 op.funct3 0x03
  | lw => .funct3 2 0x03
  | store op => .funct3 op.funct3 0x23
  | sw => .funct3 2 0x23
  | imm op => op.pattern
  | alu op => op.pattern
  | ext x => x.pattern

def RoundingMode (w : Word) : Prop := w.extractLsb' 12 3 ≠ 5 ∧ w.extractLsb' 12 3 ≠ 6

def Mnemonic.rounds : Mnemonic → Bool
  | ext (.fp op) => op.rounds
  | _ => false

structure Mnemonic.Encodes (m : Mnemonic) (w : Word) : Prop where
  fixed : m.pattern.Matches w
  rounding : m.rounds = true → RoundingMode w

end mnemonics

end Rv32Emu
