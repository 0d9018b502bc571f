import Mathlib.Tactic.SplitIfs
import Rv32Emu.Rv.Encoding

namespace Rv32Emu

section floatingPoint

def opOpFpInsn (insn : Word) : Option (Option FpOp) :=
  let rm := decodeFunct3 insn
  let rs2 := decodeRs2 insn
  match decodeFunct7 insn with
  | 0 => some (some .fadds)
  | 4 => some (some .fsubs)
  | 8 => some (some .fmuls)
  | 12 => some (some .fdivs)
  | 44 => some (some .fsqrts)
  | 16 => if rm = 0 then some (some .fsgnjs) else if rm = 1 then some (some .fsgnjns)
    else if rm = 2 then some (some .fsgnjxs) else none
  | 96 => if rs2 = 0 then some (some .fcvtws) else if rs2 = 1 then some (some .fcvtwus) else some none
  | 20 => if rm = 0 then some (some .fmins) else if rm = 1 then some (some .fmaxs) else none
  | 112 => if rm = 0 then some (some .fmvxw) else if rm = 1 then some (some .fclasss) else none
  | 80 => if rm = 2 then some (some .feqs) else if rm = 1 then some (some .flts)
    else if rm = 0 then some (some .fles) else none
  | 104 => if rs2 = 0 then some (some .fcvtsw) else if rs2 = 1 then some (some .fcvtswu) else none
  | 120 => some (some .fmvwx)
  | _ => none

def fpInsn (insn : Word) : Option (Option FpOp) :=
  match (bits insn 2 0x1F).toNat with
  | 16 => some (some .fmadds)
  | 17 => some (some .fmsubs)
  | 18 => some (some .fnmsubs)
  | 19 => some (some .fnmadds)
  | 20 => opOpFpInsn insn
  | _ => none

def FpOp.extOp : FpOp → ExtOp
  | fcvtws | fcvtwus | fmvxw | fclasss | feqs | flts | fles => .fpToX
  | _ => .fpToF

def fpExtOp : Option FpOp → ExtOp
  | some op => op.extOp
  | none => .nop

theorem opOpFp_eq (w : Word) : opOpFp w = (opOpFpInsn w).map fpExtOp := by
  unfold opOpFp opOpFpInsn
  dsimp only
  generalize decodeFunct7 w = f7
  generalize decodeFunct3 w = rm
  generalize decodeRs2 w = rs2
  split
  case h_6 | h_8 | h_9 | h_10 => grind [fpExtOp, FpOp.extOp]
  case h_7 | h_11 => grind [fpExtOp, FpOp.extOp]
  case h_13 => grind
  all_goals rfl

end floatingPoint

section expected

def ExtOp.insn (op : ExtOp) (w : Word) : ExtInsn :=
  match op with
  | .fence | .fencei => ⟨w, 0, 0, 0, op.canBranch⟩
  | .fsw => ⟨w, 0, rs1Field w, rs2Field w, op.canBranch⟩
  | _ => ⟨w, rdField w, rs1Field w, rs2Field w, op.canBranch⟩

def ExtMnemonic.extOp : ExtMnemonic → ExtOp
  | mul op => .mul op
  | bitOp op => .bitOp op
  | lrw => .lrw
  | scw => .scw
  | amo op => .amo op
  | csr op => .csr op
  | csri op => .csri op
  | flw => .flw
  | fsw => .fsw
  | fp op => op.extOp
  | fence => .fence
  | fencei => .fencei
  | ecall => .ecall
  | ebreak => .ebreak
  | wfi => .wfi
  | mret => .mret
  | sfencevma => .sfencevma

def Mnemonic.ir (w : Word) : Mnemonic → Ir
  | lui => mkIr .lui (immU w) (rdField w) 0 0
  | auipc => mkIr .auipc (immU w) (rdField w) 0 0
  | jal => mkIr .jal (immJ w) (rdField w) 0 0
  | jalr => mkIr .jalr (immI w) (rdField w) (rs1Field w) 0
  | branch cond => mkIr (.branch cond) (immB w) 0 (rs1Field w) (rs2Field w)
  | load op => mkIr (.load op) (immI w) (rdField w) (rs1Field w) 0
  | lw => mkIr .lw (immI w) (rdField w) (rs1Field w) 0
  | store op => mkIr (.store op) (immS w) 0 (rs1Field w) (rs2Field w)
  | sw => mkIr .sw (immS w) 0 (rs1Field w) (rs2Field w)
  | imm op => mkIr (.imm op) (immI w) (rdField w) (rs1Field w) 0
  | alu op => mkIr (.alu op) 0 (rdField w) (rs1Field w) (rs2Field w)
  | ext x => extIr (x.extOp.insn w)

def Mnemonic.computes : Mnemonic → Bool
  | lui | auipc | imm _ | alu _ | ext (.mul _) | ext (.bitOp _) => true
  | _ => false

structure Mnemonic.RunBy (m : Mnemonic) (w : Word) (ir : Ir) : Prop where
  handler : ir = m.ir w ∨ m.computes = true ∧ rdField w = 0 ∧ ir.opcode = .nop ∧ ir.impl = .dispatch .nop
  ext : ∀ x, m = .ext x → extOp w = some x.extOp
  fp : ∀ op, m = .ext (.fp op) → fpInsn w = some (some op)

end expected

section opcodes

variable {w : Word}

theorem extDecode_insn (w : Word) : extDecode w = (extOp w).map (·.insn w) := by
  unfold extDecode
  rw [decodeRd_eq, decodeRs1_eq, decodeRs2_eq]
  rfl

end opcodes

section base

variable {w : Word} {ext : Word → Option ExtInsn}

theorem runBy_self {m : Mnemonic} (hm : ∀ x, m ≠ .ext x) : m.RunBy w (m.ir w) :=
  ⟨.inl rfl, fun x hx => absurd hx (hm x), fun op hx => absurd hx (hm (.fp op))⟩

theorem runBy_nop {m : Mnemonic} (hm : ∀ x, m ≠ .ext x) (hc : m.computes = true) (hd : rdField w = 0)
    (imm : Word) (rd rs1 rs2 : Reg) : m.RunBy w (mkIr .nop imm rd rs1 rs2) :=
  ⟨.inr ⟨hc, hd, rfl, rfl⟩, fun x hx => absurd hx (hm x), fun op hx => absurd hx (hm (.fp op))⟩

theorem opUtype_runs {m : Mnemonic} {op : Opcode} (hm : ∀ x, m ≠ .ext x) (hc : m.computes = true)
    (hir : m.ir w = mkIr op (immU w) (rdField w) 0 0) : ∃ ir, opUtype op w = some ir ∧ m.RunBy w ir := by
  refine ⟨_, rfl, ?_⟩
  rw [decodeRd_eq, decodeUtypeImm_eq]
  split_ifs with hd
  · exact runBy_nop hm hc hd _ _ _ _
  · rw [← hir]
    exact runBy_self hm

theorem mask_funct3 : bits (0x707F : Word) 12 0x7 = 0x7 := by
  decide

theorem mask_opcode : bits (0x707F : Word) 2 0x1F = 0x1F := by
  decide

theorem branch_runs {cond : BranchCond} (h : (Mnemonic.branch cond).pattern.Matches w) :
    opBranch w = some ((Mnemonic.branch cond).ir w) := by
  unfold opBranch
  rw [h.funct3_eq mask_funct3, decodeBtypeImm_eq, decodeRs1_eq, decodeRs2_eq]
  cases cond <;> rfl

theorem load_runs {op : LoadOp} (h : (Mnemonic.load op).pattern.Matches w) :
    opLoad w = some ((Mnemonic.load op).ir w) := by
  unfold opLoad
  rw [h.funct3_eq mask_funct3, decodeItypeImm_eq, decodeRd_eq, decodeRs1_eq]
  cases op <;> rfl

theorem lw_runs (h : Mnemonic.lw.pattern.Matches w) : opLoad w = some (Mnemonic.lw.ir w) := by
  unfold opLoad
  rw [h.funct3_eq mask_funct3, decodeItypeImm_eq, decodeRd_eq, decodeRs1_eq]
  rfl

theorem store_runs {op : StoreOp} (h : (Mnemonic.store op).pattern.Matches w) :
    opStore w = some ((Mnemonic.store op).ir w) := by
  unfold opStore
  rw [h.funct3_eq mask_funct3, decodeStypeImm_eq, decodeRs1_eq, decodeRs2_eq]
  cases op <;> rfl

theorem sw_runs (h : Mnemonic.sw.pattern.Matches w) : opStore w = some (Mnemonic.sw.ir w) := by
  unfold opStore
  rw [h.funct3_eq mask_funct3, decodeStypeImm_eq, decodeRs1_eq, decodeRs2_eq]
  rfl

theorem alu_runs {op : AluOp} (h : op.pattern.Matches w) :
    ∃ ir, opOp ext w = some ir ∧ (Mnemonic.alu op).RunBy w ir := by
  have h3 : decodeFunct3 w = decodeFunct3 op.pattern.value := h.funct3_eq (by cases op <;> rfl)
  have h7 : decodeFunct7 w = decodeFunct7 op.pattern.value := h.funct7_eq (by cases op <;> rfl)
  unfold opOp
  rw [h3, h7, decodeRd_eq, decodeRs1_eq, decodeRs2_eq]
  by_cases hd : rdField w = 0
  · rw [if_pos hd]
    exact ⟨_, rfl, runBy_nop (m := .alu op) nofun rfl hd _ _ _ _⟩
  · rw [if_neg hd]
    refine ⟨(Mnemonic.alu op).ir w, ?_, runBy_self (m := .alu op) nofun⟩
    cases op <;> rfl

end base

section shifts

variable {w : Word}

theorem decodeItypeImm_shift (w : Word) :
    (decodeItypeImm w).sshiftRight 5 = (w &&& 0xFE000000).sshiftRight 25 := by
  apply BitVec.eq_of_getLsbD_eq
  intro i hi
  simp only [decodeItypeImm, BitVec.getLsbD_sshiftRight, BitVec.msb_eq_getLsbD_last,
    BitVec.getLsbD_and]
  interval_cases i <;> simp

theorem Pattern.Matches.shift_eq {p : Pattern} (h : p.Matches w) (hm : p.mask &&& 0xFE000000 = 0xFE000000) :
    (decodeItypeImm w).sshiftRight 5 = (p.value &&& 0xFE000000).sshiftRight 25 := by
  rw [decodeItypeImm_shift, h.and_eq hm]

variable {c : Word} (hs : (decodeItypeImm w).sshiftRight 5 = c)

include hs

theorem ne_of_shift {d : Word} (hd : d ≠ c) (v : Word) (hv : v.sshiftRight 5 = d) : decodeItypeImm w ≠ v := by
  rintro rfl
  exact hd (hv.symm.trans hs)

theorem opOpImmExt_left (h3 : decodeFunct3 w = 1) (hc : (0x30 : Word) ≠ c) :
    opOpImmExt w =
      if c = 0x24 then some .bclri else if c = 0x34 then some .binvi else if c = 0x14 then some .bseti
        else none := by
  have hne := ne_of_shift hs hc
  unfold opOpImmExt
  rw [h3]
  dsimp only
  rw [hs, if_neg (hne 0x600 rfl), if_neg (hne 0x601 rfl), if_neg (hne 0x602 rfl), if_neg (hne 0x604 rfl),
    if_neg (hne 0x605 rfl)]
  rfl

theorem opOpImmExt_right (h3 : decodeFunct3 w = 5) (hc : (0x14 : Word) ≠ c) (hc' : (0x34 : Word) ≠ c) :
    opOpImmExt w = if c = 0x30 then some .rori else if c = 0x24 then some .bexti else none := by
  unfold opOpImmExt
  rw [h3]
  dsimp only
  rw [hs, if_neg (ne_of_shift hs hc 0x287 rfl), if_neg (ne_of_shift hs hc' 0x698 rfl)]
  rfl

theorem bit_shift : bit (decodeItypeImm w) 5 = c.getLsbD 0 := by
  rw [← hs]
  simp only [bit, BitVec.getLsbD_sshiftRight]
  simp

theorem and_shift : decodeItypeImm w &&& ~~~(0x1f : Word) = c <<< 5 := by
  rw [← hs]
  generalize decodeItypeImm w = imm
  apply BitVec.eq_of_getLsbD_eq
  intro i hi
  simp only [BitVec.getLsbD_sshiftRight, BitVec.getLsbD_and, BitVec.getLsbD_shiftLeft]
  interval_cases i <;> simp

end shifts

section opImm

variable {w : Word}

theorem extOp_opImm (ho : (bits w 2 0x1F).toNat = 4) : extOp w = (opOpImmExt w).map .bitOp := by
  unfold extOp
  rw [ho]
  rfl

theorem extDecode_opImm (ho : (bits w 2 0x1F).toNat = 4) (h : opOpImmExt w = none) : extDecode w = none := by
  rw [extDecode_insn, extOp_opImm ho, h]
  rfl

theorem opOpImm_right {c : Word} (h3 : decodeFunct3 w = 5) (hx : extDecode w = none) (hd : rdField w ≠ 0)
    (hs : (decodeItypeImm w).sshiftRight 5 = c) (hc : c.getLsbD 0 = false) :
    opOpImm extDecode w =
      some (mkIr (.imm (if c <<< 5 = 0 then .srli else .srai)) (immI w) (rdField w) (rs1Field w) 0) := by
  have hb : ¬(bit (decodeItypeImm w) 5 = true) := by
    rw [bit_shift hs, hc]
    exact Bool.false_ne_true
  simp only [opOpImm, decodeRd_eq, decodeRs1_eq, h3, hx, if_neg hd, if_neg hb, and_shift hs]
  rw [decodeItypeImm_eq]
  split_ifs <;> rfl

theorem slli_runs (h : ImmOp.slli.pattern.Matches w) (hd : rdField w ≠ 0) :
    opOpImm extDecode w = some ((Mnemonic.imm .slli).ir w) := by
  have h3 : decodeFunct3 w = 1 := h.funct3_eq rfl
  have hs : (decodeItypeImm w).sshiftRight 5 = 0 := h.shift_eq rfl
  have hx : extDecode w = none := extDecode_opImm (h.opcode_eq rfl) (opOpImmExt_left hs h3 (by decide))
  have hb : ¬(bit (decodeItypeImm w) 5 = true) := by
    rw [bit_shift hs]
    decide
  simp only [opOpImm, decodeRd_eq, decodeRs1_eq, h3, hx, if_neg hd, if_neg hb]
  rw [decodeItypeImm_eq]
  rfl

theorem srli_runs (h : ImmOp.srli.pattern.Matches w) (hd : rdField w ≠ 0) :
    opOpImm extDecode w = some ((Mnemonic.imm .srli).ir w) := by
  have h3 : decodeFunct3 w = 5 := h.funct3_eq rfl
  have hs : (decodeItypeImm w).sshiftRight 5 = 0 := h.shift_eq rfl
  exact opOpImm_right h3
    (extDecode_opImm (h.opcode_eq rfl) (opOpImmExt_right hs h3 (by decide) (by decide))) hd hs rfl

theorem srai_runs (h : ImmOp.srai.pattern.Matches w) (hd : rdField w ≠ 0) :
    opOpImm extDecode w = some ((Mnemonic.imm .srai).ir w) := by
  have h3 : decodeFunct3 w = 5 := h.funct3_eq rfl
  have hs : (decodeItypeImm w).sshiftRight 5 = 0x20 := h.shift_eq rfl
  exact opOpImm_right h3
    (extDecode_opImm (h.opcode_eq rfl) (opOpImmExt_right hs h3 (by decide) (by decide))) hd hs rfl

theorem opOpImm_plain {op : ImmOp} (h : op.pattern.Matches w) (hm : op.pattern.mask = 0x707F)
    (hd : rdField w ≠ 0) :
    opOpImm extDecode w = some ((Mnemonic.imm op).ir w) := by
  have h3 : decodeFunct3 w = decodeFunct3 op.pattern.value := h.funct3_eq (by rw [hm]; decide)
  unfold opOpImm
  rw [h3, decodeRd_eq, decodeRs1_eq, decodeItypeImm_eq]
  dsimp only
  rw [if_neg hd]
  cases op <;> first | rfl | cases hm

theorem opOpImm_zero (hd : rdField w = 0) :
    opOpImm extDecode w = some (mkIr .nop (immI w) (rdField w) (rs1Field w) 0) := by
  unfold opOpImm
  rw [decodeRd_eq, decodeRs1_eq, decodeItypeImm_eq]
  exact if_pos hd

theorem imm_runs {op : ImmOp} (h : op.pattern.Matches w) :
    ∃ ir, opOpImm extDecode w = some ir ∧ (Mnemonic.imm op).RunBy w ir := by
  by_cases hd : rdField w = 0
  · exact ⟨_, opOpImm_zero hd, runBy_nop (m := .imm op) nofun rfl hd _ _ _ _⟩
  · refine ⟨(Mnemonic.imm op).ir w, ?_, runBy_self nofun⟩
    cases op with
    | slli => exact slli_runs h hd
    | srli => exact srli_runs h hd
    | srai => exact srai_runs h hd
    | _ => exact opOpImm_plain h rfl hd

end opImm

section extensions

variable {w : Word}

theorem mul_extOp {op : MulOp} (h : (ExtMnemonic.mul op).pattern.Matches w) : opOpExt w = some (.mul op) := by
  have h3 : decodeFunct3 w = decodeFunct3 (ExtMnemonic.mul op).pattern.value :=
    h.funct3_eq (by cases op <;> rfl)
  have h7 : decodeFunct7 w = decodeFunct7 (ExtMnemonic.mul op).pattern.value :=
    h.funct7_eq (by cases op <;> rfl)
  unfold opOpExt
  rw [h3, h7]
  cases op <;> rfl

theorem zexth_extOp (h : BitOp.zexth.pattern.Matches w) : opOpExt w = some (.bitOp .zexth) := by
  have h3 : decodeFunct3 w = 4 := h.funct3_eq rfl
  have h7 : decodeFunct7 w = 4 := h.funct7_eq rfl
  have h2 : decodeRs2 w = 0 := h.rs2_eq rfl
  unfold opOpExt
  rw [h3, h7, h2]
  rfl

theorem bitOp_reg {op : BitOp} (h : op.pattern.Matches w) (hr : (bits op.pattern.value 2 0x1F).toNat = 12) :
    opOpExt w = some (.bitOp op) := by
  have h3 : decodeFunct3 w = decodeFunct3 op.pattern.value := h.funct3_eq (by cases op <;> rfl)
  have h7 : decodeFunct7 w = decodeFunct7 op.pattern.value := h.funct7_eq (by cases op <;> rfl)
  by_cases hz : op = .zexth
  · subst hz
    exact zexth_extOp h
  · unfold opOpExt
    rw [h3, h7]
    cases op <;> first | rfl | (exact absurd rfl hz) | (exact absurd hr (by decide))

theorem bitOp_imm {op : BitOp} (h : op.pattern.Matches w) (hr : (bits op.pattern.value 2 0x1F).toNat = 4) :
    opOpImmExt w = some op := by
  cases op with
  | clz | ctz | cpop | sextb | sexth | orcb | rev8 =>
    unfold opOpImmExt
    rw [h.funct3_eq rfl, h.itypeImm_eq rfl]
    rfl
  | rori | bexti => exact opOpImmExt_right (h.shift_eq rfl) (h.funct3_eq rfl) (by decide) (by decide)
  | bclri | binvi | bseti => exact opOpImmExt_left (h.shift_eq rfl) (h.funct3_eq rfl) (by decide)
  | _ => exact absurd hr (by decide)

theorem decodeFunct7_toNat (w : Word) : decodeFunct7 w = w.toNat / 2 ^ 25 % 2 ^ 7 :=
  bits_mask_toNat w 25 7 rfl

theorem funct7_div (w : Word) : decodeFunct7 w / 4 = (bits w 27 0x1F).toNat := by
  rw [decodeFunct7_toNat, bits_mask_toNat w 27 5 rfl]
  omega

theorem opAmo_eq {p : Pattern} (h : p.Matches w) (hm : bits p.mask 27 0x1F = 0x1F) :
    opAmo w = opAmo p.value := by
  unfold opAmo
  rw [funct7_div, funct7_div, h.bits_eq hm]

def csrField (w : Word) : ℕ := (w.extractLsb' 20 12).toNat

theorem csrIsWritable_iff (w : Word) : csrIsWritable (decodeItypeImm w) = true ↔ csrField w < 0x800 := by
  rw [decodeItypeImm_eq, csrIsWritable, decide_eq_true_iff, immI, BitVec.toNat_signExtend,
    BitVec.msb_eq_decide]
  unfold csrField
  generalize w.extractLsb' 20 12 = c
  have hc : c.toNat < 4096 := c.isLt
  have hw : (c.setWidth 32).toNat = c.toNat := BitVec.toNat_setWidth_of_le (by decide)
  rw [hw]
  split_ifs with hm
  · have := of_decide_eq_true hm
    omega
  · have := of_decide_eq_false (Bool.eq_false_iff.mpr hm)
    omega

theorem opSystem_csr {x : ExtMnemonic} {op : CsrOp} (hx : x = .csr op ∨ x = .csri op)
    (h : x.pattern.Matches w) :
    opSystem w = if csrField w < 0x800 ∨ rs1Field w = 0 then some x.extOp else none := by
  have hc : (csrIsWritable (decodeItypeImm w) || decide (rs1Field w = 0)) = true ↔
      csrField w < 0x800 ∨ rs1Field w = 0 := by
    rw [Bool.or_eq_true, csrIsWritable_iff, decide_eq_true_iff]
  unfold opSystem
  rw [h.funct3_eq (by obtain rfl | rfl := hx <;> exact mask_funct3), decodeRs1_eq]
  dsimp only
  rw [if_congr hc rfl rfl]
  obtain rfl | rfl := hx <;> cases op <;> rfl

theorem opSystem_sfencevma (h : ExtMnemonic.sfencevma.pattern.Matches w) : opSystem w = some .sfencevma := by
  have h7 : decodeFunct7 w = 9 := h.funct7_eq rfl
  have hc : csrIsWritable (decodeItypeImm w) = true := by
    rw [csrIsWritable_iff, csrField, BitVec.extractLsb'_toNat, Nat.shiftRight_eq_div_pow]
    rw [decodeFunct7_toNat] at h7
    omega
  unfold opSystem
  dsimp only
  rw [h.funct3_eq rfl, hc, h7]
  rfl

theorem fpInsn_eq {op : FpOp} (h : op.pattern.Matches w) : fpInsn w = some (some op) := by
  cases op with
  | fmadds | fmsubs | fnmsubs | fnmadds =>
    unfold fpInsn
    rw [h.opcode_eq rfl]
    rfl
  | fadds | fsubs | fmuls | fdivs | fsqrts | fmvwx =>
    unfold fpInsn opOpFpInsn
    rw [h.opcode_eq rfl, h.funct7_eq rfl]
    rfl
  | fcvtws | fcvtwus | fcvtsw | fcvtswu =>
    unfold fpInsn opOpFpInsn
    rw [h.opcode_eq rfl, h.funct7_eq rfl, h.rs2_eq rfl]
    rfl
  | _ =>
    unfold fpInsn opOpFpInsn
    rw [h.opcode_eq rfl, h.funct7_eq rfl, h.funct3_eq rfl]
    rfl

theorem extOp_of_fpInsn {o : Option FpOp} (h : fpInsn w = some o) : extOp w = some (fpExtOp o) := by
  unfold fpInsn at h
  unfold extOp
  rw [opOpFp_eq]
  generalize (bits w 2 0x1F).toNat = n at h ⊢
  split at h
  case h_5 => exact congrArg (Option.map fpExtOp) h
  case h_6 => cases h
  all_goals
    cases h
    rfl

def Mnemonic.HighCsr (m : Mnemonic) (w : Word) : Prop :=
  (∃ op, m = .ext (.csr op) ∨ m = .ext (.csri op)) ∧ 0x800 ≤ csrField w ∧ rs1Field w ≠ 0

theorem extOp_system (ho : (bits w 2 0x1F).toNat = 28) : extOp w = opSystem w := by
  unfold extOp
  rw [ho]
  rfl

theorem csr_opcode {x : ExtMnemonic} {op : CsrOp} (hx : x = .csr op ∨ x = .csri op)
    (h : x.pattern.Matches w) :
    (bits w 2 0x1F).toNat = 28 := by
  rw [h.opcode_eq (by obtain rfl | rfl := hx <;> exact mask_opcode)]
  obtain rfl | rfl := hx <;> cases op <;> rfl

theorem extOp_csr {x : ExtMnemonic} {op : CsrOp} (hx : x = .csr op ∨ x = .csri op) (h : x.pattern.Matches w)
    (hc : ¬(Mnemonic.ext x).HighCsr w) : extOp w = some x.extOp := by
  rw [extOp_system (csr_opcode hx h), opSystem_csr hx h, if_pos]
  by_contra hn
  rw [not_or, Nat.not_lt] at hn
  exact hc ⟨⟨op, by obtain rfl | rfl := hx <;> simp⟩, hn⟩

theorem extOp_op (ho : (bits w 2 0x1F).toNat = 12) : extOp w = opOpExt w := by
  unfold extOp
  rw [ho]
  rfl

theorem extOp_amo (ho : (bits w 2 0x1F).toNat = 11) : extOp w = opAmo w := by
  unfold extOp
  rw [ho]
  rfl

theorem BitOp.opcode_cases (op : BitOp) :
    (bits op.pattern.value 2 0x1F).toNat = 12 ∨ (bits op.pattern.value 2 0x1F).toNat = 4 := by
  cases op <;> first | exact .inl rfl | exact .inr rfl

theorem bitOp_opcode {op : BitOp} (h : op.pattern.Matches w) :
    (bits w 2 0x1F).toNat = (bits op.pattern.value 2 0x1F).toNat := h.opcode_eq (by cases op <;> rfl)

theorem ext_extOp {x : ExtMnemonic} (h : x.pattern.Matches w) (hc : ¬(Mnemonic.ext x).HighCsr w) :
    extOp w = some x.extOp := by
  cases x with
  | mul op =>
    rw [extOp_op (by rw [h.opcode_eq (by cases op <;> rfl)]; cases op <;> rfl)]
    exact mul_extOp h
  | bitOp op =>
    obtain ho | ho := op.opcode_cases
    · rw [extOp_op ((bitOp_opcode h).trans ho)]
      exact bitOp_reg h ho
    · rw [extOp_opImm ((bitOp_opcode h).trans ho), bitOp_imm h ho]
      rfl
  | lrw | scw =>
    rw [extOp_amo (h.opcode_eq rfl), opAmo_eq h rfl]
    rfl
  | amo op =>
    rw [extOp_amo (by rw [h.opcode_eq (by cases op <;> rfl)]; cases op <;> rfl),
      opAmo_eq h (by cases op <;> rfl)]
    cases op <;> rfl
  | csr op => exact extOp_csr (.inl rfl) h hc
  | csri op => exact extOp_csr (.inr rfl) h hc
  | flw | fsw =>
    unfold extOp
    rw [h.opcode_eq rfl]
    rfl
  | fp op => exact extOp_of_fpInsn (fpInsn_eq h)
  | fence | fencei =>
    unfold extOp opMiscMem
    rw [h.opcode_eq rfl, h.funct3_eq rfl]
    rfl
  | ecall | ebreak | wfi | mret =>
    have hw : w &&& BitVec.allOnes 32 = _ := h
    rw [BitVec.and_allOnes] at hw
    rw [hw]
    rfl
  | sfencevma =>
    rw [extOp_system (h.opcode_eq rfl)]
    exact opSystem_sfencevma h

theorem runBy_ext {x : ExtMnemonic} {ir : Ir} (h : x.pattern.Matches w) (hx : extOp w = some x.extOp)
    (hir : ir = extIr (x.extOp.insn w) ∨
      (Mnemonic.ext x).computes = true ∧ rdField w = 0 ∧ ir.opcode = .nop ∧ ir.impl = .dispatch .nop) :
    (Mnemonic.ext x).RunBy w ir := by
  refine ⟨hir, ?_, ?_⟩
  · rintro _ ⟨⟩
    exact hx
  · rintro op ⟨⟩
    exact fpInsn_eq h

theorem opOp_zero (hd : rdField w = 0) :
    opOp extDecode w = some (mkIr .nop 0 (rdField w) (rs1Field w) (rs2Field w)) := by
  unfold opOp
  rw [decodeRd_eq, decodeRs1_eq, decodeRs2_eq]
  exact if_pos hd

theorem mul_runs {op : MulOp} (h : (ExtMnemonic.mul op).pattern.Matches w) {e : ExtInsn}
    (he : extDecode w = some e) (hd : rdField w ≠ 0) : opOp extDecode w = some (extIr e) := by
  have h3 : decodeFunct3 w = decodeFunct3 (ExtMnemonic.mul op).pattern.value :=
    h.funct3_eq (by cases op <;> rfl)
  have h7 : decodeFunct7 w = decodeFunct7 (ExtMnemonic.mul op).pattern.value :=
    h.funct7_eq (by cases op <;> rfl)
  unfold opOp
  dsimp only
  rw [h3, h7, he, decodeRd_eq, if_neg hd]
  cases op <;> rfl

theorem bitReg_runs {op : BitOp} (h : op.pattern.Matches w) {e : ExtInsn} (he : extDecode w = some e)
    (hd : rdField w ≠ 0) : opOp extDecode w = some (extIr e) := by
  have h3 : decodeFunct3 w = decodeFunct3 op.pattern.value := h.funct3_eq (by cases op <;> rfl)
  have h7 : decodeFunct7 w = decodeFunct7 op.pattern.value := h.funct7_eq (by cases op <;> rfl)
  unfold opOp
  dsimp only
  rw [h3, h7, he, decodeRd_eq, if_neg hd]
  cases op <;> rfl

theorem bitImm_runs {op : BitOp} (h : op.pattern.Matches w) (hr : (bits op.pattern.value 2 0x1F).toNat = 4)
    {e : ExtInsn} (he : extDecode w = some e) (hd : rdField w ≠ 0) :
    opOpImm extDecode w = some (extIr e) := by
  have h3 : decodeFunct3 w = decodeFunct3 op.pattern.value := h.funct3_eq (by cases op <;> rfl)
  unfold opOpImm
  dsimp only
  rw [h3, he, decodeRd_eq, if_neg hd]
  cases op <;> first | rfl | (exact absurd hr (by decide))

end extensions

section words

variable {w : Word}

theorem Mnemonic.pattern_low (m : Mnemonic) : m.pattern.mask &&& 3 = 3 ∧ m.pattern.value &&& 3 = 3 := by
  cases m with
  | branch cond => cases cond <;> exact ⟨rfl, rfl⟩
  | load op => cases op <;> exact ⟨rfl, rfl⟩
  | store op => cases op <;> exact ⟨rfl, rfl⟩
  | imm op => cases op <;> exact ⟨rfl, rfl⟩
  | alu op => cases op <;> exact ⟨rfl, rfl⟩
  | ext x =>
    cases x with
    | mul op => cases op <;> exact ⟨rfl, rfl⟩
    | bitOp op => cases op <;> exact ⟨rfl, rfl⟩
    | amo op => cases op <;> exact ⟨rfl, rfl⟩
    | csr op => cases op <;> exact ⟨rfl, rfl⟩
    | csri op => cases op <;> exact ⟨rfl, rfl⟩
    | fp op => cases op <;> exact ⟨rfl, rfl⟩
    | _ => exact ⟨rfl, rfl⟩
  | _ => exact ⟨rfl, rfl⟩

theorem Mnemonic.Encodes.low {m : Mnemonic} (h : m.Encodes w) : w &&& 3 = 3 :=
  h.fixed.low m.pattern_low.1 m.pattern_low.2

theorem rvDecode_low {ext : Word → Option ExtInsn} (hl : w &&& 3 ≠ 3) : rvDecode ext w = none := if_pos hl

theorem rvDecode_ext {x : ExtMnemonic} (h : (Mnemonic.ext x).Encodes w) (hx : extOp w = some x.extOp) :
    ∃ ir, rvDecode extDecode w = some ir ∧ (Mnemonic.ext x).RunBy w ir := by
  have he : extDecode w = some (x.extOp.insn w) := by
    rw [extDecode_insn, hx]
    rfl
  have hm := h.fixed
  have run : (Mnemonic.ext x).RunBy w (extIr (x.extOp.insn w)) := runBy_ext hm hx (.inl rfl)
  unfold rvDecode
  rw [if_neg (not_not.mpr h.low)]
  cases x with
  | mul op =>
    rw [show (bits w 2 0x1F).toNat = 12 by rw [hm.opcode_eq (by cases op <;> rfl)]; cases op <;> rfl]
    by_cases hd : rdField w = 0
    · exact ⟨_, opOp_zero hd, runBy_ext hm hx (.inr ⟨rfl, hd, rfl, rfl⟩)⟩
    · exact ⟨_, mul_runs hm he hd, run⟩
  | bitOp op =>
    obtain ho | ho := op.opcode_cases
    · rw [bitOp_opcode hm, ho]
      by_cases hd : rdField w = 0
      · exact ⟨_, opOp_zero hd, runBy_ext hm hx (.inr ⟨rfl, hd, rfl, rfl⟩)⟩
      · exact ⟨_, bitReg_runs hm he hd, run⟩
    · rw [bitOp_opcode hm, ho]
      by_cases hd : rdField w = 0
      · exact ⟨_, opOpImm_zero hd, runBy_ext hm hx (.inr ⟨rfl, hd, rfl, rfl⟩)⟩
      · exact ⟨_, bitImm_runs hm ho he hd, run⟩
  | amo op | csr op | csri op | fp op =>
    refine ⟨_, ?_, run⟩
    rw [hm.opcode_eq (by cases op <;> rfl), he]
    cases op <;> rfl
  | _ =>
    refine ⟨_, ?_, run⟩
    rw [hm.opcode_eq rfl, he]
    rfl

theorem rvDecode_runs {m : Mnemonic} (h : m.Encodes w) (hc : ¬m.HighCsr w) :
    ∃ ir, rvDecode extDecode w = some ir ∧ m.RunBy w ir := by
  have hm := h.fixed
  have hl := not_not.mpr h.low
  cases m with
  | ext x => exact rvDecode_ext h (ext_extOp hm hc)
  | lui =>
    unfold rvDecode
    rw [if_neg hl, hm.opcode_eq rfl]
    exact opUtype_runs nofun rfl rfl
  | auipc =>
    unfold rvDecode
    rw [if_neg hl, hm.opcode_eq rfl]
    exact opUtype_runs nofun rfl rfl
  | jal =>
    refine ⟨_, ?_, runBy_self nofun⟩
    unfold rvDecode
    rw [if_neg hl, hm.opcode_eq rfl, decodeJtypeImm_eq, decodeRd_eq]
    rfl
  | jalr =>
    refine ⟨_, ?_, runBy_self nofun⟩
    unfold rvDecode
    rw [if_neg hl, hm.opcode_eq rfl, decodeItypeImm_eq, decodeRd_eq, decodeRs1_eq]
    rfl
  | branch cond =>
    refine ⟨_, ?_, runBy_self nofun⟩
    unfold rvDecode
    rw [if_neg hl, hm.opcode_eq mask_opcode, branch_runs hm]
    cases cond <;> rfl
  | load op =>
    refine ⟨_, ?_, runBy_self nofun⟩
    unfold rvDecode
    rw [if_neg hl, hm.opcode_eq mask_opcode, load_runs hm]
    cases op <;> rfl
  | lw =>
    refine ⟨_, ?_, runBy_self nofun⟩
    unfold rvDecode
    rw [if_neg hl, hm.opcode_eq rfl, lw_runs hm]
    rfl
  | store op =>
    refine ⟨_, ?_, runBy_self nofun⟩
    unfold rvDecode
    rw [if_neg hl, hm.opcode_eq mask_opcode, store_runs hm]
    cases op <;> rfl
  | sw =>
    refine ⟨_, ?_, runBy_self nofun⟩
    unfold rvDecode
    rw [if_neg hl, hm.opcode_eq rfl, sw_runs hm]
    rfl
  | imm op =>
    unfold rvDecode
    rw [if_neg hl, show (bits w 2 0x1F).toNat =
      4 by rw [hm.opcode_eq (by cases op <;> rfl)]; cases op <;> rfl]
    exact imm_runs hm
  | alu op =>
    unfold rvDecode
    rw [if_neg hl, show (bits w 2 0x1F).toNat =
      12 by rw [hm.opcode_eq (by cases op <;> rfl)]; cases op <;> rfl]
    exact alu_runs hm

theorem rvDecode_highCsr {m : Mnemonic} (h : m.Encodes w) (hc : m.HighCsr w) :
    rvDecode extDecode w = none := by
  obtain ⟨⟨op, hop⟩, hn⟩ := hc
  obtain ⟨x, hx, rfl⟩ : ∃ x : ExtMnemonic, (x = .csr op ∨ x = .csri op) ∧ m = .ext x := by
    obtain rfl | rfl := hop
    · exact ⟨_, .inl rfl, rfl⟩
    · exact ⟨_, .inr rfl, rfl⟩
  have ho := csr_opcode hx h.fixed
  have he : extDecode w = none := by
    rw [extDecode_insn, extOp_system ho, opSystem_csr hx h.fixed, if_neg]
    · rfl
    · rw [not_or, Nat.not_lt]
      exact hn
  unfold rvDecode
  rw [if_neg (not_not.mpr h.low), ho, he]
  rfl

end words

end Rv32Emu
