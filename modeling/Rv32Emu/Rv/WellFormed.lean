import Rv32Emu.Rv.Blocks
import Rv32Emu.Rv.Extensions

namespace Rv32Emu

variable {δ ξ : Type} {P : Platform δ ξ} {E : ExtUnits δ ξ} {c : CoreConfig}

def ExtOp.computes : ExtOp → Bool
  | mul _ | bitOp _ => true
  | _ => false

def Opcode.computes : Opcode → Bool
  | lui | auipc | imm _ | alu _ => true
  | ext e => (extOp e.insn).any ExtOp.computes
  | _ => false

def Opcode.fused : Opcode → Bool
  | fuse1 | fuse2 | fuse3 | fuse4 | fuse5 => true
  | _ => false

structure Ir.Decoded (ir : Ir) : Prop where
  impl : ir.impl = .dispatch ir.opcode
  rd : ir.opcode.computes = true → ir.rd ≠ 0
  branch : ∀ cond, ir.opcode = .branch cond → ir.rd = 0
  ext : ∀ e, ir.opcode = .ext e → ir.rd = e.rd
  plain : ir.opcode.fused = false

section decode

variable {insn : Word} {ir : Ir}

theorem mkIr_decoded {op : Opcode} {imm : Word} {rd rs1 rs2 : Reg} (hc : op.computes = true → rd ≠ 0)
    (hb : ∀ cond, op = .branch cond → rd = 0) (he : ∀ e, op ≠ .ext e) (hf : op.fused = false) :
    (mkIr op imm rd rs1 rs2).Decoded :=
  ⟨rfl, hc, hb, fun e h => absurd h (he e), hf⟩

theorem opLoad_decoded (h : opLoad insn = some ir) : ir.Decoded := by
  unfold opLoad at h
  split at h <;> cases h <;> exact mkIr_decoded nofun nofun nofun rfl

theorem opStore_decoded (h : opStore insn = some ir) : ir.Decoded := by
  unfold opStore at h
  split at h <;> cases h <;> exact mkIr_decoded nofun nofun nofun rfl

theorem opBranch_decoded (h : opBranch insn = some ir) : ir.Decoded := by
  unfold opBranch at h
  split at h <;> cases h <;> exact mkIr_decoded nofun (fun _ _ => rfl) nofun rfl

theorem opUtype_decoded {op : Opcode} (hop : op = .lui ∨ op = .auipc) (h : opUtype op insn = some ir) :
    ir.Decoded := by
  cases h
  by_cases hrd : decodeRd insn = 0
  · rw [if_pos hrd]
    exact mkIr_decoded nofun nofun nofun rfl
  · rw [if_neg hrd]
    obtain rfl | rfl := hop
    · exact mkIr_decoded (fun _ => hrd) nofun nofun rfl
    · exact mkIr_decoded (fun _ => hrd) nofun nofun rfl

theorem extDecode_eq {e : ExtInsn} (h : extDecode insn = some e) :
    e.insn = insn ∧ ∃ op, extOp insn = some op ∧ (op.computes = true → e.rd = decodeRd insn) := by
  obtain ⟨op, hop, rfl⟩ := Option.map_eq_some_iff.mp h
  cases op <;> exact ⟨rfl, _, hop, fun _ => by first | rfl | contradiction⟩

theorem extIr_decoded {e : ExtInsn} (h : extDecode insn = some e)
    (hrd : ∀ op, extOp insn = some op → op.computes = true → decodeRd insn ≠ 0) : (extIr e).Decoded := by
  obtain ⟨hi, op, hop, heq⟩ := extDecode_eq h
  refine ⟨rfl, fun hc => ?_, nofun, ?_, rfl⟩
  · have hcomp : op.computes = true := by
      simp only [extIr, mkIr, Opcode.computes, hi, hop, Option.any_some] at hc
      exact hc
    exact ne_of_eq_of_ne (heq hcomp) (hrd op hop hcomp)
  · rintro _ ⟨⟩
    rfl

theorem opOpImm_decoded (h : opOpImm extDecode insn = some ir) : ir.Decoded := by
  unfold opOpImm at h
  dsimp only at h
  split at h
  · cases h
    exact mkIr_decoded nofun nofun nofun rfl
  case isFalse hrd =>
    split at h
    case h_2 | h_6 =>
      split at h
      case h_1 e he =>
        cases h
        exact extIr_decoded he fun _ _ _ => hrd
      · split_ifs at h <;> cases h <;> exact mkIr_decoded (fun _ => hrd) nofun nofun rfl
    all_goals
      cases h
      exact mkIr_decoded (fun _ => hrd) nofun nofun rfl

theorem opOp_decoded (h : opOp extDecode insn = some ir) : ir.Decoded := by
  unfold opOp at h
  dsimp only at h
  split at h
  · cases h
    exact mkIr_decoded nofun nofun nofun rfl
  case isFalse hrd =>
    split at h
    case h_11 =>
      obtain ⟨e, he, rfl⟩ := Option.map_eq_some_iff.mp h
      exact extIr_decoded he fun _ _ _ => hrd
    all_goals
      cases h
      exact mkIr_decoded (fun _ => hrd) nofun nofun rfl

section extensions

variable {op : ExtOp}

theorem opMiscMem_computes (h : opMiscMem insn = some op) : op.computes = false := by
  unfold opMiscMem at h
  split at h <;> cases h <;> rfl

theorem opAmo_computes (h : opAmo insn = some op) : op.computes = false := by
  unfold opAmo at h
  split at h <;> cases h <;> rfl

theorem opOpFp_computes (h : opOpFp insn = some op) : op.computes = false := by
  unfold opOpFp at h
  dsimp only at h
  split at h
  all_goals first | (split_ifs at h <;> cases h <;> rfl) | (cases h <;> rfl)

theorem opSystem_computes (h : opSystem insn = some op) : op.computes = false := by
  unfold opSystem at h
  dsimp only at h
  split at h
  · split at h
    case h_1 => split_ifs at h <;> cases h <;> rfl
    all_goals cases h <;> rfl
  · cases h

theorem extOp_computes (h4 : (bits insn 2 0x1F).toNat ≠ 4) (h12 : (bits insn 2 0x1F).toNat ≠ 12)
    (h : extOp insn = some op) : op.computes = false := by
  unfold extOp at h
  split at h
  all_goals first
    | contradiction
    | exact opMiscMem_computes h
    | exact opAmo_computes h
    | exact opOpFp_computes h
    | exact opSystem_computes h
    | (cases h; rfl)

end extensions

theorem rvDecode_decoded (h : rvDecode extDecode insn = some ir) : ir.Decoded := by
  have hext (h4 : (bits insn 2 0x1F).toNat ≠ 4) (h12 : (bits insn 2 0x1F).toNat ≠ 12)
      (h : (extDecode insn).map extIr = some ir) : ir.Decoded := by
    obtain ⟨e, he, rfl⟩ := Option.map_eq_some_iff.mp h
    refine extIr_decoded he fun op hop hc => ?_
    rw [extOp_computes h4 h12 hop] at hc
    cases hc
  unfold rvDecode at h
  split at h
  · cases h
  · split at h
    · exact opLoad_decoded h
    · exact opOpImm_decoded h
    · exact opUtype_decoded (.inr rfl) h
    · exact opStore_decoded h
    · exact opOp_decoded h
    · exact opUtype_decoded (.inl rfl) h
    · exact opBranch_decoded h
    · cases h
      exact mkIr_decoded nofun nofun nofun rfl
    · cases h
      exact mkIr_decoded nofun nofun nofun rfl
    all_goals first
      | exact hext (by omega) (by omega) h
      | cases h

end decode

theorem extConstopt_computes {e : ExtInsn} {info info' : ConstInfo} {v : Word}
    (h : extConstopt e info = (some v, info')) : (Opcode.ext e).computes = true := by
  unfold extConstopt at h
  split at h
  case h_1 op hop =>
    rw [Opcode.computes, hop]
    rfl
  all_goals cases h

inductive Straight : Word → List Ir → Prop
  | last {pc : Word} {ir : Ir} : ir.Decoded → ir.pc = pc → Straight pc [ir]
  | mailbox {pc : Word} {ir : Ir} : ir.Decoded → ir.opcode = .lw → ir.pc = pc →
      Straight pc [{ ir with impl := .lwMailbox }]
  | ttinsn {pc imm : Word} : Straight pc [{ mkIr .ttinsn imm 0 0 0 with impl := .ttinsn, pc }]
  | cons {pc : Word} {ir : Ir} {irs : List Ir} : ir.Decoded → ir.pc = pc → insnIsBranch ir.opcode = false →
      Straight (pc + 4) irs → Straight pc (ir :: irs)

theorem Ir.Decoded.at {ir : Ir} (h : ir.Decoded) (pc : Word) : ({ ir with pc := pc } : Ir).Decoded :=
  ⟨h.impl, h.rd, h.branch, h.ext, h.plain⟩

theorem translateLoop_straight (dev : δ) (x : Reg → Word) {n : ℕ} {pcEnd : Word} {luiConst : Reg → Word}
    {irs : List Ir} (h : translateLoop (P.extend E) c dev x n pcEnd luiConst = some irs) :
    Straight pcEnd irs := by
  induction n generalizing pcEnd luiConst irs with
  | zero => cases h
  | succ n ih =>
    unfold translateLoop at h
    dsimp only at h
    split at h
    · cases h
    · split at h
      · cases h
        exact .ttinsn
      case h_2 ir hd =>
        have hir := (rvDecode_decoded hd).at pcEnd
        split at h
        case isTrue hlw =>
          cases h
          simp only [Bool.and_eq_true] at hlw
          exact .mailbox hir (isLw_iff.mp hlw.1.2) rfl
        split at h
        · cases h
          exact .last hir rfl
        case isFalse hb =>
          obtain ⟨irs, hl, rfl⟩ := Option.map_eq_some_iff.mp h
          exact .cons hir rfl (by simpa using hb) (ih hl)

section fold

variable {ir : Ir}

theorem toLui_decoded (hrd : ir.rd ≠ 0) (v : Word) : (ir.toLui v).Decoded :=
  ⟨rfl, fun _ => hrd, nofun, nofun, rfl⟩

theorem constopt_decoded (h : ir.Decoded) (info : ConstInfo) : (constopt (P.extend E) ir info).1.Decoded := by
  unfold constopt
  split
  case h_2 hop => exact toLui_decoded (h.rd (by rw [hop]; rfl)) _
  case h_5 cond hop =>
    split_ifs
    · exact ⟨rfl, nofun, nofun, nofun, rfl⟩
    · exact h
  case h_8 op hop =>
    split_ifs
    · exact toLui_decoded (h.rd (by rw [hop]; rfl)) _
    · exact h
  case h_9 op hop =>
    split_ifs
    · exact toLui_decoded (h.rd (by rw [hop]; rfl)) _
    · exact h
  case h_10 e hop =>
    split
    case h_1 v info' heq =>
      refine toLui_decoded (h.rd ?_) v
      rw [hop]
      exact extConstopt_computes heq
    · exact h
  all_goals exact h

theorem constopt_pc (ir : Ir) (info : ConstInfo) : (constopt P ir info).1.pc = ir.pc := by
  unfold constopt
  repeat' split
  all_goals rfl

theorem constopt_not_branch (h : insnIsBranch ir.opcode = false) (info : ConstInfo) :
    insnIsBranch (constopt P ir info).1.opcode = false := by
  unfold constopt
  split
  case h_5 cond hop =>
    rw [hop] at h
    cases h
  all_goals first
    | exact h
    | rfl
    | (split_ifs <;> first | exact h | rfl)
    | (split <;> first | exact h | rfl)

theorem optimizeConstant_straight {pc : Word} {irs : List Ir} (h : Straight pc irs) (info : ConstInfo) :
    Straight pc (optimizeConstant (P.extend E) info irs) := by
  induction h generalizing info with
  | last hir hpc => exact .last (constopt_decoded hir info) ((constopt_pc _ info).trans hpc)
  | @mailbox pc ir hir hop hpc =>
    have heq : (constopt (P.extend E) { ir with impl := .lwMailbox } info).1 =
        { ir with impl := .lwMailbox } := by
      simp only [constopt, hop]
    simp only [optimizeConstant, heq]
    exact .mailbox hir hop hpc
  | ttinsn => exact .ttinsn
  | cons hir hpc hb _ ih =>
    exact .cons (constopt_decoded hir info) ((constopt_pc _ info).trans hpc) (constopt_not_branch hb info)
      (ih _)

end fold

end Rv32Emu
