import Mathlib.Data.Option.NAry
import Rv32Emu.Rv.BlockRun
import Rv32Emu.Rv.WellFormed

namespace Rv32Emu

variable {δ ξ : Type} {P : Platform δ ξ} {E : ExtUnits δ ξ} {c : CoreConfig}

structure ConstInfo.Knows (info : ConstInfo) (x : Reg → Word) : Prop where
  val : ∀ r, info.isConstant r = true → x r = info.constVal r
  zero : info.isConstant 0 = true → info.constVal 0 = 0

namespace ConstInfo.Knows

variable {info : ConstInfo} {x : Reg → Word} {rd : Reg} {v : Word}

theorem set (h : info.Knows x) (hrd : rd ≠ 0) (v : Word) :
    (info.set rd v).Knows (Function.update x rd v) := by
  constructor
  · intro r hr
    by_cases heq : r = rd
    · subst heq
      simp [ConstInfo.set]
    · simp only [ConstInfo.set, Function.update_of_ne heq] at hr ⊢
      exact h.val r hr
  · simp only [ConstInfo.set, Function.update_of_ne hrd.symm]
    exact h.zero

theorem forget (h : info.Knows x) (rd : Reg) (v : Word) :
    (info.forget rd).Knows (Function.update x rd v) := by
  constructor
  · intro r hr
    by_cases heq : r = rd
    · subst heq
      simp [ConstInfo.forget] at hr
    · simp only [ConstInfo.forget, Function.update_of_ne heq] at hr ⊢
      exact h.val r hr
  · intro hr
    apply h.zero
    by_cases heq : 0 = rd
    · subst heq
      simp [ConstInfo.forget] at hr
    · simpa only [ConstInfo.forget, Function.update_of_ne heq] using hr

theorem forget_guarded (h : info.Knows x) (rd : Reg) (v : Word) :
    (info.forget rd).Knows (if rd ≠ 0 then Function.update x rd v else x) := by
  split_ifs
  · exact h.forget rd v
  · simpa only [Function.update_eq_self] using h.forget rd (x rd)

theorem unseen (h : info.Knows x) (hrd : info.isConstant rd = true → info.constVal rd = 0) :
    info.Knows (Function.update x rd 0) := by
  refine ⟨fun r hr => ?_, h.zero⟩
  by_cases heq : r = rd
  · subst heq
    rw [Function.update_self]
    exact (hrd hr).symm
  · rw [Function.update_of_ne heq]
    exact h.val r hr

theorem nop (h : info.Knows x) : info.Knows (Function.update x 0 0) := h.unseen h.zero

theorem guarded (h : info.Knows x) (rd : Reg) (v : Word) :
    (if rd ≠ 0 then info.forget rd else info).Knows (if rd ≠ 0 then Function.update x rd v else x) := by
  split_ifs
  · exact h.forget rd v
  · exact h

end ConstInfo.Knows

section values

theorem foldMul_eq (op : MulOp) (x y : Word) : foldMul op x y = evalMul op x y := by
  cases op with
  | mulhu =>
    -- bits 32 to 63 of the product are the same under both shifts
    apply BitVec.eq_of_getLsbD_eq
    intro i hi
    simp only [foldMul, evalMul, BitVec.getLsbD_setWidth, BitVec.getLsbD_sshiftRight,
      BitVec.getLsbD_ushiftRight]
    have h64 : 32 + i < 64 := by omega
    simp [hi, h64]
    omega
  | _ => rfl

end values

def Opcode.isScw : Opcode → Bool
  | ext e => match extOp e.insn with
    | some .scw => true
    | _ => false
  | _ => false

section knows

variable {info : ConstInfo} {rv : Rv ξ} {sh : Shared δ} {f : Frame} {ir : Ir} {rest : List Ir}

theorem extRun_knows (trap : ξ → Word → Word → Word → ξ × Word × Bool) {e : ExtInsn} {x : Reg → Word}
    (h : info.Knows x) (hrd : (Opcode.ext e).computes = true → e.rd ≠ 0)
    (hscw : (Opcode.ext e).isScw = true → info.isConstant e.rd = true → info.constVal e.rd = 0) (ext : ξ)
    (pc : Word) :
    (extRun E trap e x ext pc).All fun r => r.outcome = .next → (extConstopt e info).2.Knows r.x := by
  unfold extRun extConstopt
  have hne (hop : (extOp e.insn).any ExtOp.computes = true) : e.rd ≠ 0 := hrd hop
  have hsc (hop : extOp e.insn = some .scw) : (Opcode.ext e).isScw = true := by rw [Opcode.isScw, hop]
  cases hop : extOp e.insn with
  | none => exact fun _ => h.nop
  | some op =>
    rw [hop] at hne
    cases op with
    | nop => exact fun _ => h.nop
    | mul op =>
      rintro -
      dsimp only
      split
      case isTrue hconst =>
        rw [Bool.and_eq_true] at hconst
        rw [foldMul_eq, ← h.val _ hconst.1, ← h.val _ hconst.2]
        exact h.set (hne rfl) _
      · exact h.forget _ _
    | bitOp op =>
      rintro -
      dsimp only
      rw [if_pos (hne rfl)]
      exact h.forget _ _
    | lrw =>
      dsimp only
      by_cases hm : misaligned (x e.rs1) 3 = true
      · rw [if_pos hm]
        exact nofun
      · rw [if_neg hm]
        by_cases hz : e.rd ≠ 0
        · rw [if_pos hz, if_pos hz]
          exact fun v _ => h.forget _ v
        · rw [if_neg hz, if_neg hz]
          exact fun _ => h
    | scw =>
      dsimp only
      split_ifs
      · exact nofun
      · exact fun _ => h.unseen (hscw (hsc hop))
    | amo op =>
      dsimp only
      by_cases hm : misaligned (x e.rs1) 3 = true
      · rw [if_pos hm]
        exact nofun
      · rw [if_neg hm]
        exact fun v _ => h.guarded _ v
    | csr op | csri op => exact fun _ => h.forget_guarded _ _
    | flw =>
      dsimp only
      split_ifs
      · exact nofun
      · exact fun _ _ => h
    | fsw =>
      dsimp only
      split_ifs
      · exact nofun
      · exact fun _ => h
    | fpToX => exact fun _ => h.guarded _ _
    | fpToF => exact fun _ => h
    | fence | fencei | ecall | ebreak | wfi | mret | sfencevma => exact nofun

theorem doExt_knows {e : ExtInsn} (h : info.Knows rv.x) (hrd : (Opcode.ext e).computes = true → e.rd ≠ 0)
    (hscw : (Opcode.ext e).isScw = true → info.isConstant e.rd = true → info.constVal e.rd = 0) {f' : Frame}
    (hnext : (doExt (P.extend E) c rv sh f rest e).flow = .next f') :
    (extConstopt e info).2.Knows (doExt (P.extend E) c rv sh f rest e).rv.x := by
  have hrun := (extRun_knows (E := E) P.trap h hrd hscw rv.ext f.pc).run (P := P.extend E) (c := c) sh
  unfold doExt at hnext ⊢
  dsimp only at hnext ⊢
  split at hnext
  case h_1 hout =>
    rw [endOp_x]
    exact hrun hout
  · cases hnext

theorem doLoad_knows {op : LoadOp} (h : info.Knows rv.x) {f' : Frame}
    (hnext : (doLoad P c rv sh f ir rest op).flow = .next f') :
    (info.forget ir.rd).Knows (doLoad P c rv sh f ir rest op).rv.x := by
  cases op with
  | lb | lbu =>
    dsimp only [doLoad]
    rw [endOp_x]
    exact h.forget _ _
  | lh | lhu =>
    dsimp only [doLoad] at hnext ⊢
    split_ifs at hnext ⊢
    · cases hnext
    · rw [endOp_x]
      exact h.forget _ _

theorem dispatchOp_knows (hir : ir.Decoded) (hpc : ir.pc = f.pc) (h : info.Knows rv.x)
    (hscw : ir.opcode.isScw = true → info.isConstant ir.rd = true → info.constVal ir.rd = 0) {f' : Frame}
    (hnext : (dispatchOp (P.extend E) c rv sh f ir rest ir.opcode).flow = .next f') :
    (constopt (P.extend E) ir info).2.Knows (dispatchOp (P.extend E) c rv sh f ir rest ir.opcode).rv.x := by
  have hrd := hir.rd
  have hplain := hir.plain
  have hext := hir.ext
  unfold constopt
  generalize hop : ir.opcode = op at *
  cases op with
  | nop =>
    dsimp only [dispatchOp]
    rw [endOp_x]
    exact h.nop
  | lui =>
    dsimp only [dispatchOp]
    rw [endOp_x]
    exact h.set (hrd rfl) _
  | auipc =>
    dsimp only [dispatchOp]
    rw [endOp_x, hpc]
    exact h.set (hrd rfl) _
  | imm op =>
    dsimp only [dispatchOp]
    rw [endOp_x]
    split
    case isTrue hc =>
      rw [← h.val _ hc]
      exact h.set (hrd rfl) _
    · exact h.forget _ _
  | alu op =>
    dsimp only [dispatchOp]
    rw [endOp_x]
    split
    case isTrue hc =>
      rw [Bool.and_eq_true] at hc
      rw [← h.val _ hc.1, ← h.val _ hc.2]
      exact h.set (hrd rfl) _
    · exact h.forget _ _
  | load op => exact doLoad_knows h hnext
  | lw =>
    dsimp only [dispatchOp, doLw] at hnext ⊢
    split_ifs at hnext ⊢
    · cases hnext
    · rw [endOp_x]
      exact h.forget _ _
  | store op =>
    dsimp only [dispatchOp]
    rw [doStore_x]
    exact h
  | sw =>
    dsimp only [dispatchOp, doSw]
    split_ifs
    · exact h
    · rw [endOp_x]
      exact h
  | ext e =>
    rw [hext e rfl] at hrd hscw
    have hknows := doExt_knows h hrd hscw hnext
    dsimp only [Platform.extend]
    cases hc : extConstopt e info with
    | mk v info' =>
      rw [hc] at hknows
      cases v <;> exact hknows
  | fuse1 | fuse2 | fuse3 | fuse4 | fuse5 => cases hplain
  | jal =>
    dsimp only [dispatchOp, doJal, jumpTo] at hnext
    split at hnext
    · split at hnext <;> cases hnext
    · cases hnext
  | jalr =>
    dsimp only [dispatchOp, doJalr, jumpTo] at hnext
    split at hnext <;> cases hnext
  | branch cond => cases hnext
  | ttinsn => cases hnext

end knows

section agrees

variable {info : ConstInfo} {rv : Rv ξ} {sh : Shared δ} {f : Frame} {ir : Ir} {rest : List Ir}

theorem doExt_folds {e : ExtInsn} (h : info.Knows rv.x) {v : Word} {info' : ConstInfo}
    (hc : extConstopt e info = (some v, info')) :
    doExt (P.extend E) c rv sh f rest e = endOp (rv.setX e.rd v) sh f rest 1 (f.pc + 4) [] := by
  unfold extConstopt at hc
  split at hc
  case h_1 op hop =>
    split at hc
    case isTrue hconst =>
      rw [Bool.and_eq_true] at hconst
      cases hc
      have hrun : (P.extend E).run e rv.x rv.ext f.pc =
          .done (extNext (Function.update rv.x e.rd (evalMul op (rv.x e.rs1) (rv.x e.rs2))) rv.ext) := by
        dsimp only [Platform.extend, extRun]
        rw [hop]
      unfold doExt
      rw [hrun, foldMul_eq, ← h.val _ hconst.1, ← h.val _ hconst.2]
      simp only [WordIo.run, extNext, Bool.or_false, id_eq]
      rfl
    · cases hc
  all_goals cases hc

theorem execute_folded (hir : ir.Decoded) (hpc : ir.pc = f.pc) (h : info.Knows rv.x)
    (hb : ∀ cond, ir.opcode ≠ .branch cond) (hf : f.irs = (constopt (P.extend E) ir info).1 :: rest) :
    execute (P.extend E) c rv sh f = dispatchOp (P.extend E) c rv sh f ir rest ir.opcode := by
  have hext := hir.ext
  have himpl := hir.impl
  unfold execute
  rw [hf]
  unfold constopt
  generalize hop : ir.opcode = op at *
  cases op with
  | auipc =>
    dsimp only [Ir.toLui, dispatchOp]
    rw [hpc]
  | imm op =>
    dsimp only
    by_cases hc : info.isConstant ir.rs1 = true
    · rw [if_pos hc]
      dsimp only [Ir.toLui, dispatchOp]
      rw [← h.val _ hc]
    · rw [if_neg hc]
      dsimp only
      rw [himpl]
  | alu op =>
    dsimp only
    by_cases hc : (info.isConstant ir.rs1 && info.isConstant ir.rs2) = true
    · rw [if_pos hc]
      rw [Bool.and_eq_true] at hc
      dsimp only [Ir.toLui, dispatchOp]
      rw [← h.val _ hc.1, ← h.val _ hc.2]
    · rw [if_neg hc]
      dsimp only
      rw [himpl]
  | ext e =>
    dsimp only
    cases hc : (P.extend E).constopt e info with
    | mk v info' =>
      cases v with
      | none =>
        dsimp only
        rw [himpl]
      | some v =>
        dsimp only [Ir.toLui, dispatchOp]
        rw [hext e rfl]
        exact (doExt_folds h hc).symm
  | branch cond => exact absurd rfl (hb cond)
  | _ =>
    dsimp only
    rw [himpl]

theorem execute_folded_branch (hir : ir.Decoded) (h : info.Knows rv.x) {cond : BranchCond}
    (hop : ir.opcode = .branch cond) (hf : f.irs = (constopt (P.extend E) ir info).1 :: rest) :
    (execute (P.extend E) c rv sh f).effect = (doBranch (δ := δ) rv sh f ir cond).effect := by
  unfold execute
  rw [hf]
  simp only [constopt, hop]
  by_cases hc : (info.isConstant ir.rs1 && info.isConstant ir.rs2) = true
  · rw [if_pos hc]
    rw [Bool.and_eq_true] at hc
    have hlink : link rv ir.rd f.pc = rv := if_neg (not_not.mpr (hir.branch cond hop))
    dsimp only [dispatchOp, doJal]
    rw [hlink, ← h.val _ hc.1, ← h.val _ hc.2]
    split
    · unfold jumpTo
      split <;> rfl
    · rfl
  · rw [if_neg hc]
    dsimp only
    rw [hir.impl, hop]
    rfl

end agrees

def Ir.knownAfter (known : Reg → Option Word) (ir : Ir) : Reg → Option Word :=
  match ir.opcode with
  | .lui => Function.update known ir.rd (some ir.imm)
  | .auipc => Function.update known ir.rd (some (ir.imm + ir.pc))
  | .imm op => Function.update known ir.rd ((known ir.rs1).map (evalImm op · ir.imm))
  | .alu op => Function.update known ir.rd (Option.map₂ (evalAlu op) (known ir.rs1) (known ir.rs2))
  | .load _ | .lw => Function.update known ir.rd none
  | .ext e =>
    match extOp e.insn with
    | some (.mul op) => Function.update known e.rd (Option.map₂ (evalMul op) (known e.rs1) (known e.rs2))
    | some (.csr _) | some (.csri _) => Function.update known e.rd none
    | some (.bitOp _) | some .lrw | some (.amo _) | some .fpToX =>
      if e.rd ≠ 0 then Function.update known e.rd none else known
    | _ => known
  | _ => known

/-- Some SC.W writes its zero over another value that the block alone determines: a constant that LUI or AUIPC
has loaded, or that was computed from such constants. -/
def overwritesKnown : (Reg → Option Word) → List Ir → Bool
  | _, [] => false
  | known, ir :: irs =>
    (ir.opcode.isScw && (known ir.rd).any (· != 0)) || overwritesKnown (ir.knownAfter known) irs

def zeroKnown (r : Reg) : Option Word := if r = 0 then some 0 else none

namespace ConstInfo

variable {info : ConstInfo}

def known (info : ConstInfo) (r : Reg) : Option Word :=
  if info.isConstant r then some (info.constVal r) else none

theorem known_set (info : ConstInfo) (rd : Reg) (v : Word) :
    (info.set rd v).known = Function.update info.known rd (some v) := by
  funext r
  by_cases hr : r = rd
  · simp [known, set, hr]
  · simp [known, set, Function.update_of_ne hr]

theorem known_forget (info : ConstInfo) (rd : Reg) :
    (info.forget rd).known = Function.update info.known rd none := by
  funext r
  by_cases hr : r = rd
  · simp [known, forget, hr]
  · simp [known, forget, Function.update_of_ne hr]

theorem known_one (f : Word → Word) (r rd : Reg) :
    (if info.isConstant r then info.set rd (f (info.constVal r)) else info.forget rd).known =
      Function.update info.known rd ((info.known r).map f) := by
  by_cases hr : info.isConstant r = true
  · rw [if_pos hr, known_set, known, if_pos hr, Option.map_some]
  · rw [if_neg hr, known_forget, known, if_neg hr, Option.map_none]

theorem known_both (f : Word → Word → Word) (r r' rd : Reg) :
    (if info.isConstant r && info.isConstant r' then info.set rd (f (info.constVal r) (info.constVal r'))
      else info.forget rd).known =
      Function.update info.known rd (Option.map₂ f (info.known r) (info.known r')) := by
  by_cases hr : info.isConstant r = true
  · by_cases hr' : info.isConstant r' = true
    · simp [known_set, known, hr, hr']
    · simp [known_forget, known, hr, hr']
  · simp [known_forget, known, hr]

end ConstInfo

section block

variable {info : ConstInfo} {rv : Rv ξ} {sh : Shared δ} {f : Frame} {ir : Ir} {irs rest : List Ir} {pc : Word}

theorem extConstopt_known {e : ExtInsn} (h : ir.opcode = .ext e) (info : ConstInfo) :
    (extConstopt e info).2.known = ir.knownAfter info.known := by
  unfold extConstopt Ir.knownAfter
  rw [h]
  dsimp only
  cases extOp e.insn with
  | none => rfl
  | some op =>
    cases op with
    | mul op =>
      dsimp only
      rw [← ConstInfo.known_both, foldMul_eq]
      split_ifs <;> rfl
    | csr op | csri op => exact info.known_forget e.rd
    | bitOp op | lrw | amo op | fpToX =>
      dsimp only
      split_ifs
      · exact info.known_forget e.rd
      · rfl
    | _ => rfl

theorem constopt_known (hb : insnIsBranch ir.opcode = false) (info : ConstInfo) :
    (constopt (P.extend E) ir info).2.known = ir.knownAfter info.known := by
  have hext (e : ExtInsn) (h : ir.opcode = .ext e) := extConstopt_known h info
  unfold constopt Ir.knownAfter at *
  generalize ir.opcode = op at *
  cases op with
  | lui => exact info.known_set ir.rd _
  | auipc => exact info.known_set ir.rd _
  | imm op =>
    dsimp only
    rw [← ConstInfo.known_one (evalImm op · ir.imm)]
    split_ifs <;> rfl
  | alu op =>
    dsimp only
    rw [← ConstInfo.known_both]
    split_ifs <;> rfl
  | load op => exact info.known_forget ir.rd
  | lw => exact info.known_forget ir.rd
  | ext e =>
    rw [← hext e rfl]
    dsimp only [Platform.extend]
    cases extConstopt e info with
    | mk v info' => cases v <;> rfl
  | jal | jalr | branch cond => cases hb
  | _ => rfl

theorem Ir.Decoded.weight (h : ir.Decoded) : ir.weight = 1 := by
  have hplain := h.plain
  unfold Ir.weight
  rw [h.impl]
  generalize ir.opcode = op at *
  cases op <;> first | rfl | cases hplain

theorem optimizeConstant_sameEnd (info : ConstInfo) (irs : List Ir) :
    SameEnd irs (optimizeConstant P info irs) := by
  unfold SameEnd
  rw [← List.length_eq_zero_iff, ← List.length_eq_zero_iff, optimizeConstant_length]

theorem execute_decoded (hir : ir.Decoded) :
    execute P c rv sh { f with irs := ir :: rest } =
      dispatchOp P c rv sh { f with irs := ir :: rest } ir rest ir.opcode := by
  unfold execute
  dsimp only
  rw [hir.impl]

theorem fold_agrees {rest' : List Ir} (hir : ir.Decoded) (hpc : ir.pc = f.pc) (h : info.Knows rv.x)
    (hb : ∀ cond, ir.opcode ≠ .branch cond) (hend : SameEnd rest rest') :
    (execute (P.extend E) c rv sh { f with irs := ir :: rest }).Agrees
      (execute (P.extend E) c rv sh { f with irs := (constopt (P.extend E) ir info).1 :: rest' }) := by
  have hfold : execute (P.extend E) c rv sh { f with irs := (constopt (P.extend E) ir info).1 :: rest' } =
      dispatchOp (P.extend E) c rv sh { f with irs := (constopt (P.extend E) ir info).1 :: rest' } ir rest'
        ir.opcode :=
    execute_folded (f := { f with irs := (constopt (P.extend E) ir info).1 :: rest' }) hir hpc h hb rfl
  rw [execute_decoded hir, hfold]
  exact dispatchOp_agrees _ hend

theorem fold_last (hir : ir.Decoded) (hpc : ir.pc = f.pc) (h : info.Knows rv.x) :
    (runIrs (P.extend E) c [ir] rv sh f).effect =
      (runIrs (P.extend E) c [(constopt (P.extend E) ir info).1] rv sh f).effect := by
  rw [runIrs_single, runIrs_single]
  by_cases hb : ∃ cond, ir.opcode = .branch cond
  · obtain ⟨cond, hop⟩ := hb
    have hfold : (execute (P.extend E) c rv sh { f with irs := [(constopt (P.extend E) ir info).1] }).effect =
        (doBranch rv sh { f with irs := [(constopt (P.extend E) ir info).1] } ir cond).effect :=
      execute_folded_branch hir h hop rfl
    rw [hfold, execute_decoded hir, hop]
    rfl
  · exact (fold_agrees hir hpc h (fun cond hop => hb ⟨cond, hop⟩) .rfl).effect

theorem optimizeConstant_cons (info : ConstInfo) (ir : Ir) (irs : List Ir) :
    optimizeConstant P info (ir :: irs) = (constopt P ir info).1 :: optimizeConstant P
      (constopt P ir info).2 irs :=
  rfl

theorem Straight.folded (hs : Straight pc irs) (hf : pc = f.pc) (h : info.Knows rv.x)
    (hscw : overwritesKnown info.known irs = false) :
    (runIrs (P.extend E) c irs rv sh f).effect =
      (runIrs (P.extend E) c (optimizeConstant (P.extend E) info irs) rv sh f).effect := by
  induction hs generalizing info rv sh f with
  | last hir hpc => exact fold_last hir (hpc.trans hf) h
  | @mailbox pc ir hir hop hpc =>
    have heq : (constopt (P.extend E) { ir with impl := .lwMailbox } info).1 =
        { ir with impl := .lwMailbox } := by
      simp only [constopt, hop]
    simp only [optimizeConstant, heq]
  | ttinsn => rfl
  | @cons pc ir irs hir hpc hb _ ih =>
    rw [overwritesKnown, Bool.or_eq_false_iff] at hscw
    obtain ⟨hfirst, hrest⟩ := hscw
    have hunseen : ir.opcode.isScw = true → info.isConstant ir.rd = true → info.constVal ir.rd = 0 := by
      intro hsc hc
      simpa [hsc, hc, ConstInfo.known] using hfirst
    have hbranch : ∀ cond, ir.opcode ≠ .branch cond := by
      intro cond hop
      rw [hop] at hb
      cases hb
    have hpc' : ir.pc = f.pc := hpc.trans hf
    rw [optimizeConstant_cons]
    apply runIrs_effect_congr
    · exact fold_agrees hir hpc' h hbranch (optimizeConstant_sameEnd _ _)
    · intro f' hnext
      have hfollows := execute_follows (P := P.extend E) (c := c) rv sh { f with irs := ir :: irs }
      rw [hnext] at hfollows
      cases hfollows with
      | next hirs _ _ hpcf =>
        rw [← (List.cons.inj hirs).1, hir.weight] at hpcf
        rw [execute_decoded hir] at hnext ⊢
        apply ih
        · rw [hpcf, hf]
          rfl
        · exact dispatchOp_knows hir hpc' h hunseen hnext
        · rw [constopt_known hb]
          exact hrest

theorem knows_zero {x : Reg → Word} (hx : x 0 = 0) : ConstInfo.Knows ⟨fun r => r = 0, fun _ => 0⟩ x :=
  ⟨fun r hr => by rw [of_decide_eq_true hr, hx], fun _ => rfl⟩

theorem known_zero : ConstInfo.known ⟨fun r => r = 0, fun _ => 0⟩ = zeroKnown := by
  funext r
  simp [ConstInfo.known, zeroKnown]

theorem Straight.optimised (hs : Straight f.pc irs) (hscw : overwritesKnown zeroKnown irs = false)
    (hx : rv.x 0 = 0) :
    (runIrs (P.extend E) c irs rv sh f).effect =
      (runIrs (P.extend E) c (optimizeConstant (P.extend E) ⟨fun r => r = 0, fun _ => 0⟩ irs) rv sh
        f).effect := by
  rw [← known_zero] at hscw
  exact hs.folded rfl (knows_zero hx) hscw

theorem folding_keeps_meaning (dev : δ) (x : Reg → Word) (n : ℕ)
    (ht : translateLoop (P.extend E) c dev x n pc (fun _ => 0) = some irs)
    (hscw : overwritesKnown zeroKnown irs = false) (hx : rv.x 0 = 0) (sh : Shared δ) (block : Word)
    (cycle : ℕ) :
    (runIrs (P.extend E) c (optimizeConstant (P.extend E) ⟨fun r => r = 0, fun _ => 0⟩ irs) rv sh
        ⟨block, [], cycle, pc⟩).effect =
      (runIrs (P.extend E) c irs rv sh ⟨block, [], cycle, pc⟩).effect :=
  (Straight.optimised (f := ⟨block, [], cycle, pc⟩) (translateLoop_straight dev x ht) hscw hx).symm

/-- `lui a5, 1; lr.w t0, (a0); add t0, t0, a1; sc.w t0, t0, (a0); addi a6, a5, 2; jal x0, 0`: the SC.W
writes a register that the block has computed, but not as a constant. -/
def storeConditional : List Word :=
  [0x000017b7, 0x100522af, 0x00b282b3, 0x185522af, 0x00278813, 0x0000006f]

theorem folding_keeps_meaning_sc :
    romEffect storeConditional
        (optimizeConstant (romCore storeConditional) ⟨fun r => r = 0, fun _ => 0⟩ (romIrs storeConditional)) =
      romEffect storeConditional (romIrs storeConditional) :=
  folding_keeps_meaning () (fun _ => 0) 64 rfl (by decide) rfl _ _ _

def clobberedConstant : List Word := [0x00001537, 0x18b5a52f, 0x00050593, 0x0000006f]

theorem folding_misses_sc :
    romEffect clobberedConstant
        (optimizeConstant (romCore clobberedConstant) ⟨fun r => r = 0, fun _ => 0⟩
          (romIrs clobberedConstant)) ≠
      romEffect clobberedConstant (romIrs clobberedConstant) := by
  intro h
  have ha1 := congrArg (fun e => e.x 11) h
  exact absurd ha1 (by decide)

end block

end Rv32Emu
