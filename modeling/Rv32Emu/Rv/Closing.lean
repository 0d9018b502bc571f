import Rv32Emu.Rv.Cached
import Rv32Emu.Rv.WellFormed

namespace Rv32Emu

variable {δ ξ : Type} {P : Platform δ ξ} {E : ExtUnits δ ξ} {c : CoreConfig}

def isWfi (ir : Ir) : Bool :=
  match ir.opcode with
  | .ext e => match extOp e.insn with
    | some .wfi => true
    | _ => false
  | _ => false

structure Ir.Inner (ir : Ir) : Prop where
  impl : ir.impl = .dispatch ir.opcode
  stays : insnIsBranch ir.opcode = false
  riscv : ir.opcode ≠ .ttinsn
  ext : ∀ e, ir.opcode = .ext e → extDecode e.insn = some e

inductive Ir.Handled (ir : Ir) : Prop
  | dispatch : ir.impl = .dispatch ir.opcode → ir.Handled
  | mailbox : ir.opcode = .lw → ir.impl = .lwMailbox → ir.Handled
  | ttinsn : ir.opcode = .ttinsn → ir.impl = .ttinsn → ir.Handled

theorem Ir.Handled.opcode_eq {ir : Ir} {op : Opcode} (h : ir.Handled) (hi : ir.impl = .dispatch op) :
    ir.opcode = op := by
  cases h with
  | dispatch himpl =>
    rw [himpl] at hi
    cases hi
    rfl
  | mailbox _ himpl | ttinsn _ himpl =>
    rw [himpl] at hi
    cases hi

inductive Ir.Closed : List Ir → Prop
  | last {ir : Ir} : ir.Handled → Ir.Closed [ir]
  | cons {ir : Ir} {irs : List Ir} : ir.Inner → Ir.Closed irs → Ir.Closed (ir :: irs)

namespace Ir.Closed

variable {ir : Ir} {irs rest : List Ir}

theorem ne_nil (h : Ir.Closed irs) : irs ≠ [] := by
  cases h <;> exact List.cons_ne_nil _ _

theorem head (h : Ir.Closed (ir :: rest)) : ir.Handled := by
  cases h with
  | last hir => exact hir
  | cons hir _ => exact .dispatch hir.impl

theorem inner (h : Ir.Closed (ir :: rest)) (hne : rest ≠ []) : ir.Inner := by
  cases h with
  | last => exact absurd rfl hne
  | cons hir _ => exact hir

theorem tail (h : Ir.Closed (ir :: rest)) (hne : rest ≠ []) : Ir.Closed rest := by
  cases h with
  | last => exact absurd rfl hne
  | cons _ hrest => exact hrest

theorem suffix (h : Ir.Closed irs) (hs : rest <:+ irs) (hne : rest ≠ []) : Ir.Closed rest := by
  induction h with
  | last hir =>
    obtain hs | hs := List.suffix_cons_iff.mp hs
    · exact hs ▸ .last hir
    · exact absurd (List.suffix_nil.mp hs) hne
  | cons hir hirs ih =>
    obtain hs | hs := List.suffix_cons_iff.mp hs
    · exact hs ▸ .cons hir hirs
    · exact ih hs

theorem branch_last {op : Opcode} (h : Ir.Closed (ir :: rest)) (hi : ir.impl = .dispatch op)
    (hb : insnIsBranch op = true) :
    rest = [] := by
  by_contra hne
  have hstays := (h.inner hne).stays
  rw [h.head.opcode_eq hi, hb] at hstays
  cases hstays

end Ir.Closed

section translate

variable {insn : Word} {ir : Ir} {e : ExtInsn} {irs : List Ir}

theorem rvDecode_opcode {ext : Word → Option ExtInsn} (h : rvDecode ext insn = some ir) :
    ir.opcode ≠ .ttinsn ∧ ∀ e, ir.opcode = .ext e → ext insn = some e := by
  have hext (h : (ext insn).map extIr = some ir) : ir.opcode ≠ .ttinsn ∧ ∀ e, ir.opcode = .ext e →
      ext insn = some e := by
    obtain ⟨e, he, rfl⟩ := Option.map_eq_some_iff.mp h
    refine ⟨nofun, ?_⟩
    rintro _ ⟨⟩
    exact he
  unfold rvDecode at h
  split at h
  · cases h
  · split at h
    case h_1 =>
      unfold opLoad at h
      split at h <;> cases h <;> exact ⟨nofun, nofun⟩
    case h_2 =>
      unfold opOpImm at h
      dsimp only at h
      split at h
      · cases h
        exact ⟨nofun, nofun⟩
      · split at h
        case h_2 | h_6 =>
          split at h
          case h_1 e he =>
            rw [he] at hext
            exact he ▸ hext h
          · split_ifs at h <;> cases h <;> exact ⟨nofun, nofun⟩
        all_goals
          cases h
          exact ⟨nofun, nofun⟩
    case h_3 | h_6 =>
      cases h
      dsimp only [mkIr]
      split_ifs <;> exact ⟨nofun, nofun⟩
    case h_4 =>
      unfold opStore at h
      split at h <;> cases h <;> exact ⟨nofun, nofun⟩
    case h_5 =>
      unfold opOp at h
      dsimp only at h
      split at h
      · cases h
        exact ⟨nofun, nofun⟩
      · split at h
        case h_11 => exact hext h
        all_goals
          cases h
          exact ⟨nofun, nofun⟩
    case h_7 =>
      unfold opBranch at h
      split at h <;> cases h <;> exact ⟨nofun, nofun⟩
    case h_8 | h_9 =>
      cases h
      exact ⟨nofun, nofun⟩
    all_goals first | exact hext h | cases h

theorem translateLoop_closed (dev : δ) (x : Reg → Word) {n : ℕ} {pcEnd : Word} {luiConst : Reg → Word}
    (h : translateLoop (P.extend E) c dev x n pcEnd luiConst = some irs) : Ir.Closed irs := by
  induction n generalizing pcEnd luiConst irs with
  | zero => cases h
  | succ n ih =>
    unfold translateLoop at h
    dsimp only at h
    split at h
    · cases h
    · split at h
      · cases h
        exact .last (.ttinsn rfl rfl)
      case h_2 ir hd =>
        have himpl := (rvDecode_decoded hd).impl
        split at h
        case isTrue hlw =>
          cases h
          simp only [Bool.and_eq_true] at hlw
          exact .last (.mailbox (isLw_iff.mp hlw.1.2) rfl)
        split at h
        · cases h
          exact .last (.dispatch himpl)
        case isFalse hb =>
          obtain ⟨irs, hl, rfl⟩ := Option.map_eq_some_iff.mp h
          obtain ⟨htt, hext⟩ := rvDecode_opcode hd
          refine .cons ⟨himpl, by simpa using hb, htt, fun e he => ?_⟩ (ih hl)
          have hdec : extDecode _ = some e := hext e he
          rw [(extDecode_eq hdec).1]
          exact hdec

theorem constopt_inner (h : ir.Inner) (info : ConstInfo) : (constopt (P.extend E) ir info).1.Inner := by
  have hlui (v : Word) : (ir.toLui v).Inner := ⟨rfl, rfl, nofun, nofun⟩
  have hstays := h.stays
  unfold constopt
  split
  case h_5 hop =>
    rw [hop] at hstays
    cases hstays
  case h_10 => split <;> first | exact hlui _ | exact h
  all_goals first | exact h | exact hlui _ | (split_ifs <;> first | exact hlui _ | exact h)

theorem constopt_handled (h : ir.Handled) (info : ConstInfo) : (constopt (P.extend E) ir info).1.Handled := by
  have hlui (v : Word) : (ir.toLui v).Handled := .dispatch rfl
  unfold constopt
  split
  case h_5 =>
    split_ifs
    · exact .dispatch rfl
    · exact h
  case h_10 => split <;> first | exact hlui _ | exact h
  all_goals first | exact h | exact hlui _ | (split_ifs <;> first | exact hlui _ | exact h)

theorem optimizeConstant_closed (h : Ir.Closed irs) (info : ConstInfo) :
    Ir.Closed (optimizeConstant (P.extend E) info irs) := by
  induction h generalizing info with
  | last hir => exact .last (constopt_handled hir info)
  | cons hir _ ih => exact .cons (constopt_inner hir info) (ih _)

theorem fuseRun_rest (ir : Ir) (rest : List Ir) (kind : Opcode → Bool) {opcode : Opcode}
    (hop : opcode.fused = true) :
    ((fuseRun ir rest kind opcode).1 = ir ∨ (fuseRun ir rest kind opcode).1.Inner) ∧
      (fuseRun ir rest kind opcode).2 <:+ rest := by
  unfold fuseRun
  dsimp only
  split_ifs
  · exact ⟨.inl rfl, List.suffix_rfl⟩
  · refine ⟨.inr ⟨rfl, ?_, ?_, ?_⟩, List.drop_suffix _ _⟩
    · cases opcode <;> first | rfl | cases hop
    · rintro rfl
      cases hop
    · rintro e rfl
      cases hop

theorem fuseHead_rest (ir : Ir) (rest : List Ir) :
    ((fuseHead ir rest).1 = ir ∨ (fuseHead ir rest).1.Inner) ∧ (fuseHead ir rest).2 <:+ rest := by
  cases rest with
  | nil => exact ⟨.inl rfl, List.suffix_rfl⟩
  | cons next rest =>
    unfold fuseHead
    dsimp only
    split
    · split
      · split_ifs
        · exact ⟨.inr ⟨rfl, rfl, nofun, nofun⟩, List.suffix_cons _ _⟩
        · exact ⟨.inr ⟨rfl, rfl, nofun, nofun⟩, List.suffix_cons _ _⟩
        · exact ⟨.inl rfl, List.suffix_rfl⟩
      · exact fuseRun_rest ir _ _ rfl
    · exact fuseRun_rest ir _ _ rfl
    · exact fuseRun_rest ir _ _ rfl
    · exact fuseRun_rest ir _ _ rfl
    · exact fuseRun_rest ir _ _ rfl
    · exact fuseRun_rest ir _ _ rfl
    · exact ⟨.inl rfl, List.suffix_rfl⟩

theorem matchPattern_closed (n : ℕ) (h : Ir.Closed irs) : Ir.Closed (matchPattern n irs) := by
  induction n generalizing irs with
  | zero => exact h
  | succ n ih =>
    cases irs with
    | nil => exact absurd rfl h.ne_nil
    | cons ir rest =>
      obtain ⟨hir, hrest⟩ := fuseHead_rest ir rest
      dsimp only [matchPattern]
      cases hnew : (fuseHead ir rest).2 with
      | nil =>
        -- the fused instruction is the last of its block
        have hhandled : (fuseHead ir rest).1.Handled := by
          obtain heq | hinner := hir
          · rw [heq]
            exact h.head
          · exact .dispatch hinner.impl
        cases n <;> exact .last hhandled
      | cons next rest' =>
        have hne : rest ≠ [] := by
          rintro rfl
          cases hnew
        have hinner : (fuseHead ir rest).1.Inner := by
          obtain heq | hinner := hir
          · rw [heq]
            exact h.inner hne
          · exact hinner
        exact .cons hinner (ih (((h.tail hne).suffix (hnew ▸ hrest)) (List.cons_ne_nil _ _)))

theorem blockTranslate_closed {dev : δ} {rv : Rv ξ} {b : Block}
    (h : blockTranslate (P.extend E) c dev rv = some b) :
    Ir.Closed b.irs := by
  unfold blockTranslate at h
  obtain ⟨irs, hl, h⟩ := Option.bind_eq_some_iff.mp h
  split_ifs at h
  cases h
  exact matchPattern_closed _ (optimizeConstant_closed (translateLoop_closed dev rv.x hl) _)

end translate

section leave

/-- An instruction of an extension goes on with the core running, or leaves for a PC of its own. The only one
that leaves without a trap and without being taken for a branch is WFI. -/
theorem extRun_outcome (trap : ξ → Word → Word → Word → ξ × Word × Bool) (e : ExtInsn) (x : Reg → Word)
    (ext : ξ) (pc : Word) :
    (extRun E trap e x ext pc).All fun r =>
      (r.outcome = .next ∧ r.halt = false) ∨
        ∃ ok pc' counted, r.outcome = .leave ok (some pc') counted ∧
          (ok = true → ∃ op, extOp e.insn = some op ∧ (op.canBranch = true ∨ op = .wfi)) := by
  unfold extRun
  cases hop : extOp e.insn with
  | none => exact .inl ⟨rfl, rfl⟩
  | some op =>
    have hout {r : ExtResult δ ξ} {pc' : Word} {counted : Bool}
        (h : r.outcome = .leave false (some pc') counted) :
        (r.outcome = .next ∧ r.halt = false) ∨
          ∃ ok pc' counted, r.outcome = .leave ok (some pc') counted ∧
            (ok = true → ∃ op', some op = some op' ∧ (op'.canBranch = true ∨ op' = .wfi)) :=
      .inr ⟨_, _, _, h, nofun⟩
    cases op with
    | lrw =>
      dsimp only
      split_ifs
      · exact hout rfl
      · exact fun _ => .inl ⟨rfl, rfl⟩
      · exact .inl ⟨rfl, rfl⟩
    | scw | fsw =>
      dsimp only
      split_ifs
      · exact hout rfl
      · exact .inl ⟨rfl, rfl⟩
    | amo op =>
      dsimp only
      split_ifs
      · exact hout rfl
      · exact fun _ => .inl ⟨rfl, rfl⟩
      · exact fun _ => .inl ⟨rfl, rfl⟩
    | flw =>
      dsimp only
      split_ifs
      · exact hout rfl
      · exact fun _ => .inl ⟨rfl, rfl⟩
    | fence | fencei | ecall | ebreak | mret | sfencevma =>
      exact .inr ⟨_, _, _, rfl, fun _ => ⟨_, rfl, .inl rfl⟩⟩
    | wfi => exact .inr ⟨_, _, _, rfl, fun _ => ⟨_, rfl, .inr rfl⟩⟩
    | nop | mul op | bitOp op | csr op | csri op | fpToX | fpToF => exact .inl ⟨rfl, rfl⟩

/-- How a handler ends: on the way to the next instruction the core keeps running, and before the last
instruction only a WFI goes back to `rv_step` without a trap. -/
inductive Executed.Ends (rv : Rv ξ) (ir : Ir) (rest : List Ir) (e : Executed δ ξ) : Prop
  | next {f : Frame} : e.flow = .next f → e.rv.halt = rv.halt → Executed.Ends rv ir rest e
  | back {counted : Bool} : e.flow = .ret true counted → rest = [] ∨ isWfi ir = true →
      Executed.Ends rv ir rest e
  | trap {counted : Bool} : e.flow = .ret false counted → Executed.Ends rv ir rest e

variable {rv rv' : Rv ξ} {sh sh' : Shared δ} {f : Frame} {ir : Ir} {rest : List Ir} {count : ℕ} {pc : Word}
  {events : List TileEvent}

theorem endOp_ends (h : rv'.halt = rv.halt) :
    Executed.Ends rv ir rest (endOp rv' sh' f rest count pc events) := by
  cases rest with
  | nil => exact .back rfl (.inl rfl)
  | cons next rest => exact .next rfl h

theorem foldl_halt {step : Rv ξ → OpcodeFuse → Rv ξ} (h : ∀ (rv : Rv ξ) g, (step rv g).halt = rv.halt)
    (gs : List OpcodeFuse) (rv : Rv ξ) : (gs.foldl step rv).halt = rv.halt := by
  induction gs generalizing rv with
  | nil => rfl
  | cons g gs ih => exact (ih _).trans (h rv g)

theorem shiftFunc_halt (rv : Rv ξ) (g : OpcodeFuse) : (shiftFunc rv g).halt = rv.halt := by
  unfold shiftFunc
  split <;> rfl

theorem doLoad_ends {op : LoadOp} : Executed.Ends rv ir rest (doLoad P c rv sh f ir rest op) := by
  cases op with
  | lb | lbu => exact endOp_ends rfl
  | lh | lhu =>
    dsimp only [doLoad]
    split_ifs
    · exact .trap rfl
    · exact endOp_ends rfl

theorem doStore_ends {op : StoreOp} : Executed.Ends rv ir rest (doStore P c rv sh f ir rest op) := by
  cases op with
  | sb => exact endOp_ends rfl
  | sh =>
    dsimp only [doStore]
    split_ifs
    · exact .trap rfl
    · exact endOp_ends rfl

theorem doExt_ends {e : ExtInsn} (hop : ir.opcode = .ext e) (hir : rest ≠ [] → ir.Inner) :
    Executed.Ends rv ir rest (doExt (P.extend E) c rv sh f rest e) := by
  have hrun := (extRun_outcome (E := E) P.trap e rv.x rv.ext f.pc).run (P := P.extend E) (c := c) sh
  change (_ ∨ _) at hrun
  unfold doExt
  dsimp only [Platform.extend] at hrun ⊢
  generalize (extRun E P.trap e rv.x rv.ext f.pc).run (P.extend E) c sh = r at *
  obtain ⟨hnext, hhalt⟩ | ⟨ok, pc', counted, hleave, hok⟩ := hrun
  · rw [hnext]
    exact endOp_ends (by simp [hhalt])
  · rw [hleave]
    cases ok with
    | false => exact .trap rfl
    | true =>
      refine .back rfl ?_
      by_cases hne : rest = []
      · exact .inl hne
      · right
        obtain ⟨op, hop', hcan⟩ := hok rfl
        have hdec := (hir hne).ext e hop
        have hstays := (hir hne).stays
        rw [hop] at hstays
        have hwfi : op = .wfi := by
          obtain hcan | hwfi := hcan
          · have hb : e.canBranch = op.canBranch := by
              rw [extDecode, hop'] at hdec
              rw [← Option.some.inj hdec]
              cases op <;> rfl
            rw [insnIsBranch, hb, hcan] at hstays
            cases hstays
          · exact hwfi
        rw [isWfi, hop]
        dsimp only
        rw [hop', hwfi]

theorem doTtinsn_ends (h : rest = []) : Executed.Ends rv ir rest (doTtinsn P c rv sh f ir) := by
  cases hok : (P.tensixDirect sh.dev c.coreId ir.imm).1 with
  | true => exact .back (congrArg (Flow.ret · true) hok) (.inl h)
  | false => exact .trap (congrArg (Flow.ret · true) hok)

theorem dispatchOp_ends {op : Opcode} (h : Ir.Closed (ir :: rest)) (hi : ir.impl = .dispatch op)
    (hjal : op ≠ .jal) (hjalr : op ≠ .jalr) :
    Executed.Ends rv ir rest (dispatchOp (P.extend E) c rv sh f ir rest op) := by
  have hopcode := h.head.opcode_eq hi
  cases op with
  | jal => exact absurd rfl hjal
  | jalr => exact absurd rfl hjalr
  | branch cond => exact .back rfl (.inl (h.branch_last hi rfl))
  | ttinsn =>
    have hrest : rest = [] := by
      by_contra hne
      exact (h.inner hne).riscv hopcode
    exact doTtinsn_ends hrest
  | load op => exact doLoad_ends
  | store op => exact doStore_ends
  | ext e => exact doExt_ends hopcode h.inner
  | lw =>
    dsimp only [dispatchOp, doLw]
    split_ifs
    · exact .trap rfl
    · exact endOp_ends rfl
  | sw =>
    dsimp only [dispatchOp, doSw]
    split_ifs
    · exact .trap rfl
    · exact endOp_ends rfl
  | fuse3 =>
    dsimp only [dispatchOp, doFuse3]
    split
    · exact .trap rfl
    · exact endOp_ends rfl
  | fuse4 =>
    dsimp only [dispatchOp, doFuse4]
    split
    · exact .trap rfl
    · exact endOp_ends rfl
  | fuse1 =>
    exact endOp_ends (foldl_halt (fun rv g => show (rv.setX g.rd g.imm).halt = rv.halt from rfl) _ rv)
  | fuse5 => exact endOp_ends (foldl_halt shiftFunc_halt _ rv)
  | nop | lui | auipc | imm | alu | fuse2 => exact endOp_ends rfl

theorem execute_ends (h : Ir.Closed (ir :: rest)) (hf : f.irs = ir :: rest) (hjal : ir.impl ≠ .dispatch .jal)
    (hjalr : ir.impl ≠ .dispatch .jalr) : Executed.Ends rv ir rest (execute (P.extend E) c rv sh f) := by
  have hlast (himpl : ∀ op, ir.impl ≠ .dispatch op) : rest = [] := by
    by_contra hne
    exact himpl _ (h.inner hne).impl
  unfold execute
  rw [hf]
  dsimp only
  cases hi : ir.impl with
  | dispatch op =>
    rw [hi] at hjal hjalr
    exact dispatchOp_ends h hi (fun h => hjal (congrArg _ h)) fun h => hjalr (congrArg _ h)
  | lwMailbox =>
    dsimp only [doLwMailbox]
    split_ifs
    · exact .trap rfl
    · exact .back rfl (.inl (hlast (by simp [hi])))
  | ttinsn => exact doTtinsn_ends (hlast (by simp [hi]))

end leave

end Rv32Emu
