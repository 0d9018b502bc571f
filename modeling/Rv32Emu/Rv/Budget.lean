import Mathlib.Data.Prod.Lex
import Mathlib.Order.WithBot
import Rv32Emu.Lib.Loop
import Rv32Emu.Rv.BlockRun

namespace Rv32Emu

variable {δ ξ : Type} {P : Platform δ ξ} {E : ExtUnits δ ξ} {c : CoreConfig}

/-- The instruction at hand is a JAL that is linked to a block of the map, or a JALR to a block of the map. -/
def tailCalls (rv : Rv ξ) (f : Frame) : Bool :=
  match f.irs with
  | [] => false
  | ir :: _ =>
    match ir.impl with
    | .dispatch .jal => (((rv.blockMap f.block).bind (·.branchTaken)).bind rv.blockMap).isSome
    | .dispatch .jalr => (rv.blockMap ((rv.x ir.rs1 + ir.imm) &&& ~~~1)).isSome
    | _ => false

def atMret (f : Frame) : Bool :=
  match f.irs with
  | [] => false
  | ir :: _ =>
    match ir.impl with
    | .dispatch (.ext e) =>
      match extOp e.insn with
      | some .mret => true
      | _ => false
    | _ => false

section execute

variable {rv rv' : Rv ξ} {sh sh' : Shared δ} {f : Frame} {ir : Ir} {rest : List Ir} {count : ℕ} {pc : Word}
  {events : List TileEvent}

inductive Goes (rv : Rv ξ) (f : Frame) (rv' : Rv ξ) (n : ℕ) : Flow → Prop
  | next {f' : Frame} : rv'.csrCycle = rv.csrCycle → f'.irs = f.irs.tail → f'.irs ≠ [] →
      f'.cycle = f.cycle + n →
      Goes rv f rv' n (.next f')
  | jump {f' : Frame} {t : Word} {b : Block} : tailCalls rv f = true → rv'.csrCycle = rv.csrCycle →
      rv.blockMap t = some b → f'.irs = b.irs → n = 1 → f'.cycle = f.cycle + 1 → Goes rv f rv' n (.jump f')
  | counted {ok : Bool} : rv'.csrCycle = f.cycle + n → Goes rv f rv' n (.ret ok true)
  | uncounted {ok : Bool} : (ok = true → atMret f = true) → rv'.csrCycle = rv.csrCycle →
      Goes rv f rv' n (.ret ok false)

structure Executed.Goes (rv : Rv ξ) (f : Frame) (e : Executed δ ξ) : Prop where
  blockMap : e.rv.blockMap = rv.blockMap
  flow : Rv32Emu.Goes rv f e.rv e.count e.flow

theorem endOp_returns (hm : rv'.blockMap = rv.blockMap) :
    (endOp rv' sh' f [] count pc events).Goes rv f :=
  ⟨hm, .counted rfl⟩

theorem endOp_goes (hc : rv'.csrCycle = rv.csrCycle) (hm : rv'.blockMap = rv.blockMap)
    (hf : f.irs = ir :: rest) :
    (endOp rv' sh' f rest count pc events).Goes rv f := by
  cases rest with
  | nil => exact endOp_returns hm
  | cons next rest =>
    have htail : f.irs.tail = next :: rest := by
      rw [hf]
      rfl
    exact ⟨hm, .next hc htail.symm (List.cons_ne_nil _ _) rfl⟩

theorem trapOp_goes {cause tval : Word} (hm : rv'.blockMap = rv.blockMap) :
    (trapOp P rv' sh' f count cause tval events).Goes rv f :=
  ⟨hm, .counted rfl⟩

theorem link_csrCycle (rd : Reg) : (link rv rd pc).csrCycle = rv.csrCycle := by
  unfold link
  split_ifs <;> rfl

theorem jumpTo_goes {block : Word} (hc : rv'.csrCycle = rv.csrCycle) (hm : rv'.blockMap = rv.blockMap)
    (ht : ∀ b, rv.blockMap block = some b → tailCalls rv f = true) :
    (jumpTo rv' sh' f pc block).Goes rv f := by
  unfold jumpTo
  split
  case h_1 b hb =>
    rw [hm] at hb
    exact ⟨hm, .jump (ht b hb) hc hb rfl rfl rfl⟩
  · exact endOp_returns hm

theorem doJal_goes (hf : f.irs = ir :: rest) (hi : ir.impl = .dispatch .jal) :
    (doJal rv sh' f ir).Goes rv f := by
  unfold doJal
  dsimp only
  split
  case h_1 t ht =>
    rw [(link_keeps rv _ _).blockMap] at ht
    refine jumpTo_goes (link_csrCycle _) (link_keeps rv _ _).blockMap fun b hb => ?_
    simp only [tailCalls, hf, hi, ht, hb, Option.bind_some, Option.isSome_some]
  · exact endOp_returns (link_keeps rv _ _).blockMap

theorem doJalr_goes (hf : f.irs = ir :: rest) (hi : ir.impl = .dispatch .jalr) :
    (doJalr rv sh' f ir).Goes rv f := by
  refine jumpTo_goes (link_csrCycle _) (link_keeps rv _ _).blockMap fun b hb => ?_
  simp only [tailCalls, hf, hi, hb, Option.isSome_some]

theorem doLoad_goes (hf : f.irs = ir :: rest) {op : LoadOp} : (doLoad P c rv sh' f ir rest op).Goes rv f := by
  have hend {v : Word} : (endOp (rv.setX ir.rd v) sh' f rest 1 (f.pc + 4) []).Goes rv f :=
    endOp_goes rfl rfl hf
  cases op with
  | lb => exact hend
  | lbu => exact hend
  | lh | lhu =>
    dsimp only [doLoad]
    split_ifs
    · exact trapOp_goes rfl
    · exact hend

theorem doStore_goes (hf : f.irs = ir :: rest) {op : StoreOp} :
    (doStore P c rv sh' f ir rest op).Goes rv f := by
  cases op with
  | sb => exact endOp_goes rfl rfl hf
  | sh =>
    dsimp only [doStore]
    split_ifs
    · exact trapOp_goes rfl
    · exact endOp_goes rfl rfl hf

theorem doLw_goes (hf : f.irs = ir :: rest) : (doLw P c rv sh' f ir rest).Goes rv f := by
  dsimp only [doLw]
  split_ifs
  · exact trapOp_goes rfl
  · exact endOp_goes rfl rfl hf

theorem doSw_goes (hf : f.irs = ir :: rest) : (doSw P c rv sh' f ir rest).Goes rv f := by
  dsimp only [doSw]
  split_ifs
  · exact trapOp_goes rfl
  · exact endOp_goes rfl rfl hf

theorem doLwMailbox_goes : (doLwMailbox P c rv sh' f ir).Goes rv f := by
  dsimp only [doLwMailbox]
  split_ifs
  · exact ⟨rfl, .counted rfl⟩
  · exact ⟨rfl, .counted rfl⟩

theorem doTtinsn_goes : (doTtinsn P c rv sh' f ir).Goes rv f := ⟨rfl, .counted rfl⟩

theorem extRun_uncounted (trap : ξ → Word → Word → Word → ξ × Word × Bool) (e : ExtInsn) (x : Reg → Word)
    (ext : ξ) (pc : Word) :
    (extRun E trap e x ext pc).All fun r => ∀ pc', r.outcome = .leave true pc' false →
      extOp e.insn = some .mret := by
  unfold extRun
  cases hop : extOp e.insn with
  | none => rintro _ ⟨⟩
  | some op =>
    have hnext (x : Reg → Word) (ext : ξ) (pc' : Option Word)
        (h : (extNext x ext : ExtResult δ ξ).outcome = .leave true pc' false) : some op =
          some ExtOp.mret := by
      cases h
    cases op with
    | mret => exact fun _ _ => rfl
    | lrw | amo op | flw =>
      dsimp only
      split_ifs <;> first | exact fun _ => hnext _ _ | exact hnext _ _ | rintro _ ⟨⟩
    | scw | fsw =>
      dsimp only
      split_ifs <;> rintro _ ⟨⟩
    | _ => rintro _ ⟨⟩

theorem doExt_goes {e : ExtInsn} (hf : f.irs = ir :: rest) (hi : ir.impl = .dispatch (.ext e)) :
    (doExt (P.extend E) c rv sh f rest e).Goes rv f := by
  have hmret := (extRun_uncounted (E := E) P.trap e rv.x rv.ext f.pc).run (P := P.extend E) (c := c) sh
  unfold doExt
  dsimp only
  split
  · exact endOp_goes rfl rfl hf
  case h_2 ok pc counted ho =>
    cases counted with
    | true => exact ⟨rfl, .counted rfl⟩
    | false =>
      refine ⟨rfl, .uncounted (fun hok => ?_) rfl⟩
      simp only [atMret, hf, hi, hmret pc (hok ▸ ho)]

theorem doFuse3_goes (hf : f.irs = ir :: rest) : (doFuse3 P c rv sh' f ir rest).Goes rv f := by
  unfold doFuse3
  dsimp only
  split
  · exact trapOp_goes rfl
  · exact endOp_goes rfl rfl hf

theorem doFuse4_goes (hf : f.irs = ir :: rest) : (doFuse4 P c rv sh' f ir rest).Goes rv f := by
  unfold doFuse4
  dsimp only
  split
  · exact trapOp_goes rfl
  · exact endOp_goes rfl rfl hf

theorem foldl_csrCycle {step : Rv ξ → OpcodeFuse → Rv ξ} (h : ∀ rv g, (step rv g).csrCycle = rv.csrCycle)
    (gs : List OpcodeFuse) (rv : Rv ξ) : (gs.foldl step rv).csrCycle = rv.csrCycle := by
  induction gs generalizing rv with
  | nil => rfl
  | cons g gs ih => exact (ih (step rv g)).trans (h rv g)

theorem doFuse1_goes (hf : f.irs = ir :: rest) : (doFuse1 rv sh' f ir rest).Goes rv f := by
  have hset : ∀ (rv : Rv ξ) (g : OpcodeFuse), (rv.setX g.rd g.imm).csrCycle = rv.csrCycle := fun _ _ => rfl
  exact endOp_goes (foldl_csrCycle hset ir.fuse rv)
    (foldl_rv_keeps (fun rv _ => setX_keeps rv _ _) ir.fuse rv).blockMap hf

theorem doFuse5_goes (hf : f.irs = ir :: rest) : (doFuse5 rv sh' f ir rest).Goes rv f := by
  have hshift : ∀ (rv : Rv ξ) g, (shiftFunc rv g).csrCycle = rv.csrCycle := by
    intro rv g
    unfold shiftFunc
    split <;> rfl
  exact endOp_goes (foldl_csrCycle hshift ir.fuse rv) (foldl_rv_keeps shiftFunc_keeps ir.fuse rv).blockMap hf

theorem execute_goes (rv : Rv ξ) (sh : Shared δ) (hne : f.irs ≠ []) :
    (execute (P.extend E) c rv sh f).Goes rv f := by
  unfold execute
  split
  · exact absurd ‹_› hne
  case h_2 ir rest hf =>
    split
    case h_1 op hi =>
      cases op with
      | jal => exact doJal_goes hf hi
      | jalr => exact doJalr_goes hf hi
      | load op => exact doLoad_goes hf
      | lw => exact doLw_goes hf
      | store op => exact doStore_goes hf
      | sw => exact doSw_goes hf
      | ext e => exact doExt_goes hf hi
      | ttinsn => exact doTtinsn_goes
      | fuse1 => exact doFuse1_goes hf
      | fuse3 => exact doFuse3_goes hf
      | fuse4 => exact doFuse4_goes hf
      | fuse5 => exact doFuse5_goes hf
      | branch cond =>
        dsimp only [dispatchOp, doBranch]
        exact endOp_returns rfl
      | nop | lui | auipc | imm | alu | fuse2 => exact endOp_goes rfl rfl hf
    · exact doLwMailbox_goes
    · exact doTtinsn_goes

@[simp] theorem endOp_count (rv : Rv ξ) (sh : Shared δ) :
    (endOp rv sh f rest count pc events).count = count := by
  cases rest <;> rfl

theorem jumpTo_count {block : Word} : (jumpTo rv sh f pc block).count = 1 := by
  unfold jumpTo
  split
  · rfl
  · exact endOp_count ..

theorem dispatchOp_count (op : Opcode) (hi : ir.impl = .dispatch op) :
    (dispatchOp P c rv sh f ir rest op).count = ir.weight := by
  unfold Ir.weight
  rw [hi]
  cases op with
  | jal =>
    dsimp only [dispatchOp, doJal]
    split
    · exact jumpTo_count
    · exact endOp_count ..
  | jalr => exact jumpTo_count
  | load op =>
    cases op <;> dsimp only [dispatchOp, doLoad] <;> (try split_ifs) <;> first | rfl | exact endOp_count ..
  | store op =>
    cases op <;> dsimp only [dispatchOp, doStore] <;> (try split_ifs) <;> first | rfl | exact endOp_count ..
  | lw =>
    dsimp only [dispatchOp, doLw]
    split_ifs
    · rfl
    · exact endOp_count ..
  | sw =>
    dsimp only [dispatchOp, doSw]
    split_ifs
    · rfl
    · exact endOp_count ..
  | ext e =>
    dsimp only [dispatchOp, doExt]
    split
    · exact endOp_count ..
    · rfl
  | fuse3 =>
    dsimp only [dispatchOp, doFuse3]
    split
    · rfl
    · exact endOp_count ..
  | fuse4 =>
    dsimp only [dispatchOp, doFuse4]
    split
    · rfl
    · exact endOp_count ..
  | ttinsn => rfl
  | _ => exact endOp_count ..

theorem execute_count (rv : Rv ξ) (sh : Shared δ) (hf : f.irs = ir :: rest) :
    (execute P c rv sh f).count = ir.weight := by
  unfold execute
  rw [hf]
  dsimp only
  split
  case h_1 op hi => exact dispatchOp_count op hi
  case h_2 hi =>
    rw [Ir.weight, hi]
    dsimp only [doLwMailbox]
    split_ifs <;> rfl
  case h_3 hi =>
    rw [Ir.weight, hi]
    rfl

end execute

section rvStep

/-- A state of a call of `rv_step`, with the number of instructions that the call has executed and that of the
instructions of the block that it is in. -/
structure Metered (δ ξ : Type) where
  state : CoreState δ ξ
  total : ℕ
  block : ℕ

structure Ran (δ ξ : Type) where
  rv : Rv ξ
  shared : Shared δ
  total : ℕ
  block : ℕ

def CoreState.enters (P : Platform δ ξ) (c : CoreConfig) (s : CoreState δ ξ) : Option (List Ir) :=
  match s.ctl with
  | .loop _ => ((coreStep P c s).ctl.bind Ctl.frame).map (·.irs)
  | .exec _ _ f =>
    match (execute P c s.rv s.shared f).flow with
    | .jump f' => some f'.irs
    | _ => none

def blockAfter (block : ℕ) (entered : Option (List Ir)) : ℕ := entered.elim block blockLength

def rvBody (P : Platform δ ξ) (c : CoreConfig) (m : Metered δ ξ) : Option (Metered δ ξ ⊕ Ran δ ξ) :=
  let e := coreStep P c m.state
  match e.ctl with
  | none => some (.inr ⟨e.rv, e.shared, m.total + e.count, m.block⟩)
  | some ctl =>
    some (.inl ⟨⟨e.rv, e.shared, ctl⟩, m.total + e.count, blockAfter m.block (m.state.enters P c)⟩)

def rvStart (c : CoreConfig) (rv : Rv ξ) (sh : Shared δ) : Metered δ ξ :=
  ⟨⟨rv, sh, .loop (rv.csrCycle + c.cyclePerStep)⟩, 0, 0⟩

def rvStep (P : Platform δ ξ) (c : CoreConfig) (rv : Rv ξ) (sh : Shared δ) (fuel : ℕ) : Option (Ran δ ξ) :=
  loop (rvBody P c) fuel (rvStart c rv sh)

variable {s : CoreState δ ξ} {ctl : Ctl}

namespace CoreState

/-- No MRET, and no jump past the dispatcher that uses up the budget. -/
def checked (s : CoreState δ ξ) : Bool :=
  match s.ctl with
  | .loop _ => true
  | .exec target _ f => !atMret f && (!tailCalls s.rv f || f.cycle + 1 < target)

structure Going (s : CoreState δ ξ) : Prop where
  translated : s.rv.Translated
  irs : ∀ target block f, s.ctl = .exec target block f → f.irs ≠ [] ∧ Weighty f.irs

def remaining (s : CoreState δ ξ) : ℕ ×ₗ WithTop ℕ :=
  match s.ctl with
  | .loop target => toLex (target - s.rv.csrCycle, if s.rv.csrCycle < target then ⊤ else WithTop.some 0)
  | .exec target _ f => toLex (target - f.cycle, WithTop.some f.irs.length)

end CoreState

theorem kernelTransition_csrCycle (rv : Rv ξ) (sh : Shared δ) :
    (kernelTransition P c rv sh).1.csrCycle = rv.csrCycle := by
  unfold kernelTransition
  dsimp only
  split_ifs <;> rfl

theorem blockFindOrTranslate_csrCycle (rv : Rv ξ) (dev : δ) :
    (blockFindOrTranslate P c rv dev).1.csrCycle = rv.csrCycle := by
  unfold blockFindOrTranslate
  split
  · rfl
  · have hclear : (if 5 * rv.mapSize > 4 * blockCapacity then blockMapClear rv else rv).csrCycle =
        rv.csrCycle := by
      split_ifs <;> rfl
    dsimp only
    split <;> exact hclear

theorem updatePrev_csrCycle (rv : Rv ξ) : (updatePrev rv).csrCycle = rv.csrCycle := by
  unfold updatePrev
  split
  · split_ifs <;> rfl
  · rfl

theorem chainBlock_csrCycle (rv : Rv ξ) : (chainBlock rv).csrCycle = rv.csrCycle := by
  unfold chainBlock
  split
  · rfl
  · split
    · rfl
    · split_ifs <;> rfl

/-- What a step of `rv_step` can do: the state after it, unless the call returns, the number of
instructions that it executes and the block that it enters, if any. -/
inductive CoreSteps (s : CoreState δ ξ) : Option (CoreState δ ξ) → ℕ → Option (List Ir) → Prop
  | idle {target : ℕ} : s.ctl = .loop target → CoreSteps s none 0 none
  | dispatch {target : ℕ} {block : Word} {f : Frame} {rv : Rv ξ} {sh : Shared δ} : s.ctl = .loop target →
      s.rv.csrCycle < target → rv.Translated → f.cycle = s.rv.csrCycle → f.irs ≠ [] → Weighty f.irs →
      CoreSteps s (some ⟨rv, sh, .exec target block f⟩) 0 (some f.irs)
  | next {target n : ℕ} {block : Word} {f f' : Frame} {rv : Rv ξ} {sh : Shared δ} : s.ctl =
      .exec target block f →
      rv.Translated → f'.irs = f.irs.tail → f'.irs ≠ [] → f'.cycle = f.cycle + n →
      n + blockLength f'.irs = blockLength f.irs → CoreSteps s (some ⟨rv, sh, .exec target block f'⟩) n none
  | jump {target : ℕ} {block : Word} {f f' : Frame} {rv : Rv ξ} {sh : Shared δ} : s.ctl =
      .exec target block f →
      tailCalls s.rv f = true → rv.Translated → f'.irs ≠ [] → Weighty f'.irs → f'.cycle = f.cycle + 1 →
      CoreSteps s (some ⟨rv, sh, .exec target block f'⟩) 1 (some f'.irs)
  | back {target n : ℕ} {block : Word} {f : Frame} {rv : Rv ξ} {sh : Shared δ} : s.ctl =
      .exec target block f →
      rv.Translated → rv.csrCycle = f.cycle + n → 0 < n → n ≤ blockLength f.irs →
      CoreSteps s (some ⟨rv, sh, .loop target⟩) n none
  | forgot {target n : ℕ} {block : Word} {f : Frame} {rv : Rv ξ} {sh : Shared δ} : s.ctl =
      .exec target block f →
      atMret f = true → rv.Translated → CoreSteps s (some ⟨rv, sh, .loop target⟩) n none
  | leaves {target n : ℕ} {block : Word} {f : Frame} : s.ctl = .exec target block f →
      n ≤ blockLength f.irs → CoreSteps s none n none

theorem dispatchBlock_steps {rv : Rv ξ} (h : rv.Translated) (sh : Shared δ) {target : ℕ}
    (hgo : rv.csrCycle < target) :
    CoreSteps ⟨rv, sh, .loop target⟩
      ((dispatchBlock P c rv sh target).ctl.map
        (⟨(dispatchBlock P c rv sh target).rv, (dispatchBlock P c rv sh target).shared, ·⟩))
      (dispatchBlock P c rv sh target).count
      (((dispatchBlock P c rv sh target).ctl.bind Ctl.frame).map (·.irs)) := by
  have hprev : (updatePrev rv).Translated := h.of_eq updatePrev_blockMap
  have hkernel := kernelTransition_translated (P := P) (c := c) hprev sh
  have hcycle :=
    (kernelTransition_csrCycle (P := P) (c := c) (updatePrev rv) sh).trans (updatePrev_csrCycle rv)
  unfold dispatchBlock
  dsimp only
  generalize kernelTransition P c (updatePrev rv) sh = k at *
  have hpre : ({ k.1 with prePc := k.1.pc } : Rv ξ).Translated := hkernel.of_eq rfl
  have hfind := blockFindOrTranslate_translated (P := P) (c := c) hpre k.2.1.dev
  have hfcycle :=
    (blockFindOrTranslate_csrCycle (P := P) (c := c) { k.1 with prePc := k.1.pc } k.2.1.dev).trans hcycle
  generalize blockFindOrTranslate P c { k.1 with prePc := k.1.pc } k.2.1.dev = p at *
  obtain ⟨rv₂, _ | b⟩ := p
  · exact .idle rfl
  · have hmade := hfind.2 b rfl
    have hchain := (chainBlock_csrCycle rv₂).trans hfcycle
    exact .dispatch rfl hgo ((chainBlock_translated hfind.1).of_eq rfl) hchain hmade.nonempty hmade.weighty

theorem execute_blockLength (rv : Rv ξ) (sh : Shared δ) {f : Frame} (hne : f.irs ≠ []) :
    (execute P c rv sh f).count + blockLength f.irs.tail = blockLength f.irs := by
  obtain ⟨ir, rest, hf⟩ := List.exists_cons_of_ne_nil hne
  rw [execute_count rv sh hf, hf, List.tail_cons, blockLength_cons]

theorem execute_count_pos (rv : Rv ξ) (sh : Shared δ) {f : Frame} (hne : f.irs ≠ []) (hw : Weighty f.irs) :
    0 < (execute P c rv sh f).count := by
  obtain ⟨ir, rest, hf⟩ := List.exists_cons_of_ne_nil hne
  rw [execute_count rv sh hf]
  exact hw ir (hf ▸ List.mem_cons_self)

theorem coreStep_steps (h : s.Going) :
    CoreSteps s
      ((coreStep (P.extend E) c s).ctl.map
        (⟨(coreStep (P.extend E) c s).rv, (coreStep (P.extend E) c s).shared, ·⟩))
      (coreStep (P.extend E) c s).count (s.enters (P.extend E) c) := by
  obtain ⟨rv, sh, ctl⟩ := s
  cases ctl with
  | loop target =>
    dsimp only [CoreState.enters, coreStep]
    split_ifs with hgo
    · exact dispatchBlock_steps h.translated sh hgo.1
    · exact .idle rfl
  | exec target block f =>
    obtain ⟨hne, hw⟩ := h.irs target block f rfl
    have hgoes := execute_goes (P := P) (E := E) (c := c) rv sh hne
    have hpos := execute_count_pos (P := P.extend E) (c := c) rv sh hne hw
    have hlen := execute_blockLength (P := P.extend E) (c := c) rv sh hne
    have htr := h.translated.of_eq hgoes.blockMap
    have hflow := hgoes.flow
    dsimp only [CoreState.enters, coreStep]
    generalize execute (P.extend E) c rv sh f = e at *
    obtain ⟨rv', sh', flow, es, n⟩ := e
    dsimp only at hpos hlen htr hflow
    have hle : n ≤ blockLength f.irs := by omega
    cases hflow with
    | next _ htail hne' hcyc => exact .next rfl htr htail hne' hcyc (htail ▸ hlen)
    | jump htc _ hb hirs hn hcyc =>
      subst hn
      have hmade := h.translated _ _ hb
      exact .jump rfl htc htr (hirs ▸ hmade.nonempty) (hirs ▸ hmade.weighty) hcyc
    | @counted ok hc =>
      cases ok with
      | false => exact .leaves rfl hle
      | true => exact .back rfl (htr.of_eq rfl) hc hpos hle
    | @uncounted ok hmret =>
      cases ok with
      | false => exact .leaves rfl hle
      | true => exact .forgot rfl (hmret rfl) (htr.of_eq rfl)

namespace CoreSteps

variable {s' : CoreState δ ξ} {n : ℕ} {entered : Option (List Ir)}

theorem going (h : CoreSteps s (some s') n entered) (hg : s.Going) : s'.Going := by
  cases h with
  | dispatch _ _ htr _ hne hw | jump _ _ htr hne hw =>
    refine ⟨htr, ?_⟩
    rintro _ _ _ ⟨⟩
    exact ⟨hne, hw⟩
  | next hs htr htail hne =>
    refine ⟨htr, ?_⟩
    rintro _ _ _ ⟨⟩
    exact ⟨hne, fun ir hir => (hg.irs _ _ _ hs).2 ir (List.mem_of_mem_tail (htail ▸ hir))⟩
  | back _ htr | forgot _ _ htr => exact ⟨htr, by rintro _ _ _ ⟨⟩⟩

theorem jump_checked {target : ℕ} {block : Word} {f : Frame} (hs : s.ctl = .exec target block f)
    (ht : tailCalls s.rv f = true) (hc : s.checked = true) : f.cycle + 1 < target := by
  simp only [CoreState.checked, hs, ht, Bool.and_eq_true] at hc
  simpa using hc.2

theorem forgot_checked {target : ℕ} {block : Word} {f : Frame} (hs : s.ctl = .exec target block f)
    (hm : atMret f = true) : s.checked = false := by
  simp [CoreState.checked, hs, hm]

theorem remaining_lt (h : CoreSteps s (some s') n entered) (hg : s.Going) (hc : s.checked = true) :
    s'.remaining < s.remaining := by
  unfold CoreState.remaining
  cases h with
  | dispatch hs hlt _ hcyc =>
    rw [hs]
    dsimp only
    rw [hcyc, if_pos hlt, Prod.Lex.toLex_lt_toLex]
    exact .inr ⟨rfl, WithTop.coe_lt_top _⟩
  | @next target n block f f' _ _ hs _ htail _ hcyc =>
    have hpos := List.length_pos_iff.mpr (hg.irs _ _ _ hs).1
    have hlen : f'.irs.length < f.irs.length := by
      rw [htail, List.length_tail]
      omega
    rw [hs]
    dsimp only
    rw [Prod.Lex.toLex_lt_toLex]
    -- the cycles that are left do not grow, and the instructions that are left are fewer
    obtain hlt | heq : target - f'.cycle < target - f.cycle ∨ target - f'.cycle = target - f.cycle := by omega
    · exact .inl hlt
    · exact .inr ⟨heq, WithTop.coe_lt_coe.mpr hlen⟩
  | jump hs ht _ _ _ hcyc =>
    have hleft := jump_checked hs ht hc
    rw [hs]
    dsimp only
    rw [Prod.Lex.toLex_lt_toLex]
    exact .inl (by dsimp only; omega)
  | @back target n block f rv _ hs _ hcyc hn =>
    have hpos := List.length_pos_iff.mpr (hg.irs _ _ _ hs).1
    rw [hs]
    dsimp only
    rw [Prod.Lex.toLex_lt_toLex]
    by_cases hleft : f.cycle < target
    · exact .inl (by dsimp only; omega)
    · have hover : ¬rv.csrCycle < target := by omega
      rw [if_neg hover]
      exact .inr ⟨by dsimp only; omega, WithTop.coe_lt_coe.mpr hpos⟩
  | forgot hs hm =>
    rw [forgot_checked hs hm] at hc
    cases hc

end CoreSteps

theorem coreStep_translated (h : s.rv.Translated) : (coreStep P c s).rv.Translated :=
  coreStep_caches made_unlinked made_translates h

theorem TileStep.translated {cfg : TileConfig} {t t' : Tile δ ξ} {es : List TileEvent}
    (h : TileStep P cfg t es t') :
    (∀ k, (t.cores k).Translated) → ∀ k, (t'.cores k).Translated :=
  h.cores_caches made_unlinked fun _ => made_translates

theorem tile_run_translated {cfg : TileConfig} {t t' : Tile δ ξ} {ess : List (List TileEvent)}
    (h : Run (TileStep P cfg) t ess t') : (∀ k, (t.cores k).Translated) → ∀ k, (t'.cores k).Translated :=
  h.invariant fun _ _ _ ht hs => hs.translated ht

section meter

variable {m m' : Metered δ ξ} {r : Ran δ ξ} {n start budget : ℕ} {entered : Option (List Ir)}

theorem rvBody_cases (hg : m.state.Going) :
    (∃ m' n entered, rvBody (P.extend E) c m = some (.inl m') ∧ CoreSteps m.state (some m'.state) n entered ∧
        m'.total = m.total + n ∧ m'.block = blockAfter m.block entered) ∨
      ∃ r n entered, rvBody (P.extend E) c m = some (.inr r) ∧ CoreSteps m.state none n entered ∧
        r.total = m.total + n ∧ r.block = m.block := by
  have hsteps := coreStep_steps (P := P) (E := E) (c := c) hg
  unfold rvBody
  generalize coreStep (P.extend E) c m.state = e at *
  obtain ⟨rv, sh, ctl, es, n⟩ := e
  cases ctl with
  | none => exact .inr ⟨_, n, _, rfl, hsteps, rfl, rfl⟩
  | some ctl => exact .inl ⟨_, n, _, rfl, hsteps, rfl, rfl⟩

/-- The cycles are those of the instructions executed so far, and these and the rest of the block come
to no more than the budget and one block. -/
structure Metered.Accounted (start budget : ℕ) (m : Metered δ ξ) : Prop where
  loop : ∀ target, m.state.ctl = .loop target →
    target = start + budget ∧ m.state.rv.csrCycle = start + m.total ∧ m.total ≤ budget + m.block
  exec : ∀ target block f, m.state.ctl = .exec target block f →
    target = start + budget ∧ f.cycle = start + m.total ∧ m.total + blockLength f.irs ≤ budget + m.block

theorem Metered.Accounted.step (ha : m.Accounted start budget)
    (h : CoreSteps m.state (some m'.state) n entered) (ht : m'.total = m.total + n)
    (hb : m'.block = blockAfter m.block entered) (hc : m.state.checked = true) :
    m'.Accounted start budget := by
  obtain ⟨s', total, block⟩ := m'
  dsimp only at h ht hb
  subst ht hb
  cases h with
  | dispatch hs hlt _ hcyc =>
    obtain ⟨rfl, htotal, -⟩ := ha.loop _ hs
    refine ⟨by rintro _ ⟨⟩, ?_⟩
    rintro _ _ _ ⟨⟩
    dsimp only [blockAfter, Option.elim_some]
    exact ⟨rfl, by omega, by omega⟩
  | next hs _ _ _ hcyc hlen =>
    obtain ⟨rfl, htotal, hle⟩ := ha.exec _ _ _ hs
    refine ⟨by rintro _ ⟨⟩, ?_⟩
    rintro _ _ _ ⟨⟩
    dsimp only [blockAfter, Option.elim_none]
    exact ⟨rfl, by omega, by omega⟩
  | jump hs htc _ _ _ hcyc =>
    obtain ⟨rfl, htotal, hle⟩ := ha.exec _ _ _ hs
    have hleft := CoreSteps.jump_checked hs htc hc
    refine ⟨by rintro _ ⟨⟩, ?_⟩
    rintro _ _ _ ⟨⟩
    dsimp only [blockAfter, Option.elim_some]
    exact ⟨rfl, by omega, by omega⟩
  | back hs _ hcyc _ hle' =>
    obtain ⟨rfl, htotal, hle⟩ := ha.exec _ _ _ hs
    refine ⟨?_, by rintro _ _ _ ⟨⟩⟩
    rintro _ ⟨⟩
    dsimp only [blockAfter, Option.elim_none]
    exact ⟨rfl, by omega, by omega⟩
  | forgot hs hm =>
    rw [CoreSteps.forgot_checked hs hm] at hc
    cases hc

theorem Metered.Accounted.exit (ha : m.Accounted start budget) (h : CoreSteps m.state none n entered)
    (ht : r.total = m.total + n) (hb : r.block = m.block) : r.total ≤ budget + r.block := by
  cases h with
  | idle hs =>
    obtain ⟨-, -, hle⟩ := ha.loop _ hs
    omega
  | leaves hs hn =>
    obtain ⟨-, -, hle⟩ := ha.exec _ _ _ hs
    omega

theorem rvStart_going {rv : Rv ξ} (h : rv.Translated) (sh : Shared δ) : (rvStart c rv sh).state.Going :=
  ⟨h, by rintro _ _ _ ⟨⟩⟩

theorem rvStart_accounted (rv : Rv ξ) (sh : Shared δ) :
    (rvStart c rv sh).Accounted rv.csrCycle c.cyclePerStep := by
  refine ⟨?_, by rintro _ _ _ ⟨⟩⟩
  rintro _ ⟨⟩
  exact ⟨rfl, rfl, Nat.zero_le _⟩

theorem rvStep_total {rv : Rv ξ} (h : rv.Translated) (sh : Shared δ)
    (hchecked : ∀ ms m, Loop.Visits (rvBody (P.extend E) c) (rvStart c rv sh) ms m → m.state.checked = true)
    (hr : rvStep (P.extend E) c rv sh n = some r) : r.total ≤ c.cyclePerStep + r.block := by
  let I := fun m : Metered δ ξ => (∃ ms, Loop.Visits (rvBody (P.extend E) c) (rvStart c rv sh) ms m) ∧
    m.state.Going ∧ m.Accounted rv.csrCycle c.cyclePerStep
  have hi : I (rvStart c rv sh) := ⟨⟨[], .nil _⟩, rvStart_going h sh, rvStart_accounted rv sh⟩
  refine Loop.invariant (I := I) (Q := fun r => r.total ≤ c.cyclePerStep + r.block) ?_ ?_ hr hi
  · rintro m m₁ ⟨⟨ms, hv⟩, hg, ha⟩ hm
    obtain ⟨m', n, entered, hb, hs, ht, hl⟩ | ⟨r, n, entered, hb, -⟩ :=
      rvBody_cases (P := P) (E := E) (c := c) hg
    · cases hb.symm.trans hm
      exact ⟨⟨ms ++ [m], hv.append (Run.single.mpr ⟨rfl, hb⟩)⟩, hs.going hg,
        ha.step hs ht hl (hchecked ms m hv)⟩
    · cases hb.symm.trans hm
  · rintro m r₁ ⟨-, hg, ha⟩ hm
    obtain ⟨m', n, entered, hb, -⟩ | ⟨r, n, entered, hb, hs, ht, hl⟩ :=
      rvBody_cases (P := P) (E := E) (c := c) hg
    · cases hb.symm.trans hm
    · cases hb.symm.trans hm
      exact ha.exit hs ht hl

end meter

theorem reset_translated : Rv.reset.Translated := by
  intro pc b hb
  cases hb

/-- `addi x1, x1, 1; jal x0, 4; addi x2, x2, 1; bne x1, x0, -12`: two blocks, of which the first is
linked to the second from the third dispatch on. -/
def countProgram : List Word := [0x00108093, 0x0040006F, 0x00110113, 0xFE009AE3]

def briscBudget (n : ℕ) : CoreConfig := ⟨-1, true, n⟩

def selfProgram : List Word := [0x0000006F]

def selfJump : List Ir := [mkIr .jal 0 0 0 0]

def Looped (m : Metered Unit Unit) : Prop :=
  ∃ cycle, m.state.ctl = .exec 2 0 ⟨0, selfJump, cycle, 0⟩ ∧ m.state.rv.blockMap 0 = some ⟨selfJump, some 0⟩

theorem looped_step {m : Metered Unit Unit} (h : Looped m) :
    ∃ m', rvBody (romCore selfProgram) (briscBudget 2) m = some (.inl m') ∧ Looped m' := by
  obtain ⟨⟨rv, sh, ctl⟩, total, block⟩ := m
  obtain ⟨cycle, rfl, hmap⟩ := h
  have hself : rv.blockMap 0#32 = some ⟨selfJump, some 0#32⟩ := hmap
  have hexec : execute (romCore selfProgram) (briscBudget 2) rv sh ⟨0, selfJump, cycle, 0⟩ =
      ⟨{ rv with lastPc := 0 }, sh, .jump ⟨0, selfJump, cycle + 1, 0⟩, [], 1⟩ := by
    change doJal rv sh ⟨0, selfJump, cycle, 0⟩ (mkIr .jal 0 0 0 0) = _
    simp [doJal, link, mkIr, jumpTo, hself]
  refine ⟨⟨⟨{ rv with lastPc := 0 }, sh, .exec 2 0 ⟨0, selfJump, cycle + 1, 0⟩⟩, total + 1, 1⟩, ?_, cycle + 1,
    rfl, hmap⟩
  simp only [rvBody, coreStep, CoreState.enters, hexec]
  rfl

end rvStep

end Rv32Emu
