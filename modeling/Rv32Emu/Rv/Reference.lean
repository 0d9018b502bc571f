import Rv32Emu.Rv.Devices
import Rv32Emu.Rv.Folding
import Rv32Emu.Rv.Freshness
import Rv32Emu.Rv.MatchPattern
import Rv32Emu.Rv.Occupancy

/-! A core against an interpreter without a cache: fetch one instruction, decode it, run its handler.
What `rv_step` does with translated, folded, fused and linked blocks is what this interpreter does, as
long as the blocks are not stale, the loads from a mailbox are known as such, nothing runs into the
known flaws of folding and fusion, and no instruction reads a clock: `rv_step` stores the cycle count
when it leaves a block, and not before. -/

namespace Rv32Emu

variable {δ ξ : Type}

/-- What a program can see of a core and its surroundings, with the PC at which the core last looked
whether it is in a kernel. -/
structure Hart (δ ξ : Type) where
  x : Reg → Word
  ext : ξ
  halt : Bool
  shared : Shared δ
  pc : Word
  prePc : Word

def Hart.rv (s : Hart δ ξ) : Rv ξ :=
  ⟨s.x, s.pc, 0, s.halt, fun _ => none, 0, none, 0, s.prePc, s.ext⟩

def Effect.hart (e : Effect δ ξ) (prePc : Word) : Hart δ ξ := ⟨e.x, e.ext, e.halt, e.shared, e.pc, prePc⟩

section interpreter

variable (P : Platform δ ξ) (c : CoreConfig)

def fetchIr (dev : δ) (x : Reg → Word) (pc : Word) : Option Ir :=
  let insn := P.memIfetch dev c.coreId pc
  if insn = 0 then none
  else
    match rvDecode P.decode insn with
    | none => some { mkIr .ttinsn (rotr32 insn 2) 0 0 0 with impl := .ttinsn, pc }
    | some ir =>
      if c.tensix && isLw ir.opcode && inMailboxRange (x ir.rs1 + ir.imm) then some { ir
        with impl := .lwMailbox, pc }
      else some { ir with pc }

def Hart.exec (s : Hart δ ξ) (ir : Ir) : Effect δ ξ :=
  (execute P c s.rv s.shared ⟨s.pc, [ir], 0, s.pc⟩).effect

def clockCsr (csr : Word) : Bool := (csr &&& 0xFFF).toNat ∈ [0xC00, 0xC01, 0xC02, 0xC80, 0xC81, 0xC82]

def Ir.readsClock (ir : Ir) : Bool :=
  match ir.impl with
  | .dispatch (.ext e) =>
    match extOp e.insn with
    | some (.csr _) | some (.csri _) => clockCsr (decodeItypeImm e.insn)
    | _ => false
  | _ => false

inductive HartAction (δ : Type)
  | insn (ok : Bool)
  | observe
  | tick
  | fatal
  | others (sh : Shared δ)

/-- The interpreter. Besides its instructions, a core looks from time to time whether it has gone from
firmware to a kernel or back, gives its coprocessor thread a turn, and gives up where there is no
code. -/
inductive HartStep : Hart δ ξ → HartAction δ → Hart δ ξ → Prop
  | insn {s : Hart δ ξ} {ir : Ir} : fetchIr P c s.shared.dev s.x s.pc = some ir → ir.readsClock = false →
      HartStep s (.insn (s.exec P c ir).ok) ((s.exec P c ir).hart s.prePc)
  | observe {s : Hart δ ξ} :
      HartStep s .observe { s with shared := (kernelTransition P c s.rv s.shared).2.1, prePc := s.pc }
  | tick {s : Hart δ ξ} : (c.tensix && isTrisc c.coreId) = true →
      HartStep s .tick { s with shared := { s.shared with dev := P.tensixStep s.shared.dev c.coreId } }
  | fatal {s : Hart δ ξ} : blockTranslate P c s.shared.dev s.rv = none →
      HartStep s .fatal { s with halt := true }
  | others {s : Hart δ ξ} {sh : Shared δ} : HartStep s (.others sh) { s with shared := sh }

end interpreter

section handlers

def Effect.seen (e : Effect δ ξ) : Hart δ ξ × Bool := (e.hart 0, e.ok)

theorem Effect.hart_of_seen {e e' : Effect δ ξ} (h : e.seen = e'.seen) (prePc : Word) :
    e.hart prePc = e'.hart prePc :=
  congrArg (fun s : Hart δ ξ × Bool => { s.1 with prePc }) h

variable {P : Platform δ ξ} {E : ExtUnits δ ξ} {c : CoreConfig}

structure Rv.Like (rv rv' : Rv ξ) : Prop where
  x : rv.x = rv'.x
  ext : rv.ext = rv'.ext
  halt : rv.halt = rv'.halt

variable {rv rv' : Rv ξ} {sh : Shared δ} {f f' : Frame} {ir : Ir} {rest rest' : List Ir}

namespace Rv.Like

theorem setX (h : rv.Like rv') (rd : Reg) (v : Word) : (rv.setX rd v).Like (rv'.setX rd v) :=
  ⟨by rw [Rv.setX, Rv.setX, h.x], h.ext, h.halt⟩

theorem link (h : rv.Like rv') (rd : Reg) (pc : Word) : (link rv rd pc).Like (link rv' rd pc) := by
  unfold Rv32Emu.link
  split_ifs
  · exact h.setX rd _
  · exact h

end Rv.Like

theorem endOp_seen (h : rv.Like rv') (sh : Shared δ) (n n' : ℕ) (pc : Word)
    (events events' : List TileEvent) :
    (endOp rv sh f rest n pc events).effect.seen = (endOp rv' sh f' rest' n' pc events').effect.seen := by
  have hplain (rv : Rv ξ) (f : Frame) (rest : List Ir) (n : ℕ) (events : List TileEvent) :
      (endOp rv sh f rest n pc events).effect.seen = (⟨rv.x, rv.ext, rv.halt, sh, pc, 0⟩, true) := by
    cases rest <;> rfl
  rw [hplain, hplain, h.x, h.ext, h.halt]

theorem trapOp_seen (h : rv.Like rv') (hpc : f.pc = f'.pc) (sh : Shared δ) (n n' : ℕ) (cause tval : Word)
    (events events' : List TileEvent) :
    (trapOp P rv sh f n cause tval events).effect.seen =
      (trapOp P rv' sh f' n' cause tval events').effect.seen := by
  unfold trapOp
  rw [h.ext, hpc]
  dsimp only [Executed.effect, Effect.seen, Effect.hart]
  rw [h.x, h.halt]

theorem jumpTo_seen (h : rv.Like rv') (sh : Shared δ) (pc block : Word) (n : ℕ) (events : List TileEvent) :
    (jumpTo rv sh f pc block).effect.seen = (endOp rv' sh f' rest' n pc events).effect.seen := by
  unfold jumpTo
  split
  · cases rest' <;> simp only [Executed.effect, Effect.seen, Effect.hart, endOp, h.x, h.ext, h.halt]
  · exact endOp_seen h sh _ _ pc _ _

theorem doJal_seen (h : rv.Like rv') (hpc : f.pc = f'.pc) :
    (doJal rv sh f ir).effect.seen = (doJal rv' sh f' ir).effect.seen := by
  have key (rv : Rv ξ) (f : Frame) : (doJal rv sh f ir).effect.seen =
      (endOp (link rv ir.rd f.pc) sh f [] 1 (f.pc + ir.imm) []).effect.seen := by
    unfold doJal
    dsimp only
    split
    · have hlike : ({ link rv ir.rd f.pc with lastPc := f.pc + ir.imm } : Rv ξ).Like (link rv ir.rd f.pc) :=
        ⟨rfl, rfl, rfl⟩
      exact jumpTo_seen hlike sh _ _ 1 []
    · rfl
  rw [key, key, hpc]
  exact endOp_seen (h.link _ _) sh _ _ _ _ _

theorem doJalr_seen (h : rv.Like rv') (hpc : f.pc = f'.pc) :
    (doJalr rv sh f ir).effect.seen = (doJalr rv' sh f' ir).effect.seen := by
  have key (rv : Rv ξ) (f : Frame) : (doJalr rv sh f ir).effect.seen =
      (endOp (link rv ir.rd f.pc) sh f [] 1 ((rv.x ir.rs1 + ir.imm) &&& ~~~1) []).effect.seen :=
    jumpTo_seen ⟨rfl, rfl, rfl⟩ sh _ _ 1 []
  rw [key, key, hpc, h.x]
  exact endOp_seen (h.link _ _) sh _ _ _ _ _

theorem doLoad_seen (h : rv.Like rv') (hpc : f.pc = f'.pc) (op : LoadOp) :
    (doLoad P c rv sh f ir rest op).effect.seen = (doLoad P c rv' sh f' ir rest' op).effect.seen := by
  unfold doLoad
  rw [h.x, hpc]
  cases op with
  | lb | lbu => exact endOp_seen (h.setX _ _) sh _ _ _ _ _
  | lh | lhu =>
    dsimp only
    split_ifs
    · exact trapOp_seen h hpc sh _ _ _ _ _ _
    · exact endOp_seen (h.setX _ _) sh _ _ _ _ _

theorem doStore_seen (h : rv.Like rv') (hpc : f.pc = f'.pc) (op : StoreOp) :
    (doStore P c rv sh f ir rest op).effect.seen = (doStore P c rv' sh f' ir rest' op).effect.seen := by
  unfold doStore
  rw [h.x, hpc]
  cases op with
  | sb => exact endOp_seen h _ _ _ _ _ _
  | sh =>
    dsimp only
    split_ifs
    · exact trapOp_seen h hpc sh _ _ _ _ _ _
    · exact endOp_seen h _ _ _ _ _ _

theorem doLw_seen (h : rv.Like rv') (hpc : f.pc = f'.pc) :
    (doLw P c rv sh f ir rest).effect.seen = (doLw P c rv' sh f' ir rest').effect.seen := by
  unfold doLw
  rw [h.x, hpc]
  dsimp only
  split_ifs
  · exact trapOp_seen h hpc sh _ _ _ _ _ _
  · exact endOp_seen (h.setX _ _) _ _ _ _ _ _

theorem doSw_seen (h : rv.Like rv') (hpc : f.pc = f'.pc) :
    (doSw P c rv sh f ir rest).effect.seen = (doSw P c rv' sh f' ir rest').effect.seen := by
  unfold doSw
  rw [h.x, hpc]
  dsimp only
  split_ifs
  · exact trapOp_seen h hpc sh _ _ _ _ _ _
  · exact endOp_seen h _ _ _ _ _ _

theorem doLwMailbox_seen (h : rv.Like rv') (hpc : f.pc = f'.pc) :
    (doLwMailbox P c rv sh f ir).effect.seen = (doLwMailbox P c rv' sh f' ir).effect.seen := by
  unfold doLwMailbox
  rw [h.x, hpc]
  dsimp only [Rv.setX]
  split_ifs
  all_goals
    dsimp only [Executed.effect, Effect.seen, Effect.hart]
    rw [h.x, h.ext, h.halt]

theorem doTtinsn_seen (h : rv.Like rv') (hpc : f.pc = f'.pc) :
    (doTtinsn P c rv sh f ir).effect.seen = (doTtinsn P c rv' sh f' ir).effect.seen := by
  unfold doTtinsn
  dsimp only [Executed.effect, Effect.seen, Effect.hart]
  rw [h.x, h.ext, h.halt, hpc]

theorem doExt_seen (h : rv.Like rv') (hpc : f.pc = f'.pc) (e : ExtInsn) :
    (doExt (P.extend E) c rv sh f rest e).effect.seen =
      (doExt (P.extend E) c rv' sh f' rest' e).effect.seen := by
  have hset := (extRun_ordinary E P.trap e rv'.x rv'.ext f'.pc).run (P := P.extend E) (c := c) sh
  have hrun : (P.extend E).run e rv'.x rv'.ext f'.pc = extRun E P.trap e rv'.x rv'.ext f'.pc := rfl
  unfold doExt
  rw [h.x, h.ext, hpc, hrun]
  generalize (extRun E P.trap e rv'.x rv'.ext f'.pc).run (P.extend E) c sh = r at *
  obtain ⟨⟨x, ext, dev, halt, outcome⟩, sh', events⟩ := r
  cases outcome with
  | next =>
    dsimp only
    have hlike : ({ rv with x, ext, halt := rv.halt || halt } : Rv ξ).Like
        { rv' with x, ext, halt := rv'.halt || halt } :=
      ⟨rfl, rfl, congrArg (· || halt) h.halt⟩
    exact endOp_seen hlike _ _ _ _ _ _
  | leave ok pc counted =>
    obtain ⟨v, rfl⟩ := Option.isSome_iff_exists.mp (hset.pc ok pc counted rfl)
    dsimp only [Executed.effect, Effect.seen, Effect.hart]
    rw [h.halt]
    rfl

theorem dispatchOp_seen {op : Opcode} (h : rv.Like rv') (hpc : f.pc = f'.pc) (hop : op.fused = false) :
    (dispatchOp (P.extend E) c rv sh f ir rest op).effect.seen =
      (dispatchOp (P.extend E) c rv' sh f' ir rest' op).effect.seen := by
  cases op with
  | nop | lui | auipc =>
    dsimp only [dispatchOp]
    rw [hpc]
    exact endOp_seen (h.setX _ _) sh _ _ _ _ _
  | jal => exact doJal_seen h hpc
  | jalr => exact doJalr_seen h hpc
  | branch cond =>
    dsimp only [dispatchOp, doBranch]
    rw [h.x, hpc]
    exact endOp_seen h sh _ _ _ _ _
  | load op => exact doLoad_seen h hpc op
  | lw => exact doLw_seen h hpc
  | store op => exact doStore_seen h hpc op
  | sw => exact doSw_seen h hpc
  | imm op | alu op =>
    dsimp only [dispatchOp]
    rw [h.x, hpc]
    exact endOp_seen (h.setX _ _) sh _ _ _ _ _
  | ext e => exact doExt_seen h hpc e
  | ttinsn => exact doTtinsn_seen h hpc
  | fuse1 | fuse2 | fuse3 | fuse4 | fuse5 => cases hop

def Ir.Single (ir : Ir) : Prop := ∀ op, ir.impl = .dispatch op → op.fused = false

theorem execute_seen (f' : Frame) (h : rv.Like rv') (hpc : f.pc = f'.pc) (hir : ir.Single) :
    (execute (P.extend E) c rv sh { f with irs := ir :: rest }).effect.seen =
      (execute (P.extend E) c rv' sh { f' with irs := ir :: rest' }).effect.seen := by
  unfold execute
  dsimp only
  split
  next op hop => exact dispatchOp_seen h hpc (hir op hop)
  · exact doLwMailbox_seen h hpc
  · exact doTtinsn_seen h hpc

end handlers

section block

variable {P : Platform δ ξ} {E : ExtUnits δ ξ} {c : CoreConfig} {rv : Rv ξ} {sh : Shared δ} {f : Frame}
  {irs : List Ir}

def Rv.hart (rv : Rv ξ) (sh : Shared δ) (pc : Word) : Hart δ ξ := ⟨rv.x, rv.ext, rv.halt, sh, pc, rv.prePc⟩

/-- Each instruction that the core executes of `irs` is the one that memory holds at its address when
its turn comes. -/
def Current (P : Platform δ ξ) (c : CoreConfig) : List Ir → Rv ξ → Shared δ → Frame → Prop
  | [], _, _, _ => True
  | ir :: rest, rv, sh, f =>
    fetchIr P c sh.dev rv.x f.pc = some ir ∧
      ∀ f', (execute P c rv sh { f with irs := ir :: rest }).flow = .next f' →
        Current P c rest (execute P c rv sh { f with irs := ir :: rest }).rv
          (execute P c rv sh { f with irs := ir :: rest }).shared f'

theorem fetchIr_single {dev : δ} {x : Reg → Word} {pc : Word} {ir : Ir}
    (h : fetchIr (P.extend E) c dev x pc = some ir) : ir.Single := by
  unfold fetchIr at h
  dsimp only at h
  split at h
  · cases h
  · split at h
    · cases h
      rintro _ ⟨⟩
    next ir' hd =>
      have hdecoded := rvDecode_decoded hd
      split at h
      · cases h
        rintro _ ⟨⟩
      · cases h
        intro op hop
        rw [hdecoded.impl] at hop
        cases hop
        exact hdecoded.plain

theorem hartStep_handler {ir : Ir} (rest : List Ir) (h : fetchIr (P.extend E) c sh.dev rv.x f.pc = some ir)
    (hclock : ir.readsClock = false) :
    HartStep (P.extend E) c (rv.hart sh f.pc)
      (.insn (execute (P.extend E) c rv sh { f with irs := ir :: rest }).effect.ok)
      ((execute (P.extend E) c rv sh { f with irs := ir :: rest }).effect.hart rv.prePc) := by
  have hlike : rv.Like (rv.hart sh f.pc).rv := ⟨rfl, rfl, rfl⟩
  have hseen : (execute (P.extend E) c rv sh { f with irs := ir :: rest }).effect.seen =
      ((rv.hart sh f.pc).exec (P.extend E) c ir).seen :=
    execute_seen ⟨f.pc, [], 0, f.pc⟩ hlike rfl (fetchIr_single h)
  have hok : (execute (P.extend E) c rv sh { f with irs := ir :: rest }).effect.ok =
      ((rv.hart sh f.pc).exec (P.extend E) c ir).ok := congrArg Prod.snd hseen
  rw [hok, Effect.hart_of_seen hseen]
  exact .insn h hclock

def HartAction.isInsn : HartAction δ → Bool
  | insn _ => true
  | _ => false

theorem execute_prePc (rv : Rv ξ) (sh : Shared δ) (f : Frame) : (execute P c rv sh f).rv.prePc = rv.prePc :=
  (execute_keeps rv sh f).rv.prePc

theorem Current.run (h : Current (P.extend E) c irs rv sh f) (hclock : ∀ ir ∈ irs, ir.readsClock = false) :
    ∃ as, Run (HartStep (P.extend E) c) (rv.hart sh f.pc) as
      ((runIrs (P.extend E) c irs rv sh f).effect.hart rv.prePc) ∧ ∀ a ∈ as, a.isInsn = true := by
  induction irs generalizing rv sh f with
  | nil => exact ⟨[], .nil _, by simp⟩
  | cons ir rest ih =>
    obtain ⟨hfetch, hrest⟩ := h
    obtain ⟨hfirst, hclock⟩ := List.forall_mem_cons.mp hclock
    have hstep := hartStep_handler rest hfetch hfirst
    have hpre := execute_prePc (P := P.extend E) (c := c) rv sh { f with irs := ir :: rest }
    dsimp only [runIrs]
    generalize execute (P.extend E) c rv sh { f with irs := ir :: rest } = e at *
    cases he : e.flow with
    | next f' =>
      obtain ⟨as, hrun, has⟩ := ih (hrest f' he) hclock
      have hmid : e.effect.hart rv.prePc = e.rv.hart e.shared f'.pc := by
        rw [Executed.effect, he, ← hpre]
        rfl
      rw [hmid] at hstep
      rw [hpre] at hrun
      exact ⟨_ :: as, .cons hstep hrun, List.forall_mem_cons.mpr ⟨rfl, has⟩⟩
    | jump f' => exact ⟨[_], Run.single.mpr hstep, by simp [HartAction.isInsn]⟩
    | ret ok counted => exact ⟨[_], Run.single.mpr hstep, by simp [HartAction.isInsn]⟩

def optimised (P : Platform δ ξ) (irs : List Ir) : List Ir :=
  let folded := optimizeConstant P ⟨fun r => r = 0, fun _ => 0⟩ irs
  matchPattern folded.length folded

/-- `irs` at the PC, with no access to a clock, no SC.W whose result the folder misses and no group that
fusion gets wrong. -/
structure Regular (P : Platform δ ξ) (c : CoreConfig) (irs : List Ir) (rv : Rv ξ) (sh : Shared δ)
    (f : Frame) :
    Prop where
  straight : Straight f.pc irs
  current : Current P c irs rv sh f
  zero : rv.x 0 = 0
  untimed : ∀ ir ∈ irs, ir.readsClock = false
  clear : overwritesKnown zeroKnown irs = false
  short : shortRuns (optimizeConstant P ⟨fun r => r = 0, fun _ => 0⟩ irs) = true
  unspoilt : spoilsGroup P c .nop (optimizeConstant P ⟨fun r => r = 0, fun _ => 0⟩ irs) rv sh f = false

theorem Regular.effect (h : Regular (P.extend E) c irs rv sh f) :
    (runIrs (P.extend E) c (optimised (P.extend E) irs) rv sh f).effect =
      (runIrs (P.extend E) c irs rv sh f).effect := by
  have hfold : (runIrs (P.extend E) c irs rv sh f).effect = (runIrs (P.extend E) c
      (optimizeConstant (P.extend E) ⟨fun r => r = 0, fun _ => 0⟩ irs) rv sh f).effect :=
    Straight.optimised h.straight h.clear h.zero
  have hstraight : StraightRest (optimizeConstant (P.extend E) ⟨fun r => r = 0, fun _ => 0⟩ irs) :=
    .inr ⟨f.pc, optimizeConstant_straight h.straight _⟩
  have hfuse := (runsAlike_iff _ hstraight (Nat.le_refl _) h.short (fun _ _ => rfl) rv sh f).mpr h.unspoilt
  exact (hfuse (P.extend E).trap).symm.trans hfold.symm

theorem Regular.run (h : Regular (P.extend E) c irs rv sh f) :
    ∃ as, Run (HartStep (P.extend E) c) (rv.hart sh f.pc) as
      ((runIrs (P.extend E) c (optimised (P.extend E) irs) rv sh f).effect.hart rv.prePc) ∧
        ∀ a ∈ as, a.isInsn = true := by
  rw [h.effect]
  exact h.current.run h.untimed

end block

section session

structure Session (δ ξ : Type) where
  rv : Rv ξ
  shared : Shared δ
  ctl : Option Ctl

def Session.enters (P : Platform δ ξ) (c : CoreConfig) (w : Session δ ξ) : Prop :=
  match w.ctl with
  | some (.exec _ _ f) => ∃ f', (execute P c w.rv w.shared f).flow = .jump f'
  | _ => True

def Session.Regular (P : Platform δ ξ) (c : CoreConfig) (w : Session δ ξ) : Prop :=
  ∀ target block f, w.ctl = some (.exec target block f) →
    ∃ irs, f.irs = optimised P irs ∧ Rv32Emu.Regular P c irs w.rv w.shared f

def Session.after (s : Stepped δ ξ) : Session δ ξ := ⟨s.rv, s.shared, s.ctl⟩

/-- The turns of a core whose blocks are regular when it enters them. Others have theirs between two calls. -/
inductive RegularTurn (P : Platform δ ξ) (c : CoreConfig) : Session δ ξ → Turn δ → Session δ ξ → Prop
  | others {rv : Rv ξ} {sh sh' : Shared δ} : RegularTurn P c ⟨rv, sh, none⟩ (.others sh') ⟨rv, sh', none⟩
  | call {rv : Rv ξ} {sh : Shared δ} :
      RegularTurn P c ⟨rv, sh, none⟩ .call ⟨rv, sh, some (.loop (rv.csrCycle + c.cyclePerStep))⟩
  | step {rv : Rv ξ} {sh : Shared δ} {ctl : Ctl} :
      (Session.enters P c ⟨rv, sh, some ctl⟩ → (Session.after (coreStep P c ⟨rv, sh, ctl⟩)).Regular P c) →
      RegularTurn P c ⟨rv, sh, some ctl⟩ .step (.after (coreStep P c ⟨rv, sh, ctl⟩))

variable {P : Platform δ ξ} {E : ExtUnits δ ξ} {c : CoreConfig} {rv rv' : Rv ξ} {sh : Shared δ}

section dispatch

theorem updatePrev_hart (rv : Rv ξ) (sh : Shared δ) (pc : Word) :
    (updatePrev rv).hart sh pc = rv.hart sh pc := by
  unfold updatePrev
  split
  · split_ifs <;> rfl
  · rfl

theorem kernelTransition_hart (rv : Rv ξ) (sh sh' : Shared δ) (pc : Word) :
    (kernelTransition P c rv sh).1.hart sh' pc = rv.hart sh' pc := by
  rw [kernelTransition_rv]
  split_ifs <;> rfl

theorem kernelTransition_pc (rv : Rv ξ) (sh : Shared δ) : (kernelTransition P c rv sh).1.pc = rv.pc := by
  rw [kernelTransition_rv]
  split_ifs <;> rfl

theorem kernelTransition_shared (hpre : rv.prePc = rv'.prePc) (hpc : rv.pc = rv'.pc) (sh : Shared δ) :
    (kernelTransition P c rv sh).2.1 = (kernelTransition P c rv' sh).2.1 := by
  unfold kernelTransition
  rw [hpre, hpc]
  dsimp only
  split_ifs <;> rfl

theorem chainBlock_hart (rv : Rv ξ) (sh : Shared δ) (pc : Word) :
    (chainBlock rv).hart sh pc = rv.hart sh pc := by
  unfold chainBlock
  split
  · rfl
  · split
    · rfl
    · split_ifs <;> rfl

theorem blockTranslate_like (hx : rv.x = rv'.x) (hpc : rv.pc = rv'.pc) (dev : δ) :
    blockTranslate P c dev rv = blockTranslate P c dev rv' := by
  unfold blockTranslate
  rw [hx, hpc]

theorem blockFindOrTranslate_hart (rv : Rv ξ) (dev : δ) (sh : Shared δ) (pc : Word) :
    (blockFindOrTranslate P c rv dev).1.hart sh pc = rv.hart sh pc := by
  unfold blockFindOrTranslate
  split
  · rfl
  · have hclear : (if 5 * rv.mapSize > 4 * blockCapacity then blockMapClear rv else rv).hart sh pc =
        rv.hart sh pc := by
      split_ifs <;> rfl
    dsimp only
    split <;> exact hclear

theorem blockFindOrTranslate_none (rv : Rv ξ) (dev : δ) (h : (blockFindOrTranslate P c rv dev).2 = none) :
    blockTranslate P c dev rv = none := by
  unfold blockFindOrTranslate at h
  split at h
  · cases h
  · have hlike : blockTranslate P c dev (if 5 * rv.mapSize > 4 * blockCapacity then blockMapClear rv
        else rv) =
        blockTranslate P c dev rv := by
      split_ifs <;> rfl
    dsimp only at h
    split at h
    next hnone => exact hlike.symm.trans hnone
    · cases h

theorem dispatchBlock_hart (rv : Rv ξ) (sh : Shared δ) (target : ℕ) :
    ∃ h, Run (HartStep P c) (rv.hart sh rv.pc) [.observe] h ∧
      ((dispatchBlock P c rv sh target).ctl = none ∧ HartStep P c h .fatal
          ((dispatchBlock P c rv sh target).rv.hart (dispatchBlock P c rv sh target).shared rv.pc) ∧
          (dispatchBlock P c rv sh target).rv.pc = rv.pc ∨
        ∃ block f, (dispatchBlock P c rv sh target).ctl = some (.exec target block f) ∧
          (dispatchBlock P c rv sh target).rv.hart (dispatchBlock P c rv sh target).shared f.pc = h) := by
  have hobs : HartStep P c (rv.hart sh rv.pc) .observe
      { rv.hart sh rv.pc with
        shared := (kernelTransition P c (rv.hart sh rv.pc).rv sh).2.1, prePc := rv.pc } :=
    .observe
  refine ⟨_, Run.single.mpr hobs, ?_⟩
  have hpre : (rv.hart sh rv.pc).rv.prePc = (updatePrev rv).prePc :=
    (congrArg Hart.prePc (updatePrev_hart rv sh rv.pc)).symm
  have hsh : (kernelTransition P c (rv.hart sh rv.pc).rv sh).2.1 =
      (kernelTransition P c (updatePrev rv) sh).2.1 :=
    kernelTransition_shared hpre (updatePrev_pc rv).1.symm sh
  rw [hsh]
  unfold dispatchBlock
  dsimp only
  have hpc : (kernelTransition P c (updatePrev rv) sh).1.pc = rv.pc :=
    (kernelTransition_pc _ sh).trans (updatePrev_pc rv).1
  have hhart (sh' : Shared δ) (pc : Word) : (kernelTransition P c (updatePrev rv) sh).1.hart sh' pc =
      rv.hart sh' pc :=
    (kernelTransition_hart _ sh sh' pc).trans (updatePrev_hart rv sh' pc)
  generalize kernelTransition P c (updatePrev rv) sh = k at *
  obtain ⟨rv₁, sh₁, events⟩ := k
  dsimp only at hpc hhart ⊢
  have hfound := blockFindOrTranslate_hart (P := P) (c := c) { rv₁ with prePc := rv₁.pc } sh₁.dev sh₁ rv.pc
  have hnone := blockFindOrTranslate_none (P := P) (c := c) { rv₁ with prePc := rv₁.pc } sh₁.dev
  have hfoundPc := blockFindOrTranslate_pc (P := P) (c := c) { rv₁ with prePc := rv₁.pc } sh₁.dev
  generalize blockFindOrTranslate P c { rv₁ with prePc := rv₁.pc } sh₁.dev = p at *
  have hstart : ({ rv₁ with prePc := rv₁.pc } : Rv ξ).hart sh₁ rv.pc =
      { rv.hart sh rv.pc with shared := sh₁, prePc := rv.pc } := by
    rw [hpc]
    exact congrArg (fun s : Hart δ ξ => { s with prePc := rv.pc }) (hhart sh₁ rv.pc)
  rw [hstart] at hfound
  obtain ⟨rv₂, _ | b⟩ := p
  · refine .inl ⟨rfl, ?_, hfoundPc.trans hpc⟩
    have hfatal :=
      HartStep.fatal (P := P) (c := c) (s := { rv.hart sh rv.pc with shared := sh₁, prePc := rv.pc }) ?_
    · rw [← hfound] at hfatal
      rw [← hfound]
      exact hfatal
    · rw [← hnone rfl]
      exact blockTranslate_like (congrArg Hart.x (hhart sh₁ rv.pc)).symm hpc.symm _
  · refine .inr ⟨_, _, rfl, ?_⟩
    have hchainPc : (chainBlock rv₂).pc = rv.pc := (chainBlock_pc rv₂).trans (hfoundPc.trans hpc)
    change (chainBlock rv₂).hart sh₁ (chainBlock rv₂).pc = _
    rw [hchainPc, chainBlock_hart, hfound]

end dispatch

/-- Where the interpreter is when the core has come to `w`: at the same place, or still at the start of
the block that the core is in. -/
inductive Behind (P : Platform δ ξ) (c : CoreConfig) : Session δ ξ → Hart δ ξ → Prop
  | out {rv : Rv ξ} {sh : Shared δ} {ctl : Option Ctl} : ctl.bind Ctl.frame = none →
      Behind P c ⟨rv, sh, ctl⟩ (rv.hart sh rv.pc)
  | inside {rv₀ rv : Rv ξ} {sh₀ sh : Shared δ} {target : ℕ} {block : Word} {f₀ f : Frame} {irs : List Ir} :
      f₀.irs = optimised P irs → Regular P c irs rv₀ sh₀ f₀ →
      runIrs P c f.irs rv sh f = runIrs P c f₀.irs rv₀ sh₀ f₀ → rv.prePc = rv₀.prePc →
      Behind P c ⟨rv, sh, some (.exec target block f)⟩ (rv₀.hart sh₀ f₀.pc)

theorem Behind.enter {target : ℕ} {block : Word} {f : Frame}
    (h : (⟨rv, sh, some (.exec target block f)⟩ : Session δ ξ).Regular P c) :
    Behind P c ⟨rv, sh, some (.exec target block f)⟩ (rv.hart sh f.pc) := by
  obtain ⟨irs, hirs, hreg⟩ := h target block f rfl
  exact .inside hirs hreg rfl rfl

def HartAction.sharedOf : HartAction δ → Option (Shared δ)
  | others sh => some sh
  | _ => none

def Turn.sharedOf : Turn δ → Option (Shared δ)
  | others sh => some sh
  | _ => none

theorem filterMap_insns {as : List (HartAction δ)} (h : ∀ a ∈ as, a.isInsn = true) :
    as.filterMap HartAction.sharedOf = [] := by
  rw [List.filterMap_eq_nil_iff]
  intro a ha
  have hinsn := h a ha
  cases a <;> first | rfl | cases hinsn

theorem runIrs_leaves {f : Frame} (h : ∀ f', (execute P c rv sh f).flow ≠ .next f') :
    runIrs P c f.irs rv sh f = execute P c rv sh f := by
  obtain ⟨block, irs, cycle, pc⟩ := f
  cases irs with
  | nil => rfl
  | cons ir rest =>
    dsimp only [runIrs] at h ⊢
    generalize execute P c rv sh ⟨block, ir :: rest, cycle, pc⟩ = e at *
    cases he : e.flow with
    | next f' => exact absurd he (h f')
    | jump f' => rfl
    | ret ok counted => rfl

theorem Regular.leave {irs : List Ir} {rv₀ : Rv ξ} {sh₀ : Shared δ} {f₀ f : Frame}
    (hreg : Regular (P.extend E) c irs rv₀ sh₀ f₀) (hirs : f₀.irs = optimised (P.extend E) irs)
    (hrest : runIrs (P.extend E) c f.irs rv sh f = runIrs (P.extend E) c f₀.irs rv₀ sh₀ f₀)
    (hleave : ∀ f', (execute (P.extend E) c rv sh f).flow ≠ .next f') :
    ∃ as, Run (HartStep (P.extend E) c) (rv₀.hart sh₀ f₀.pc) as
      ((execute (P.extend E) c rv sh f).effect.hart rv₀.prePc) ∧ as.filterMap HartAction.sharedOf = [] := by
  obtain ⟨as, hrun, has⟩ := hreg.run
  rw [← hirs, ← hrest, runIrs_leaves hleave] at hrun
  exact ⟨as, hrun, filterMap_insns has⟩

theorem Behind.dispatch {target : ℕ}
    (hnext : (Session.after (coreStep (P.extend E) c ⟨rv, sh, .loop target⟩)).Regular (P.extend E) c) :
    ∃ as s', Run (HartStep (P.extend E) c) (rv.hart sh rv.pc) as s' ∧
      Behind (P.extend E) c (.after (coreStep (P.extend E) c ⟨rv, sh, .loop target⟩)) s' ∧
      as.filterMap HartAction.sharedOf = [] := by
  unfold coreStep at hnext ⊢
  dsimp only at hnext ⊢
  by_cases hgo : rv.csrCycle < target ∧ rv.halt = false
  · rw [if_pos hgo] at hnext ⊢
    obtain ⟨s', hrun, ⟨hctl, hfatal, hpc⟩ | ⟨block, f, hctl, hhart⟩⟩ :=
      dispatchBlock_hart (P := P.extend E) (c := c) rv sh target
    · refine ⟨_, _, hrun.append (Run.single.mpr hfatal), ?_, rfl⟩
      generalize dispatchBlock (P.extend E) c rv sh target = d at *
      obtain ⟨rv', sh', ctl', events, count⟩ := d
      dsimp only at hctl hpc ⊢
      rw [← hpc]
      exact .out (by rw [hctl]; rfl)
    · refine ⟨_, s', hrun, ?_, rfl⟩
      generalize dispatchBlock (P.extend E) c rv sh target = d at *
      obtain ⟨rv', sh', ctl', events, count⟩ := d
      dsimp only [Session.after] at hctl hhart hnext ⊢
      subst hctl
      rw [← hhart]
      exact Behind.enter hnext
  · rw [if_neg hgo]
    exact ⟨[], _, .nil _, .out rfl, rfl⟩

/-- The interpreter waits at the start of the block until the core leaves it, and then runs the whole
block. -/
theorem Regular.exec {target : ℕ} {block : Word} {irs : List Ir} {rv₀ : Rv ξ} {sh₀ : Shared δ} {f₀ f : Frame}
    (hreg : Regular (P.extend E) c irs rv₀ sh₀ f₀) (hirs : f₀.irs = optimised (P.extend E) irs)
    (hrest : runIrs (P.extend E) c f.irs rv sh f = runIrs (P.extend E) c f₀.irs rv₀ sh₀ f₀)
    (hpre : rv.prePc = rv₀.prePc)
    (henters : (∃ f', (execute (P.extend E) c rv sh f).flow = .jump f') →
      (Session.after (coreStep (P.extend E) c ⟨rv, sh, .exec target block f⟩)).Regular (P.extend E) c) :
    ∃ as s', Run (HartStep (P.extend E) c) (rv₀.hart sh₀ f₀.pc) as s' ∧
      Behind (P.extend E) c (.after (coreStep (P.extend E) c ⟨rv, sh, .exec target block f⟩)) s' ∧
      as.filterMap HartAction.sharedOf = [] := by
  have hleave := hreg.leave hirs hrest
  have hkeeps := execute_prePc (P := P.extend E) (c := c) rv sh f
  have hfollows := execute_follows (P := P.extend E) (c := c) rv sh f
  unfold coreStep at henters ⊢
  dsimp only at henters ⊢
  cases he : (execute (P.extend E) c rv sh f).flow with
  | next f' =>
    rw [he] at hfollows
    cases hfollows with
    | @next _ ir hf =>
      refine ⟨[], _, .nil _, .inside hirs hreg ?_ (hkeeps.trans hpre), rfl⟩
      rw [← hrest, hf]
      dsimp only [runIrs]
      have hframe : { f with irs := ir :: f'.irs } = f := by rw [← hf]
      rw [hframe, he]
  | jump f' =>
    obtain ⟨as, hrun, has⟩ := hleave (by rw [he]; exact nofun)
    have hnext := henters ⟨f', he⟩
    simp only [he] at hnext
    generalize execute (P.extend E) c rv sh f = e at *
    have hhart : e.effect.hart rv₀.prePc = e.rv.hart e.shared f'.pc := by
      rw [Executed.effect, he, ← hpre, ← hkeeps]
      rfl
    rw [hhart] at hrun
    exact ⟨as, _, hrun, Behind.enter hnext, has⟩
  | ret ok counted =>
    obtain ⟨as, hrun, has⟩ := hleave (by rw [he]; exact nofun)
    clear henters
    generalize execute (P.extend E) c rv sh f = e at *
    have hhart : e.effect.hart rv₀.prePc = e.rv.hart e.shared e.rv.pc := by
      rw [Executed.effect, he, ← hpre, ← hkeeps]
      rfl
    rw [hhart] at hrun
    cases ok with
    | false => exact ⟨as, _, hrun, .out rfl, has⟩
    | true =>
      dsimp only
      split_ifs with ht
      · refine ⟨as ++ [.tick], _, hrun.append (Run.single.mpr (.tick ht)), .out rfl, ?_⟩
        rw [List.filterMap_append, has]
        rfl
      · exact ⟨as, _, hrun, .out rfl, has⟩

theorem RegularTurn.behind {w w' : Session δ ξ} {t : Turn δ} {s : Hart δ ξ} (hs : Behind (P.extend E) c w s)
    (h : RegularTurn (P.extend E) c w t w') :
    ∃ as s', Run (HartStep (P.extend E) c) s as s' ∧ Behind (P.extend E) c w' s' ∧
      as.filterMap HartAction.sharedOf = t.sharedOf.toList := by
  cases h with
  | others =>
    cases hs with
    | out => exact ⟨[.others _], _, Run.single.mpr .others, .out rfl, rfl⟩
  | call =>
    cases hs with
    | out => exact ⟨[], _, .nil _, .out rfl, rfl⟩
  | @step rv sh ctl hregular =>
    cases ctl with
    | loop target =>
      cases hs with
      | out => exact Behind.dispatch (hregular trivial)
    | exec target block f =>
      cases hs with
      | out hout => cases hout
      | inside hirs hreg hrest hpre => exact hreg.exec hirs hrest hpre hregular

def pairedLoads : List Word := [0x00001537, 0x00250593, 0x00052603, 0x00452683, 0xff1ff06f]

def hastyConfig : CoreConfig := ⟨-1, true, 1⟩

def pairedIrs : List Ir :=
  (translateLoop (romCore pairedLoads) hastyConfig () (fun _ => 0) 64 0 fun _ => 0).getD []

def pairedStart : Session Unit Unit := ⟨Rv.reset, Shared.reset, none⟩

def pairedAfter : ℕ → Session Unit Unit
  | 0 => ⟨Rv.reset, Shared.reset, some (.loop 1)⟩
  | n + 1 =>
    match (pairedAfter n).ctl with
    | some ctl =>
      .after (coreStep (romCore pairedLoads) hastyConfig ⟨(pairedAfter n).rv, (pairedAfter n).shared, ctl⟩)
    | none => pairedAfter n

def pairedFrame : Frame := ⟨0, optimised (romCore pairedLoads) pairedIrs, 0, 0⟩

theorem pairedIrs_regular :
    Regular (romCore pairedLoads) hastyConfig pairedIrs (pairedAfter 1).rv Shared.reset pairedFrame := by
  have ht : translateLoop (romCore pairedLoads) hastyConfig () (fun _ => 0) 64 0 (fun _ => 0) =
      some pairedIrs := rfl
  refine ⟨translateLoop_straight () (fun _ => 0) ht, ?_, rfl, by decide, by decide, by decide, by decide⟩
  refine ⟨rfl, fun f' h => ?_⟩
  cases h
  refine ⟨rfl, fun f' h => ?_⟩
  cases h
  refine ⟨rfl, fun f' h => ?_⟩
  cases h
  refine ⟨rfl, fun f' h => ?_⟩
  cases h
  exact ⟨rfl, fun f' h => by cases h⟩

end session

end Rv32Emu
