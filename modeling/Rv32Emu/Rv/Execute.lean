import Rv32Emu.Rv.Translate

namespace Rv32Emu

variable {δ ξ : Type} (P : Platform δ ξ) (c : CoreConfig)

/-- The arguments of a handler: the instructions that are left of a block, the cycle count and the PC. -/
structure Frame where
  block : Word
  irs : List Ir
  cycle : ℕ
  pc : Word

/-- Where a handler goes: to the next instruction, to another block, or back to `rv_step`. -/
inductive Flow
  | next (f : Frame)
  | jump (f : Frame)
  | ret (ok counted : Bool)

structure Executed (δ ξ : Type) where
  rv : Rv ξ
  shared : Shared δ
  flow : Flow
  events : List TileEvent
  count : ℕ

section handlers

/-- The end of a handler: on to the next instruction, or back with the cycle count and the PC stored. -/
def endOp (rv : Rv ξ) (sh : Shared δ) (f : Frame) (rest : List Ir) (count : ℕ) (pc : Word)
    (events : List TileEvent) : Executed δ ξ :=
  match rest with
  | [] =>
    { rv := { rv with csrCycle := f.cycle + count, pc }, shared := sh, flow := .ret true true, events, count }
  | _ :: _ =>
    { rv, shared := sh, flow := .next { f with irs := rest, cycle := f.cycle + count, pc }, events, count }

def trapOp (rv : Rv ξ) (sh : Shared δ) (f : Frame) (count : ℕ) (cause tval : Word) (events : List TileEvent) :
    Executed δ ξ :=
  let (ext, pc, halt) := P.trap rv.ext cause tval f.pc
  { rv := { rv with csrCycle := f.cycle + count, pc, ext, halt := rv.halt || halt }
    shared := sh, flow := .ret false true, events, count }

def loadMisaligned : Word := 4

def storeMisaligned : Word := 6

def misaligned (addr mask : Word) : Bool := addr &&& mask ≠ 0

def jumpTo (rv : Rv ξ) (sh : Shared δ) (f : Frame) (pc block : Word) : Executed δ ξ :=
  match rv.blockMap block with
  | some b =>
    { rv, shared := sh, flow := .jump { block, irs := b.irs, cycle := f.cycle + 1, pc }, events := [],
      count := 1 }
  | none => endOp rv sh f [] 1 pc []

def link (rv : Rv ξ) (rd : Reg) (pc : Word) : Rv ξ := if rd ≠ 0 then rv.setX rd (pc + 4) else rv

def doJal (rv : Rv ξ) (sh : Shared δ) (f : Frame) (ir : Ir) : Executed δ ξ :=
  let pc := f.pc + ir.imm
  let rv := link rv ir.rd f.pc
  match (rv.blockMap f.block).bind (·.branchTaken) with
  | some t => jumpTo { rv with lastPc := pc } sh f pc t
  | none => endOp rv sh f [] 1 pc []

def doJalr (rv : Rv ξ) (sh : Shared δ) (f : Frame) (ir : Ir) : Executed δ ξ :=
  let pc := (rv.x ir.rs1 + ir.imm) &&& ~~~1
  let rv := link rv ir.rd f.pc
  jumpTo rv sh f pc pc

def doBranch (rv : Rv ξ) (sh : Shared δ) (f : Frame) (ir : Ir) (cond : BranchCond) : Executed δ ξ :=
  endOp rv sh f [] 1 (f.pc + if branchTaken cond (rv.x ir.rs1) (rv.x ir.rs2) then ir.imm else 4) []

def doLoad (rv : Rv ξ) (sh : Shared δ) (f : Frame) (ir : Ir) (rest : List Ir) (op : LoadOp) : Executed δ ξ :=
  let addr := rv.x ir.rs1 + ir.imm
  let done := fun v => endOp (rv.setX ir.rd v) sh f rest 1 (f.pc + 4) []
  match op with
  | .lb => done ((P.memReadB sh.dev c.coreId addr).signExtend 32)
  | .lbu => done ((P.memReadB sh.dev c.coreId addr).setWidth 32)
  | .lh =>
    if misaligned addr 1 then trapOp P rv sh f 1 loadMisaligned addr []
    else done ((P.memReadS sh.dev c.coreId addr).signExtend 32)
  | .lhu =>
    if misaligned addr 1 then trapOp P rv sh f 1 loadMisaligned addr []
    else done ((P.memReadS sh.dev c.coreId addr).setWidth 32)

def doStore (rv : Rv ξ) (sh : Shared δ) (f : Frame) (ir : Ir) (rest : List Ir) (op : StoreOp) :
    Executed δ ξ :=
  let addr := rv.x ir.rs1 + ir.imm
  let v := rv.x ir.rs2
  match op with
  | .sb => endOp rv { sh with dev := P.memWriteB sh.dev c.coreId addr (v.setWidth 8) } f rest 1 (f.pc + 4) []
  | .sh =>
    if misaligned addr 1 then trapOp P rv sh f 1 storeMisaligned addr []
    else endOp rv { sh with dev := P.memWriteS sh.dev c.coreId addr (v.setWidth 16) } f rest 1 (f.pc + 4) []

def doLw (rv : Rv ξ) (sh : Shared δ) (f : Frame) (ir : Ir) (rest : List Ir) : Executed δ ξ :=
  let addr := rv.x ir.rs1 + ir.imm
  let item := fun outcome => TileEvent.lw ⟨.lw, c.coreId, f.pc, ir.rd, addr, sh.mail, outcome⟩
  if misaligned addr 3 then trapOp P rv sh f 1 loadMisaligned addr [item .trapped]
  else
    let (v, sh) := onMemReadW P c sh addr
    let rv := rv.setX ir.rd v
    endOp rv sh f rest 1 (f.pc + 4) [item (.retired (rv.x ir.rd))]

def doSw (rv : Rv ξ) (sh : Shared δ) (f : Frame) (ir : Ir) (rest : List Ir) : Executed δ ξ :=
  let addr := rv.x ir.rs1 + ir.imm
  let item := fun outcome => TileEvent.sw ⟨c.coreId, f.pc, addr, rv.x ir.rs2, sh.mail, outcome⟩
  if misaligned addr 3 then trapOp P rv sh f 1 storeMisaligned addr [item .trapped]
  else endOp rv (onMemWriteW P c sh addr (rv.x ir.rs2)) f rest 1 (f.pc + 4) [item .retired]

def doLwMailbox (rv : Rv ξ) (sh : Shared δ) (f : Frame) (ir : Ir) : Executed δ ξ :=
  let rs1Val := rv.x ir.rs1
  let addr := rs1Val + ir.imm
  let item := fun outcome => TileEvent.lw ⟨.lwMailbox, c.coreId, f.pc, ir.rd, addr, sh.mail, outcome⟩
  let (v, sh) := onMemReadW P c sh addr
  let rv := rv.setX ir.rd v
  let stalled := c.tensix && (mailboxCoreIndex c.coreId).any fun mci => sh.mail.stall mci
  if stalled then
    let rv := { rv.setX ir.rs1 rs1Val with csrCycle := f.cycle + 1, pc := f.pc }
    { rv, shared := sh, flow := .ret false true, events := [item (.stayed rv.pc)], count := 1 }
  else
    { rv := { rv with csrCycle := f.cycle + 1, pc := f.pc + 4 }
      shared := sh, flow := .ret true true, events := [item (.retired (rv.x ir.rd))], count := 1 }

def doTtinsn (rv : Rv ξ) (sh : Shared δ) (f : Frame) (ir : Ir) : Executed δ ξ :=
  let (ok, dev) := P.tensixDirect sh.dev c.coreId ir.imm
  { rv := { rv with csrCycle := f.cycle + 1, pc := if ok then f.pc + 4 else f.pc }
    shared := { sh with dev }, flow := .ret ok true, events := [], count := 1 }

def doExt (rv : Rv ξ) (sh : Shared δ) (f : Frame) (rest : List Ir) (e : ExtInsn) : Executed δ ξ :=
  let (r, sh, events) := (P.run e rv.x rv.ext f.pc).run P c sh
  let rv := { rv with x := r.x, ext := r.ext, halt := rv.halt || r.halt }
  let sh := { sh with dev := r.dev sh.dev }
  match r.outcome with
  | .next => endOp rv sh f rest 1 (f.pc + 4) events
  | .leave ok pc counted =>
    { rv := { rv with csrCycle := if counted then f.cycle + 1 else rv.csrCycle, pc := pc.getD rv.pc }
      shared := sh, flow := .ret ok counted, events, count := 1 }

end handlers

section fused

structure LwGroup (δ : Type) where
  x : Reg → Word
  shared : Shared δ
  items : List LwItem
  fault : Option Word

def fuse4Loop (sh : Shared δ) (x : Reg → Word) (pc : Word) : List OpcodeFuse → LwGroup δ
  | [] => ⟨x, sh, [], none⟩
  | g :: gs =>
    let addr := x g.rs1 + g.imm
    let item := fun outcome => LwItem.mk (.fuse4 true) c.coreId pc g.rd addr sh.mail outcome
    if misaligned addr 3 then ⟨x, sh, [item .trapped], some addr⟩
    else
      let (v, sh) := onMemReadW P c sh addr
      let x := Function.update x g.rd v
      let group := fuse4Loop sh x (pc + 4) gs
      { group with items := item (.retired (x g.rd)) :: group.items }

def LwItem.drop (i : LwItem) : LwItem :=
  { i with
    handler := .fuse4 false
    outcome := match i.outcome with
      | .trapped => .trapped
      | _ => .dropped }

def doFuse4 (rv : Rv ξ) (sh : Shared δ) (f : Frame) (ir : Ir) (rest : List Ir) : Executed δ ξ :=
  let n := ir.fuse.length
  let group := fuse4Loop P c sh rv.x f.pc ir.fuse
  let rv := { rv with x := group.x }
  match group.fault with
  | some addr => trapOp P rv group.shared f n loadMisaligned addr (group.items.map (TileEvent.lw ·.drop))
  | none => endOp rv group.shared f rest n (f.pc + w32 (4 * n)) (group.items.map TileEvent.lw)

structure SwGroup (δ : Type) where
  shared : Shared δ
  items : List SwItem
  fault : Option Word

def fuse3Loop (sh : Shared δ) (x : Reg → Word) (pc : Word) : List OpcodeFuse → SwGroup δ
  | [] => ⟨sh, [], none⟩
  | g :: gs =>
    let addr := x g.rs1 + g.imm
    let item := SwItem.mk c.coreId pc addr (x g.rs2) sh.mail
    if misaligned addr 3 then ⟨sh, [item .trapped], some addr⟩
    else
      let group := fuse3Loop (onMemWriteW P c sh addr (x g.rs2)) x (pc + 4) gs
      { group with items := item .retired :: group.items }

def SwItem.drop (i : SwItem) : SwItem :=
  { i with
    outcome := match i.outcome with
      | .trapped => .trapped
      | _ => .dropped }

def doFuse3 (rv : Rv ξ) (sh : Shared δ) (f : Frame) (ir : Ir) (rest : List Ir) : Executed δ ξ :=
  let n := ir.fuse.length
  let group := fuse3Loop P c sh rv.x f.pc ir.fuse
  match group.fault with
  | some addr => trapOp P rv group.shared f n storeMisaligned addr (group.items.map (TileEvent.sw ·.drop))
  | none => endOp rv group.shared f rest n (f.pc + w32 (4 * n)) (group.items.map TileEvent.sw)

def doFuse1 (rv : Rv ξ) (sh : Shared δ) (f : Frame) (ir : Ir) (rest : List Ir) : Executed δ ξ :=
  let n := ir.fuse.length
  endOp (ir.fuse.foldl (fun rv g => rv.setX g.rd g.imm) rv) sh f rest n (f.pc + w32 (4 * n)) []

def doFuse2 (rv : Rv ξ) (sh : Shared δ) (f : Frame) (ir : Ir) (rest : List Ir) : Executed δ ξ :=
  let rv := rv.setX ir.rd ir.imm
  endOp (rv.setX ir.rs2 (rv.x ir.rd + rv.x ir.rs1)) sh f rest 2 (f.pc + 8) []

def shiftFunc (rv : Rv ξ) (g : OpcodeFuse) : Rv ξ :=
  match g.opcode with
  | .imm op => rv.setX g.rd (evalImm op (rv.x g.rs1) g.imm)
  | _ => rv

def doFuse5 (rv : Rv ξ) (sh : Shared δ) (f : Frame) (ir : Ir) (rest : List Ir) : Executed δ ξ :=
  let n := ir.fuse.length
  endOp (ir.fuse.foldl shiftFunc rv) sh f rest n (f.pc + w32 (4 * n)) []

end fused

def dispatchOp (rv : Rv ξ) (sh : Shared δ) (f : Frame) (ir : Ir) (rest : List Ir) : Opcode → Executed δ ξ
  | .nop => endOp (rv.setX 0 0) sh f rest 1 (f.pc + 4) []
  | .lui => endOp (rv.setX ir.rd ir.imm) sh f rest 1 (f.pc + 4) []
  | .auipc => endOp (rv.setX ir.rd (ir.imm + f.pc)) sh f rest 1 (f.pc + 4) []
  | .jal => doJal rv sh f ir
  | .jalr => doJalr rv sh f ir
  | .branch cond => doBranch rv sh f ir cond
  | .load op => doLoad P c rv sh f ir rest op
  | .lw => doLw P c rv sh f ir rest
  | .store op => doStore P c rv sh f ir rest op
  | .sw => doSw P c rv sh f ir rest
  | .imm op => endOp (rv.setX ir.rd (evalImm op (rv.x ir.rs1) ir.imm)) sh f rest 1 (f.pc + 4) []
  | .alu op => endOp (rv.setX ir.rd (evalAlu op (rv.x ir.rs1) (rv.x ir.rs2))) sh f rest 1 (f.pc + 4) []
  | .ext e => doExt P c rv sh f rest e
  | .ttinsn => doTtinsn P c rv sh f ir
  | .fuse1 => doFuse1 rv sh f ir rest
  | .fuse2 => doFuse2 rv sh f ir rest
  | .fuse3 => doFuse3 P c rv sh f ir rest
  | .fuse4 => doFuse4 P c rv sh f ir rest
  | .fuse5 => doFuse5 rv sh f ir rest

def execute (rv : Rv ξ) (sh : Shared δ) (f : Frame) : Executed δ ξ :=
  match f.irs with
  | [] => endOp rv sh f [] 0 f.pc []
  | ir :: rest =>
    match ir.impl with
    | .dispatch op => dispatchOp P c rv sh f ir rest op
    | .lwMailbox => doLwMailbox P c rv sh f ir
    | .ttinsn => doTtinsn P c rv sh f ir

section rvStep

inductive Ctl
  | loop (target : ℕ)
  | exec (target : ℕ) (block : Word) (f : Frame)

def Ctl.frame : Ctl → Option Frame
  | loop _ => none
  | exec _ _ f => some f

structure CoreState (δ ξ : Type) where
  rv : Rv ξ
  shared : Shared δ
  ctl : Ctl

structure Stepped (δ ξ : Type) where
  rv : Rv ξ
  shared : Shared δ
  ctl : Option Ctl
  events : List TileEvent
  count : ℕ

def tensixKernelAddrThreshold : ℕ := 0x9f00

def inKernel (pc : Word) : Bool := tensixKernelAddrThreshold ≤ pc.toNat

def blockCapacity : ℕ := 1024

def blockMapClear (rv : Rv ξ) : Rv ξ := { rv with blockMap := fun _ => none, mapSize := 0, prev := none }

def updatePrev (rv : Rv ξ) : Rv ξ :=
  match rv.prev with
  | some p => if p ≠ rv.lastPc then { rv with prev := (rv.blockMap rv.lastPc).map fun _ => rv.lastPc } else rv
  | none => rv

def tensixClear (sh : Shared δ) : Shared δ :=
  { sh with mail := .init, dev := P.tensixClear sh.dev, hadTriscInKernel := false }

def isTrisc (coreId : ℤ) : Bool := 0 ≤ coreId && coreId ≤ 2

def coreBit (coreId : ℤ) : BitVec 8 := 1 <<< if coreId < 0 then 3 else coreId.toNat

def kernelTransition (rv : Rv ξ) (sh : Shared δ) : Rv ξ × Shared δ × List TileEvent :=
  let enters := rv.prePc.toNat < tensixKernelAddrThreshold && tensixKernelAddrThreshold ≤ rv.pc.toNat
  let leaves := tensixKernelAddrThreshold ≤ rv.prePc.toNat && rv.pc.toNat < tensixKernelAddrThreshold
  if c.tensix && rv.prePc ≠ 0 then
    if enters then
      (rv, { sh with
        coresInKernel := sh.coresInKernel ||| coreBit c.coreId
        hadTriscInKernel := sh.hadTriscInKernel || isTrisc c.coreId }, [])
    else if leaves then
      let sh := { sh with coresInKernel := sh.coresInKernel &&& ~~~coreBit c.coreId }
      if sh.coresInKernel = 0 && sh.hadTriscInKernel then (blockMapClear rv, tensixClear P sh, [.clear])
      else (blockMapClear rv, sh, [])
    else (rv, sh, [])
  else if c.coreId = 3 then
    if enters then
      if sh.ncriscPrevKernelPc ≠ rv.pc then (blockMapClear rv, { sh with ncriscPrevKernelPc := rv.pc }, [])
      else (rv, sh, [])
    else if leaves then (rv, { sh with dev := P.clearRta sh.dev c.coreId }, [])
    else (rv, sh, [])
  else (rv, sh, [])

def blockFindOrTranslate (rv : Rv ξ) (dev : δ) : Rv ξ × Option Block :=
  match rv.blockMap rv.pc with
  | some b => (rv, some b)
  | none =>
    let rv := if 5 * rv.mapSize > 4 * blockCapacity then blockMapClear rv else rv
    match blockTranslate P c dev rv with
    | none => (rv, none)
    | some b =>
      ({ rv with blockMap := Function.update rv.blockMap rv.pc (some b), mapSize := rv.mapSize + 1 }, some b)

def closesWithJal (b : Block) : Bool :=
  match b.irs.getLast? with
  | some ir => match ir.opcode with
    | .jal => true
    | _ => false
  | none => false

/-- Links the closing jump of the previous block to the block at the PC. The links of other blocks are
never followed. -/
def chainBlock (rv : Rv ξ) : Rv ξ :=
  match rv.prev with
  | none => rv
  | some p =>
    match rv.blockMap p with
    | none => rv
    | some b =>
      if closesWithJal b && b.branchTaken.isNone then
        { rv with blockMap := Function.update rv.blockMap p (some { b with branchTaken := some rv.pc }) }
      else rv

def dispatchBlock (rv : Rv ξ) (sh : Shared δ) (target : ℕ) : Stepped δ ξ :=
  let rv := updatePrev rv
  let (rv, sh, events) := kernelTransition P c rv sh
  let rv := { rv with prePc := rv.pc }
  match blockFindOrTranslate P c rv sh.dev with
  | (rv, none) => { rv := { rv with halt := true }, shared := sh, ctl := none, events, count := 0 }
  | (rv, some b) =>
    let rv := { chainBlock rv with lastPc := rv.pc }
    { rv, shared := sh, ctl := some (.exec target rv.pc ⟨rv.pc, b.irs, rv.csrCycle, rv.pc⟩), events,
      count := 0 }

def coreStep (s : CoreState δ ξ) : Stepped δ ξ :=
  match s.ctl with
  | .loop target =>
    if s.rv.csrCycle < target ∧ s.rv.halt = false then dispatchBlock P c s.rv s.shared target
    else { rv := s.rv, shared := s.shared, ctl := none, events := [], count := 0 }
  | .exec target block f =>
    let e := execute P c s.rv s.shared f
    match e.flow with
    | .next f => ⟨e.rv, e.shared, some (.exec target block f), e.events, e.count⟩
    | .jump f => ⟨e.rv, e.shared, some (.exec target block f), e.events, e.count⟩
    | .ret true _ =>
      let dev := if c.tensix && isTrisc c.coreId then P.tensixStep e.shared.dev c.coreId else e.shared.dev
      ⟨{ e.rv with prev := some block }, { e.shared with dev }, some (.loop target), e.events, e.count⟩
    | .ret false _ => ⟨{ e.rv with prev := none }, e.shared, none, e.events, e.count⟩

end rvStep

section tile

inductive Core
  | brisc | trisc0 | trisc1 | trisc2 | ncrisc
  deriving DecidableEq

def Core.coreId : Core → ℤ
  | brisc => -1
  | trisc0 => 0
  | trisc1 => 1
  | trisc2 => 2
  | ncrisc => 3

structure TileConfig where
  ncriscTensix : Bool
  cyclePerStep : Core → ℕ

def TileConfig.core (cfg : TileConfig) (k : Core) : CoreConfig :=
  ⟨k.coreId, k ≠ .ncrisc || cfg.ncriscTensix, cfg.cyclePerStep k⟩

structure Tile (δ ξ : Type) where
  cores : Core → Rv ξ
  shared : Shared δ
  active : Option (Core × Ctl)

/-- One step of the core that has control, or else the scheduler's choice of a core. The mailboxes are
processed when `rv_step` returns. -/
def tileStep (cfg : TileConfig) (t : Tile δ ξ) (choice : Core) : Tile δ ξ × List TileEvent :=
  match t.active with
  | none =>
    let rv := t.cores choice
    if rv.halt then (t, [])
    else ({ t with active := some (choice, .loop (rv.csrCycle + cfg.cyclePerStep choice)) }, [])
  | some (k, ctl) =>
    let s := coreStep P (cfg.core k) ⟨t.cores k, t.shared, ctl⟩
    let cores := Function.update t.cores k s.rv
    match s.ctl with
    | some ctl => (⟨cores, s.shared, some (k, ctl)⟩, s.events)
    | none =>
      if (cfg.core k).tensix then
        let mail := (mailboxProcess s.shared.mail k.coreId).2
        (⟨cores, { s.shared with mail }, none⟩, s.events ++ [.process ⟨.process k.coreId, s.shared.mail⟩])
      else (⟨cores, s.shared, none⟩, s.events)

def TileStep (cfg : TileConfig) (t : Tile δ ξ) (es : List TileEvent) (t' : Tile δ ξ) : Prop :=
  ∃ choice, tileStep P cfg t choice = (t', es)

def Tile.runAll (P : Platform δ ξ) (cfg : TileConfig) :
    Tile δ ξ → List Core → List (List TileEvent) × Tile δ ξ
  | t, [] => ([], t)
  | t, k :: ks =>
    let (t', es) := tileStep P cfg t k
    let (ess, u) := t'.runAll P cfg ks
    (es :: ess, u)

theorem Tile.runAll_run (cfg : TileConfig) (t : Tile δ ξ) (ks : List Core) :
    Run (TileStep P cfg) t (t.runAll P cfg ks).1 (t.runAll P cfg ks).2 := by
  induction ks generalizing t with
  | nil => exact .nil t
  | cons k ks ih => exact .cons ⟨k, rfl⟩ (ih _)

def romPlatform (program : List Word) : Platform Unit Unit where
  memReadW := fun _ _ _ => (0, ())
  memWriteW := fun _ _ _ _ => ()
  memReadS := fun _ _ _ => 0
  memReadB := fun _ _ _ => 0
  memWriteS := fun _ _ _ _ => ()
  memWriteB := fun _ _ _ _ => ()
  memIfetch := fun _ _ addr => program.getD (addr.toNat / 4) 0
  tensixDirect := fun _ _ _ => (true, ())
  tensixStep := fun _ _ => ()
  tensixClear := fun _ => ()
  clearRta := fun _ _ => ()
  decode := fun _ => none
  constopt := fun _ info => (none, info)
  run := fun _ x _ _ => .done ⟨x, (), id, false, .next⟩
  trap := fun _ _ _ epc => ((), epc, true)
  irPool := 64

def Rv.reset : Rv Unit := ⟨fun _ => 0, 0, 0, false, fun _ => none, 0, none, 0, 0, ()⟩

def Shared.reset : Shared Unit := ⟨.init, (), 0, false, 0⟩

def Tile.reset : Tile Unit Unit := ⟨fun _ => Rv.reset, Shared.reset, none⟩

end tile

end Rv32Emu
