import Rv32Emu.Rv.Insn
import Rv32Emu.Tile.Mailbox

namespace Rv32Emu

structure ConstInfo where
  isConstant : Reg → Bool
  constVal : Reg → Word

inductive WordIo (α : Type)
  | done (a : α)
  | read (addr : Word) (next : Word → WordIo α)
  | write (addr value : Word) (next : WordIo α)

/-- How an instruction outside RV32I ends. One that leaves its block may keep the PC of the core, and may
forget to store the cycle count. -/
inductive ExtOutcome
  | next
  | leave (ok : Bool) (pc : Option Word) (counted : Bool)

structure ExtResult (δ ξ : Type) where
  x : Reg → Word
  ext : ξ
  dev : δ → δ
  halt : Bool
  outcome : ExtOutcome

/-- `δ` is the state of memory and the devices without the mailboxes, `ξ` a core's state outside RV32I. -/
structure Platform (δ ξ : Type) where
  memReadW : δ → ℤ → Word → Word × δ
  memWriteW : δ → ℤ → Word → Word → δ
  memReadS : δ → ℤ → Word → BitVec 16
  memReadB : δ → ℤ → Word → BitVec 8
  memWriteS : δ → ℤ → Word → BitVec 16 → δ
  memWriteB : δ → ℤ → Word → BitVec 8 → δ
  memIfetch : δ → ℤ → Word → Word
  tensixDirect : δ → ℤ → Word → Bool × δ
  tensixStep : δ → ℤ → δ
  tensixClear : δ → δ
  clearRta : δ → ℤ → δ
  decode : Word → Option ExtInsn
  constopt : ExtInsn → ConstInfo → Option Word × ConstInfo
  run : ExtInsn → (Reg → Word) → ξ → Word → WordIo (ExtResult δ ξ)
  trap : ξ → Word → Word → Word → ξ × Word × Bool
  /-- How many instructions the pool holds for one block. -/
  irPool : ℕ

structure CoreConfig where
  coreId : ℤ
  tensix : Bool
  cyclePerStep : ℕ

structure Shared (δ : Type) where
  mail : Mailboxes
  dev : δ
  coresInKernel : BitVec 8
  hadTriscInKernel : Bool
  ncriscPrevKernelPc : Word

structure Block where
  irs : List Ir
  branchTaken : Option Word

/-- Blocks are known by their start address: the map keeps one for each until it is cleared. -/
structure Rv (ξ : Type) where
  x : Reg → Word
  pc : Word
  csrCycle : ℕ
  halt : Bool
  blockMap : Word → Option Block
  mapSize : ℕ
  prev : Option Word
  lastPc : Word
  prePc : Word
  ext : ξ

def Rv.setX {ξ : Type} (rv : Rv ξ) (rd : Reg) (v : Word) : Rv ξ := { rv with x := Function.update rv.x rd v }

inductive LwHandler
  | lw
  | lwMailbox
  | fuse4 (aligned : Bool)
  deriving DecidableEq

/-- An LW that traps reads nothing; one that is dropped has read, and a later one of its group trapped. -/
inductive LwOutcome
  | retired (value : Word)
  | stayed (pc : Word)
  | trapped
  | dropped
  deriving DecidableEq

structure LwItem where
  handler : LwHandler
  coreId : ℤ
  pc : Word
  rd : Reg
  addr : Word
  before : Mailboxes
  outcome : LwOutcome

inductive SwOutcome
  | retired
  | trapped
  | dropped
  deriving DecidableEq

structure SwItem where
  coreId : ℤ
  pc : Word
  addr : Word
  value : Word
  before : Mailboxes
  outcome : SwOutcome

inductive TileEvent
  | lw (i : LwItem)
  | sw (i : SwItem)
  | ext (e : MailboxEvent)
  | process (e : MailboxEvent)
  | clear

section memory

variable {δ ξ : Type} (P : Platform δ ξ) (c : CoreConfig) (sh : Shared δ)

def onMemReadW (addr : Word) : Word × Shared δ :=
  let (handled, mail) := if c.tensix then mailboxRead sh.mail c.coreId addr else (none, sh.mail)
  match handled with
  | some v => (v, { sh with mail })
  | none =>
    let (v, dev) := P.memReadW sh.dev c.coreId addr
    (v, { sh with dev })

def onMemWriteW (addr value : Word) : Shared δ :=
  { sh with
    mail := if c.tensix then (mailboxWrite sh.mail c.coreId addr value).2 else sh.mail
    dev := P.memWriteW sh.dev c.coreId addr value }

def WordIo.run {α : Type} : WordIo α → Shared δ → α × Shared δ × List TileEvent
  | done a, sh => (a, sh, [])
  | read addr next, sh =>
    let (v, sh') := onMemReadW P c sh addr
    let (a, sh'', es) := (next v).run sh'
    (a, sh'', .ext ⟨.read c.coreId addr, sh.mail⟩ :: es)
  | write addr value next, sh =>
    let (a, sh', es) := next.run (onMemWriteW P c sh addr value)
    (a, sh', .ext ⟨.write c.coreId addr value, sh.mail⟩ :: es)

end memory

end Rv32Emu
