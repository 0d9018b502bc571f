import Rv32Emu.Rv.Devices
import Rv32Emu.Tile.KernelSwitch
import Rv32Emu.Tile.Safety

namespace Rv32Emu

/-- The tile, and the local memory of each core. The mailboxes and the kernel occupancy are those of
`Shared`: the copies in `tile` are never read, since whether the mailboxes answer an access is a matter
of its address alone. -/
structure Devices where
  tile : TensixTile
  loc : ℤ → Bytes

namespace Devices

def coreMem (d : Devices) (k : ℤ) : CoreMem := ⟨d.tile, d.loc k⟩

def putMem (d : Devices) (k : ℤ) (m : CoreMem) : Devices := ⟨m.tile, Function.update d.loc k m.loc⟩

end Devices

/-- The fuel bounds the loops of the coprocessor; `units` are the parts of a core that are left open. -/
structure MachineConfig (ξ : Type) where
  fuel : ℕ
  cores : TileConfig
  mem : ℤ → MemConfig
  coreId_eq : ∀ k, (mem k).coreId = k
  tensix_eq : ∀ k : Core, (mem k.coreId).tensix = (cores.core k).tensix
  units : ExtUnits Devices ξ
  trap : ξ → Word → Word → Word → ξ × Word × Bool
  irPool : ℕ

section platform

variable {ξ : Type} (M : MachineConfig ξ) (d : Devices) (k : ℤ)

/-- The call that issues an inline instruction; without a coprocessor, or from a core that has no thread
in it, it returns false. A call that does not return leaves the machine where it is. -/
def tensixStepDirect (insn : Word) : Bool × Devices :=
  match d.tile.cop, triscOf k with
  | some cop, some t =>
    match tensixCopStepDirect M.fuel (tensixCopSetDirect ((d.tile.toCop cop).view t) insn) t with
    | some (ok, v) => (ok, { d with tile := d.tile.putView cop t v })
    | none => (false, d)
  | _, _ => (false, d)

def tensixStep : Devices :=
  match d.tile.cop, triscOf k with
  | some cop, some t =>
    { d with tile := d.tile.putView cop t (tensixCopStep ((d.tile.toCop cop).view t) t).2 }
  | _, _ => d

def clearRtaL1Base : Devices :=
  d.putMem k ((d.coreMem k).setRegion (clearRta (d.loc k) ((d.coreMem k).region .l1)) .l1)

/-- A store that fails an assertion ends the source's program; here it changes nothing. -/
def machineWriteW (addr value : Word) : Devices :=
  match (d.coreMem k).onMemWriteW (M.mem k) addr M.fuel value with
  | some m => d.putMem k m
  | none => d

def machineBase : Platform Devices ξ where
  memReadW d k addr :=
    let (v, m) := (d.coreMem k).onMemReadW (M.mem k) addr
    (v, d.putMem k m)
  memWriteW := machineWriteW M
  memReadS d k addr := memoryReadS (M.mem k) (d.coreMem k) addr
  memReadB d k addr := memoryReadB (M.mem k) (d.coreMem k) addr
  memWriteS d k addr value := d.putMem k (memoryWriteS (M.mem k) (d.coreMem k) addr value)
  memWriteB d k addr value := d.putMem k (memoryWriteB (M.mem k) (d.coreMem k) addr value)
  memIfetch d k addr := memoryIfetch (d.coreMem k) addr
  tensixDirect := tensixStepDirect M
  tensixStep := Rv32Emu.tensixStep
  tensixClear d := { d with tile := d.tile.tensixClear }
  clearRta := clearRtaL1Base
  decode _ := none
  constopt _ info := (none, info)
  run _ x ext _ := .done ⟨x, ext, id, false, .next⟩
  trap := M.trap
  irPool := M.irPool

def machinePlatform : Platform Devices ξ := (machineBase M).extend M.units

end platform

def MachineConfig.HostWritesMemory {ξ : Type} (M : MachineConfig ξ) : Prop :=
  ∀ x ext d, SameCore d.tile ((M.units.syscall x ext).2.2.1 d).tile

section safety

variable {ξ : Type} {M : MachineConfig ξ} {d : Devices}

theorem tensixStepDirect_safe (h : d.tile.core.Safe) (k : ℤ) (insn : Word) :
    (tensixStepDirect M d k insn).2.tile.core.Safe := by
  unfold tensixStepDirect
  split
  · split
    · next ok v hv =>
      obtain ⟨is, -, -, hrun⟩ := tensixCopStepDirect_traced hv
      exact safe_of_items hrun h
    · exact h
  · exact h

theorem tensixStep_safe (h : d.tile.core.Safe) (k : ℤ) : (tensixStep d k).tile.core.Safe := by
  unfold tensixStep
  split
  · next cop t _ _ =>
    have hstep : tensixCopStep ((d.tile.toCop cop).view t) t = (_, _) := rfl
    obtain ⟨is, -, -, hrun⟩ := tensixCopStep_traced hstep
    exact safe_of_items hrun h
  · exact h

theorem machineWriteW_safe (h : d.tile.core.Safe) (k : ℤ) (addr value : Word) :
    (machineWriteW M d k addr value).tile.core.Safe := by
  unfold machineWriteW
  split
  · next m hm => exact onMemWriteW_safe h hm
  · exact h

theorem machine_keeps (hM : M.HostWritesMemory) : (machinePlatform M).Keeps fun d => d.tile.core.Safe where
  readW {d} h k addr := (onMemReadW_sameCore (M.mem k) (d.coreMem k) addr).safe h
  writeW h k addr value := machineWriteW_safe h k addr value
  writeS {d} h k addr _ := (memoryWrite_sameCore (M.mem k) (d.coreMem k) addr 2 _).safe h
  writeB {d} h k addr _ := (memoryWrite_sameCore (M.mem k) (d.coreMem k) addr 1 _).safe h
  direct h k insn := tensixStepDirect_safe h k insn
  step h k := tensixStep_safe h k
  clear h := tensixClear_safe h
  clearRta h _ := SameCore.safe ⟨_, rfl⟩ h
  run e x ext pc := (extRun_ordinary M.units M.trap e x ext pc).imp fun r hr d h => by
    obtain hd | hd := hr.dev
    · rw [hd]
      exact h
    · rw [hd]
      exact (hM x _ d).safe h

end safety

theorem MailStep.wellFormed {coreId : ℤ} {m m' : Mailboxes} {e : TileEvent} (h : MailStep coreId m e m')
    (hm : m.WellFormed) : m'.WellFormed := by
  cases h with
  | @lw i m' hc hb hi =>
    subst hb
    cases hi with
    | trapped => exact hm
    | dropped | retired | stayed => exact (MailboxOp.read i.coreId i.addr).wellFormed hm
  | @sw i hc hb =>
    split
    · exact hm
    · exact (MailboxOp.write coreId i.addr i.value).wellFormed hm
  | read addr => exact (MailboxOp.read coreId addr).wellFormed hm
  | write addr value => exact (MailboxOp.write coreId addr value).wellFormed hm
  | process => exact (MailboxOp.process coreId).wellFormed hm
  | clear => exact delivers_init.wellFormed

theorem tile_run_mailWellFormed {δ ξ : Type} {P : Platform δ ξ} {cfg : TileConfig} {t t' : Tile δ ξ}
    {ess : List (List TileEvent)} (hr : Run (TileStep P cfg) t ess t') (h : t.shared.mail.WellFormed) :
    t'.shared.mail.WellFormed :=
  (tile_run_mail hr).invariant (fun _ _ _ hm ⟨_, hs⟩ => hs.wellFormed hm) h

/-- Whatever the cores run and however they take turns: no instruction writes past the end of a register
array, a semaphore and its bound fit in four bits, a mutex has no owner but a thread, the flag stack
neither overflows nor underflows, and the mailboxes stay rings. -/
theorem machine_run_safe {ξ : Type} (M : MachineConfig ξ) (hM : M.HostWritesMemory) {t t' : Tile Devices ξ}
    {ess : List (List TileEvent)} (mem : TensixMemory) (ldm : Tid → Option Bytes) (nocXy : BitVec 16)
    (self : Ptr) (allocated : Bool) (htile : t.shared.dev.tile = .tensixInit mem ldm nocXy self allocated)
    (hmail : t.shared.mail = .init) (hr : Run (TileStep (machinePlatform M) M.cores) t ess t') :
    t'.shared.dev.tile.core.Safe ∧ t'.shared.mail.WellFormed := by
  refine ⟨(machine_keeps hM).tileRun hr ?_, tile_run_mailWellFormed hr ?_⟩
  · rw [htile]
    exact tensixInit_safe mem ldm nocXy self allocated
  · rw [hmail]
    exact delivers_init.wellFormed

section brisc

def bareMachine : MachineConfig Unit where
  fuel := 64
  cores := ⟨true, fun _ => 100⟩
  mem k := ⟨k, true, 0x1000, by decide, by decide⟩
  coreId_eq _ := rfl
  tensix_eq k := by cases k <;> rfl
  units := ⟨fun _ _ _ _ => (0, ()), fun _ _ => 0, fun _ _ _ => (), fun _ _ => (0, ()), fun _ _ _ => (),
    fun _ => ((), 0), fun _ _ => ([], (), id, false)⟩
  trap _ _ _ epc := ((), epc, true)
  irPool := 64

def postsMemory : TensixMemory :=
  ⟨some fun a => ([0xB7, 0x00, 0xE8, 0xFF, 0x23, 0xA0, 0x00, 0x02, 0x6F] : List (BitVec 8)).getD a 0,
    some fun _ => 0⟩

def postsTile : Tile Devices Unit :=
  ⟨fun _ => Rv.reset, ⟨.init, ⟨.tensixInit postsMemory (fun _ => none) 0 none true, fun _ _ => 0⟩, 0, false,
    0⟩, none⟩

def postsEnd : List (List TileEvent) × Tile Devices Unit :=
  postsTile.runAll (machinePlatform bareMachine) bareMachine.cores [.brisc, .trisc0, .brisc, .ncrisc]

theorem machine_run_safe_posts :
    postsEnd.2.shared.dev.tile.core.sem 0 = 1 ∧ postsEnd.2.shared.dev.tile.core.Safe ∧
      postsEnd.2.shared.mail.WellFormed :=
  ⟨by decide +kernel,
    machine_run_safe (t := postsTile) bareMachine (fun _ _ _ => ⟨_, rfl⟩) postsMemory (fun _ => none) 0 none
      true rfl rfl (Tile.runAll_run _ _ postsTile _)⟩

end brisc

end Rv32Emu
