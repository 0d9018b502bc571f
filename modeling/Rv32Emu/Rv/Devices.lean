import Rv32Emu.Rv.Extensions
import Rv32Emu.Rv.MailTrace

namespace Rv32Emu

variable {δ ξ : Type}

structure Platform.Keeps (P : Platform δ ξ) (I : δ → Prop) : Prop where
  readW : ∀ {d : δ}, I d → ∀ k addr, I (P.memReadW d k addr).2
  writeW : ∀ {d : δ}, I d → ∀ k addr value, I (P.memWriteW d k addr value)
  writeS : ∀ {d : δ}, I d → ∀ k addr value, I (P.memWriteS d k addr value)
  writeB : ∀ {d : δ}, I d → ∀ k addr value, I (P.memWriteB d k addr value)
  direct : ∀ {d : δ}, I d → ∀ k insn, I (P.tensixDirect d k insn).2
  step : ∀ {d : δ}, I d → ∀ k, I (P.tensixStep d k)
  clear : ∀ {d : δ}, I d → I (P.tensixClear d)
  clearRta : ∀ {d : δ}, I d → ∀ k, I (P.clearRta d k)
  run : ∀ e x ext pc, (P.run e x ext pc).All fun r => ∀ d, I d → I (r.dev d)

theorem WordIo.All.imp {α : Type} {p q : α → Prop} {io : WordIo α} (h : io.All p) (hpq : ∀ a, p a → q a) :
    io.All q := by
  induction io with
  | done a => exact hpq a h
  | read addr next ih => exact fun v => ih v (h v)
  | write addr value next ih => exact ih h

/-- The result of an instruction outside RV32I reaches the devices as a system call at most, and if it
leaves the block it has set the PC. -/
structure ExtResult.Ordinary (syscall : δ → δ) (r : ExtResult δ ξ) : Prop where
  dev : r.dev = id ∨ r.dev = syscall
  pc : ∀ ok pc counted, r.outcome = .leave ok pc counted → pc.isSome = true

theorem extRun_ordinary (E : ExtUnits δ ξ) (trap : ξ → Word → Word → Word → ξ × Word × Bool) (e : ExtInsn)
    (x : Reg → Word) (ext : ξ) (pc : Word) :
    (extRun E trap e x ext pc).All (ExtResult.Ordinary (E.syscall x (trap ext ecallM 0 pc).1).2.2.1) := by
  generalize hs : (E.syscall x (trap ext ecallM 0 pc).1).2.2.1 = syscall
  have hnext (x : Reg → Word) (ext : ξ) : (extNext x ext).Ordinary syscall := ⟨.inl rfl, by rintro _ _ _ ⟨⟩⟩
  have htrap (x : Reg → Word) (cause tval : Word) : (extTrap trap x ext cause tval pc).Ordinary syscall :=
    ⟨.inl rfl, by rintro _ _ _ ⟨⟩; rfl⟩
  unfold extRun
  split
  all_goals first
    | exact hnext _ _
    | exact ⟨.inl rfl, by rintro _ _ _ ⟨⟩; rfl⟩
    | exact ⟨.inr hs, by rintro _ _ _ ⟨⟩; rfl⟩
    | (try dsimp only)
      (repeat' split) <;> first | exact htrap _ _ _ | exact hnext _ _ | exact fun _ => hnext _ _

namespace Platform.Keeps

variable {P : Platform δ ξ} {I : δ → Prop} {c : CoreConfig} (hP : P.Keeps I)

include hP

section memory

variable {sh : Shared δ} (h : I sh.dev)

include h

theorem onMemReadW (addr : Word) : I (onMemReadW P c sh addr).2.dev := by
  unfold Rv32Emu.onMemReadW
  dsimp only
  split
  · exact h
  · exact hP.readW h _ _

theorem onMemWriteW (addr value : Word) : I (onMemWriteW P c sh addr value).dev := hP.writeW h _ _ _

omit h in
theorem wordIo {α : Type} (io : WordIo α) {sh : Shared δ} (h : I sh.dev) : I (io.run P c sh).2.1.dev := by
  induction io generalizing sh with
  | done a => exact h
  | read addr next ih => exact ih _ (hP.onMemReadW h addr)
  | write addr value next ih => exact ih (hP.onMemWriteW h addr value)

omit h in
theorem fuse4Loop (gs : List OpcodeFuse) {sh : Shared δ} (h : I sh.dev) (x : Reg → Word) (pc : Word) :
    I (fuse4Loop P c sh x pc gs).shared.dev := by
  induction gs generalizing sh x pc with
  | nil => exact h
  | cons g gs ih =>
    unfold Rv32Emu.fuse4Loop
    dsimp only
    split_ifs
    · exact h
    · exact ih (hP.onMemReadW h _) _ _

omit h in
theorem fuse3Loop (gs : List OpcodeFuse) {sh : Shared δ} (h : I sh.dev) (x : Reg → Word) (pc : Word) :
    I (fuse3Loop P c sh x pc gs).shared.dev := by
  induction gs generalizing sh pc with
  | nil => exact h
  | cons g gs ih =>
    unfold Rv32Emu.fuse3Loop
    dsimp only
    split_ifs
    · exact h
    · exact ih (hP.onMemWriteW h _ _) _

end memory

section handlers

variable {rv : Rv ξ} {sh : Shared δ} {f : Frame} {ir : Ir} {rest : List Ir}

omit hP in
theorem endOp {count : ℕ} {pc : Word} {events : List TileEvent} (h : I sh.dev) :
    I (endOp rv sh f rest count pc events).shared.dev := by
  cases rest <;> exact h

omit hP in
theorem jumpTo {pc block : Word} (h : I sh.dev) : I (jumpTo rv sh f pc block).shared.dev := by
  unfold Rv32Emu.jumpTo
  split
  · exact h
  · exact endOp h

theorem doStore (h : I sh.dev) (op : StoreOp) : I (doStore P c rv sh f ir rest op).shared.dev := by
  cases op with
  | sb => exact endOp (hP.writeB h _ _ _)
  | sh =>
    dsimp only [Rv32Emu.doStore]
    split_ifs
    · exact h
    · exact endOp (hP.writeS h _ _ _)

theorem doExt (h : I sh.dev) (e : ExtInsn) : I (doExt P c rv sh f rest e).shared.dev := by
  have hio := hP.wordIo (c := c) (P.run e rv.x rv.ext f.pc) h
  have hdev := (hP.run e rv.x rv.ext f.pc).run (P := P) (c := c) sh _ hio
  unfold Rv32Emu.doExt
  dsimp only
  split
  · exact endOp hdev
  · exact hdev

theorem doLwMailbox (h : I sh.dev) : I (doLwMailbox P c rv sh f ir).shared.dev := by
  have hread := hP.onMemReadW (c := c) h (rv.x ir.rs1 + ir.imm)
  dsimp only [Rv32Emu.doLwMailbox]
  split_ifs
  · exact hread
  · exact hread

theorem dispatchOp (h : I sh.dev) (op : Opcode) : I (dispatchOp P c rv sh f ir rest op).shared.dev := by
  cases op with
  | jal =>
    dsimp only [Rv32Emu.dispatchOp, doJal]
    split
    · exact jumpTo h
    · exact endOp h
  | jalr => exact jumpTo h
  | load op =>
    dsimp only [Rv32Emu.dispatchOp, doLoad]
    cases op with
    | lb | lbu => exact endOp h
    | lh | lhu =>
      dsimp only
      split_ifs
      · exact h
      · exact endOp h
  | lw =>
    dsimp only [Rv32Emu.dispatchOp, doLw]
    split_ifs
    · exact h
    · exact endOp (hP.onMemReadW h _)
  | store op => exact hP.doStore h op
  | sw =>
    dsimp only [Rv32Emu.dispatchOp, doSw]
    split_ifs
    · exact h
    · exact endOp (hP.onMemWriteW h _ _)
  | ext e => exact hP.doExt h e
  | ttinsn => exact hP.direct h _ _
  | fuse3 =>
    dsimp only [Rv32Emu.dispatchOp, doFuse3]
    split
    · exact hP.fuse3Loop _ h _ _
    · exact endOp (hP.fuse3Loop _ h _ _)
  | fuse4 =>
    dsimp only [Rv32Emu.dispatchOp, doFuse4]
    split
    · exact hP.fuse4Loop _ h _ _
    · exact endOp (hP.fuse4Loop _ h _ _)
  | branch cond => exact endOp h
  | nop | lui | auipc | imm | alu | fuse1 | fuse2 | fuse5 => exact endOp h

theorem execute (rv : Rv ξ) (h : I sh.dev) (f : Frame) : I (execute P c rv sh f).shared.dev := by
  unfold Rv32Emu.execute
  split
  · exact endOp h
  · split
    · exact hP.dispatchOp h _
    · exact hP.doLwMailbox h
    · exact hP.direct h _ _

end handlers

theorem kernelTransition (rv : Rv ξ) {sh : Shared δ} (h : I sh.dev) :
    I (kernelTransition P c rv sh).2.1.dev := by
  unfold Rv32Emu.kernelTransition
  dsimp only
  split_ifs
  all_goals first | exact h | exact hP.clear h | exact hP.clearRta h _

theorem coreStep (s : CoreState δ ξ) (h : I s.shared.dev) : I (coreStep P c s).shared.dev := by
  unfold Rv32Emu.coreStep
  split
  · split_ifs
    · have hkernel := hP.kernelTransition (c := c) (updatePrev s.rv) h
      unfold dispatchBlock
      dsimp only
      split <;> exact hkernel
    · exact h
  case h_2 target block f _ =>
    have hexec := hP.execute (c := c) s.rv h f
    dsimp only
    split
    · exact hexec
    · exact hexec
    · dsimp only
      split_ifs
      · exact hP.step hexec _
      · exact hexec
    · exact hexec

theorem tileStep {cfg : TileConfig} {t t' : Tile δ ξ} {es : List TileEvent} (hs : TileStep P cfg t es t')
    (h : I t.shared.dev) : I t'.shared.dev := by
  obtain ⟨choice, hs⟩ := hs
  unfold Rv32Emu.tileStep at hs
  split at hs
  · dsimp only at hs
    split_ifs at hs <;> cases hs <;> exact h
  case h_2 k ctl _ =>
    have hcore := hP.coreStep (c := cfg.core k) ⟨t.cores k, t.shared, ctl⟩ h
    dsimp only at hs
    split at hs
    · cases hs
      exact hcore
    · split_ifs at hs <;> cases hs <;> exact hcore

theorem tileRun {cfg : TileConfig} {t t' : Tile δ ξ} {ess : List (List TileEvent)}
    (hr : Run (TileStep P cfg) t ess t') (h : I t.shared.dev) : I t'.shared.dev :=
  hr.invariant (I := fun t : Tile δ ξ => I t.shared.dev) (fun _ _ _ hi hs => hP.tileStep hs hi) h

end Platform.Keeps

end Rv32Emu
