import Rv32Emu.Rv.Blocks

namespace Rv32Emu

variable {δ ξ : Type} {P : Platform δ ξ} {c : CoreConfig}

structure Rv.Keeps (rv rv' : Rv ξ) : Prop where
  blockMap : rv'.blockMap = rv.blockMap
  mapSize : rv'.mapSize = rv.mapSize
  prev : rv'.prev = rv.prev
  prePc : rv'.prePc = rv.prePc

structure Shared.Keeps (sh sh' : Shared δ) : Prop where
  coresInKernel : sh'.coresInKernel = sh.coresInKernel
  hadTriscInKernel : sh'.hadTriscInKernel = sh.hadTriscInKernel
  ncriscPrevKernelPc : sh'.ncriscPrevKernelPc = sh.ncriscPrevKernelPc

theorem Rv.Keeps.refl (rv : Rv ξ) : rv.Keeps rv := ⟨rfl, rfl, rfl, rfl⟩

theorem Rv.Keeps.trans {rv rv' rv'' : Rv ξ} (h : rv.Keeps rv') (h' : rv'.Keeps rv'') : rv.Keeps rv'' :=
  ⟨h'.blockMap.trans h.blockMap, h'.mapSize.trans h.mapSize, h'.prev.trans h.prev, h'.prePc.trans h.prePc⟩

theorem Shared.Keeps.refl (sh : Shared δ) : sh.Keeps sh := ⟨rfl, rfl, rfl⟩

theorem Shared.Keeps.trans {sh sh' sh'' : Shared δ} (h : sh.Keeps sh') (h' : sh'.Keeps sh'') :
    sh.Keeps sh'' :=
  ⟨h'.coresInKernel.trans h.coresInKernel, h'.hadTriscInKernel.trans h.hadTriscInKernel,
    h'.ncriscPrevKernelPc.trans h.ncriscPrevKernelPc⟩

structure Executed.Keeps (rv : Rv ξ) (sh : Shared δ) (e : Executed δ ξ) : Prop where
  rv : rv.Keeps e.rv
  shared : sh.Keeps e.shared

section memory

theorem onMemReadW_keeps (sh : Shared δ) (addr : Word) : sh.Keeps (onMemReadW P c sh addr).2 := by
  unfold onMemReadW
  dsimp only
  split <;> exact ⟨rfl, rfl, rfl⟩

theorem onMemWriteW_keeps (sh : Shared δ) (addr value : Word) : sh.Keeps (onMemWriteW P c sh addr value) :=
  ⟨rfl, rfl, rfl⟩

theorem WordIo.run_keeps {α : Type} (io : WordIo α) (sh : Shared δ) : sh.Keeps (io.run P c sh).2.1 := by
  induction io generalizing sh with
  | done a => exact .refl sh
  | read addr next ih => exact (onMemReadW_keeps sh addr).trans (ih _ _)
  | write addr value next ih => exact (onMemWriteW_keeps sh addr value).trans (ih _)

theorem fuse4Loop_keeps (gs : List OpcodeFuse) (sh : Shared δ) (x : Reg → Word) (pc : Word) :
    sh.Keeps (fuse4Loop P c sh x pc gs).shared := by
  induction gs generalizing sh x pc with
  | nil => exact .refl sh
  | cons g gs ih =>
    unfold fuse4Loop
    dsimp only
    split_ifs
    · exact .refl sh
    · exact (onMemReadW_keeps sh _).trans (ih _ _ _)

theorem fuse3Loop_keeps (gs : List OpcodeFuse) (sh : Shared δ) (x : Reg → Word) (pc : Word) :
    sh.Keeps (fuse3Loop P c sh x pc gs).shared := by
  induction gs generalizing sh pc with
  | nil => exact .refl sh
  | cons g gs ih =>
    unfold fuse3Loop
    dsimp only
    split_ifs
    · exact .refl sh
    · exact (onMemWriteW_keeps sh _ _).trans (ih _ _)

end memory

section handlers

variable {rv rv' : Rv ξ} {sh sh' : Shared δ} {f : Frame} {ir : Ir} {rest : List Ir} {count : ℕ} {pc : Word}
  {events : List TileEvent}

theorem endOp_keeps (hr : rv.Keeps rv') (hs : sh.Keeps sh') :
    (endOp rv' sh' f rest count pc events).Keeps rv sh := by
  cases rest with
  | nil => exact ⟨hr.trans ⟨rfl, rfl, rfl, rfl⟩, hs⟩
  | cons next rest => exact ⟨hr, hs⟩

theorem trapOp_keeps {cause tval : Word} (hr : rv.Keeps rv') (hs : sh.Keeps sh') :
    (trapOp P rv' sh' f count cause tval events).Keeps rv sh :=
  ⟨hr.trans ⟨rfl, rfl, rfl, rfl⟩, hs⟩

@[simp] theorem endOp_x (rv : Rv ξ) : (endOp rv sh f rest count pc events).rv.x = rv.x := by
  cases rest <;> rfl

theorem jumpTo_x {block : Word} (rv : Rv ξ) : (jumpTo rv sh f pc block).rv.x = rv.x := by
  unfold jumpTo
  split
  · rfl
  · exact endOp_x rv

theorem setX_keeps (rv : Rv ξ) (rd : Reg) (v : Word) : rv.Keeps (rv.setX rd v) := ⟨rfl, rfl, rfl, rfl⟩

theorem link_keeps (rv : Rv ξ) (rd : Reg) (pc : Word) : rv.Keeps (link rv rd pc) := by
  unfold link
  split_ifs
  · exact setX_keeps rv rd _
  · exact .refl rv

theorem jumpTo_keeps {block : Word} (hr : rv.Keeps rv') : (jumpTo rv' sh f pc block).Keeps rv sh := by
  unfold jumpTo
  split
  · exact ⟨hr, .refl sh⟩
  · exact endOp_keeps hr (.refl sh)

theorem foldl_rv_keeps {step : Rv ξ → OpcodeFuse → Rv ξ} (h : ∀ (rv : Rv ξ) g, rv.Keeps (step rv g))
    (gs : List OpcodeFuse) (rv : Rv ξ) : rv.Keeps (gs.foldl step rv) := by
  induction gs generalizing rv with
  | nil => exact .refl rv
  | cons g gs ih => exact (h rv g).trans (ih _)

theorem shiftFunc_keeps (rv : Rv ξ) (g : OpcodeFuse) : rv.Keeps (shiftFunc rv g) := by
  unfold shiftFunc
  split
  · exact setX_keeps rv _ _
  · exact .refl rv

theorem doLoad_keeps {op : LoadOp} : (doLoad P c rv sh f ir rest op).Keeps rv sh := by
  have hend (v : Word) : (endOp (rv.setX ir.rd v) sh f rest 1 (f.pc + 4) []).Keeps rv sh :=
    endOp_keeps (setX_keeps rv _ _) (.refl sh)
  cases op with
  | lb | lbu => exact hend _
  | lh | lhu =>
    dsimp only [doLoad]
    split_ifs
    · exact trapOp_keeps (.refl rv) (.refl sh)
    · exact hend _

theorem doStore_keeps {op : StoreOp} : (doStore P c rv sh f ir rest op).Keeps rv sh := by
  cases op with
  | sb => exact endOp_keeps (.refl rv) ⟨rfl, rfl, rfl⟩
  | sh =>
    dsimp only [doStore]
    split_ifs
    · exact trapOp_keeps (.refl rv) (.refl sh)
    · exact endOp_keeps (.refl rv) ⟨rfl, rfl, rfl⟩

theorem doStore_x {op : StoreOp} : (doStore P c rv sh f ir rest op).rv.x = rv.x := by
  cases op with
  | sb => exact endOp_x rv
  | sh =>
    dsimp only [doStore]
    split_ifs
    · rfl
    · exact endOp_x rv

theorem doExt_keeps {e : ExtInsn} : (doExt P c rv sh f rest e).Keeps rv sh := by
  have hio := WordIo.run_keeps (P := P) (c := c) (P.run e rv.x rv.ext f.pc) sh
  have hdev {sh' : Shared δ} (h : sh.Keeps sh') (dev : δ) : sh.Keeps { sh' with dev := dev } :=
    h.trans ⟨rfl, rfl, rfl⟩
  unfold doExt
  dsimp only
  split
  · exact endOp_keeps ⟨rfl, rfl, rfl, rfl⟩ (hdev hio _)
  · exact ⟨⟨rfl, rfl, rfl, rfl⟩, hdev hio _⟩

theorem doLwMailbox_keeps : (doLwMailbox P c rv sh f ir).Keeps rv sh := by
  have hread := onMemReadW_keeps (P := P) (c := c) sh (rv.x ir.rs1 + ir.imm)
  dsimp only [doLwMailbox]
  split_ifs
  · exact ⟨⟨rfl, rfl, rfl, rfl⟩, hread⟩
  · exact ⟨⟨rfl, rfl, rfl, rfl⟩, hread⟩

theorem dispatchOp_keeps (op : Opcode) : (dispatchOp P c rv sh f ir rest op).Keeps rv sh := by
  cases op with
  | jal =>
    dsimp only [dispatchOp, doJal]
    split
    · exact jumpTo_keeps ((link_keeps rv _ _).trans ⟨rfl, rfl, rfl, rfl⟩)
    · exact endOp_keeps (link_keeps rv _ _) (.refl sh)
  | jalr => exact jumpTo_keeps (link_keeps rv _ _)
  | branch cond =>
    dsimp only [dispatchOp, doBranch]
    exact endOp_keeps (.refl rv) (.refl sh)
  | load op => exact doLoad_keeps
  | lw =>
    dsimp only [dispatchOp, doLw]
    split_ifs
    · exact trapOp_keeps (.refl rv) (.refl sh)
    · exact endOp_keeps (setX_keeps rv _ _) (onMemReadW_keeps sh _)
  | store op => exact doStore_keeps
  | sw =>
    dsimp only [dispatchOp, doSw]
    split_ifs
    · exact trapOp_keeps (.refl rv) (.refl sh)
    · exact endOp_keeps (.refl rv) (onMemWriteW_keeps sh _ _)
  | ext e => exact doExt_keeps
  | ttinsn => exact ⟨⟨rfl, rfl, rfl, rfl⟩, ⟨rfl, rfl, rfl⟩⟩
  | fuse1 => exact endOp_keeps (foldl_rv_keeps (fun rv g => setX_keeps rv _ _) _ rv) (.refl sh)
  | fuse3 =>
    dsimp only [dispatchOp, doFuse3]
    split
    · exact trapOp_keeps (.refl rv) (fuse3Loop_keeps _ sh _ _)
    · exact endOp_keeps (.refl rv) (fuse3Loop_keeps _ sh _ _)
  | fuse4 =>
    dsimp only [dispatchOp, doFuse4]
    split
    · exact trapOp_keeps ⟨rfl, rfl, rfl, rfl⟩ (fuse4Loop_keeps _ sh _ _)
    · exact endOp_keeps ⟨rfl, rfl, rfl, rfl⟩ (fuse4Loop_keeps _ sh _ _)
  | fuse5 => exact endOp_keeps (foldl_rv_keeps shiftFunc_keeps _ rv) (.refl sh)
  | nop | lui | auipc | imm | alu => exact endOp_keeps (setX_keeps rv _ _) (.refl sh)
  | fuse2 => exact endOp_keeps ((setX_keeps rv _ _).trans (setX_keeps _ _ _)) (.refl sh)

theorem execute_keeps (rv : Rv ξ) (sh : Shared δ) (f : Frame) : (execute P c rv sh f).Keeps rv sh := by
  unfold execute
  split
  · exact endOp_keeps (.refl rv) (.refl sh)
  · split
    · exact dispatchOp_keeps _
    · exact doLwMailbox_keeps
    · exact ⟨⟨rfl, rfl, rfl, rfl⟩, ⟨rfl, rfl, rfl⟩⟩

end handlers

end Rv32Emu
