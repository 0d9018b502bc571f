import Mathlib.Data.List.TakeWhile
import Rv32Emu.Rv.Cached
import Rv32Emu.Rv.WellFormed

namespace Rv32Emu

variable {δ ξ : Type} {P : Platform δ ξ} {E : ExtUnits δ ξ} {c : CoreConfig}

def Ir.Guarded (ir : Ir) : Prop :=
  match ir.impl with
  | .dispatch (.ext e) => (Opcode.ext e).computes = true → e.rd ≠ 0
  | .dispatch .fuse1 | .dispatch .fuse5 => ∀ g ∈ ir.fuse, g.rd ≠ 0
  | .dispatch .fuse2 => ir.rd ≠ 0 ∧ ir.rs2 ≠ 0
  | .dispatch op => op.computes = true → ir.rd ≠ 0
  | .lwMailbox | .ttinsn => True

def Ir.LoadsZero (ir : Ir) : Prop :=
  match ir.impl with
  | .dispatch (.load _) | .dispatch .lw | .lwMailbox => ir.rd = 0
  | .dispatch .fuse4 => ∃ g ∈ ir.fuse, g.rd = 0
  | _ => False

section blocks

variable {ir : Ir} {irs rest : List Ir} {pc : Word}

structure Ir.Fusible (ir : Ir) : Prop where
  guarded : ir.Guarded
  rd : ir.opcode.computes = true → ir.rd ≠ 0

def Fusible (irs : List Ir) : Prop := ∀ ir ∈ irs, ir.Fusible

theorem Ir.Decoded.fusible (h : ir.Decoded) : ir.Fusible := by
  refine ⟨?_, h.rd⟩
  unfold Ir.Guarded
  rw [h.impl]
  have hplain := h.plain
  have hrd := h.rd
  have hext := h.ext
  generalize ir.opcode = op at *
  cases op with
  | ext e => exact fun hc => hext e rfl ▸ hrd hc
  | fuse1 | fuse2 | fuse3 | fuse4 | fuse5 => cases hplain
  | _ => exact hrd

theorem Straight.fusible (h : Straight pc irs) : Fusible irs := by
  induction h with
  | last hir _ => exact List.forall_mem_singleton.mpr hir.fusible
  | mailbox hir hop _ => exact List.forall_mem_singleton.mpr ⟨trivial, hir.rd⟩
  | ttinsn => exact List.forall_mem_singleton.mpr ⟨trivial, nofun⟩
  | cons hir _ _ _ ih => exact List.forall_mem_cons.mpr ⟨hir.fusible, ih⟩

theorem fuse_rd {kind : Opcode → Bool} (hkind : ∀ op, kind op = true → op.computes = true) (hir : ir.Fusible)
    (hop : kind ir.opcode = true) (hrest : Fusible rest) :
    ∀ g ∈ ir.toOpcodeFuse :: (rest.takeWhile (kind ·.opcode)).map Ir.toOpcodeFuse, g.rd ≠ 0 := by
  rw [List.forall_mem_cons, List.forall_mem_map]
  refine ⟨hir.rd (hkind _ hop), fun next hn => ?_⟩
  have hk := List.mem_takeWhile_imp hn
  exact (hrest next ((List.takeWhile_sublist _).subset hn)).rd (hkind _ hk)

theorem isLui_computes (op : Opcode) (h : isLui op = true) : op.computes = true := by
  cases op <;> first | rfl | cases h

theorem isShift_computes (op : Opcode) (h : isShift op = true) : op.computes = true := by
  cases op <;> first | rfl | cases h

theorem fuseRun_fusible {kind : Opcode → Bool} {opcode : Opcode}
    (hfuse : (ir.fuseWith opcode (rest.takeWhile (kind ·.opcode))).Guarded) (hir : ir.Fusible)
    (hrest : Fusible rest) :
    (fuseRun ir rest kind opcode).1.Guarded ∧ Fusible (fuseRun ir rest kind opcode).2 := by
  unfold fuseRun
  dsimp only
  split_ifs
  · exact ⟨hir.guarded, hrest⟩
  · exact ⟨hfuse, fun ir h => hrest ir (List.mem_of_mem_drop h)⟩

theorem fuseHead_fusible (hir : ir.Fusible) (hrest : Fusible rest) :
    (fuseHead ir rest).1.Guarded ∧ Fusible (fuseHead ir rest).2 := by
  cases rest with
  | nil => exact ⟨hir.guarded, hrest⟩
  | cons next rest =>
    obtain ⟨hnext, htail⟩ := List.forall_mem_cons.mp hrest
    unfold fuseHead
    dsimp only
    split
    case h_1 hop =>
      have hlui : isLui ir.opcode = true := by rw [hop]; rfl
      split
      case h_1 hadd =>
        split
        · exact ⟨⟨hir.rd (isLui_computes _ hlui), hnext.rd (by rw [hadd]; rfl)⟩, htail⟩
        · exact ⟨hir.guarded, hrest⟩
      · exact fuseRun_fusible (fuse_rd isLui_computes hir hlui hrest) hir hrest
    · exact fuseRun_fusible nofun hir hrest
    · exact fuseRun_fusible nofun hir hrest
    case h_4 hop | h_5 hop | h_6 hop =>
      have hshift : isShift ir.opcode = true := by rw [hop]; rfl
      exact fuseRun_fusible (fuse_rd isShift_computes hir hshift hrest) hir hrest
    · exact ⟨hir.guarded, hrest⟩

theorem matchPattern_guarded (n : ℕ) (h : Fusible irs) : ∀ ir ∈ matchPattern n irs, ir.Guarded := by
  induction n generalizing irs with
  | zero => exact fun ir hir => (h ir hir).guarded
  | succ n ih =>
    cases irs with
    | nil => exact fun ir hir => (h ir hir).guarded
    | cons ir irs =>
      obtain ⟨hir, hirs⟩ := List.forall_mem_cons.mp h
      obtain ⟨hhead, hrest⟩ := fuseHead_fusible hir hirs
      exact List.forall_mem_cons.mpr ⟨hhead, ih hrest⟩

theorem guarded_translates : Translates (P.extend E) c fun _ b => ∀ ir ∈ b.irs, ir.Guarded := by
  intro dev rv b h
  unfold blockTranslate at h
  obtain ⟨irs, hl, h⟩ := Option.bind_eq_some_iff.mp h
  split_ifs at h
  cases h
  exact matchPattern_guarded _ (optimizeConstant_straight (translateLoop_straight dev rv.x hl) _).fusible

end blocks

section execute

variable {rv : Rv ξ} {sh sh' : Shared δ} {f : Frame} {ir : Ir} {rest : List Ir} {count : ℕ} {pc : Word}
  {events : List TileEvent}

theorem setX_zero {rd : Reg} (hrd : rd ≠ 0) (v : Word) : (rv.setX rd v).x 0 = rv.x 0 :=
  Function.update_of_ne hrd.symm _ _

theorem setX_self (rv : Rv ξ) (rd : Reg) (v : Word) : (rv.setX rd v).x rd = v := Function.update_self ..

theorem link_zero (rv : Rv ξ) (rd : Reg) (pc : Word) : (link rv rd pc).x 0 = rv.x 0 := by
  unfold link
  split_ifs with hrd
  · exact setX_zero hrd _
  · rfl

theorem foldl_zero {step : Rv ξ → OpcodeFuse → Rv ξ}
    (hstep : ∀ (rv : Rv ξ) g, g.rd ≠ 0 → (step rv g).x 0 = rv.x 0) {gs : List OpcodeFuse}
    (hgs : ∀ g ∈ gs, g.rd ≠ 0) (rv : Rv ξ) : (gs.foldl step rv).x 0 = rv.x 0 := by
  induction gs generalizing rv with
  | nil => rfl
  | cons g gs ih =>
    obtain ⟨hg, hgs⟩ := List.forall_mem_cons.mp hgs
    exact (ih hgs _).trans (hstep rv g hg)

theorem shiftFunc_zero (rv : Rv ξ) (g : OpcodeFuse) (hg : g.rd ≠ 0) : (shiftFunc rv g).x 0 = rv.x 0 := by
  unfold shiftFunc
  split
  · exact setX_zero hg _
  · rfl

theorem fuse4Loop_zero {gs : List OpcodeFuse} (hgs : ∀ g ∈ gs, g.rd ≠ 0) (sh : Shared δ) (x : Reg → Word)
    (pc : Word) :
    (fuse4Loop P c sh x pc gs).x 0 = x 0 := by
  induction gs generalizing sh x pc with
  | nil => rfl
  | cons g gs ih =>
    obtain ⟨hg, hgs⟩ := List.forall_mem_cons.mp hgs
    unfold fuse4Loop
    dsimp only
    split_ifs
    · rfl
    · exact (ih hgs _ _ _).trans (Function.update_of_ne hg.symm _ _)

theorem doLoad_zero {op : LoadOp} (hrd : ir.rd ≠ 0) : (doLoad P c rv sh f ir rest op).rv.x 0 = rv.x 0 := by
  cases op with
  | lb | lbu =>
    dsimp only [doLoad]
    rw [endOp_x]
    exact setX_zero hrd _
  | lh | lhu =>
    dsimp only [doLoad]
    split_ifs
    · rfl
    · rw [endOp_x]
      exact setX_zero hrd _

theorem doLwMailbox_zero (hrd : ir.rd ≠ 0) : (doLwMailbox P c rv sh f ir).rv.x 0 = rv.x 0 := by
  have hrestore (v : Word) : ((rv.setX ir.rd v).setX ir.rs1 (rv.x ir.rs1)).x 0 = rv.x 0 := by
    by_cases hrs : ir.rs1 = 0
    · rw [hrs]
      exact setX_self _ 0 (rv.x 0)
    · exact (setX_zero hrs _).trans (setX_zero hrd _)
  dsimp only [doLwMailbox]
  split_ifs
  · exact hrestore _
  · exact setX_zero hrd _

theorem update_zero {x : Reg → Word} {rd : Reg} (hrd : rd ≠ 0) (v : Word) : Function.update x rd v 0 = x 0 :=
  Function.update_of_ne hrd.symm _ _

theorem guarded_update_zero (x : Reg → Word) (rd : Reg) (v : Word) :
    (if rd ≠ 0 then Function.update x rd v else x) 0 = x 0 := by
  split_ifs with hrd
  · exact update_zero hrd v
  · rfl

theorem rvSetReg_zero (x : Reg → Word) (r : Reg) (v : Word) : rvSetReg x r v 0 = x 0 := by
  unfold rvSetReg
  split_ifs with hr
  · exact Function.update_of_ne hr.symm _ _
  · rfl

theorem foldl_rvSetReg_zero (writes : List (Reg × Word)) (x : Reg → Word) :
    writes.foldl (fun x w => rvSetReg x w.1 w.2) x 0 = x 0 := by
  induction writes generalizing x with
  | nil => rfl
  | cons w writes ih => exact (ih _).trans (rvSetReg_zero x _ _)

theorem extRun_zero {trap : ξ → Word → Word → Word → ξ × Word × Bool} {e : ExtInsn} {x : Reg → Word}
    (hx : x 0 = 0) (he : (Opcode.ext e).computes = true → e.rd ≠ 0) (ext : ξ) (pc : Word) :
    (extRun E trap e x ext pc).All fun r => r.x 0 = 0 := by
  have hguard (v : Word) : (if e.rd ≠ 0 then Function.update x e.rd v else x) 0 = 0 :=
    (guarded_update_zero x e.rd v).trans hx
  have htrap (cause tval : Word) : (extTrap trap x ext cause tval pc : ExtResult δ ξ).x 0 = 0 := hx
  unfold extRun
  split
  case h_1 op hop | h_2 op hop =>
    have hrd : e.rd ≠ 0 := he (by rw [Opcode.computes, hop]; rfl)
    exact (update_zero hrd _).trans hx
  case h_3 hop =>
    split_ifs with hm hrd
    · exact htrap _ _
    · exact fun v => (update_zero hrd v).trans hx
    · exact hx
  case h_4 hop =>
    split_ifs
    · exact htrap _ _
    · by_cases hrd : e.rd = 0
      · rw [hrd]
        exact Function.update_self (0 : Reg) (0 : Word) x
      · exact (update_zero hrd _).trans hx
  case h_5 op hop =>
    split
    · exact htrap _ _
    · exact fun v => hguard v
  case h_6 | h_7 | h_10 => exact hguard _
  case h_8 =>
    dsimp only
    split_ifs
    · exact htrap _ _
    · exact fun _ => hx
  case h_9 =>
    dsimp only
    split_ifs
    · exact htrap _ _
    · exact hx
  case h_16 => exact (foldl_rvSetReg_zero _ x).trans hx
  case h_19 | h_20 => exact Function.update_self (0 : Reg) (0 : Word) x
  all_goals exact hx

theorem doExt_zero {e : ExtInsn} (hx : rv.x 0 = 0) (he : (Opcode.ext e).computes = true → e.rd ≠ 0) :
    (doExt (P.extend E) c rv sh f rest e).rv.x 0 = 0 := by
  have hrun : ((extRun E P.trap e rv.x rv.ext f.pc).run (P.extend E) c sh).1.x 0 = 0 :=
    (extRun_zero hx he rv.ext f.pc).run sh
  unfold doExt
  dsimp only
  split
  · rw [endOp_x]
    exact hrun
  · exact hrun

theorem dispatchOp_zero {op : Opcode} (hx : rv.x 0 = 0) (hi : ir.impl = .dispatch op) (hg : ir.Guarded)
    (hl : ¬ir.LoadsZero) : (dispatchOp (P.extend E) c rv sh f ir rest op).rv.x 0 = 0 := by
  unfold Ir.Guarded at hg
  unfold Ir.LoadsZero at hl
  rw [hi] at hg hl
  cases op with
  | jal =>
    dsimp only [dispatchOp, doJal]
    split
    · rw [jumpTo_x]
      exact (link_zero rv _ _).trans hx
    · rw [endOp_x]
      exact (link_zero rv _ _).trans hx
  | jalr =>
    dsimp only [dispatchOp, doJalr]
    rw [jumpTo_x]
    exact (link_zero rv _ _).trans hx
  | branch cond => exact hx
  | load op => exact (doLoad_zero hl).trans hx
  | lw =>
    dsimp only [dispatchOp, doLw]
    split_ifs
    · exact hx
    · rw [endOp_x]
      exact (setX_zero hl _).trans hx
  | store op => exact (congrFun doStore_x 0).trans hx
  | sw =>
    dsimp only [dispatchOp, doSw]
    split_ifs
    · exact hx
    · rw [endOp_x]
      exact hx
  | ext e => exact doExt_zero hx hg
  | ttinsn => exact hx
  | fuse1 =>
    dsimp only [dispatchOp, doFuse1]
    rw [endOp_x]
    exact (foldl_zero (fun rv g hg => setX_zero hg _) hg rv).trans hx
  | fuse2 =>
    dsimp only [dispatchOp, doFuse2]
    rw [endOp_x]
    exact (setX_zero hg.2 _).trans ((setX_zero hg.1 _).trans hx)
  | fuse3 =>
    dsimp only [dispatchOp, doFuse3]
    split
    · exact hx
    · rw [endOp_x]
      exact hx
  | fuse4 =>
    have hgs : ∀ g ∈ ir.fuse, g.rd ≠ 0 := fun g hmem hrd => hl ⟨g, hmem, hrd⟩
    dsimp only [dispatchOp, doFuse4]
    split
    · exact (fuse4Loop_zero hgs sh rv.x f.pc).trans hx
    · rw [endOp_x]
      exact (fuse4Loop_zero hgs sh rv.x f.pc).trans hx
  | fuse5 =>
    dsimp only [dispatchOp, doFuse5]
    rw [endOp_x]
    exact (foldl_zero shiftFunc_zero hg rv).trans hx
  | nop =>
    dsimp only [dispatchOp]
    rw [endOp_x]
    exact setX_self rv 0 0
  | lui | auipc | imm | alu =>
    dsimp only [dispatchOp]
    rw [endOp_x]
    exact (setX_zero (hg rfl) _).trans hx

theorem execute_zero (hx : rv.x 0 = 0) (hg : ∀ ir ∈ f.irs, ir.Guarded)
    (hl : ∀ ir ∈ f.irs.head?, ¬ir.LoadsZero) :
    (execute (P.extend E) c rv sh f).rv.x 0 = 0 := by
  unfold execute
  split
  · exact hx
  case h_2 ir rest hf =>
    rw [hf] at hg hl
    have hir := hg ir List.mem_cons_self
    have hload := hl ir rfl
    split
    case h_1 op hi => exact dispatchOp_zero hx hi hir hload
    case h_2 hi =>
      unfold Ir.LoadsZero at hload
      rw [hi] at hload
      exact (doLwMailbox_zero hload).trans hx
    · exact hx

end execute

section tile

variable {cfg : TileConfig} {t t' : Tile δ ξ}

def Tile.LoadsZero (t : Tile δ ξ) : Prop :=
  ∃ k target block f, t.active = some (k, .exec target block f) ∧ ∃ ir ∈ f.irs.head?, ir.LoadsZero

theorem dispatchBlock_x (rv : Rv ξ) (sh : Shared δ) (target : ℕ) :
    (dispatchBlock P c rv sh target).rv.x = rv.x := by
  have hprev : (updatePrev rv).x = rv.x := by
    unfold updatePrev
    split
    · split_ifs <;> rfl
    · rfl
  have hkernel : (kernelTransition P c (updatePrev rv) sh).1.x = rv.x := by
    unfold kernelTransition
    dsimp only
    split_ifs <;> exact hprev
  unfold dispatchBlock
  dsimp only
  generalize kernelTransition P c (updatePrev rv) sh = k at *
  have hfind : (blockFindOrTranslate P c { k.1 with prePc := k.1.pc } k.2.1.dev).1.x = rv.x := by
    unfold blockFindOrTranslate
    split
    · exact hkernel
    · dsimp only
      split_ifs <;> split <;> exact hkernel
  generalize blockFindOrTranslate P c { k.1 with prePc := k.1.pc } k.2.1.dev = p at *
  obtain ⟨rv₂, _ | b⟩ := p
  · exact hfind
  · have hchain : (chainBlock rv₂).x = rv₂.x := by
      unfold chainBlock
      split
      · rfl
      · split
        · rfl
        · split_ifs <;> rfl
    exact hchain.trans hfind

theorem coreStep_zero {s : CoreState δ ξ} (hx : s.rv.x 0 = 0)
    (hr : s.ctl.Runs fun _ b => ∀ ir ∈ b.irs, ir.Guarded)
    (hl : ∀ target block f, s.ctl = .exec target block f → ∀ ir ∈ f.irs.head?, ¬ir.LoadsZero) :
    (coreStep (P.extend E) c s).rv.x 0 = 0 := by
  obtain ⟨rv, sh, ctl⟩ := s
  cases ctl with
  | loop target =>
    dsimp only [coreStep]
    split_ifs
    · rw [dispatchBlock_x]
      exact hx
    · exact hx
  | exec target block f =>
    obtain ⟨b, hb, hs⟩ := hr target block f rfl
    have hexec : (execute (P.extend E) c rv sh f).rv.x 0 = 0 :=
      execute_zero hx (fun ir hir => hb ir (hs.subset hir)) (hl target block f rfl)
    dsimp only [coreStep]
    split <;> exact hexec

structure Rv.Fresh (rv : Rv ξ) : Prop where
  zero : rv.x 0 = 0
  blockMap : rv.blockMap = fun _ => none
  mapSize : rv.mapSize = 0
  prev : rv.prev = none

structure Tile.Fresh (t : Tile δ ξ) : Prop where
  cores : ∀ k, (t.cores k).Fresh
  active : t.active = none

theorem Tile.Fresh.caches (ht : t.Fresh) {B : Word → Block → Prop} : t.Caches B := by
  constructor
  · intro k pc b hb
    rw [(ht.cores k).blockMap] at hb
    cases hb
  · intro k ctl hk
    rw [ht.active] at hk
    cases hk

theorem TileStep.zero {es : List TileEvent} (h : TileStep (P.extend E) cfg t es t') (hl : ¬t.LoadsZero)
    (hc : t.Caches fun _ b => ∀ ir ∈ b.irs, ir.Guarded) (ht : ∀ k, (t.cores k).x 0 = 0) :
    ∀ k, (t'.cores k).x 0 = 0 := by
  obtain ⟨-, hcores, -⟩ | ⟨k, ctl, hk, hcores, -⟩ := h.cases
  · exact fun k => hcores ▸ ht k
  · intro k'
    rw [hcores]
    by_cases hkk : k' = k
    · rw [hkk, Function.update_self]
      apply coreStep_zero (ht k) (hc.active k ctl hk)
      rintro target block f rfl ir hir hload
      exact hl ⟨k, target, block, f, hk, ir, hir, hload⟩
    · rw [Function.update_of_ne hkk]
      exact ht k'

theorem x0_zero {ess : List (List TileEvent)} (ht : t.Fresh)
    (h : Run (fun t es t' => TileStep (P.extend E) cfg t es t' ∧ ¬t.LoadsZero) t ess t') :
    ∀ k, (t'.cores k).x 0 = 0 := by
  have hunlinked : Unlinked fun _ b => ∀ ir ∈ b.irs, ir.Guarded := fun _ _ _ hb => hb
  have hinv :=
    h.invariant (I := fun t => (t.Caches fun _ b => ∀ ir ∈ b.irs, ir.Guarded) ∧ ∀ k, (t.cores k).x 0 = 0)
    fun _ _ _ hs hstep =>
      ⟨hstep.1.caches hunlinked (fun _ => guarded_translates) hs.1, hstep.1.zero hstep.2 hs.1 hs.2⟩
  exact (hinv ⟨ht.caches, fun k => (ht.cores k).zero⟩).2

def onesPlatform (program : List Word) : Platform Unit Unit :=
  { romPlatform program with memReadW := fun _ _ _ => (~~~0, ()) }

def sixteenCycles : TileConfig := ⟨false, fun _ => 16⟩

def loadRun (load : Word) : List (List TileEvent) × Tile Unit Unit :=
  Tile.reset.runAll ((onesPlatform [load, 0x0000006f]).extend .none) sixteenCycles [.brisc, .brisc, .brisc]

-- lw a0, 0(x0)
theorem x0_zero_lw : ((loadRun 0x00002503).2.cores .brisc).x 0 = 0 := by
  have hfresh : Tile.reset.Fresh := ⟨fun _ => ⟨rfl, rfl, rfl, rfl⟩, rfl⟩
  have hrun : Run (fun t es t' =>
      TileStep ((onesPlatform [0x00002503, 0x0000006f]).extend .none) sixteenCycles t es t' ∧ ¬t.LoadsZero)
      Tile.reset (loadRun 0x00002503).1 (loadRun 0x00002503).2 := by
    refine .cons ⟨⟨.brisc, rfl⟩, ?_⟩ (.cons ⟨⟨.brisc, rfl⟩, ?_⟩ (.cons ⟨⟨.brisc, rfl⟩, ?_⟩ (.nil _)))
    · rintro ⟨_, _, _, _, ⟨⟩, _⟩
    · rintro ⟨_, _, _, _, ⟨⟩, _⟩
    · rintro ⟨_, _, _, _, ⟨⟩, _, ⟨⟩, hload⟩
      have hrd : (10 : Reg) = 0 := hload
      exact absurd hrd (by decide)
  exact x0_zero hfresh hrun .brisc

-- lw x0, 0(x0)
theorem x0_loaded :
    ¬∀ t ess, Run (TileStep ((onesPlatform [0x00002003, 0x0000006f]).extend .none) sixteenCycles) Tile.reset
      ess t →
      ∀ k, (t.cores k).x 0 = 0 := by
  intro h
  have hzero : ((loadRun 0x00002003).2.cores .brisc).x 0 = 0 := h _ _ (Tile.runAll_run ..) .brisc
  exact absurd hzero (by decide)

end tile

end Rv32Emu
