import Rv32Emu.Rv.BlockRun

/-!
Whether a core runs code that memory no longer holds. A core synchronises its code when it executes FENCE.I
and when it enters a kernel that it has left. Neither throws translated blocks away: FENCE.I only ends its
block, and the map is cleared when a core with the coprocessor leaves a kernel, or when NCRISC enters one
at another address than the last. So what runs afterwards is as fresh as the map was.
-/

namespace Rv32Emu

variable {δ ξ : Type}

section watched

/-- A core, in a call of `rv_step` or between two, with the memory that others write to as well. `since`
lists the states of memory from the last synchronisation on; `last` is the address of the last instruction,
and `visited` tells whether any of them was a kernel's. -/
structure Watched (δ ξ : Type) where
  rv : Rv ξ
  shared : Shared δ
  ctl : Option Ctl
  since : Option (List δ)
  last : Option Word
  visited : Bool

def Watched.frame (w : Watched δ ξ) : Option Frame := w.ctl.bind Ctl.frame

def isFencei (ir : Ir) : Bool :=
  match ir.opcode with
  | .ext e => match extOp e.insn with
    | some .fencei => true
    | _ => false
  | _ => false

def Watched.fences (w : Watched δ ξ) : Bool := w.frame.any fun f => f.irs.head?.any isFencei

def Watched.reenters (w : Watched δ ξ) : Bool :=
  w.visited && w.last.any (fun pc => !inKernel pc) && w.frame.any fun f => inKernel f.pc

/-- Who goes next: the other cores and the host, which may leave anything in memory, the caller of `rv_step`,
or the core. -/
inductive Turn (δ : Type)
  | others (sh : Shared δ)
  | call
  | step

variable (P : Platform δ ξ) (c : CoreConfig)

def Watched.step (w : Watched δ ξ) (ctl : Ctl) : Watched δ ξ :=
  let s := coreStep P c ⟨w.rv, w.shared, ctl⟩
  { rv := s.rv
    shared := s.shared
    ctl := s.ctl
    since :=
      if w.fences || w.reenters then some [s.shared.dev, w.shared.dev] else w.since.map (s.shared.dev :: ·)
    last := (w.frame.map Frame.pc).or w.last
    visited := w.visited || w.frame.any fun f => inKernel f.pc }

def Watched.turn (w : Watched δ ξ) : Turn δ → Watched δ ξ
  | .others sh => { w with shared := sh, since := w.since.map (sh.dev :: ·) }
  | .call =>
    match w.ctl with
    | none => { w with ctl := some (.loop (w.rv.csrCycle + c.cyclePerStep)) }
    | some _ => w
  | .step =>
    match w.ctl with
    | none => w
    | some ctl => w.step P c ctl

structure Watched.Started (w : Watched δ ξ) : Prop where
  empty : ∀ a, w.rv.blockMap a = none
  ctl : w.ctl = none
  since : w.since = none

def FreshCode (D : List δ) (a : Word) (irs : List Ir) : Prop :=
  ∃ dev ∈ D, ∃ (rv : Rv ξ) (b : Block), rv.pc = a ∧ blockTranslate P c dev rv = some b ∧ b.irs = irs

/-- The states of memory that an instruction may come from: a kernel is read when the core enters it. -/
def Watched.allowed (w : Watched δ ξ) : Option (List δ) :=
  if w.reenters then some [w.shared.dev] else w.since

/-- The instruction that the core is about to execute is of a block that memory has held since the core last
synchronised. -/
def Watched.RunsFresh (w : Watched δ ξ) : Prop :=
  ∀ f D, w.frame = some f → w.allowed = some D → ∃ irs, FreshCode (ξ := ξ) P c D f.block irs ∧ f.irs <:+ irs

/-- The same with the memory of the synchronisation itself, which is the last one on the list. -/
def Watched.RunsHeld (w : Watched δ ξ) : Prop :=
  ∀ f dev, w.frame = some f → w.allowed.bind List.getLast? = some dev →
    ∃ irs, FreshCode (ξ := ξ) P c [dev] f.block irs ∧ f.irs <:+ irs

/-- Since the core last synchronised, the words of the block that it is in have stayed as they are. -/
def Watched.Unwritten (w : Watched δ ξ) : Prop :=
  ∀ f b D dev, w.frame = some f → w.rv.blockMap f.block = some b → w.allowed = some D →
    D.getLast? = some dev →
    ∀ d ∈ D, ∀ k < blockLength b.irs,
      P.memIfetch d c.coreId (f.block + w32 (4 * k)) = P.memIfetch dev c.coreId (f.block + w32 (4 * k))

def Watched.Current (w : Watched δ ξ) : Prop :=
  w.rv.Caches fun a b => FreshCode (ξ := ξ) P c [w.shared.dev] a b.irs

def Watched.Synced (w : Watched δ ξ) : Prop := w.fences = true ∨ w.reenters = true → w.Current P c

end watched

section map

variable {P : Platform δ ξ} {c : CoreConfig}

theorem chainBlock_irs {rv : Rv ξ} {a : Word} {b : Block} (h : rv.blockMap a = some b) :
    ∃ b', (chainBlock rv).blockMap a = some b' ∧ b'.irs = b.irs := by
  unfold chainBlock
  split
  · exact ⟨b, h, rfl⟩
  case h_2 p _ =>
    split
    · exact ⟨b, h, rfl⟩
    case h_2 b₀ hp =>
      split_ifs
      · by_cases ha : a = p
        · subst ha
          cases hp.symm.trans h
          exact ⟨_, Function.update_self .., rfl⟩
        · exact ⟨b, (Function.update_of_ne ha _ _).trans h, rfl⟩
      · exact ⟨b, h, rfl⟩

theorem blockFindOrTranslate_mem (rv : Rv ξ) (dev : δ) {b : Block}
    (h : (blockFindOrTranslate P c rv dev).2 = some b) :
    (blockFindOrTranslate P c rv dev).1.blockMap rv.pc = some b := by
  unfold blockFindOrTranslate at h ⊢
  split at h
  case h_1 b' hb =>
    cases h
    exact hb
  · dsimp only at h ⊢
    split at h
    · cases h
    · cases h
      have hpc : (if 5 * rv.mapSize > 4 * blockCapacity then blockMapClear rv else rv).pc = rv.pc := by
        split_ifs <;> rfl
      dsimp only
      rw [hpc]
      exact Function.update_self ..

theorem dispatchBlock_mem {rv : Rv ξ} {sh : Shared δ} {target : ℕ} {ctl : Ctl} {f : Frame}
    (h : (dispatchBlock P c rv sh target).ctl = some ctl) (hf : ctl.frame = some f) :
    ∃ b, (dispatchBlock P c rv sh target).rv.blockMap f.block = some b ∧ f.irs = b.irs := by
  unfold dispatchBlock at h ⊢
  dsimp only at h ⊢
  generalize kernelTransition P c (updatePrev rv) sh = k at *
  have hmem (b : Block) :=
    blockFindOrTranslate_mem (P := P) (c := c) (b := b) { k.1 with prePc := k.1.pc } k.2.1.dev
  have hpc := blockFindOrTranslate_pc (P := P) (c := c) { k.1 with prePc := k.1.pc } k.2.1.dev
  generalize blockFindOrTranslate P c { k.1 with prePc := k.1.pc } k.2.1.dev = p at *
  obtain ⟨rv₂, _ | b⟩ := p
  · cases h
  · cases h
    cases hf
    obtain ⟨b', hb', hirs⟩ := chainBlock_irs (hmem b rfl)
    refine ⟨b', ?_, hirs.symm⟩
    have hat : (chainBlock rv₂).pc = k.1.pc := (chainBlock_pc rv₂).trans hpc
    rw [hat]
    exact hb'

end map

section run

variable {P : Platform δ ξ} {c : CoreConfig} {w : Watched δ ξ}

/-- What holds between the turns: the blocks of the map are fresh, and the instructions at hand are those of
a block of the map. -/
structure Watched.Inv (P : Platform δ ξ) (c : CoreConfig) (w : Watched δ ξ) : Prop where
  map : ∀ D, w.since = some D → w.rv.Caches fun a b => FreshCode (ξ := ξ) P c D a b.irs
  frame : ∀ f, w.frame = some f → ∃ b, w.rv.blockMap f.block = some b ∧ f.irs <:+ b.irs

theorem FreshCode.mono {D D' : List δ} {a : Word} {irs : List Ir} (h : FreshCode (ξ := ξ) P c D a irs)
    (hD : D ⊆ D') :
    FreshCode (ξ := ξ) P c D' a irs := by
  obtain ⟨dev, hdev, rest⟩ := h
  exact ⟨dev, hD hdev, rest⟩

theorem Watched.Started.inv (h : w.Started) : w.Inv P c := by
  refine ⟨fun D hD => ?_, fun f hf => ?_⟩
  · rw [h.since] at hD
    cases hD
  · rw [Watched.frame, h.ctl] at hf
    cases hf

theorem Watched.Inv.fresh (h : w.Inv P c) (hs : w.Synced P c) {f : Frame} {D : List δ} (hf : w.frame = some f)
    (hD : w.allowed = some D) :
    ∃ b, w.rv.blockMap f.block = some b ∧ FreshCode (ξ := ξ) P c D f.block b.irs ∧ f.irs <:+ b.irs := by
  obtain ⟨b, hb, hirs⟩ := h.frame f hf
  refine ⟨b, hb, ?_, hirs⟩
  unfold Watched.allowed at hD
  split_ifs at hD with hr
  · cases hD
    exact hs (.inr hr) _ b hb
  · exact h.map D hD _ b hb

theorem Watched.Inv.runsFresh (h : w.Inv P c) (hs : w.Synced P c) : w.RunsFresh P c := by
  intro f D hf hD
  obtain ⟨b, -, hfresh, hirs⟩ := h.fresh hs hf hD
  exact ⟨b.irs, hfresh, hirs⟩

theorem Watched.Inv.runsHeld (h : w.Inv P c) (hs : w.Synced P c) (hu : w.Unwritten P c) : w.RunsHeld P c := by
  intro f dev hf hdev
  obtain ⟨D, hD, hlast⟩ := Option.bind_eq_some_iff.mp hdev
  obtain ⟨b, hb, ⟨d, hd, rv, b', hpc, ht, hirs'⟩, hirs⟩ := h.fresh hs hf hD
  refine ⟨b.irs, ⟨dev, List.mem_singleton_self dev, rv, b', hpc, ?_, hirs'⟩, hirs⟩
  apply blockTranslate_agrees ht
  intro k hk
  rw [hirs'] at hk
  rw [hpc]
  exact hu f b D dev hf hb hD hlast d hd k hk

theorem Watched.Inv.kept (h : w.Inv P c) (hs : w.Synced P c) {dev : δ} {D : List δ}
    (hD : (if w.fences || w.reenters then some [dev, w.shared.dev] else w.since.map (dev :: ·)) = some D) :
    w.rv.Caches fun a b => FreshCode (ξ := ξ) P c D a b.irs := by
  intro a b hb
  split_ifs at hD with hsync
  · cases hD
    exact (hs (by simpa using hsync) a b hb).mono (by simp)
  · obtain ⟨D₀, hD₀, rfl⟩ := Option.map_eq_some_iff.mp hD
    exact (h.map D₀ hD₀ a b hb).mono (List.subset_cons_self _ _)

theorem mem_since {dev dev' : δ} {sync : Bool} {since : Option (List δ)} {D : List δ}
    (hD : (if sync then some [dev, dev'] else since.map (dev :: ·)) = some D) : dev ∈ D := by
  split_ifs at hD
  · cases hD
    exact List.mem_cons_self
  · obtain ⟨D₀, -, rfl⟩ := Option.map_eq_some_iff.mp hD
    exact List.mem_cons_self

theorem fresh_unlinked (D : List δ) : Unlinked fun a b => FreshCode (ξ := ξ) P c D a b.irs := fun _ _ _ h => h

theorem Watched.Inv.dispatched (h : w.Inv P c) (hs : w.Synced P c) (target : ℕ) :
    (w.step P c (.loop target)).Inv P c := by
  refine ⟨fun D hD => ?_, fun f hf => ?_⟩
  · have hmap := h.kept hs hD
    have hdev := mem_since hD
    dsimp only [Watched.step, coreStep] at hdev ⊢
    split_ifs at hdev ⊢
    · refine (dispatchBlock_caches (fresh_unlinked D)
        (kernelTransition_caches (hmap.of_eq updatePrev_blockMap) _)
        (fun rv b hb => ?_) target).1
      rw [dispatchBlock_shared] at hdev
      exact ⟨_, hdev, rv, b, rfl, hb, rfl⟩
    · exact hmap
  · obtain ⟨ctl, hctl, hframe⟩ := Option.bind_eq_some_iff.mp hf
    dsimp only [Watched.step, coreStep] at hctl ⊢
    split_ifs at hctl ⊢
    · obtain ⟨b, hb, hirs⟩ := dispatchBlock_mem hctl hframe
      exact ⟨b, hb, hirs ▸ List.suffix_rfl⟩

theorem coreStep_exec_blockMap (rv : Rv ξ) (sh : Shared δ) (target : ℕ) (block : Word) (f : Frame) :
    (coreStep P c ⟨rv, sh, .exec target block f⟩).rv.blockMap = rv.blockMap := by
  have hkeeps := (execute_keeps (P := P) (c := c) rv sh f).rv.blockMap
  dsimp only [coreStep]
  split <;> exact hkeeps

theorem Watched.Inv.executed (h : w.Inv P c) (hs : w.Synced P c) {target : ℕ} {block : Word} {f : Frame}
    (hctl : w.ctl = some (.exec target block f)) : (w.step P c (.exec target block f)).Inv P c := by
  have hmap := coreStep_exec_blockMap (P := P) (c := c) w.rv w.shared target block f
  refine ⟨fun D hD => (h.kept hs hD).of_eq hmap, fun f' hf' => ?_⟩
  obtain ⟨b, hb, hirs⟩ := h.frame f (by rw [Watched.frame, hctl]; rfl)
  have hflow := execute_follows (P := P) (c := c) w.rv w.shared f
  have hb' : (w.step P c (.exec target block f)).rv.blockMap = w.rv.blockMap := hmap
  rw [hb']
  obtain ⟨ctl, hstep, hframe⟩ := Option.bind_eq_some_iff.mp hf'
  dsimp only [Watched.step, coreStep] at hstep
  split at hstep
  case h_1 f₁ hf₁ =>
    cases hstep
    cases hframe
    rw [hf₁] at hflow
    cases hflow with
    | next hcons _ hblock _ =>
      refine ⟨b, hblock ▸ hb, .trans ?_ hirs⟩
      rw [hcons]
      exact List.suffix_cons _ _
  case h_2 f₁ hf₁ =>
    cases hstep
    cases hframe
    rw [hf₁] at hflow
    cases hflow with
    | jump hjump hirs' => exact ⟨_, hjump, hirs' ▸ List.suffix_rfl⟩
  case h_3 =>
    cases hstep
    cases hframe
  case h_4 => cases hstep

theorem Watched.Inv.turn (h : w.Inv P c) (hs : w.Synced P c) (t : Turn δ) : (w.turn P c t).Inv P c := by
  cases t with
  | others sh =>
    refine ⟨fun D hD => ?_, h.frame⟩
    obtain ⟨D₀, hD₀, rfl⟩ := Option.map_eq_some_iff.mp hD
    intro a b hb
    exact (h.map D₀ hD₀ a b hb).mono (List.subset_cons_self _ _)
  | call =>
    unfold Watched.turn
    dsimp only
    split
    · refine ⟨h.map, ?_⟩
      rintro f ⟨⟩
    · exact h
  | step =>
    unfold Watched.turn
    dsimp only
    split
    · exact h
    case h_2 ctl hctl =>
      cases ctl with
      | loop target => exact h.dispatched hs target
      | exec target block f => exact h.executed hs hctl

theorem Watched.current_of_clears {target : ℕ} (hb : w.rv.csrCycle < target) (hh : w.rv.halt = false)
    (hc : clearsMap c w.rv w.shared = true) : (w.step P c (.loop target)).Current P c := by
  have hclear : clearsMap c (updatePrev w.rv) w.shared = clearsMap c w.rv w.shared := by
    unfold updatePrev
    split
    · split_ifs <;> rfl
    · rfl
  have hempty : (kernelTransition P c (updatePrev w.rv) w.shared).1.Caches
      fun a b => FreshCode (ξ := ξ) P c [(kernelTransition P c (updatePrev w.rv) w.shared).2.1.dev] a
        b.irs := by
    rw [kernelTransition_rv, hclear, if_pos hc]
    exact blockMapClear_caches
  unfold Watched.Current
  dsimp only [Watched.step, coreStep]
  rw [if_pos ⟨hb, hh⟩, dispatchBlock_shared]
  exact (dispatchBlock_caches (fresh_unlinked _) hempty
    (fun rv b hb => ⟨_, List.mem_cons_self, rv, b, rfl, hb, rfl⟩) target).1

end run

section patched

def ramPlatform : Platform (List Word) Unit where
  memReadW := fun m _ a => (m.getD (a.toNat / 4) 0, m)
  memWriteW := fun m _ a v => m.set (a.toNat / 4) v
  memReadS := fun _ _ _ => 0
  memReadB := fun _ _ _ => 0
  memWriteS := fun m _ _ _ => m
  memWriteB := fun m _ _ _ => m
  memIfetch := fun m _ a => m.getD (a.toNat / 4) 0
  tensixDirect := fun m _ _ => (true, m)
  tensixStep := fun m _ => m
  tensixClear := id
  clearRta := fun m _ => m
  decode := extDecode
  constopt := extConstopt
  run := extRun ⟨fun _ _ _ _ => (0, ()), fun _ _ => 0, fun _ _ _ => (), fun _ _ => (0, ()), fun _ _ _ => (),
    fun _ => ((), 0), fun _ _ => ([], (), id, false)⟩ fun _ _ _ epc => ((), epc, true)
  trap := fun _ _ _ epc => ((), epc, true)
  irPool := 64

def ncriscConfig : CoreConfig := ⟨3, false, 100⟩

/-- A program that overwrites its first instruction, `addi x5, x5, 1`, by the word behind it,
`addi x5, x5, 2`, executes FENCE.I and starts again. -/
def patching : List Word :=
  [0x00128293, 0x02002303, 0x00602023, 0x0000100F, 0xFF1FF06F, 0, 0, 0, 0x00228293]

def patched : List Word := patching.set 0 0x00228293

def Watched.boot (m : List Word) : Watched (List Word) Unit :=
  ⟨Rv.reset, ⟨.init, m, 0, false, 0⟩, none, none, none, false⟩

def Watched.turns (P : Platform δ ξ) (c : CoreConfig) : Watched δ ξ → List (Turn δ) → Watched δ ξ :=
  List.foldl fun w t => w.turn P c t

theorem Watched.turns_run (P : Platform δ ξ) (c : CoreConfig) (w : Watched δ ξ) (ts : List (Turn δ)) :
    Run (fun w t w' => w' = w.turn P c t) w ts (w.turns P c ts) := by
  induction ts generalizing w with
  | nil => exact .nil w
  | cons t ts ih => exact .cons rfl (ih _)

theorem Watched.turns_synced {P : Platform δ ξ} {c : CoreConfig} {w : Watched δ ξ} {ts : List (Turn δ)}
    (h : ∀ n < ts.length, (w.turns P c (ts.take n)).Synced P c) :
    Run (fun w t w' => w' = w.turn P c t ∧ w.Synced P c) w ts (w.turns P c ts) := by
  induction ts generalizing w with
  | nil => exact .nil w
  | cons t ts ih =>
    exact .cons ⟨rfl, h 0 (Nat.succ_pos _)⟩ (ih fun n hn => h (n + 1) (Nat.succ_lt_succ hn))

theorem boot_started (m : List Word) : (Watched.boot m).Started := ⟨fun _ => rfl, rfl, rfl⟩

theorem patched_translates {rv : Rv Unit} {b : Block} (hpc : rv.pc = 0)
    (hb : blockTranslate ramPlatform ncriscConfig patched rv = some b) :
    b.irs.map (fun ir => ir.imm) = [2, 32, 0, 0] := by
  unfold blockTranslate at hb
  obtain ⟨irs, hl, hb⟩ := Option.bind_eq_some_iff.mp hb
  split_ifs at hb
  cases hb
  rw [hpc] at hl
  have hirs : ∃ irs, translateLoop ramPlatform ncriscConfig patched rv.x 64 0 (fun _ => 0) = some irs ∧
      (matchPattern (optimizeConstant ramPlatform ⟨fun r => r = 0, fun _ => 0⟩ irs).length
        (optimizeConstant ramPlatform ⟨fun r => r = 0, fun _ => 0⟩ irs)).map (fun ir => ir.imm) =
          [2, 32, 0, 0] :=
    ⟨_, rfl, rfl⟩
  obtain ⟨irs', hl', himm⟩ := hirs
  cases hl'.symm.trans hl
  exact himm

/-- `addi x5, x5, 1; fence.i; sw x5, 16(x0); jal x0, -12`, with a data word behind it. -/
def fencing : List Word := [0x00128293, 0x0000100F, 0x00502823, 0xFF5FF06F, 0]

/-- After eight of these turns the program has come to its ADDI again, behind the FENCE.I and the store. -/
def fencingTurns : List (Turn (List Word)) := .call :: List.replicate 8 .step

def fencingCore (n : ℕ) : Watched (List Word) Unit :=
  (Watched.boot fencing).turns ramPlatform ncriscConfig (fencingTurns.take n)

theorem fencing_synced (n : ℕ) (hn : n < 9) : (fencingCore n).Synced ramPlatform ncriscConfig := by
  have hother : ∀ n < 9, n ≠ 3 → ((fencingCore n).fences || (fencingCore n).reenters) = false := by
    decide +kernel
  intro hsync
  obtain rfl : n = 3 := by
    by_contra hne
    have := hother n hn hne
    simp_all
  intro a b hb
  have hmap : Function.update (fun _ => none) 0 (blockTranslate ramPlatform ncriscConfig fencing Rv.reset)
      a = some b :=
    hb
  by_cases ha : a = 0
  · subst ha
    exact ⟨fencing, List.mem_cons_self, Rv.reset, b, rfl, hmap, rfl⟩
  · rw [Function.update_of_ne ha] at hmap
    cases hmap

theorem fencing_unwritten : (fencingCore 8).Unwritten ramPlatform ncriscConfig := by
  intro f b D dev hf hb hD hdev
  have hblock : (fencingCore 8).frame.map (·.block) = some 0 := by decide +kernel
  have hlength : ((fencingCore 8).rv.blockMap 0).map (fun b => blockLength b.irs) = some 2 := by
    decide +kernel
  have hallowed : (fencingCore 8).allowed =
      some [fencing.set 4 1, fencing.set 4 1, fencing.set 4 1, fencing, fencing, fencing] := by
    decide +kernel
  rw [hf] at hblock
  have hblock : f.block = 0 := Option.some.inj hblock
  rw [hblock] at hb ⊢
  rw [hb] at hlength
  have hlength : blockLength b.irs = 2 := Option.some.inj hlength
  cases hallowed.symm.trans hD
  cases hdev
  rw [hlength]
  decide

end patched

end Rv32Emu
