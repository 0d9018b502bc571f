import Rv32Emu.Rv.BlockRun

namespace Rv32Emu

variable {δ ξ : Type} {P : Platform δ ξ} {c : CoreConfig} {rv rv' : Rv ξ} {sh sh' : Shared δ} {f : Frame}
  {ir g : Ir}
  {run rest : List Ir} {gs : List OpcodeFuse} {n : ℕ} {cause : Word}

section past

def Frame.past (f : Frame) (n : ℕ) : Frame := { f with cycle := f.cycle + n, pc := f.pc + w32 (4 * n) }

theorem Frame.past_zero (f : Frame) : f.past 0 = f := by
  have hpc : f.pc + w32 (4 * 0) = f.pc := BitVec.add_zero _
  unfold Frame.past
  rw [hpc]
  rfl

theorem Frame.past_past (f : Frame) (m n : ℕ) : (f.past m).past n = f.past (m + n) := by
  have hpc : w32 (4 * (m + n)) = w32 (4 * m) + w32 (4 * n) := by rw [Nat.mul_add, w32_add]
  unfold Frame.past
  rw [hpc, ← Nat.add_assoc, ← BitVec.add_assoc]

theorem runIrs_retires {events : List TileEvent}
    (h : (execute P c rv sh { f with irs := ir :: rest }).Agrees
      (endOp rv' sh' f rest n (f.pc + w32 (4 * n)) events)) :
    (runIrs P c (ir :: rest) rv sh f).effect = (runIrs P c rest rv' sh' (f.past n)).effect := by
  cases rest with
  | nil =>
    rw [runIrs_single, h.effect]
    rfl
  | cons next rest =>
    unfold runIrs
    obtain ⟨hrv, hsh, hflow⟩ := h
    generalize execute P c rv sh { f with irs := ir :: next :: rest } = e at *
    dsimp only
    cases he : e.flow with
    | next f' =>
      rw [he] at hflow
      have hbare : ({ f' with irs := [] } : Frame) = { f.past n with irs := [] } := by injection hflow
      dsimp only
      rw [hrv, hsh, ← runIrs_bare, hbare, runIrs_bare]
      rfl
    | jump f' | ret ok counted =>
      rw [he] at hflow
      cases hflow

end past

section group

abbrev MemberStep (δ ξ : Type) := Rv ξ → Shared δ → OpcodeFuse → Option (Rv ξ × Shared δ)

inductive GroupEnd (δ ξ : Type)
  | done (rv : Rv ξ) (sh : Shared δ)
  | trapped (k : ℕ) (rv : Rv ξ) (sh : Shared δ) (addr : Word)

def GroupEnd.later (n : ℕ) : GroupEnd δ ξ → GroupEnd δ ξ
  | done rv sh => done rv sh
  | trapped k rv sh addr => trapped (k + n) rv sh addr

def groupRun (step : MemberStep δ ξ) : List OpcodeFuse → Rv ξ → Shared δ → GroupEnd δ ξ
  | [], rv, sh => .done rv sh
  | g :: gs, rv, sh =>
    match step rv sh g with
    | some (rv', sh') => (groupRun step gs rv' sh').later 1
    | none => .trapped 0 rv sh (rv.x g.rs1 + g.imm)

variable {step : MemberStep δ ξ}

theorem groupRun_append (gs gs' : List OpcodeFuse) (rv : Rv ξ) (sh : Shared δ) :
    groupRun step (gs ++ gs') rv sh = match groupRun step gs rv sh with
      | .done rv' sh' => (groupRun step gs' rv' sh').later gs.length
      | trapped => trapped := by
  induction gs generalizing rv sh with
  | nil =>
    rw [List.nil_append, groupRun]
    dsimp only
    cases groupRun step gs' rv sh <;> rfl
  | cons g gs ih =>
    simp only [List.cons_append, groupRun]
    cases step rv sh g with
    | none => rfl
    | some s =>
      dsimp only
      rw [ih s.1 s.2]
      cases groupRun step gs s.1 s.2 with
      | done rv' sh' =>
        dsimp only [GroupEnd.later]
        cases groupRun step gs' rv' sh' <;> rfl
      | trapped k rv' sh' addr => rfl

theorem groupRun_trapped_lt {k : ℕ} {addr : Word} (h : groupRun step gs rv sh = .trapped k rv' sh' addr) :
    k < gs.length := by
  induction gs generalizing rv sh k with
  | nil => cases h
  | cons g gs ih =>
    rw [groupRun] at h
    cases hg : step rv sh g with
    | none =>
      rw [hg] at h
      cases h
      exact Nat.succ_pos _
    | some s =>
      rw [hg] at h
      dsimp only at h
      cases ht : groupRun step gs s.1 s.2 with
      | done rv₁ sh₁ =>
        rw [ht] at h
        cases h
      | trapped k' rv₁ sh₁ addr' =>
        rw [ht] at h
        cases h
        exact Nat.succ_lt_succ (ih ht)

def Ir.Steps (P : Platform δ ξ) (c : CoreConfig) (cause : Word) (step : MemberStep δ ξ) (ir : Ir) : Prop :=
  ∀ (rv : Rv ξ) (sh : Shared δ) (f : Frame) (rest : List Ir), f.irs = ir :: rest → ∃ events,
    execute P c rv sh f = match step rv sh ir.toOpcodeFuse with
      | some (rv', sh') => endOp rv' sh' f rest 1 (f.pc + 4) events
      | none => trapOp P rv sh f 1 cause (rv.x ir.rs1 + ir.imm) events

/-- The handler of `g` goes through the group `gs`. It counts all of it in either case, and a trap is at its
own address. -/
def Ir.Fuses (P : Platform δ ξ) (c : CoreConfig) (cause : Word) (step : MemberStep δ ξ) (g : Ir)
    (gs : List OpcodeFuse) : Prop :=
  ∀ (rv : Rv ξ) (sh : Shared δ) (f : Frame) (rest : List Ir), f.irs = g :: rest → ∃ events,
    execute P c rv sh f = match groupRun step gs rv sh with
      | .done rv' sh' => endOp rv' sh' f rest gs.length (f.pc + w32 (4 * gs.length)) events
      | .trapped _ rv' sh' addr => trapOp P rv' sh' f gs.length cause addr events

/-- What is left after a group of `n` with `rest` behind it, where a trap after `k` members is taken in the
frame `trapAt k` and counts `count` instructions. -/
def GroupEnd.effect (P : Platform δ ξ) (c : CoreConfig) (cause : Word) (rest : List Ir) (f : Frame) (n : ℕ)
    (trapAt : ℕ → Frame) (count : ℕ) : GroupEnd δ ξ → Effect δ ξ
  | done rv sh => (runIrs P c rest rv sh (f.past n)).effect
  | trapped k rv sh addr => (trapOp P rv sh (trapAt k) count cause addr []).effect

theorem runIrs_trap {rv₁ : Rv ξ} {sh₁ : Shared δ} {addr : Word} {events : List TileEvent}
    (h : execute P c rv sh { f with irs := ir :: rest } =
      trapOp P rv₁ sh₁ { f with irs := ir :: rest } n cause addr events) :
    (runIrs P c (ir :: rest) rv sh f).effect = (trapOp P rv₁ sh₁ f n cause addr []).effect := by
  rw [runIrs, h]
  rfl

theorem group_runs (h : ∀ ir ∈ run, ir.Steps P c cause step) (rest : List Ir) (rv : Rv ξ) (sh : Shared δ)
    (f : Frame) :
    (runIrs P c (run ++ rest) rv sh f).effect =
      (groupRun step (run.map Ir.toOpcodeFuse) rv sh).effect P c cause rest f run.length f.past 1 := by
  induction run generalizing rv sh f with
  | nil =>
    rw [List.map_nil, groupRun, GroupEnd.effect, List.length_nil, f.past_zero]
    rfl
  | cons ir run ih =>
    obtain ⟨hir, hrun⟩ := List.forall_mem_cons.mp h
    obtain ⟨events, he⟩ := hir rv sh { f with irs := ir :: (run ++ rest) } (run ++ rest) rfl
    rw [List.map_cons, groupRun]
    cases hs : step rv sh ir.toOpcodeFuse with
    | none =>
      rw [hs] at he
      rw [List.cons_append, runIrs_trap he]
      dsimp only [GroupEnd.effect]
      rw [f.past_zero]
    | some s =>
      rw [hs] at he
      have hagrees : (execute P c rv sh { f with irs := ir :: (run ++ rest) }).Agrees
          (endOp s.1 s.2 f (run ++ rest) 1 (f.pc + w32 (4 * 1)) events) := by
        rw [he]
        exact endOp_agrees .rfl
      rw [List.cons_append, runIrs_retires hagrees, ih hrun s.1 s.2 (f.past 1)]
      dsimp only
      cases groupRun step (run.map Ir.toOpcodeFuse) s.1 s.2 with
      | done rv' sh' =>
        simp only [GroupEnd.effect, GroupEnd.later, Frame.past_past, List.length_cons, Nat.add_comm 1]
      | trapped k rv' sh' addr => simp only [GroupEnd.effect, GroupEnd.later, Frame.past_past, Nat.add_comm 1]

theorem fused_runs (h : g.Fuses P c cause step gs) (rest : List Ir) (rv : Rv ξ) (sh : Shared δ) (f : Frame) :
    (runIrs P c (g :: rest) rv sh f).effect =
      (groupRun step gs rv sh).effect P c cause rest f gs.length (fun _ => f) gs.length := by
  obtain ⟨events, he⟩ := h rv sh { f with irs := g :: rest } rest rfl
  cases hs : groupRun step gs rv sh with
  | done rv' sh' =>
    rw [hs] at he
    apply runIrs_retires
    rw [he]
    exact endOp_agrees .rfl
  | trapped k rv' sh' addr =>
    rw [hs] at he
    exact runIrs_trap he

end group

section runsAlike

variable {rest' : List Ir} {step : MemberStep δ ξ}

def Platform.withTrap (P : Platform δ ξ) (trap : ξ → Word → Word → Word → ξ × Word × Bool) : Platform δ ξ :=
  { P with trap }

/-- Two blocks have the same effect, whatever the trap handler makes of the trap that is reported to it. -/
def RunsAlike (P : Platform δ ξ) (c : CoreConfig) (irs irs' : List Ir) (rv : Rv ξ) (sh : Shared δ)
    (f : Frame) :
    Prop :=
  ∀ trap, (runIrs (P.withTrap trap) c irs rv sh f).effect = (runIrs (P.withTrap trap) c irs' rv sh f).effect

theorem runsAlike_done (hrun : ∀ trap, ∀ ir ∈ run, ir.Steps (P.withTrap trap) c cause step)
    (hg : ∀ trap, g.Fuses (P.withTrap trap) c cause step (run.map Ir.toOpcodeFuse))
    (h : groupRun step (run.map Ir.toOpcodeFuse) rv sh = .done rv' sh') :
    RunsAlike P c (run ++ rest) (g :: rest') rv sh f ↔
      RunsAlike P c rest rest' rv' sh' (f.past run.length) := by
  apply forall_congr'
  intro trap
  rw [group_runs (hrun trap), fused_runs (hg trap), h, List.length_map]
  rfl

theorem trapped_differs (P : Platform δ ξ) (rv : Rv ξ) (sh : Shared δ) (f : Frame) (cause addr : Word) {k : ℕ}
    (hk : k < n) (htwo : 2 ≤ n) (hshort : n ≤ 256) :
    ∃ trap, (trapOp (P.withTrap trap) rv sh (f.past k) 1 cause addr []).effect ≠
      (trapOp (P.withTrap trap) rv sh f n cause addr []).effect := by
  refine ⟨fun ext _ _ epc => (ext, epc, false), fun h => ?_⟩
  have hpc : f.pc + w32 (4 * k) = f.pc := congrArg Effect.pc h
  have hcycle : f.cycle + k + 1 = f.cycle + n := congrArg Effect.cycle h
  have hk256 : k < 256 := hk.trans_le hshort
  have hzero : (w32 (4 * k)).toNat = 0 := by
    rw [BitVec.add_right_eq_self.mp hpc]
    rfl
  rw [w32, BitVec.toNat_ofNat, Nat.mod_eq_of_lt (by omega)] at hzero
  omega

theorem not_runsAlike_trapped {k : ℕ} {addr : Word}
    (hrun : ∀ trap, ∀ ir ∈ run, ir.Steps (P.withTrap trap) c cause step)
    (hg : ∀ trap, g.Fuses (P.withTrap trap) c cause step (run.map Ir.toOpcodeFuse))
    (htwo : 2 ≤ run.length) (hshort : run.length ≤ 256)
    (h : groupRun step (run.map Ir.toOpcodeFuse) rv sh = .trapped k rv' sh' addr) :
    ¬RunsAlike P c (run ++ rest) (g :: rest') rv sh f := by
  have hk : k < run.length := by
    rw [← List.length_map]
    exact groupRun_trapped_lt h
  obtain ⟨trap, hne⟩ := trapped_differs P rv' sh' f cause addr hk htwo hshort
  intro hsame
  apply hne
  have heq := hsame trap
  rw [group_runs (hrun trap), fused_runs (hg trap), h, List.length_map] at heq
  exact heq

end runsAlike

section members

def regMember (s : Rv ξ → OpcodeFuse → Rv ξ) : MemberStep δ ξ := fun rv sh g => some (s rv g, sh)

def luiStep (rv : Rv ξ) (g : OpcodeFuse) : Rv ξ := rv.setX g.rd g.imm

def luiAddStep (rv : Rv ξ) (g : OpcodeFuse) : Rv ξ :=
  match g.opcode with
  | .lui => luiStep rv g
  | _ => rv.setX g.rd (rv.x g.rs1 + rv.x g.rs2)

def storeMember (P : Platform δ ξ) (c : CoreConfig) : MemberStep δ ξ := fun rv sh g =>
  let addr := rv.x g.rs1 + g.imm
  if misaligned addr 3 then none else some (rv, onMemWriteW P c sh addr (rv.x g.rs2))

def loadMember (P : Platform δ ξ) (c : CoreConfig) : MemberStep δ ξ := fun rv sh g =>
  let addr := rv.x g.rs1 + g.imm
  if misaligned addr 3 then none
  else
    let (v, sh) := onMemReadW P c sh addr
    some (rv.setX g.rd v, sh)

theorem groupRun_foldl (s : Rv ξ → OpcodeFuse → Rv ξ) (gs : List OpcodeFuse) (rv : Rv ξ) (sh : Shared δ) :
    groupRun (regMember s) gs rv sh = .done (gs.foldl s rv) sh := by
  induction gs generalizing rv with
  | nil => rfl
  | cons g gs ih =>
    change GroupEnd.later 1 (groupRun (regMember s) gs (s rv g) sh) = _
    rw [ih]
    rfl

theorem fuse3Loop_group (gs : List OpcodeFuse) (rv : Rv ξ) (sh : Shared δ) (pc : Word) :
    ∃ k, groupRun (storeMember P c) gs rv sh = match (fuse3Loop P c sh rv.x pc gs).fault with
      | none => .done rv (fuse3Loop P c sh rv.x pc gs).shared
      | some addr => .trapped k rv (fuse3Loop P c sh rv.x pc gs).shared addr := by
  induction gs generalizing sh pc with
  | nil => exact ⟨0, rfl⟩
  | cons g gs ih =>
    unfold groupRun fuse3Loop
    by_cases hm : misaligned (rv.x g.rs1 + g.imm) 3 = true
    · simp only [storeMember, hm, if_true]
      exact ⟨0, rfl⟩
    · simp only [storeMember, hm]
      obtain ⟨k, hk⟩ := ih (onMemWriteW P c sh (rv.x g.rs1 + g.imm) (rv.x g.rs2)) (pc + 4)
      refine ⟨k + 1, ?_⟩
      change GroupEnd.later 1 (groupRun (storeMember P c) gs rv _) = _
      rw [hk]
      cases (fuse3Loop P c (onMemWriteW P c sh (rv.x g.rs1 + g.imm) (rv.x g.rs2)) rv.x (pc + 4) gs).fault
        <;> rfl

theorem fuse4Loop_group (gs : List OpcodeFuse) (rv : Rv ξ) (sh : Shared δ) (pc : Word) :
    ∃ k, groupRun (loadMember P c) gs rv sh = match (fuse4Loop P c sh rv.x pc gs).fault with
      | none => .done { rv with x := (fuse4Loop P c sh rv.x pc gs).x } (fuse4Loop P c sh rv.x pc gs).shared
      | some addr =>
        .trapped k { rv with x := (fuse4Loop P c sh rv.x pc gs).x } (fuse4Loop P c sh rv.x pc gs).shared
          addr := by
  induction gs generalizing rv sh pc with
  | nil => exact ⟨0, rfl⟩
  | cons g gs ih =>
    unfold groupRun fuse4Loop
    by_cases hm : misaligned (rv.x g.rs1 + g.imm) 3 = true
    · simp only [loadMember, hm, if_true]
      exact ⟨0, rfl⟩
    · simp only [loadMember, hm]
      obtain ⟨k, hk⟩ := ih (rv.setX g.rd (onMemReadW P c sh (rv.x g.rs1 + g.imm)).1)
        (onMemReadW P c sh (rv.x g.rs1 + g.imm)).2 (pc + 4)
      refine ⟨k + 1, ?_⟩
      change GroupEnd.later 1 (groupRun (loadMember P c) gs _ _) = _
      rw [hk]
      dsimp only [Rv.setX]
      cases (fuse4Loop P c (onMemReadW P c sh (rv.x g.rs1 + g.imm)).2
        (Function.update rv.x g.rd (onMemReadW P c sh (rv.x g.rs1 + g.imm)).1) (pc + 4) gs).fault <;> rfl

end members

section handlers

theorem lui_steps (hop : isLui ir.opcode = true) (hi : ir.impl = .dispatch ir.opcode) :
    ir.Steps P c cause (regMember luiStep) := by
  intro rv sh f rest hf
  refine ⟨[], ?_⟩
  rw [isLui_iff.mp hop] at hi
  simp only [execute, hf, hi]
  rfl

theorem luiAdd_steps (hop : isLui ir.opcode = true ∨ ir.opcode = .alu .add)
    (hi : ir.impl = .dispatch ir.opcode) :
    ir.Steps P c cause (regMember luiAddStep) := by
  intro rv sh f rest hf
  refine ⟨[], ?_⟩
  obtain hop | hop := hop
  · rw [isLui_iff] at hop
    simp only [execute, hf, hi, hop, regMember, luiAddStep]
    rfl
  · simp only [execute, hf, hi, hop, regMember, luiAddStep]
    rfl

theorem shift_steps (hop : isShift ir.opcode = true) (hi : ir.impl = .dispatch ir.opcode) :
    ir.Steps P c cause (regMember shiftFunc) := by
  intro rv sh f rest hf
  refine ⟨[], ?_⟩
  obtain ⟨op, hop⟩ := isShift_imm hop
  simp only [execute, hf, hi, hop, regMember, shiftFunc]
  rfl

theorem sw_steps (hop : isSw ir.opcode = true) (hi : ir.impl = .dispatch ir.opcode) :
    ir.Steps P c storeMisaligned (storeMember P c) := by
  intro rv sh f rest hf
  rw [isSw_iff.mp hop] at hi
  simp only [execute, hf, hi, dispatchOp, doSw, storeMember]
  by_cases hm : misaligned (rv.x ir.rs1 + ir.imm) 3 = true
  · simp only [hm, if_true]
    exact ⟨_, rfl⟩
  · simp only [hm]
    exact ⟨_, rfl⟩

theorem lw_steps (hop : isLw ir.opcode = true) (hi : ir.impl = .dispatch ir.opcode) :
    ir.Steps P c loadMisaligned (loadMember P c) := by
  intro rv sh f rest hf
  rw [isLw_iff.mp hop] at hi
  simp only [execute, hf, hi, dispatchOp, doLw, loadMember]
  by_cases hm : misaligned (rv.x ir.rs1 + ir.imm) 3 = true
  · simp only [hm, if_true]
    exact ⟨_, rfl⟩
  · simp only [hm]
    exact ⟨_, rfl⟩

theorem fuse1_fuses (ir : Ir) (run : List Ir) :
    (ir.fuseWith .fuse1 run).Fuses P c cause (regMember luiStep) ((ir :: run).map Ir.toOpcodeFuse) := by
  intro rv sh f rest hf
  refine ⟨[], ?_⟩
  rw [groupRun_foldl]
  simp only [execute, hf, Ir.fuseWith]
  rfl

theorem fuse5_fuses (ir : Ir) (run : List Ir) :
    (ir.fuseWith .fuse5 run).Fuses P c cause (regMember shiftFunc) ((ir :: run).map Ir.toOpcodeFuse) := by
  intro rv sh f rest hf
  refine ⟨[], ?_⟩
  rw [groupRun_foldl]
  simp only [execute, hf, Ir.fuseWith]
  rfl

theorem fuse3_fuses (ir : Ir) (run : List Ir) :
    (ir.fuseWith .fuse3 run).Fuses P c storeMisaligned (storeMember P c)
      ((ir :: run).map Ir.toOpcodeFuse) := by
  intro rv sh f rest hf
  obtain ⟨k, hk⟩ := fuse3Loop_group (P := P) (c := c) ((ir :: run).map Ir.toOpcodeFuse) rv sh f.pc
  rw [hk]
  simp only [execute, hf, Ir.fuseWith, dispatchOp, doFuse3, ← List.map_cons]
  cases (fuse3Loop P c sh rv.x f.pc ((ir :: run).map Ir.toOpcodeFuse)).fault with
  | none => exact ⟨_, rfl⟩
  | some addr => exact ⟨_, rfl⟩

theorem fuse4_fuses (ir : Ir) (run : List Ir) :
    (ir.fuseWith .fuse4 run).Fuses P c loadMisaligned (loadMember P c) ((ir :: run).map Ir.toOpcodeFuse) := by
  intro rv sh f rest hf
  obtain ⟨k, hk⟩ := fuse4Loop_group (P := P) (c := c) ((ir :: run).map Ir.toOpcodeFuse) rv sh f.pc
  rw [hk]
  simp only [execute, hf, Ir.fuseWith, dispatchOp, doFuse4, ← List.map_cons]
  cases (fuse4Loop P c sh rv.x f.pc ((ir :: run).map Ir.toOpcodeFuse)).fault with
  | none => exact ⟨_, rfl⟩
  | some addr => exact ⟨_, rfl⟩

end handlers

end Rv32Emu
