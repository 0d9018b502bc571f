import Mathlib.Data.List.TakeWhile
import Rv32Emu.Rv.Groups
import Rv32Emu.Rv.WellFormed

namespace Rv32Emu

variable {δ ξ : Type} {P : Platform δ ξ} {c : CoreConfig} {rv rv' : Rv ξ} {sh sh' : Shared δ} {f : Frame}
  {ir g : Ir}
  {irs run rest tail : List Ir} {prev : Opcode}

section spoils

def paired (a b : Opcode) : Bool := isLw a && isLw b || isSw a && isSw b

def stalls (c : CoreConfig) (sh : Shared δ) : Bool :=
  c.tensix && (mailboxCoreIndex c.coreId).any fun mci => sh.mail.stall mci

def isMailbox : Impl → Bool
  | .lwMailbox => true
  | _ => false

/-- A load or store that does not retire, or should not: its address is misaligned, or it is the load of a
mailbox that is empty. -/
def Ir.irregular (P : Platform δ ξ) (c : CoreConfig) (ir : Ir) (rv : Rv ξ) (sh : Shared δ) : Bool :=
  misaligned (rv.x ir.rs1 + ir.imm) 3 ||
    isMailbox ir.impl && stalls c (onMemReadW P c sh (rv.x ir.rs1 + ir.imm)).2

/-- In the run of the block as it is, a load or store is irregular that has another one next to it. `prev` is
the instruction before the list. -/
def spoilsGroup (P : Platform δ ξ) (c : CoreConfig) : Opcode → List Ir → Rv ξ → Shared δ → Frame → Bool
  | _, [], _, _, _ => false
  | prev, ir :: rest, rv, sh, f =>
    (paired prev ir.opcode || rest.head?.any (paired ir.opcode ·.opcode)) && ir.irregular P c rv sh ||
      match (execute P c rv sh { f with irs := ir :: rest }).flow with
      | .next f' =>
        spoilsGroup P c ir.opcode rest (execute P c rv sh { f with irs := ir :: rest }).rv
          (execute P c rv sh { f with irs := ir :: rest }).shared f'
      | _ => false

structure GroupKind (P : Platform δ ξ) (c : CoreConfig) (kind : Opcode → Bool) (access : Bool) (cause : Word)
    (step : MemberStep δ ξ) : Prop where
  steps : ∀ ir : Ir, kind ir.opcode = true → ir.impl = .dispatch ir.opcode → ir.Steps P c cause step
  before : ∀ a b, kind b = true → paired a b = (access && kind a)
  behind : ∀ a b, kind a = true → paired a b = (access && kind b)
  irregular : access = true → ∀ (ir : Ir) (rv : Rv ξ) (sh : Shared δ), ir.impl = .dispatch ir.opcode →
    ir.irregular P c rv sh = (step rv sh ir.toOpcodeFuse).isNone
  total : access = false → ∀ (rv : Rv ξ) (sh : Shared δ) (g : OpcodeFuse), (step rv sh g).isNone = false
  loads : kind .lw = true → kind = isLw ∧ cause = loadMisaligned ∧ step = loadMember P c
  core : kind .ttinsn = false

variable {kind : Opcode → Bool} {access : Bool} {cause : Word} {step : MemberStep δ ξ}

theorem spoils_cons (hs : ir.Steps P c cause step)
    (hir : ((paired prev ir.opcode || rest.head?.any (paired ir.opcode ·.opcode)) && ir.irregular P c rv sh) =
      (step rv sh ir.toOpcodeFuse).isNone) :
    spoilsGroup P c prev (ir :: rest) rv sh f = match step rv sh ir.toOpcodeFuse with
      | some (rv', sh') => spoilsGroup P c ir.opcode rest rv' sh' (f.past 1)
      | none => true := by
  obtain ⟨events, he⟩ := hs rv sh { f with irs := ir :: rest } rest rfl
  rw [spoilsGroup, hir, he]
  cases step rv sh ir.toOpcodeFuse with
  | none => rfl
  | some s =>
    cases rest with
    | nil => rfl
    | cons next rest => rfl

def lastOp (prev : Opcode) (run : List Ir) : Opcode := run.foldl (fun _ ir => ir.opcode) prev

theorem lastOp_kind (prev : Opcode) (hne : run ≠ []) (hrun : ∀ ir ∈ run, kind ir.opcode = true) :
    kind (lastOp prev run) = true := by
  induction run generalizing prev with
  | nil => exact absurd rfl hne
  | cons ir run ih =>
    obtain ⟨hir, htail⟩ := List.forall_mem_cons.mp hrun
    cases run with
    | nil => exact hir
    | cons next run => exact ih ir.opcode (List.cons_ne_nil _ _) htail

theorem spoils_group (K : GroupKind P c kind access cause step)
    (hrun : ∀ ir ∈ run, kind ir.opcode = true ∧ ir.impl = .dispatch ir.opcode)
    (hpair : kind prev = true ∨ ∃ next ∈ (run ++ rest)[1]?, kind next.opcode = true) :
    spoilsGroup P c prev (run ++ rest) rv sh f = match groupRun step (run.map Ir.toOpcodeFuse) rv sh with
      | .done rv' sh' => spoilsGroup P c (lastOp prev run) rest rv' sh' (f.past run.length)
      | .trapped .. => true := by
  induction run generalizing prev rv sh f with
  | nil =>
    rw [List.map_nil, groupRun, List.length_nil, f.past_zero]
    rfl
  | cons ir run ih =>
    obtain ⟨⟨hkind, hi⟩, htail⟩ := List.forall_mem_cons.mp hrun
    have hir : ((paired prev ir.opcode || (run ++ rest).head?.any (paired ir.opcode ·.opcode)) &&
        ir.irregular P c rv sh) = (step rv sh ir.toOpcodeFuse).isNone := by
      cases access with
      | false =>
        rw [K.total rfl, K.before _ _ hkind]
        have hnext : (run ++ rest).head?.any (paired ir.opcode ·.opcode) = false := by
          rw [Option.any_eq_false_iff_get]
          intro h
          rw [K.behind _ _ hkind]
          rfl
        rw [hnext]
        rfl
      | true =>
        rw [← K.irregular rfl ir rv sh hi, K.before _ _ hkind]
        obtain hprev | ⟨next, hnext, hk⟩ := hpair
        · rw [hprev]
          rfl
        · have hhead : (run ++ rest).head? = some next := by
            rw [List.head?_eq_getElem?]
            exact hnext
          rw [hhead, Option.any_some, K.behind _ _ hkind, hk, Bool.or_comm]
          rfl
    rw [List.cons_append, spoils_cons (K.steps ir hkind hi) hir, List.map_cons, groupRun]
    cases step rv sh ir.toOpcodeFuse with
    | none => rfl
    | some s =>
      dsimp only
      rw [ih htail (.inl hkind)]
      cases groupRun step (run.map Ir.toOpcodeFuse) s.1 s.2 with
      | done rv' sh' =>
        dsimp only [GroupEnd.later]
        rw [f.past_past, List.length_cons, Nat.add_comm 1]
        rfl
      | trapped k rv' sh' addr => rfl

end spoils

section kinds

theorem paired_lw {a b : Opcode} (h : isLw b = true) : paired a b = isLw a := by
  rw [isLw_iff.mp h]
  simp [paired, isLw, isSw]

theorem paired_sw {a b : Opcode} (h : isSw b = true) : paired a b = isSw a := by
  rw [isSw_iff.mp h]
  simp [paired, isLw, isSw]

theorem paired_comm (a b : Opcode) : paired a b = paired b a := by
  rw [paired, paired, Bool.and_comm, Bool.and_comm (isSw a)]

theorem GroupKind.of_reg {kind : Opcode → Bool} {s : Rv ξ → OpcodeFuse → Rv ξ} {cause : Word}
    (hsteps : ∀ ir : Ir, kind ir.opcode = true → ir.impl = .dispatch ir.opcode →
      ir.Steps P c cause (regMember s))
    (hnot : ∀ a, kind a = true → isLw a = false ∧ isSw a = false) (hcore : kind .ttinsn = false) :
    GroupKind P c kind false cause (regMember s) where
  steps := hsteps
  before := by
    intro a b hb
    rw [paired_comm, paired, (hnot b hb).1, (hnot b hb).2]
    rfl
  behind := by
    intro a b ha
    rw [paired, (hnot a ha).1, (hnot a ha).2]
    rfl
  irregular := nofun
  total := fun _ _ _ _ => rfl
  loads := fun hlw => absurd (hnot _ hlw).1 Bool.true_eq_false.mp
  core := hcore

theorem lui_kind : GroupKind P c isLui false 0 (regMember luiStep) := by
  refine GroupKind.of_reg (fun ir => lui_steps) ?_ rfl
  intro a ha
  rw [isLui_iff.mp ha]
  exact ⟨rfl, rfl⟩

theorem shift_kind : GroupKind P c isShift false 0 (regMember shiftFunc) := by
  refine GroupKind.of_reg (fun ir => shift_steps) ?_ rfl
  intro a ha
  obtain ⟨op, rfl⟩ := isShift_imm ha
  exact ⟨rfl, rfl⟩

def isLuiAdd : Opcode → Bool
  | .lui | .alu .add => true
  | _ => false

theorem isLuiAdd_iff {op : Opcode} : isLuiAdd op = true ↔ isLui op = true ∨ op = .alu .add := by
  unfold isLuiAdd isLui
  split <;> simp_all

theorem luiAdd_kind : GroupKind P c isLuiAdd false 0 (regMember luiAddStep) := by
  refine GroupKind.of_reg (fun ir hop => luiAdd_steps (isLuiAdd_iff.mp hop)) ?_ rfl
  intro a ha
  obtain ha | rfl := isLuiAdd_iff.mp ha
  · rw [isLui_iff.mp ha]
    exact ⟨rfl, rfl⟩
  · exact ⟨rfl, rfl⟩

theorem irregular_dispatch (hi : ir.impl = .dispatch ir.opcode) :
    ir.irregular P c rv sh = misaligned (rv.x ir.rs1 + ir.imm) 3 := by
  rw [Ir.irregular, hi]
  exact Bool.or_false _

theorem sw_kind : GroupKind P c isSw true storeMisaligned (storeMember P c) where
  steps := fun ir => sw_steps
  before := fun a b hb => paired_sw hb
  behind := fun a b ha => (paired_comm a b).trans (paired_sw ha)
  irregular := by
    intro _ ir rv sh hi
    rw [irregular_dispatch hi, storeMember]
    cases misaligned (rv.x ir.rs1 + ir.imm) 3 <;> rfl
  total := nofun
  loads := nofun
  core := rfl

theorem lw_kind : GroupKind P c isLw true loadMisaligned (loadMember P c) where
  steps := fun ir => lw_steps
  before := fun a b hb => paired_lw hb
  behind := fun a b ha => (paired_comm a b).trans (paired_lw ha)
  irregular := by
    intro _ ir rv sh hi
    rw [irregular_dispatch hi, loadMember]
    cases misaligned (rv.x ir.rs1 + ir.imm) 3 <;> rfl
  total := nofun
  loads := fun _ => ⟨rfl, rfl, rfl⟩
  core := rfl

end kinds

section shortRuns

def sameGroup (a b : Opcode) : Bool := isLui a && isLui b || isShift a && isShift b || paired a b

def shortRuns : List Ir → Bool
  | [] => true
  | ir :: rest => (rest.takeWhile (sameGroup ir.opcode ·.opcode)).length < 256 && shortRuns rest

theorem shortRuns_cons : shortRuns (ir :: rest) = true ↔
    (rest.takeWhile (sameGroup ir.opcode ·.opcode)).length < 256 ∧ shortRuns rest = true := by
  rw [shortRuns, Bool.and_eq_true, decide_eq_true_iff]

variable {kind : Opcode → Bool}

theorem takeWhile_run (hrun : ∀ ir ∈ run, kind ir.opcode = true)
    (htail : ∀ ir ∈ tail.head?, kind ir.opcode = false) :
    (run ++ tail).takeWhile (kind ·.opcode) = run := by
  rw [List.takeWhile_append_of_pos hrun]
  cases tail with
  | nil => rw [List.takeWhile_nil, List.append_nil]
  | cons next tail =>
    rw [List.takeWhile_cons_of_neg, List.append_nil]
    rw [htail next rfl]
    exact Bool.false_ne_true

theorem shortRuns_run (hk : ∀ a b, kind a = true → sameGroup a b = kind b) (hir : kind ir.opcode = true)
    (hrun : ∀ ir ∈ run, kind ir.opcode = true) (htail : ∀ ir ∈ tail.head?, kind ir.opcode = false) :
    shortRuns (ir :: (run ++ tail)) = true ↔ run.length < 256 ∧ shortRuns tail = true := by
  induction run generalizing ir with
  | nil =>
    have htake : (([] : List Ir) ++ tail).takeWhile (fun ir => kind ir.opcode) = [] :=
      takeWhile_run (List.forall_mem_nil _) htail
    rw [shortRuns_cons]
    simp only [hk _ _ hir]
    rw [htake, List.nil_append]
  | cons next run ih =>
    obtain ⟨hnext, hrest⟩ := List.forall_mem_cons.mp hrun
    have htake := takeWhile_run hrun htail
    rw [shortRuns_cons]
    simp only [hk _ _ hir]
    rw [htake, List.cons_append, ih hnext hrest, List.length_cons]
    constructor
    · rintro ⟨hlen, -, hshort⟩
      exact ⟨hlen, hshort⟩
    · rintro ⟨hlen, hshort⟩
      exact ⟨hlen, by omega, hshort⟩

theorem sameGroup_lui (a b : Opcode) (h : isLui a = true) : sameGroup a b = isLui b := by
  rw [isLui_iff.mp h]
  simp [sameGroup, paired, isLui, isShift, isLw, isSw]

theorem sameGroup_shift (a b : Opcode) (h : isShift a = true) : sameGroup a b = isShift b := by
  obtain ⟨op, rfl⟩ := isShift_imm h
  simp [sameGroup, paired, isLui, h, isLw, isSw]

theorem sameGroup_lw (a b : Opcode) (h : isLw a = true) : sameGroup a b = isLw b := by
  rw [isLw_iff.mp h]
  simp [sameGroup, paired, isLui, isShift, isLw, isSw]

theorem sameGroup_sw (a b : Opcode) (h : isSw a = true) : sameGroup a b = isSw b := by
  rw [isSw_iff.mp h]
  simp [sameGroup, paired, isLui, isShift, isLw, isSw]

end shortRuns

section fuseHead

structure Fused (P : Platform δ ξ) (c : CoreConfig) (kind : Opcode → Bool) (access : Bool) (cause : Word)
    (step : MemberStep δ ξ) (ir : Ir) (run tail : List Ir) (g : Ir) : Prop where
  group : GroupKind P c kind access cause step
  fuses : g.Fuses P c cause step ((ir :: run).map Ir.toOpcodeFuse)
  head : kind ir.opcode = true
  ne : run ≠ []
  members : ∀ ir ∈ run, kind ir.opcode = true
  maximal : ∀ next ∈ tail.head?, access = true → kind next.opcode = false
  short : shortRuns (ir :: (run ++ tail)) = true ↔ run.length < 256 ∧ shortRuns tail = true
  weight : g.weight = run.length + 1
  pc : g.pc = ir.pc

variable {kind : Opcode → Bool} {access : Bool} {cause : Word} {step : MemberStep δ ξ} {opcode : Opcode}

inductive HeadFused (P : Platform δ ξ) (c : CoreConfig) (ir : Ir) (rest : List Ir) : Ir × List Ir → Prop
  | alone : (∀ next ∈ rest.head?, sameGroup ir.opcode next.opcode = false) → HeadFused P c ir rest (ir, rest)
  | group {kind : Opcode → Bool} {access : Bool} {cause : Word} {step : MemberStep δ ξ} {run tail : List Ir}
      {g : Ir} :
      rest = run ++ tail → (∀ trap, Fused (P.withTrap trap) c kind access cause step ir run tail g) →
      HeadFused P c ir rest (g, rest.drop (run.length % 256))

theorem fuseRun_cases
    (hk : ∀ a b, kind a = true → sameGroup a b = kind b)
    (K : ∀ trap, GroupKind (P.withTrap trap) c kind access cause step)
    (hg : ∀ trap (ir : Ir) (run : List Ir),
      (ir.fuseWith opcode run).Fuses (P.withTrap trap) c cause step ((ir :: run).map Ir.toOpcodeFuse))
    (hw : ∀ ir : Ir, ir.impl = .dispatch opcode → ir.weight = ir.fuse.length)
    (hir : kind ir.opcode = true) : HeadFused P c ir rest (fuseRun ir rest kind opcode) := by
  have hweight (run : List Ir) : (ir.fuseWith opcode run).weight = run.length + 1 := by
    rw [hw _ rfl, Ir.fuseWith, List.length_cons, List.length_map]
  unfold fuseRun
  by_cases hempty : rest.takeWhile (kind ·.opcode) = []
  · rw [hempty]
    apply HeadFused.alone
    intro next hnext
    obtain ⟨tail, rfl⟩ := List.head?_eq_some_iff.mp hnext
    rw [hk _ _ hir]
    by_contra hne
    rw [List.takeWhile_cons_of_pos (Bool.not_eq_false _ ▸ hne)] at hempty
    cases hempty
  · have hmembers : ∀ ir ∈ rest.takeWhile (kind ·.opcode), kind ir.opcode = true :=
      fun ir hm => List.mem_takeWhile_imp (p := fun ir : Ir => kind ir.opcode) hm
    have hmaximal : ∀ next ∈ (rest.dropWhile (kind ·.opcode)).head?, kind next.opcode = false := by
      intro next hnext
      have hnot := List.head?_dropWhile_not (kind ·.opcode) rest
      rw [Option.mem_def.mp hnext] at hnot
      simpa using hnot
    dsimp only
    rw [if_neg (by rwa [List.isEmpty_iff])]
    have hfused (trap : ξ → Word → Word → Word → ξ × Word × Bool) :
        Fused (P.withTrap trap) c kind access cause step ir _ _ (ir.fuseWith opcode _) :=
      ⟨K trap, hg trap ir _, hir, hempty, hmembers, fun next h _ => hmaximal next h,
        shortRuns_run hk hir hmembers hmaximal, hweight _, rfl⟩
    exact .group List.takeWhile_append_dropWhile.symm hfused

def fuse2Of (ir next : Ir) : Ir :=
  { ir with
    opcode := .fuse2, impl := .dispatch .fuse2, rs2 := next.rd
    rs1 := if ir.rd = next.rs2 then next.rs1 else next.rs2 }

theorem fuse2_fuses {next : Ir} (hlui : ir.opcode = .lui) (hadd : next.opcode = .alu .add)
    (hrd : ir.rd = next.rs2 ∨ ir.rd = next.rs1) :
    (fuse2Of ir next).Fuses P c cause (regMember luiAddStep) ([ir, next].map Ir.toOpcodeFuse) := by
  intro rv sh f rest hf
  refine ⟨[], ?_⟩
  have hsum (x : Reg → Word) :
      x ir.rd + x (if ir.rd = next.rs2 then next.rs1 else next.rs2) = x next.rs1 + x next.rs2 := by
    by_cases hrs2 : ir.rd = next.rs2
    · rw [if_pos hrs2, hrs2, BitVec.add_comm]
    · rw [if_neg hrs2, hrd.resolve_left hrs2]
  rw [groupRun_foldl]
  simp only [execute, hf, fuse2Of, dispatchOp, doFuse2, hsum, List.map_cons, List.map_nil, List.foldl_cons,
    List.foldl_nil, luiAddStep, hlui, hadd]
  rfl

theorem shortRuns_luiAdd {next : Ir} (hlui : ir.opcode = .lui) (hadd : next.opcode = .alu .add) :
    shortRuns (ir :: next :: tail) = shortRuns tail := by
  have hlast : tail.takeWhile (fun ir' => sameGroup next.opcode ir'.opcode) = [] := by
    rw [hadd]
    cases tail <;> rfl
  have hnext : (next :: tail).takeWhile (fun ir' => sameGroup ir.opcode ir'.opcode) = [] := by
    rw [List.takeWhile_cons_of_neg]
    rw [hlui, hadd]
    exact Bool.false_ne_true
  rw [shortRuns, shortRuns, hnext, hlast]
  rfl

theorem fuse2_fused {next : Ir} (hlui : ir.opcode = .lui) (hadd : next.opcode = .alu .add)
    (hrd : ir.rd = next.rs2 ∨ ir.rd = next.rs1) :
    Fused P c isLuiAdd false 0 (regMember luiAddStep) ir [next] tail (fuse2Of ir next) := by
  refine ⟨luiAdd_kind, fuse2_fuses hlui hadd hrd, ?_, List.cons_ne_nil _ _, ?_, ?_, ?_, rfl, rfl⟩
  · rw [hlui]
    rfl
  · rw [List.forall_mem_singleton, hadd]
    rfl
  · intro _ _ haccess
    cases haccess
  · rw [List.singleton_append, shortRuns_luiAdd hlui hadd]
    exact (and_iff_right (by simp)).symm

theorem fuseHead_cases (P : Platform δ ξ) (c : CoreConfig) (ir : Ir) (rest : List Ir) :
    HeadFused P c ir rest (fuseHead ir rest) := by
  cases rest with
  | nil => exact .alone fun _ h => absurd h (Option.not_mem_none _)
  | cons next rest =>
    have halone (h : ∀ b, sameGroup ir.opcode b = false) :
        HeadFused P c ir (next :: rest) (ir, next :: rest) :=
      .alone fun _ _ => h _
    unfold fuseHead
    dsimp only
    split
    case h_1 hop =>
      have hlui : isLui ir.opcode = true := isLui_iff.mpr hop
      split
      case h_1 hadd =>
        split
        case isTrue hrd =>
          have hsplit : next :: rest = [next] ++ rest := rfl
          have hone : [next].length % 256 = 1 := by simp
          have hgroup := HeadFused.group (P := P) (c := c) hsplit fun trap => fuse2_fused hop hadd hrd
          rw [hone, List.drop_one, List.tail_cons] at hgroup
          exact hgroup
        case isFalse hrd =>
          apply HeadFused.alone
          rintro _ ⟨⟩
          rw [hop, hadd]
          rfl
      · exact fuseRun_cases sameGroup_lui (fun _ => lui_kind) (fun _ => fuse1_fuses)
          (fun _ h => by rw [Ir.weight, h]) hlui
    case h_2 hop =>
      have K (trap : ξ → Word → Word → Word → ξ × Word × Bool) :
          GroupKind (P.withTrap trap) c isSw true storeMisaligned (storeMember P c) := sw_kind
      exact fuseRun_cases sameGroup_sw K (fun _ => fuse3_fuses) (fun _ h => by rw [Ir.weight, h])
        (isSw_iff.mpr hop)
    case h_3 hop =>
      have K (trap : ξ → Word → Word → Word → ξ × Word × Bool) :
          GroupKind (P.withTrap trap) c isLw true loadMisaligned (loadMember P c) := lw_kind
      exact fuseRun_cases sameGroup_lw K (fun _ => fuse4_fuses) (fun _ h => by rw [Ir.weight, h])
        (isLw_iff.mpr hop)
    case h_4 hop | h_5 hop | h_6 hop =>
      apply fuseRun_cases sameGroup_shift (fun _ => shift_kind) (fun _ => fuse5_fuses)
        (fun _ h => by rw [Ir.weight, h])
      rw [hop]
      rfl
    case h_7 hlui hsw hlw hslli hsrli hsrai =>
      apply halone
      intro b
      cases hop : ir.opcode with
      | lui => exact absurd hop hlui
      | sw => exact absurd hop hsw
      | lw => exact absurd hop hlw
      | imm op =>
        cases op with
        | slli => exact absurd hop hslli
        | srli => exact absurd hop hsrli
        | srai => exact absurd hop hsrai
        | _ => rfl
      | _ => rfl

end fuseHead

end Rv32Emu
