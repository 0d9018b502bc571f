import Rv32Emu.Rv.Execute

namespace Rv32Emu

variable {δ ξ : Type} {P : Platform δ ξ} {c : CoreConfig}

def Ir.weight (ir : Ir) : ℕ :=
  match ir.impl with
  | .dispatch .fuse1 | .dispatch .fuse3 | .dispatch .fuse4 | .dispatch .fuse5 => ir.fuse.length
  | .dispatch .fuse2 => 2
  | _ => 1

def Weighty (irs : List Ir) : Prop := ∀ ir ∈ irs, 0 < ir.weight

def blockLength (irs : List Ir) : ℕ := (irs.map Ir.weight).sum

section decode

variable {ext : Word → Option ExtInsn} {insn : Word} {ir : Ir}

theorem opLoad_weight (h : opLoad insn = some ir) : 0 < ir.weight := by
  unfold opLoad at h
  split at h <;> cases h <;> exact Nat.one_pos

theorem opStore_weight (h : opStore insn = some ir) : 0 < ir.weight := by
  unfold opStore at h
  split at h <;> cases h <;> exact Nat.one_pos

theorem opBranch_weight (h : opBranch insn = some ir) : 0 < ir.weight := by
  unfold opBranch at h
  split at h <;> cases h <;> exact Nat.one_pos

theorem extIr_weight (h : (ext insn).map extIr = some ir) : 0 < ir.weight := by
  obtain ⟨e, -, rfl⟩ := Option.map_eq_some_iff.mp h
  exact Nat.one_pos

theorem opOpImm_weight (h : opOpImm ext insn = some ir) : 0 < ir.weight := by
  unfold opOpImm at h
  dsimp only at h
  split at h
  · cases h
    exact Nat.one_pos
  · split at h
    case h_2 | h_6 =>
      split at h
      · cases h
        exact Nat.one_pos
      · split_ifs at h <;> cases h <;> exact Nat.one_pos
    all_goals
      cases h
      exact Nat.one_pos

theorem opOp_weight (h : opOp ext insn = some ir) : 0 < ir.weight := by
  unfold opOp at h
  dsimp only at h
  split at h
  · cases h
    exact Nat.one_pos
  · split at h
    case h_11 => exact extIr_weight h
    all_goals
      cases h
      exact Nat.one_pos

theorem opUtype_weight {op : Opcode} (hop : 0 < (mkIr op 0 0 0 0).weight) (h : opUtype op insn = some ir) :
    0 < ir.weight := by
  cases h
  split_ifs
  · exact Nat.one_pos
  · exact hop

theorem rvDecode_weight (h : rvDecode ext insn = some ir) : 0 < ir.weight := by
  unfold rvDecode at h
  split at h
  · cases h
  · split at h
    · exact opLoad_weight h
    · exact opOpImm_weight h
    · exact opUtype_weight (by decide) h
    · exact opStore_weight h
    · exact opOp_weight h
    · exact opUtype_weight (by decide) h
    · exact opBranch_weight h
    · cases h
      exact Nat.one_pos
    · cases h
      exact Nat.one_pos
    all_goals first | exact extIr_weight h | cases h

end decode

section translate

theorem weighty_cons {ir : Ir} {irs : List Ir} : Weighty (ir :: irs) ↔ 0 < ir.weight ∧ Weighty irs :=
  List.forall_mem_cons

theorem translateLoop_weighty (dev : δ) (x : Reg → Word) {n : ℕ} {pcEnd : Word} {luiConst : Reg → Word}
    {irs : List Ir} (h : translateLoop P c dev x n pcEnd luiConst = some irs) : irs ≠ [] ∧ Weighty irs := by
  induction n generalizing pcEnd luiConst irs with
  | zero => cases h
  | succ n ih =>
    unfold translateLoop at h
    dsimp only at h
    split at h
    · cases h
    · split at h
      · cases h
        exact ⟨List.cons_ne_nil _ _, weighty_cons.mpr ⟨Nat.one_pos, by simp [Weighty]⟩⟩
      case h_2 ir hd =>
        have hw : 0 < ir.weight := rvDecode_weight hd
        split at h
        · cases h
          exact ⟨List.cons_ne_nil _ _, weighty_cons.mpr ⟨Nat.one_pos, by simp [Weighty]⟩⟩
        split at h
        · cases h
          exact ⟨List.cons_ne_nil _ _, weighty_cons.mpr ⟨hw, by simp [Weighty]⟩⟩
        · obtain ⟨irs, hl, rfl⟩ := Option.map_eq_some_iff.mp h
          exact ⟨List.cons_ne_nil _ _, weighty_cons.mpr ⟨hw, (ih hl).2⟩⟩

theorem constopt_weight {ir : Ir} (h : 0 < ir.weight) (info : ConstInfo) :
    0 < (constopt P ir info).1.weight := by
  unfold constopt
  repeat' split
  all_goals first | exact h | exact Nat.one_pos

theorem optimizeConstant_weighty {irs : List Ir} (h : Weighty irs) (info : ConstInfo) :
    Weighty (optimizeConstant P info irs) := by
  induction irs generalizing info with
  | nil => exact h
  | cons ir irs ih =>
    obtain ⟨hir, hirs⟩ := weighty_cons.mp h
    exact weighty_cons.mpr ⟨constopt_weight hir info, ih hirs _⟩

theorem optimizeConstant_length (info : ConstInfo) (irs : List Ir) :
    (optimizeConstant P info irs).length = irs.length := by
  induction irs generalizing info with
  | nil => rfl
  | cons ir irs ih => exact congrArg (· + 1) (ih _)

theorem weighty_drop {irs : List Ir} (h : Weighty irs) (n : ℕ) : Weighty (irs.drop n) :=
  fun ir hir => h ir (List.mem_of_mem_drop hir)

theorem fuseRun_weighty {ir : Ir} {rest : List Ir} {kind : Opcode → Bool} {opcode : Opcode}
    (hop : ∀ run, 0 < (ir.fuseWith opcode run).weight) (h : 0 < ir.weight) (hrest : Weighty rest) :
    0 < (fuseRun ir rest kind opcode).1.weight ∧ Weighty (fuseRun ir rest kind opcode).2 := by
  unfold fuseRun
  dsimp only
  split_ifs
  · exact ⟨h, hrest⟩
  · exact ⟨hop _, weighty_drop hrest _⟩

theorem fuseHead_weighty {ir : Ir} {rest : List Ir} (h : 0 < ir.weight) (hrest : Weighty rest) :
    0 < (fuseHead ir rest).1.weight ∧ Weighty (fuseHead ir rest).2 := by
  cases rest with
  | nil => exact ⟨h, hrest⟩
  | cons next rest =>
    have hgroup : ∀ run, 0 < (List.length (ir.toOpcodeFuse :: List.map Ir.toOpcodeFuse run)) :=
      fun _ => Nat.succ_pos _
    unfold fuseHead
    dsimp only
    split
    · split
      · split
        · exact ⟨Nat.two_pos, (weighty_cons.mp hrest).2⟩
        · exact ⟨h, hrest⟩
      · exact fuseRun_weighty hgroup h hrest
    · exact fuseRun_weighty hgroup h hrest
    · exact fuseRun_weighty hgroup h hrest
    · exact fuseRun_weighty hgroup h hrest
    · exact fuseRun_weighty hgroup h hrest
    · exact fuseRun_weighty hgroup h hrest
    · exact ⟨h, hrest⟩

theorem matchPattern_weighty (n : ℕ) {irs : List Ir} (h : Weighty irs) : Weighty (matchPattern n irs) := by
  induction n generalizing irs with
  | zero => exact h
  | succ n ih =>
    cases irs with
    | nil => exact h
    | cons ir irs =>
      obtain ⟨hir, hirs⟩ := weighty_cons.mp h
      obtain ⟨hhead, hrest⟩ := fuseHead_weighty hir hirs
      exact weighty_cons.mpr ⟨hhead, ih hrest⟩

theorem blockLength_cons (ir : Ir) (irs : List Ir) : blockLength (ir :: irs) = ir.weight + blockLength irs :=
  List.sum_cons

theorem length_le_blockLength {irs : List Ir} (h : Weighty irs) : irs.length ≤ blockLength irs := by
  induction irs with
  | nil => exact Nat.zero_le _
  | cons ir irs ih =>
    obtain ⟨hir, hirs⟩ := weighty_cons.mp h
    have := ih hirs
    rw [blockLength_cons, List.length_cons]
    omega

theorem fuseRun_length {ir : Ir} {kind : Opcode → Bool} {opcode : Opcode}
    (hop : ∀ run, (ir.fuseWith opcode run).weight = run.length + 1) (h : 0 < ir.weight) (rest : List Ir) :
    rest.length + 1 ≤ (fuseRun ir rest kind opcode).1.weight + (fuseRun ir rest kind opcode).2.length := by
  unfold fuseRun
  dsimp only
  split_ifs
  · dsimp only
    omega
  · have hmod := Nat.mod_le (rest.takeWhile (kind ·.opcode)).length 256
    rw [hop, List.length_drop]
    omega

theorem fuseHead_length {ir : Ir} (h : 0 < ir.weight) (rest : List Ir) :
    rest.length + 1 ≤ (fuseHead ir rest).1.weight + (fuseHead ir rest).2.length := by
  have hfuse (kind : Opcode → Bool) {op : Opcode}
      (hop : ∀ run, (ir.fuseWith op run).weight = run.length + 1) :
      rest.length + 1 ≤ (fuseRun ir rest kind op).1.weight + (fuseRun ir rest kind op).2.length :=
    fuseRun_length hop h rest
  have hgroup (run : List Ir) : (ir.toOpcodeFuse :: run.map Ir.toOpcodeFuse).length = run.length + 1 := by
    simp
  have hkeep : rest.length + 1 ≤ ir.weight + rest.length := by omega
  cases rest with
  | nil => exact h
  | cons next rest =>
    unfold fuseHead
    dsimp only
    split
    · split
      · split
        · change rest.length + 1 + 1 ≤ 2 + rest.length
          omega
        · exact hkeep
      · exact hfuse _ hgroup
    · exact hfuse _ hgroup
    · exact hfuse _ hgroup
    · exact hfuse _ hgroup
    · exact hfuse _ hgroup
    · exact hfuse _ hgroup
    · exact hkeep

theorem matchPattern_length (n : ℕ) {irs : List Ir} (h : Weighty irs) :
    irs.length ≤ blockLength (matchPattern n irs) := by
  induction n generalizing irs with
  | zero => exact length_le_blockLength h
  | succ n ih =>
    cases irs with
    | nil => exact Nat.zero_le _
    | cons ir irs =>
      obtain ⟨hir, hirs⟩ := weighty_cons.mp h
      have hhead := fuseHead_length hir irs
      have hrest := ih (fuseHead_weighty hir hirs).2
      dsimp only [matchPattern]
      rw [blockLength_cons, List.length_cons]
      omega

theorem matchPattern_ne_nil {n : ℕ} {irs : List Ir} (h : irs ≠ []) : matchPattern n irs ≠ [] := by
  cases n with
  | zero => exact h
  | succ n =>
    cases irs with
    | nil => exact absurd rfl h
    | cons ir irs => exact List.cons_ne_nil _ _

end translate

structure Block.Made (b : Block) : Prop where
  nonempty : b.irs ≠ []
  weighty : Weighty b.irs

theorem blockTranslate_made {dev : δ} {rv : Rv ξ} {b : Block} (h : blockTranslate P c dev rv = some b) :
    b.Made := by
  unfold blockTranslate at h
  obtain ⟨irs, hl, h⟩ := Option.bind_eq_some_iff.mp h
  obtain ⟨hne, hw⟩ := translateLoop_weighty dev rv.x hl
  split_ifs at h
  cases h
  refine ⟨matchPattern_ne_nil ?_, matchPattern_weighty _ (optimizeConstant_weighty hw _)⟩
  rw [← List.length_pos_iff, optimizeConstant_length, List.length_pos_iff]
  exact hne

theorem translateLoop_agrees {dev dev' : δ} {x : Reg → Word} {n : ℕ} {pc : Word} {luiConst : Reg → Word}
    {irs : List Ir} (h : translateLoop P c dev x n pc luiConst = some irs)
    (hmem : ∀ k < irs.length, P.memIfetch dev c.coreId (pc + w32 (4 * k)) =
      P.memIfetch dev' c.coreId (pc + w32 (4 * k))) :
    translateLoop P c dev' x n pc luiConst = some irs := by
  induction n generalizing pc luiConst irs with
  | zero => cases h
  | succ n ih =>
    have hpos : 0 < irs.length := List.length_pos_iff.mpr (translateLoop_weighty dev x h).1
    have hword : P.memIfetch dev c.coreId pc = P.memIfetch dev' c.coreId pc := by
      simpa [w32] using hmem 0 hpos
    unfold translateLoop at h ⊢
    rw [← hword]
    dsimp only at h ⊢
    by_cases hz : P.memIfetch dev c.coreId pc = 0
    · rw [if_pos hz] at h
      cases h
    rw [if_neg hz] at h ⊢
    cases hd : rvDecode P.decode (P.memIfetch dev c.coreId pc) with
    | none =>
      rw [hd] at h
      exact h
    | some ir =>
      rw [hd] at h
      dsimp only at h ⊢
      generalize Function.update luiConst ir.rd (if isLui ir.opcode then ir.imm else 0) = luiConst' at h ⊢
      split_ifs at h ⊢
      · exact h
      · exact h
      · obtain ⟨rest, hrest, rfl⟩ := Option.map_eq_some_iff.mp h
        rw [ih hrest fun k hk => ?_]
        · rfl
        · have haddr : pc + 4 + w32 (4 * k) = pc + w32 (4 * (k + 1)) := by
            simp only [w32, Nat.mul_add, BitVec.ofNat_add]
            rw [BitVec.add_comm (BitVec.ofNat 32 (4 * k)), ← BitVec.add_assoc]
            rfl
          rw [haddr]
          exact hmem (k + 1) (Nat.succ_lt_succ hk)

theorem blockTranslate_agrees {dev dev' : δ} {rv : Rv ξ} {b : Block} (h : blockTranslate P c dev rv = some b)
    (hmem : ∀ k < blockLength b.irs, P.memIfetch dev c.coreId (rv.pc + w32 (4 * k)) =
      P.memIfetch dev' c.coreId (rv.pc + w32 (4 * k))) :
    blockTranslate P c dev' rv = some b := by
  unfold blockTranslate at h ⊢
  obtain ⟨irs, hl, hb⟩ := Option.bind_eq_some_iff.mp h
  have hw :=
    optimizeConstant_weighty (P := P) (translateLoop_weighty dev rv.x hl).2 ⟨fun r => r = 0, fun _ => 0⟩
  have hlen : irs.length ≤ blockLength b.irs := by
    split_ifs at hb
    cases hb
    have := matchPattern_length irs.length hw
    rwa [optimizeConstant_length] at this ⊢
  rw [translateLoop_agrees hl fun k hk => hmem k (Nat.lt_of_lt_of_le hk hlen)]
  exact hb

def Rv.Caches (rv : Rv ξ) (B : Word → Block → Prop) : Prop := ∀ pc b, rv.blockMap pc = some b → B pc b

def Unlinked (B : Word → Block → Prop) : Prop := ∀ pc b link, B pc b → B pc { b with branchTaken := link }

def Translates (P : Platform δ ξ) (c : CoreConfig) (B : Word → Block → Prop) : Prop :=
  ∀ dev rv b, blockTranslate P c dev rv = some b → B rv.pc b

section map

variable {rv : Rv ξ} {B : Word → Block → Prop}

theorem blockMapClear_caches : (blockMapClear rv).Caches B := by
  intro pc b hb
  cases hb

theorem Rv.Caches.of_eq {rv' : Rv ξ} (h : rv.Caches B) (heq : rv'.blockMap = rv.blockMap) : rv'.Caches B := by
  intro pc b hb
  rw [heq] at hb
  exact h pc b hb

theorem Rv.Caches.update {rv' : Rv ξ} {pc : Word} {b : Block} (h : rv.Caches B) (hb : B pc b)
    (heq : rv'.blockMap = Function.update rv.blockMap pc (some b)) : rv'.Caches B := by
  intro pc' b' hb'
  rw [heq] at hb'
  by_cases hpc : pc' = pc
  · rw [hpc, Function.update_self] at hb'
    cases hb'
    exact hpc ▸ hb
  · rw [Function.update_of_ne hpc] at hb'
    exact h pc' b' hb'

theorem updatePrev_blockMap : (updatePrev rv).blockMap = rv.blockMap := by
  unfold updatePrev
  split
  · split_ifs <;> rfl
  · rfl

theorem kernelTransition_caches (h : rv.Caches B) (sh : Shared δ) :
    (kernelTransition P c rv sh).1.Caches B := by
  unfold kernelTransition
  dsimp only
  split_ifs
  all_goals first | exact h | exact blockMapClear_caches

/-- Whether a core on its way between firmware and a kernel throws its blocks away: one with the coprocessor
when it leaves a kernel, NCRISC without it when it enters one at another address than the last. -/
def clearsMap (c : CoreConfig) (rv : Rv ξ) (sh : Shared δ) : Bool :=
  let enters := rv.prePc.toNat < tensixKernelAddrThreshold && tensixKernelAddrThreshold ≤ rv.pc.toNat
  let leaves := tensixKernelAddrThreshold ≤ rv.prePc.toNat && rv.pc.toNat < tensixKernelAddrThreshold
  if c.tensix && rv.prePc ≠ 0 then !enters && leaves
  else c.coreId = 3 && enters && sh.ncriscPrevKernelPc ≠ rv.pc

theorem kernelTransition_rv (rv : Rv ξ) (sh : Shared δ) :
    (kernelTransition P c rv sh).1 = if clearsMap c rv sh then blockMapClear rv else rv := by
  unfold kernelTransition clearsMap
  dsimp only
  generalize (decide (rv.prePc.toNat < tensixKernelAddrThreshold) &&
    decide (tensixKernelAddrThreshold ≤ rv.pc.toNat)) = enters
  generalize (decide (tensixKernelAddrThreshold ≤ rv.prePc.toNat) &&
    decide (rv.pc.toNat < tensixKernelAddrThreshold)) = leaves
  by_cases ht : (c.tensix && decide (rv.prePc ≠ 0)) = true
  · rw [if_pos ht, if_pos ht]
    cases enters <;> cases leaves
    case false.true =>
      simp only [Bool.false_eq_true, if_false, if_true, Bool.not_false, Bool.true_and]
      split_ifs <;> rfl
    all_goals rfl
  · rw [if_neg ht, if_neg ht]
    by_cases h3 : c.coreId = 3
    · cases enters
      · rw [if_pos h3]
        cases leaves <;> simp
      · by_cases hn : sh.ncriscPrevKernelPc ≠ rv.pc <;> simp [h3, hn]
    · simp [h3]

theorem chainBlock_caches (hB : Unlinked B) (h : rv.Caches B) : (chainBlock rv).Caches B := by
  unfold chainBlock
  split
  · exact h
  · split
    · exact h
    case h_2 p _ _ b hb =>
      split_ifs
      · exact h.update (hB p b (some rv.pc) (h p b hb)) rfl
      · exact h

theorem blockFindOrTranslate_caches {dev : δ} (hT : ∀ rv b, blockTranslate P c dev rv = some b → B rv.pc b)
    (h : rv.Caches B) :
    (blockFindOrTranslate P c rv dev).1.Caches B ∧
      ∀ b, (blockFindOrTranslate P c rv dev).2 = some b → B rv.pc b := by
  unfold blockFindOrTranslate
  split
  case h_1 b hb =>
    refine ⟨h, fun b' hb' => ?_⟩
    cases hb'
    exact h _ b hb
  · dsimp only
    have hclear : (if 5 * rv.mapSize > 4 * blockCapacity then blockMapClear rv else rv).Caches B := by
      split_ifs
      · exact blockMapClear_caches
      · exact h
    have hpc : (if 5 * rv.mapSize > 4 * blockCapacity then blockMapClear rv else rv).pc = rv.pc := by
      split_ifs <;> rfl
    split
    · exact ⟨hclear, nofun⟩
    case h_2 b hb =>
      have hmade := hT _ b hb
      refine ⟨hclear.update hmade rfl, fun b' hb' => ?_⟩
      cases hb'
      exact hpc ▸ hmade

theorem chainBlock_pc (rv : Rv ξ) : (chainBlock rv).pc = rv.pc := by
  unfold chainBlock
  split
  · rfl
  · split
    · rfl
    · split_ifs <;> rfl

theorem blockFindOrTranslate_pc (rv : Rv ξ) (dev : δ) : (blockFindOrTranslate P c rv dev).1.pc = rv.pc := by
  unfold blockFindOrTranslate
  split
  · rfl
  · have hclear : (if 5 * rv.mapSize > 4 * blockCapacity then blockMapClear rv else rv).pc = rv.pc := by
      split_ifs <;> rfl
    dsimp only
    split <;> exact hclear

end map

def Rv.Translated (rv : Rv ξ) : Prop := ∀ pc b, rv.blockMap pc = some b → b.Made

section translated

variable {rv : Rv ξ}

theorem made_unlinked : Unlinked fun _ b => b.Made := fun _ _ _ h => ⟨h.nonempty, h.weighty⟩

theorem made_translates : Translates P c fun _ b => b.Made := fun _ _ _ => blockTranslate_made

theorem Rv.Translated.of_eq {rv' : Rv ξ} (h : rv.Translated) (heq : rv'.blockMap = rv.blockMap) :
    rv'.Translated :=
  Rv.Caches.of_eq h heq

theorem kernelTransition_translated (h : rv.Translated) (sh : Shared δ) :
    (kernelTransition P c rv sh).1.Translated :=
  kernelTransition_caches h sh

theorem chainBlock_translated (h : rv.Translated) : (chainBlock rv).Translated :=
  chainBlock_caches made_unlinked h

theorem blockFindOrTranslate_translated (h : rv.Translated) (dev : δ) :
    (blockFindOrTranslate P c rv dev).1.Translated ∧
      ∀ b, (blockFindOrTranslate P c rv dev).2 = some b → b.Made :=
  blockFindOrTranslate_caches (made_translates dev) h

end translated

end Rv32Emu
