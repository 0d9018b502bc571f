import Rv32Emu.Cop.Banks

namespace Rv32Emu

/-- Two grids after the same writes: each place has one new value in both, or is as it was in both. -/
def Overwritten (g h g' h' : Grid) : Prop := ∀ r c, h' r c = g' r c ∨ g' r c = g r c ∧ h' r c = h r c

theorem Overwritten.refl (g h : Grid) : Overwritten g h g h := fun _ _ => .inr ⟨rfl, rfl⟩

theorem Overwritten.set {g h g' h' : Grid} (hw : Overwritten g h g' h') (row col : ℕ) (x : Word) :
    Overwritten g h (Grid.set g' row col x) (Grid.set h' row col x) := by
  intro r c
  unfold Grid.set
  split_ifs
  · exact .inl rfl
  · exact hw r c

theorem copyRows_overwritten (g h : Grid) (n : ℕ) (d : Word) (dRows : ℕ) (src : Grid) (s : Word) (sRows : ℕ) :
    Overwritten g h (copyRows n g d dRows src s sRows) (copyRows n h d dRows src s sRows) := by
  unfold copyRows
  refine forRange_rel n (fun g' h' i hw => ?_) (.refl g h)
  dsimp only
  split_ifs
  · exact hw
  · exact forRange_rel rowSize (fun g' h' j hw => hw.set _ _ _) hw

def Tensix.withSrc (tt : Tensix) (a b : Bank → Grid) : Tensix := { tt with srca := a, srcb := b }

structure AgreesOnValid (core : Tensix) (a b : Bank → Grid) : Prop where
  srca : ∀ k, core.srcaDvalid k = true → a k = core.srca k
  srcb : ∀ k, core.srcbDvalid k = true → b k = core.srcb k

theorem AgreesOnValid.self (core : Tensix) : AgreesOnValid core core.srca core.srcb :=
  ⟨fun _ _ => rfl, fun _ _ => rfl⟩

/-- From `x` and `y` an instruction has led to `x'` and `y'` with the same effect on Dest and on the
sources. -/
structure SameWrites (x y x' y' : Tensix) : Prop where
  dest : y'.dest = x'.dest
  src : ∀ s k, Overwritten ((x.buffer s).slot k) ((y.buffer s).slot k) ((x'.buffer s).slot k)
    ((y'.buffer s).slot k)

def Indifferent (f : Tensix → Bool × Tensix) (core : Tensix) : Prop :=
  ∀ a b, AgreesOnValid core a b → (f (core.withSrc a b)).1 = (f core).1 ∧
    SameWrites core (core.withSrc a b) (f core).2 (f (core.withSrc a b)).2

theorem Indifferent.of_commutes {f : Tensix → Bool × Tensix} {core : Tensix}
    (h : ∀ a b, AgreesOnValid core a b → f (core.withSrc a b) = ((f core).1, (f core).2.withSrc a b)) :
    Indifferent f core := by
  intro a b hab
  have hself : f core = ((f core).1, (f core).2.withSrc core.srca core.srcb) := h _ _ (.self core)
  have hsnd : (f core).2 = (f core).2.withSrc core.srca core.srcb := congrArg Prod.snd hself
  have hsrca : (f core).2.srca = core.srca := by
    rw [hsnd]
    rfl
  have hsrcb : (f core).2.srcb = core.srcb := by
    rw [hsnd]
    rfl
  rw [h a b hab]
  refine ⟨rfl, rfl, fun s k r c => .inr ?_⟩
  cases s with
  | srca => exact ⟨congrFun (congrFun (congrFun hsrca k) r) c, rfl⟩
  | srcb => exact ⟨congrFun (congrFun (congrFun hsrcb k) r) c, rfl⟩

section commuting

variable {tt : Tensix} {a b : Bank → Grid} {imm : Word} {tid : Tid}

theorem applyAddrMod_withSrc (tt : Tensix) (modIdx : Word) :
    applyAddrMod (tt.withSrc a b) modIdx tid = (applyAddrMod tt modIdx tid).withSrc a b := by
  unfold applyAddrMod
  split_ifs <;> rfl

theorem flipBanks_withSrc (tt : Tensix) (fa fb : Bool) :
    (tt.withSrc a b).flipBanks fa fb = (tt.flipBanks fa fb).withSrc a b := by
  cases fa <;> cases fb <;> rfl

theorem dest_withSrc (tt : Tensix) {g g' : Grid} (hg : g' = g) (fa fb : Bool) (modIdx : Word) :
    applyAddrMod (Tensix.flipBanks { tt.withSrc a b with dest := g' } fa fb) modIdx tid =
      (applyAddrMod (Tensix.flipBanks { tt with dest := g } fa fb) modIdx tid).withSrc a b := by
  subst hg
  rw [← applyAddrMod_withSrc, ← flipBanks_withSrc]
  rfl

theorem elementwise_withSrc {value : Word → Word → Word → Word} (h : AgreesOnValid tt a b) :
    elementwise (tt.withSrc a b) imm tid value =
      ((elementwise tt imm tid value).1, (elementwise tt imm tid value).2.withSrc a b) := by
  unfold elementwise
  have hra : (tt.withSrc a b).srcaReady = tt.srcaReady := rfl
  have hrb : (tt.withSrc a b).srcbReady = tt.srcbReady := rfl
  rw [hra, hrb]
  cases ha : tt.srcaReady with
  | false => rfl
  | true =>
    cases hb : tt.srcbReady with
    | false => rfl
    | true =>
      have hsa : a tt.mathSrcaBank = tt.srca tt.mathSrcaBank := h.srca _ ha
      have hsb : b tt.mathSrcbBank = tt.srcb tt.mathSrcbBank := h.srcb _ hb
      simp only [Bool.not_true, Bool.false_eq_true, if_false]
      refine Prod.ext rfl (dest_withSrc tt ?_ _ _ _)
      simp only [Tensix.withSrc, hsa, hsb]

theorem ttelwmul_withSrc (h : AgreesOnValid tt a b) :
    ttelwmul (tt.withSrc a b) imm tid = ((ttelwmul tt imm tid).1, (ttelwmul tt imm tid).2.withSrc a b) := by
  unfold ttelwmul
  exact elementwise_withSrc h

theorem ttelwadd_withSrc (h : AgreesOnValid tt a b) :
    ttelwadd (tt.withSrc a b) imm tid = ((ttelwadd tt imm tid).1, (ttelwadd tt imm tid).2.withSrc a b) := by
  unfold ttelwadd
  exact elementwise_withSrc h

theorem ttelwsub_withSrc (h : AgreesOnValid tt a b) :
    ttelwsub (tt.withSrc a b) imm tid = ((ttelwsub tt imm tid).1, (ttelwsub tt imm tid).2.withSrc a b) := by
  unfold ttelwsub
  exact elementwise_withSrc h

theorem skipZeroedSrcb_withSrc (tt : Tensix) :
    skipZeroedSrcb (tt.withSrc a b) = (skipZeroedSrcb tt).withSrc a b := by
  unfold skipZeroedSrcb
  cases hs : tt.srcbZeroed tt.mathSrcbBank && tt.srcbDvalid (tt.mathSrcbBank + 1) &&
      !tt.srcbZeroed (tt.mathSrcbBank + 1)
  · simp only [Tensix.withSrc, hs, Bool.false_eq_true, if_false]
  · simp only [Tensix.withSrc, hs, if_true]

theorem skipZeroedSrcb_valid (h : tt.srcbReady = true) :
    tt.srcbDvalid (skipZeroedSrcb tt).mathSrcbBank = true := by
  unfold skipZeroedSrcb
  dsimp only
  split_ifs with hs
  · simp only [Bool.and_eq_true] at hs
    exact hs.1.2
  · exact h

theorem skipZeroedSrcb_same (tt : Tensix) :
    (skipZeroedSrcb tt).srca = tt.srca ∧ (skipZeroedSrcb tt).srcb = tt.srcb ∧
    (skipZeroedSrcb tt).mathSrcaBank = tt.mathSrcaBank := by
  unfold skipZeroedSrcb
  dsimp only
  split_ifs <;> exact ⟨rfl, rfl, rfl⟩

theorem ttmvmul_withSrc {mopCfg : ℕ → Word} (h : AgreesOnValid tt a b) :
    ttmvmul (tt.withSrc a b) mopCfg imm tid =
      ((ttmvmul tt mopCfg imm tid).1, (ttmvmul tt mopCfg imm tid).2.withSrc a b) := by
  unfold ttmvmul
  have hra : (tt.withSrc a b).srcaReady = tt.srcaReady := rfl
  have hrb : (tt.withSrc a b).srcbReady = tt.srcbReady := rfl
  rw [hra, hrb, skipZeroedSrcb_withSrc]
  cases ha : tt.srcaReady with
  | false => rfl
  | true =>
    cases hb : tt.srcbReady with
    | false => rfl
    | true =>
      obtain ⟨hsrca, hsrcb, hbank⟩ := skipZeroedSrcb_same tt
      have hsa : a (skipZeroedSrcb tt).mathSrcaBank =
          (skipZeroedSrcb tt).srca (skipZeroedSrcb tt).mathSrcaBank := by
        rw [hsrca, hbank]
        exact h.srca _ ha
      have hsb : b (skipZeroedSrcb tt).mathSrcbBank =
          (skipZeroedSrcb tt).srcb (skipZeroedSrcb tt).mathSrcbBank := by
        rw [hsrcb]
        exact h.srcb _ (skipZeroedSrcb_valid hb)
      simp only [Bool.not_true, Bool.false_eq_true, if_false]
      refine Prod.ext rfl (dest_withSrc (skipZeroedSrcb tt) ?_ _ _ _)
      simp only [mvmulRows, Tensix.withSrc, hsa, hsb]

theorem ttgmpool_withSrc (h : AgreesOnValid tt a b) :
    ttgmpool (tt.withSrc a b) imm tid = ((ttgmpool tt imm tid).1, (ttgmpool tt imm tid).2.withSrc a b) := by
  unfold ttgmpool
  have hra : (tt.withSrc a b).srcaReady = tt.srcaReady := rfl
  rw [hra]
  cases ha : tt.srcaReady with
  | false => rfl
  | true =>
    have hsa : a tt.mathSrcaBank = tt.srca tt.mathSrcaBank := h.srca _ ha
    simp only [Bool.not_true, Bool.false_eq_true, if_false]
    have hrow : ∀ r d, gmpoolRow (tt.withSrc a b) r d = gmpoolRow tt r d := by
      intro r d
      change gmpoolRow (tt.withSrc (fun _ => a tt.mathSrcaBank) b) r d = _
      rw [hsa]
      rfl
    refine Prod.ext rfl (dest_withSrc tt ?_ _ _ _)
    rw [hrow]
    rfl

theorem ttgapool_withSrc (h : AgreesOnValid tt a b) (hb : (tt.rwc tid).fidelity = 0 → tt.srcbReady = true) :
    ttgapool (tt.withSrc a b) imm tid = ((ttgapool tt imm tid).1, (ttgapool tt imm tid).2.withSrc a b) := by
  unfold ttgapool
  have hra : (tt.withSrc a b).srcaReady = tt.srcaReady := rfl
  rw [hra]
  cases ha : tt.srcaReady with
  | false => rfl
  | true =>
    have hsa : a tt.mathSrcaBank = tt.srca tt.mathSrcaBank := h.srca _ ha
    simp only [Bool.not_true, Bool.false_eq_true, if_false]
    refine Prod.ext rfl (dest_withSrc tt ?_ _ _ _)
    by_cases hf : (tt.rwc tid).fidelity = 0
    · have hsb : b tt.mathSrcbBank = tt.srcb tt.mathSrcbBank := h.srcb _ (hb hf)
      simp only [gapoolRow, Tensix.withSrc, hsa, hsb]
    · simp only [Tensix.withSrc, hf, false_and, if_false]

theorem ttmova2d_withSrc (h : AgreesOnValid tt a b) :
    ttmova2d (tt.withSrc a b) imm tid = ((ttmova2d tt imm tid).1, (ttmova2d tt imm tid).2.withSrc a b) := by
  unfold ttmova2d
  have hra : (tt.withSrc a b).srcaReady = tt.srcaReady := rfl
  rw [hra]
  cases ha : tt.srcaReady with
  | false => rfl
  | true =>
    have hsa : a tt.mathSrcaBank = tt.srca tt.mathSrcaBank := h.srca _ ha
    simp only [Bool.not_true, Bool.false_eq_true, if_false]
    refine Prod.ext rfl ?_
    rw [← applyAddrMod_withSrc]
    simp only [Tensix.withSrc, hsa]

theorem ttmovb2d_withSrc (h : AgreesOnValid tt a b) (hb : tt.srcbReady = true) :
    ttmovb2d (tt.withSrc a b) imm tid = (ttmovb2d tt imm tid).withSrc a b := by
  have hsb : b tt.mathSrcbBank = tt.srcb tt.mathSrcbBank := h.srcb _ hb
  unfold ttmovb2d
  rw [← applyAddrMod_withSrc]
  simp only [Tensix.withSrc, hsb]

theorem ttzeroacc_withSrc (tt : Tensix) :
    ttzeroacc (tt.withSrc a b) imm tid = (ttzeroacc tt imm tid).withSrc a b := by
  have hdest : ∀ g : Grid, ({ tt.withSrc a b with dest := g } : Tensix) =
      ({ tt with dest := g } : Tensix).withSrc a b :=
    fun _ => rfl
  unfold ttzeroacc
  by_cases hflags : bit imm 17 = true
  · simp only [hflags, if_true]
  by_cases h₀ : bits imm 19 0x1F &&& 0x3 = 0
  · simp only [hflags, h₀, Bool.false_eq_true, if_false, if_true]
    exact hdest _
  by_cases h₁ : bits imm 19 0x1F &&& 0x3 = 1
  · simp only [hflags, h₁, Bool.false_eq_true, if_false, if_true]
    exact hdest _
  by_cases h₂ : bits imm 19 0x1F &&& 0x3 = 2
  · simp only [hflags, h₂, Bool.false_eq_true, if_false, if_true]
    exact hdest _
  simp only [hflags, h₀, h₁, h₂, Bool.false_eq_true, if_false]
  exact hdest _

theorem ttcleardvalid_withSrc (tt : Tensix) :
    ttcleardvalid (tt.withSrc a b) imm = (ttcleardvalid tt imm).withSrc a b := by
  unfold ttcleardvalid
  split_ifs
  · rfl
  · exact flipBanks_withSrc tt _ _

theorem ttsetrwc_withSrc (tt : Tensix) :
    ttsetrwc (tt.withSrc a b) imm tid = ((ttsetrwc tt imm tid).1, (ttsetrwc tt imm tid).2.withSrc a b) := by
  unfold ttsetrwc
  have hra : (tt.withSrc a b).srcaReady = tt.srcaReady := rfl
  have hrb : (tt.withSrc a b).srcbReady = tt.srcbReady := rfl
  rw [hra, hrb]
  by_cases ha : (bit (bits imm 22 0x3) 0 && !tt.srcaReady) = true
  · simp only [ha, if_true]
  by_cases hb : (bit (bits imm 22 0x3) 1 && !tt.srcbReady) = true
  · simp only [ha, hb, if_true, Bool.false_eq_true, if_false]
  simp only [ha, hb, Bool.false_eq_true, if_false]
  have hend : ∀ r fa fb, ((tt.withSrc a b).setRwc tid r).flipBanks fa fb =
      ((tt.setRwc tid r).flipBanks fa fb).withSrc a b :=
        fun r fa fb => flipBanks_withSrc (tt.setRwc tid r) fa fb
  exact Prod.ext rfl (hend _ _ _)

end commuting

section writing

variable {tt : Tensix} {a b : Bank → Grid} {imm : Word} {tid : Tid}

theorem SameWrites.applyAddrMod {x y x' y' : Tensix} (h : SameWrites x y x' y') (modIdx : Word) :
    SameWrites x y (applyAddrMod x' modIdx tid) (applyAddrMod y' modIdx tid) := by
  refine ⟨?_, fun s k => ?_⟩
  · rw [applyAddrMod_dest, applyAddrMod_dest]
    exact h.dest
  · rw [applyAddrMod_buffer, applyAddrMod_buffer]
    exact h.src s k

theorem overwritten_update {x y : Bank → Grid} {bank : Bank} {g h : Grid}
    (hw : Overwritten (x bank) (y bank) g h) (k : Bank) :
    Overwritten (x k) (y k) (Function.update x bank g k) (Function.update y bank h k) := by
  by_cases hk : k = bank
  · subst hk
    rw [Function.update_self, Function.update_self]
    exact hw
  · rw [Function.update_of_ne hk, Function.update_of_ne hk]
    exact .refl _ _

theorem sameWrites_srca {bank : Bank} {g h : Grid} (hw : Overwritten (tt.srca bank) (a bank) g h)
    (dvalid : Bank → Bool) :
    SameWrites tt (tt.withSrc a b) { tt with srca := Function.update tt.srca bank g, srcaDvalid := dvalid }
      { tt.withSrc a b with srca := Function.update a bank h, srcaDvalid := dvalid } := by
  refine ⟨rfl, fun s k => ?_⟩
  cases s with
  | srca => exact overwritten_update hw k
  | srcb => exact .refl _ _

theorem sameWrites_srcb {bank : Bank} {g h : Grid} (hw : Overwritten (tt.srcb bank) (b bank) g h)
    (dvalid : Bank → Bool) :
    SameWrites tt (tt.withSrc a b) { tt with srcb := Function.update tt.srcb bank g, srcbDvalid := dvalid }
      { tt.withSrc a b with srcb := Function.update b bank h, srcbDvalid := dvalid } := by
  refine ⟨rfl, fun s k => ?_⟩
  cases s with
  | srca => exact .refl _ _
  | srcb => exact overwritten_update hw k

theorem ttmovd2a_sameWrites (tt : Tensix) :
    SameWrites tt (tt.withSrc a b) (ttmovd2a tt imm tid) (ttmovd2a (tt.withSrc a b) imm tid) :=
  (sameWrites_srca (copyRows_overwritten _ _ _ _ _ _ _ _) _).applyAddrMod _

theorem ttmovd2b_sameWrites (tt : Tensix) :
    SameWrites tt (tt.withSrc a b) (ttmovd2b tt imm tid) (ttmovd2b (tt.withSrc a b) imm tid) :=
  (sameWrites_srcb (copyRows_overwritten _ _ _ _ _ _ _ _) _).applyAddrMod _

theorem ttmovb2a_sameWrites (h : AgreesOnValid tt a b) (hb : tt.srcbReady = true) :
    SameWrites tt (tt.withSrc a b) (ttmovb2a tt imm tid) (ttmovb2a (tt.withSrc a b) imm tid) := by
  have hsb : b tt.mathSrcbBank = tt.srcb tt.mathSrcbBank := h.srcb _ hb
  have hw : ∀ n d s, Overwritten (tt.srca tt.mathSrcaBank) (a tt.mathSrcaBank)
      (copyRows n (tt.srca tt.mathSrcaBank) d srcaRows (tt.srcb tt.mathSrcbBank) s srcbRows)
      (copyRows n (a tt.mathSrcaBank) d srcaRows (b tt.mathSrcbBank) s srcbRows) := by
    intro n d s
    rw [hsb]
    exact copyRows_overwritten _ _ _ _ _ _ _ _
  exact (sameWrites_srca (hw _ _ _) _).applyAddrMod _

theorem fillBanks_overwritten (x y : Bank → Grid) (both : Bool) (target : Bank) (rows : ℕ) (fill : Word)
    (k : Bank) :
    Overwritten (x k) (y k) (fillBanks x both target rows fill k) (fillBanks y both target rows fill k) := by
  intro r c
  unfold fillBanks
  split_ifs
  · exact .inl rfl
  · exact .inr ⟨rfl, rfl⟩

theorem fillIf_overwritten (x y : Bank → Grid) (c both : Bool) (target : Bank) (rows : ℕ) (fill : Word)
    (k : Bank) :
    Overwritten (x k) (y k) ((if c then fillBanks x both target rows fill else x) k)
      ((if c then fillBanks y both target rows fill else y) k) := by
  cases c with
  | false => exact .refl _ _
  | true => exact fillBanks_overwritten _ _ _ _ _ _ _

theorem ttzerosrc_sameWrites (tt : Tensix) :
    SameWrites tt (tt.withSrc a b) (ttzerosrc tt imm) (ttzerosrc (tt.withSrc a b) imm) := by
  refine ⟨rfl, fun s k => ?_⟩
  cases s with
  | srca => exact fillIf_overwritten _ _ _ _ _ _ _ _
  | srcb => exact fillIf_overwritten _ _ _ _ _ _ _ _

theorem tttrnspsrcb_sameWrites (h : AgreesOnValid tt a b) (hb : tt.srcbReady = true) :
    SameWrites tt (tt.withSrc a b) (tttrnspsrcb tt) (tttrnspsrcb (tt.withSrc a b)) := by
  have hsb : b tt.mathSrcbBank = tt.srcb tt.mathSrcbBank := h.srcb _ hb
  refine sameWrites_srcb ?_ tt.srcbDvalid
  intro r c
  left
  change forRange 16 (b tt.mathSrcbBank) _ r c = _
  rw [hsb]

end writing

def ReadsBank (core : Tensix) (tid : Tid) (insn : Word) (s : Source) (k : Bank) : Prop :=
  match insnImpl insn with
  | .ttelwmul | .ttelwadd | .ttelwsub => k = (core.buffer s).consumer
  | .ttmvmul => k = ((skipZeroedSrcb core).buffer s).consumer
  | .ttgmpool | .ttmova2d => s = .srca ∧ k = core.mathSrcaBank
  | .ttgapool => (core.rwc tid).fidelity = 0 ∧ k = (core.buffer s).consumer
  | .ttmovb2d | .ttmovb2a | .tttrnspsrcb => s = .srcb ∧ k = core.mathSrcbBank
  | _ => False

/-- The instruction reads only banks of the matrix unit, and nothing that the unpackers own can change
its effect. -/
structure AutoWaits (core : Tensix) (tid : Tid) (insn : Word) : Prop where
  waits : ∀ s k, ReadsBank core tid insn s k → (core.buffer s).valid k = true
  indifferent : ∀ mopCfg, Indifferent (fun tt =>
    runCoreImpl (insnImpl insn) tt mopCfg (tensixInsnParam insn) tid) core

def ReadsSrcbUnchecked (core : Tensix) (tid : Tid) (insn : Word) : Prop :=
  insnImpl insn = .ttmovb2d ∨ insnImpl insn = .ttmovb2a ∨ insnImpl insn = .tttrnspsrcb ∨
    insnImpl insn = .ttgapool ∧ (core.rwc tid).fidelity = 0
  deriving Decidable

def isMatrixOpcode (opcode : Word) : Bool := insnGetBlockBits opcode = 0x40

def matrixImpls : List InsnImpl :=
  [.ttelwmul, .ttelwadd, .ttelwsub, .ttmvmul, .ttgmpool, .ttgapool, .ttmova2d, .ttmovb2d, .ttzeroacc,
    .ttcleardvalid, .ttsetrwc, .ttincrwc, .ttmovd2a, .ttmovd2b, .ttmovb2a, .ttzerosrc, .tttrnspsrcb,
    .ttmovdbga2d, .ttshiftxa, .ttshiftxb, .ttclrexphist, .ttconv3s1, .ttconv3s2, .ttmpool3s1, .ttapool3s1,
    .ttdotpv, .ttmpool3s2, .ttapool3s2, .ttgatesrcrst, .ttmfconv3s1]

def matrixOpcodes : List Word :=
  [0x25, 0x32, 0x36, 0x21, 0x22, 0x23, 0x29, 0x28, 0x27, 0x30, 0x34, 0x35, 0x33, 0x38, 0x3a,
    0x12, 0x0b, 0x13, 0x08, 0x0a, 0x09, 0x24, 0x31, 0x26, 0x37, 0x17, 0x18, 0x16, 0x10, 0x11]

theorem else_of_ite {α : Type} {p : Prop} [Decidable p] {x y z : α} (h : (if p then x else y) = z)
    (hx : x ≠ z) :
    y = z := by
  by_cases hp : p
  · rw [if_pos hp] at h
    exact absurd h hx
  · rwa [if_neg hp] at h

theorem mem_matrixOpcodes {opcode : Word} (h : isMatrixOpcode opcode = true) : opcode ∈ matrixOpcodes := by
  have h₀ : insnGetBlockBits opcode = 0x40 := of_decide_eq_true h
  unfold insnGetBlockBits at h₀
  have h₁ := else_of_ite h₀ (by decide)
  have h₂ := else_of_ite h₁ (by decide)
  have h₃ := else_of_ite h₂ (by decide)
  have h₄ := else_of_ite h₃ (by decide)
  have h₅ := else_of_ite h₄ (by decide)
  have h₆ := else_of_ite h₅ (by decide)
  unfold matrixOpcodes
  by_contra hmem
  rw [if_neg hmem] at h₆
  have h₇ := else_of_ite h₆ (by decide)
  have h₈ := else_of_ite h₇ (by decide)
  exact absurd (else_of_ite h₈ (by decide)) (by decide)

theorem insnImpl_mem_matrixImpls {insn : Word} (h : isMatrixOpcode (tensixInsnOpcode insn) = true) :
    insnImpl insn ∈ matrixImpls := by
  have hop := mem_matrixOpcodes h
  unfold insnImpl
  generalize tensixInsnOpcode insn = opcode at hop
  simp only [matrixOpcodes, List.mem_cons, List.not_mem_nil, or_false] at hop
  obtain rfl | rfl | rfl | rfl | rfl | rfl | rfl | rfl | rfl | rfl | rfl | rfl | rfl | rfl | rfl | rfl |
    rfl | rfl | rfl | rfl | rfl | rfl | rfl | rfl | rfl | rfl | rfl | rfl | rfl | rfl := hop <;> decide

section matrix

variable {core core' : Tensix} {tid : Tid} {insn : Word} {impl : InsnImpl} {mopCfg : ℕ → Word} {imm : Word}

theorem Indifferent.of_sameWrites {f : Tensix → Tensix}
    (h : ∀ a b, AgreesOnValid core a b → SameWrites core (core.withSrc a b) (f core) (f (core.withSrc a b))) :
    Indifferent (fun tt => (true, f tt)) core :=
  fun a b hab => ⟨rfl, h a b hab⟩

theorem Indifferent.of_commutes_total {f : Tensix → Tensix}
    (h : ∀ a b, AgreesOnValid core a b → f (core.withSrc a b) = (f core).withSrc a b) :
    Indifferent (fun tt => (true, f tt)) core :=
  .of_commutes fun a b hab => Prod.ext rfl (h a b hab)

theorem matrix_indifferent (hi : impl ∈ matrixImpls)
    (hb : impl = .ttmovb2d ∨ impl = .ttmovb2a ∨ impl = .tttrnspsrcb ∨ impl = .ttgapool ∧
      (core.rwc tid).fidelity = 0 →
      core.srcbReady = true) :
    Indifferent (fun tt => runCoreImpl impl tt mopCfg imm tid) core := by
  simp only [matrixImpls, List.mem_cons, List.not_mem_nil, or_false] at hi
  obtain rfl | rfl | rfl | rfl | rfl | rfl | rfl | rfl | rfl | rfl | rfl | rfl | rfl | rfl | rfl | rfl |
    rfl | hi := hi
  · exact .of_commutes fun a b h => ttelwmul_withSrc h
  · exact .of_commutes fun a b h => ttelwadd_withSrc h
  · exact .of_commutes fun a b h => ttelwsub_withSrc h
  · exact .of_commutes fun a b h => ttmvmul_withSrc h
  · exact .of_commutes fun a b h => ttgmpool_withSrc h
  · exact .of_commutes fun a b h => ttgapool_withSrc h fun hf => hb (by simp [hf])
  · exact .of_commutes fun a b h => ttmova2d_withSrc h
  · exact .of_commutes_total fun a b h => ttmovb2d_withSrc h (hb (by simp))
  · exact .of_commutes_total fun a b _ => ttzeroacc_withSrc core
  · exact .of_commutes_total fun a b _ => ttcleardvalid_withSrc core
  · exact .of_commutes fun a b _ => ttsetrwc_withSrc core
  · exact .of_commutes_total fun a b _ => rfl
  · exact .of_sameWrites fun a b _ => ttmovd2a_sameWrites core
  · exact .of_sameWrites fun a b _ => ttmovd2b_sameWrites core
  · exact .of_sameWrites fun a b h => ttmovb2a_sameWrites h (hb (by simp))
  · exact .of_sameWrites fun a b _ => ttzerosrc_sameWrites core
  · exact .of_sameWrites fun a b h => tttrnspsrcb_sameWrites h (hb (by simp))
  · have hidle : ∀ tt, runCoreImpl impl tt mopCfg imm tid = (true, tt) := by
      intro tt
      obtain rfl | rfl | rfl | rfl | rfl | rfl | rfl | rfl | rfl | rfl | rfl | rfl | rfl := hi <;> rfl
    apply Indifferent.of_commutes
    intro a b _
    simp only [hidle]

theorem ttmvmul_ready {tt tt' : Tensix} (h : ttmvmul tt mopCfg imm tid = (true, tt')) :
    tt.srcaReady = true ∧ tt.srcbReady = true := by
  unfold ttmvmul at h
  cases ha : tt.srcaReady with
  | false =>
    rw [ha] at h
    cases h
  | true =>
    cases hb : tt.srcbReady with
    | false =>
      rw [ha, hb] at h
      cases h
    | true => exact ⟨rfl, rfl⟩

theorem ttmova2d_ready {tt tt' : Tensix} (h : ttmova2d tt imm tid = (true, tt')) : tt.srcaReady = true := by
  unfold ttmova2d at h
  cases ha : tt.srcaReady with
  | false =>
    simp only [ha, Bool.not_false, if_true] at h
    cases h
  | true => rfl

theorem mvmul_reads_valid (ha : core.srcaReady = true) (hb : core.srcbReady = true) (s : Source) :
    (core.buffer s).valid ((skipZeroedSrcb core).buffer s).consumer = true := by
  cases s with
  | srca =>
    change core.srcaDvalid (skipZeroedSrcb core).mathSrcaBank = true
    rw [(skipZeroedSrcb_same core).2.2]
    exact ha
  | srcb => exact skipZeroedSrcb_valid hb

theorem Completes.elementwise_owned (h : Completes tid core insn core')
    (hi : insnImpl insn = .ttelwmul ∨ insnImpl insn = .ttelwadd ∨ insnImpl insn = .ttelwsub) (s : Source) :
    (core.buffer s).Owned := by
  obtain ⟨cfg, h⟩ := h
  obtain hi | hi | hi := hi
  all_goals rw [hi] at h
  · have hrun : ttelwmul core (tensixInsnParam insn) tid = (true, core') := h
    dsimp only [ttelwmul] at hrun
    exact (elementwise_banks hrun).1 s
  · have hrun : ttelwadd core (tensixInsnParam insn) tid = (true, core') := h
    dsimp only [ttelwadd] at hrun
    exact (elementwise_banks hrun).1 s
  · have hrun : ttelwsub core (tensixInsnParam insn) tid = (true, core') := h
    dsimp only [ttelwsub] at hrun
    exact (elementwise_banks hrun).1 s

theorem Completes.waits (h : Completes tid core insn core')
    (hb : ReadsSrcbUnchecked core tid insn → core.srcbReady = true) (s : Source) (k : Bank)
    (hr : ReadsBank core tid insn s k) : (core.buffer s).valid k = true := by
  unfold ReadsBank at hr
  split at hr
  · next hi =>
    subst hr
    exact h.elementwise_owned (.inl hi) s
  · next hi =>
    subst hr
    exact h.elementwise_owned (.inr (.inl hi)) s
  · next hi =>
    subst hr
    exact h.elementwise_owned (.inr (.inr hi)) s
  · next hi =>
    obtain ⟨cfg, h⟩ := h
    rw [hi] at h
    obtain ⟨ha, hb⟩ := ttmvmul_ready h
    subst hr
    exact mvmul_reads_valid ha hb s
  · next hi =>
    obtain ⟨cfg, h⟩ := h
    rw [hi] at h
    obtain ⟨rfl, rfl⟩ := hr
    exact (ttgmpool_banks h).1
  · next hi =>
    obtain ⟨cfg, h⟩ := h
    rw [hi] at h
    obtain ⟨rfl, rfl⟩ := hr
    exact ttmova2d_ready h
  · next hi =>
    obtain ⟨cfg, h⟩ := h
    rw [hi] at h
    obtain ⟨hf, rfl⟩ := hr
    cases s with
    | srca => exact (ttgapool_banks h).1
    | srcb => exact hb (.inr (.inr (.inr ⟨hi, hf⟩)))
  · next hi =>
    obtain ⟨rfl, rfl⟩ := hr
    exact hb (.inl hi)
  · next hi =>
    obtain ⟨rfl, rfl⟩ := hr
    exact hb (.inr (.inl hi))
  · next hi =>
    obtain ⟨rfl, rfl⟩ := hr
    exact hb (.inr (.inr (.inl hi)))
  · exact hr.elim

theorem ReadsSrcbUnchecked.readsBank (h : ReadsSrcbUnchecked core tid insn) :
    ReadsBank core tid insn .srcb core.mathSrcbBank := by
  unfold ReadsBank
  obtain hi | hi | hi | ⟨hi, hf⟩ := h
  all_goals rw [hi]
  · exact ⟨rfl, rfl⟩
  · exact ⟨rfl, rfl⟩
  · exact ⟨rfl, rfl⟩
  · exact ⟨hf, rfl⟩

end matrix

theorem auto_wait_iff {cop cop' : TensixCop} {ls : List Label} {is : List Item} (h : History cop ls is cop')
    {i : Item} (hi : i ∈ is) {insn : Word} (hx : insn ∈ i.executed)
    (hm : isMatrixOpcode (tensixInsnOpcode insn) = true) :
    AutoWaits i.before i.tid insn ↔
      (ReadsSrcbUnchecked i.before i.tid insn → i.before.srcbReady = true) := by
  constructor
  · intro hw hr
    exact hw.waits .srcb _ hr.readsBank
  · intro hb
    exact ⟨(h.completes hi hx).waits hb, fun _ => matrix_indifferent (insnImpl_mem_matrixImpls hm) hb⟩

def staleSrcb : TensixCop :=
  { powerUp with core := powerUp.core.withSrc powerUp.core.srca fun _ _ _ => 0x3F800000 }

theorem auto_wait_movb2d_unowned :
    (∃ is cop, History powerUp [⟨1, .issue 0x13000000, true⟩] is cop ∧ cop.core.dest 0 0 = 0) ∧
      ∃ is cop, History staleSrcb [⟨1, .issue 0x13000000, true⟩] is cop ∧ cop.core.dest 0 0 = 0x3F800000 ∧
        ∃ i ∈ is, i.executed = some 0x13000000 ∧ ReadsBank i.before i.tid 0x13000000 .srcb 0 ∧
          (i.before.buffer .srcb).valid 0 = false := by
  constructor
  · obtain ⟨is, cop, h, hp⟩ := powerUp.issueAll_check 3 [(1, 0x13000000)] (fun r => r.2.core.dest 0 0 = 0)
        (by decide)
    exact ⟨is, cop, h, of_decide_eq_true hp⟩
  · obtain ⟨is, cop, h, hp⟩ := staleSrcb.issueAll_check 3 [(1, 0x13000000)]
      (fun r => r.2.core.dest 0 0 = 0x3F800000 ∧ ∃ i ∈ r.1, i.executed = some 0x13000000 ∧
        i.before.mathSrcbBank = 0 ∧ i.before.srcbDvalid 0 = false) (by decide)
    obtain ⟨hdest, i, hi, hx, hbank, hvalid⟩ := of_decide_eq_true hp
    have hmov : insnImpl 0x13000000 = .ttmovb2d := by decide
    refine ⟨is, cop, h, hdest, i, hi, hx, ?_, hvalid⟩
    unfold ReadsBank
    rw [hmov]
    exact ⟨rfl, hbank.symm⟩

theorem auto_wait_movb2d_owned :
    ∃ ls is cop, History powerUp ls is cop ∧ ∃ i ∈ is, i.executed = some 0x13000000 ∧
      AutoWaits i.before i.tid 0x13000000 := by
  obtain ⟨is, cop, h, hp⟩ := powerUp.issueAll_check 3 [(0, 0x42800040), (1, 0x13000000)]
    (fun r => ∃ i ∈ r.1, i.executed = some 0x13000000 ∧ i.before.srcbReady = true) (by decide)
  obtain ⟨i, hi, hx, hready⟩ := of_decide_eq_true hp
  exact ⟨_, is, cop, h, i, hi, hx, (auto_wait_iff h hi hx (by decide)).mpr fun _ => hready⟩

end Rv32Emu
