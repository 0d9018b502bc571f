import Rv32Emu.Rv.Decoding

namespace Rv32Emu

section issue

inductive Issue
  | coprocessor (insn : Word)
  | riscv (ir : Ir)
  | illegal

/-- A zero word stops the translator. The trap for an illegal instruction is left out of a build for the
coprocessor, which gets what the decoder rejects. -/
def issue (insn : Word) : Option Issue :=
  if insn = 0 then none
  else
    match rvDecode extDecode insn with
    | none => some (.coprocessor (rotr32 insn 2))
    | some ir => some (.riscv ir)

theorem issue_rejected {w : Word} (hw : w ≠ 0) (hd : rvDecode extDecode w = none) :
    issue w = some (.coprocessor (rotr32 w 2)) := by
  unfold issue
  rw [if_neg hw, hd]

theorem issue_riscv {w : Word} {ir : Ir} (hw : w ≠ 0) :
    issue w = some (.riscv ir) ↔ rvDecode extDecode w = some ir := by
  unfold issue
  rw [if_neg hw]
  cases rvDecode extDecode w with
  | none => exact ⟨nofun, nofun⟩
  | some i => simp

def ttIr (insn pc : Word) : Ir := { mkIr .ttinsn insn 0 0 0 with impl := .ttinsn, pc }

def Issue.Becomes (pc : Word) (ir : Ir) : Issue → Prop
  | coprocessor insn => ir = ttIr insn pc
  | riscv i => ir = { i with pc } ∨ i.opcode = .lw ∧ ir = { i with pc, impl := .lwMailbox }
  | illegal => False

theorem add_next (pc : Word) (k : ℕ) : pc + w32 (4 * (k + 1)) = pc + 4 + w32 (4 * k) := by
  rw [show 4 * (k + 1) = 4 + 4 * k by omega, BitVec.add_assoc]
  congr 1
  exact BitVec.ofNat_add 4 (4 * k)

theorem translateLoop_issue {δ ξ : Type} (P : Platform δ ξ) (E : ExtUnits δ ξ) (c : CoreConfig) (dev : δ)
    (x : Reg → Word) {n : ℕ} {pc : Word} {lui : Reg → Word} {irs : List Ir}
    (h : translateLoop (P.extend E) c dev x n pc lui = some irs) {k : ℕ} {ir : Ir} (hk : irs[k]? = some ir) :
    ∃ i, issue (P.memIfetch dev c.coreId (pc + w32 (4 * k))) = some i ∧ i.Becomes (pc + w32 (4 * k)) ir := by
  induction n generalizing pc lui irs k with
  | zero => cases h
  | succ n ih =>
    have first : ∀ {i : Issue} {j : Ir}, issue (P.memIfetch dev c.coreId pc) = some i → i.Becomes pc j →
        ([j] : List Ir)[k]? = some ir →
        ∃ i, issue (P.memIfetch dev c.coreId (pc + w32 (4 * k))) = some i ∧
          i.Becomes (pc + w32 (4 * k)) ir := by
      intro i j hi hj hk
      cases k with
      | zero =>
        cases hk
        have h0 : pc + w32 (4 * 0) = pc := BitVec.add_zero pc
        rw [h0]
        exact ⟨i, hi, hj⟩
      | succ k => cases hk
    unfold translateLoop at h
    dsimp only at h
    split at h
    · cases h
    case isFalse hz =>
      split at h
      case h_1 hd =>
        cases h
        exact first (i := .coprocessor _) (issue_rejected hz hd) rfl hk
      case h_2 j hd =>
        have hj : issue (P.memIfetch dev c.coreId pc) = some (.riscv j) := (issue_riscv hz).mpr hd
        split at h
        case isTrue hlw =>
          cases h
          simp only [Bool.and_eq_true] at hlw
          exact first hj (.inr ⟨isLw_iff.mp hlw.1.2, rfl⟩) hk
        split at h
        · cases h
          exact first hj (.inl rfl) hk
        · obtain ⟨irs, hl, rfl⟩ := Option.map_eq_some_iff.mp h
          cases k with
          | zero => exact first hj (.inl rfl) hk
          | succ k =>
            rw [add_next]
            exact ih hl hk

def rotl32 (w : Word) (n : ℕ) : Word := (w <<< n) ||| (w >>> (32 - n))

theorem rotr32_rotl32 (t : Word) : rotr32 (rotl32 t 2) 2 = t := by
  apply BitVec.eq_of_getLsbD_eq
  intro i hi
  simp only [rotr32, rotl32, BitVec.getLsbD_or, BitVec.getLsbD_shiftLeft, BitVec.getLsbD_ushiftRight]
  interval_cases i <;> simp

theorem rotl32_low (t : Word) : rotl32 t 2 &&& (3 : Word) = t >>> 30 := by
  apply BitVec.eq_of_getLsbD_eq
  intro i hi
  simp only [rotl32, BitVec.getLsbD_and, BitVec.getLsbD_or, BitVec.getLsbD_shiftLeft,
    BitVec.getLsbD_ushiftRight]
  interval_cases i <;> simp

theorem rotl32_low_ne {t : Word} (h : (tensixInsnOpcode t).toNat < 0xC0) : rotl32 t 2 &&& 3 ≠ 3 := by
  have h8 : (tensixInsnOpcode t).toNat = t.toNat / 2 ^ 24 % 2 ^ 8 := bits_mask_toNat t 24 8 rfl
  rw [rotl32_low]
  intro he
  have h3 : t.toNat / 2 ^ 30 = 3 := by
    rw [← Nat.shiftRight_eq_div_pow, ← BitVec.toNat_ushiftRight, he]
    rfl
  have := t.isLt
  omega

theorem issue_low {w : Word} (hw : w ≠ 0) (hl : w &&& 3 ≠ 3) : issue w = some (.coprocessor (rotr32 w 2)) :=
  issue_rejected hw (rvDecode_low hl)

theorem issue_rotl32 {t : Word} (ht : t ≠ 0) (h : (tensixInsnOpcode t).toNat < 0xC0) :
    issue (rotl32 t 2) = some (.coprocessor t) := by
  have hne : rotl32 t 2 ≠ 0 := by
    intro h0
    apply ht
    rw [← rotr32_rotl32 t, h0]
    rfl
  rw [issue_low hne (rotl32_low_ne h), rotr32_rotl32]

structure DispatchesRight (w : Word) : Prop where
  coprocessor : w &&& 3 ≠ 3 → issue w = some (.coprocessor (rotr32 w 2))
  riscv : w &&& 3 = 3 →
    issue w = some .illegal ∨ ∃ (m : Mnemonic) (ir : Ir), m.Encodes w ∧ issue w = some (.riscv ir) ∧
      m.RunBy w ir

theorem issue_ne_illegal (w : Word) : issue w ≠ some .illegal := by
  unfold issue
  split_ifs
  · nofun
  · split <;> nofun

end issue

section dispatch

theorem insn_dispatch_iff (w : Word) (hw : w ≠ 0) :
    (DispatchesRight w ↔ (w &&& 3 = 3 → ∃ m : Mnemonic, m.Encodes w ∧ ¬m.HighCsr w)) ∧
      (∀ t, t ≠ 0 → (tensixInsnOpcode t).toNat < 0xC0 → issue (rotl32 t 2) = some (.coprocessor t)) ∧
      ∀ {δ ξ : Type} (P : Platform δ ξ) (E : ExtUnits δ ξ) (c : CoreConfig),
        (∀ (dev : δ) (x lui : Reg → Word) (n : ℕ) (pc : Word) (irs : List Ir),
          translateLoop (P.extend E) c dev x n pc lui = some irs → ∀ k ir, irs[k]? = some ir →
            ∃ i, issue (P.memIfetch dev c.coreId (pc + w32 (4 * k))) = some i ∧
              i.Becomes (pc + w32 (4 * k)) ir) ∧
        ∀ (rv : Rv ξ) (sh : Shared δ) (f : Frame) (rest : List Ir) (insn pc : Word),
          (execute (P.extend E) c rv sh { f with irs := ttIr insn pc :: rest }).shared.dev =
            (P.tensixDirect sh.dev c.coreId insn).2 := by
  refine ⟨⟨?_, ?_⟩, fun t => issue_rotl32, fun P E c =>
    ⟨fun dev x lui n pc irs h k ir => translateLoop_issue P E c dev x h, fun rv sh f rest insn pc => rfl⟩⟩
  · intro h hl
    obtain hi | ⟨m, ir, hm, hi, -⟩ := h.riscv hl
    · exact absurd hi (issue_ne_illegal w)
    · refine ⟨m, hm, fun hc => ?_⟩
      rw [issue_riscv hw, rvDecode_highCsr hm hc] at hi
      cases hi
  · intro h
    refine ⟨issue_low hw, fun hl => .inr ?_⟩
    obtain ⟨m, hm, hc⟩ := h hl
    obtain ⟨ir, hd, hr⟩ := rvDecode_runs hm hc
    exact ⟨m, ir, hm, (issue_riscv hw).mpr hd, hr⟩

theorem insn_dispatch_addi : (0x00150513 : Word) ≠ 0 ∧ DispatchesRight 0x00150513 := by
  refine ⟨by decide, (insn_dispatch_iff 0x00150513 (by decide)).1.mpr fun _ => ⟨.imm .addi, ⟨rfl, nofun⟩, ?_⟩⟩
  rintro ⟨⟨op, h | h⟩, -⟩ <;> cases h

theorem csrw_mcycle_to_coprocessor :
    (Mnemonic.ext (.csr .csrrw)).Encodes 0xB0009073 ∧
      issue 0xB0009073 = some (.coprocessor 0xEC00241C) ∧ ¬∀ w, w ≠ 0 → DispatchesRight w := by
  have hi : issue 0xB0009073 = some (.coprocessor 0xEC00241C) := issue_rejected (by decide) rfl
  refine ⟨⟨rfl, nofun⟩, hi, fun h => ?_⟩
  obtain hr | ⟨m, ir, -, hr, -⟩ := (h 0xB0009073 (by decide)).riscv rfl
  · cases hi.symm.trans hr
  · cases hi.symm.trans hr

end dispatch

end Rv32Emu
