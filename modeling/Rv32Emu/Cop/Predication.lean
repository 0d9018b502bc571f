import Mathlib.Tactic.SplitIfs
import Rv32Emu.Cop.Dispatch
import Rv32Emu.Tensix.Lanes

namespace Rv32Emu

def InsnImpl.isVector : InsnImpl → Bool
  | .sfpload | .sfploadi | .sfpstore | .sfplut | .sfpmuli | .sfpaddi | .sfpdivp2 | .sfpexexp
  | .sfpexman | .sfpiadd | .sfpshft | .sfpsetcc | .sfpmov | .sfpabs | .sfpand | .sfpor | .sfpnot
  | .sfplz | .sfpsetexp | .sfpsetman | .sfpmad | .sfpadd | .sfpmul | .sfppushc | .sfppopc
  | .sfpsetsgn | .sfpencc | .sfpcompc | .sfptransp | .sfpxor | .sfpstochrnd | .sfpnop | .sfpcast
  | .sfpconfig | .sfpswap | .sfploadMacro | .sfpshft2 | .sfplutfp32 | .sfple | .sfpgt | .sfpmul24
  | .sfparecip => true
  | _ => false

def allLanes (insn : Word) : Prop :=
  insnImpl insn = .sfpconfig ∨ insnImpl insn = .sfpmov ∧ tensixInsnParam insn &&& 0xF = 2 ∨
    insnImpl insn = .sfpstore ∧ bits (tensixInsnParam insn) 16 0xF = 10

def loadsLreg (insn : Word) : Prop :=
  insnImpl insn = .sfpload ∧ (bits (tensixInsnParam insn) 20 0xF).toNat < 8

def vectorExec (insn : Word) (tid : Tid) (cfg : ℕ → Word) (tt : Tensix) : Tensix :=
  (runCoreImpl (insnImpl insn) tt cfg (tensixInsnParam insn) tid).2

open Sfpu

section dispatch

variable {impl : InsnImpl} {imm : Word}

theorem runCoreImpl_lanewise (hv : impl.isVector = true) (hl : impl ≠ .sfpload) (hs : impl ≠ .sfpstore)
    (hc : impl ≠ .sfpconfig) (ht : impl ≠ .sfptransp) (hm : impl = .sfpmov → imm &&& 0xF ≠ 2) :
    ∃ F, Lanewise F ∧ ∀ tt cfg tid, (runCoreImpl impl tt cfg imm tid).2 = tt.setSfpu (F tt.sfpu) := by
  cases impl with
  | sfpload => exact absurd rfl hl
  | sfpstore => exact absurd rfl hs
  | sfpconfig => exact absurd rfl hc
  | sfptransp => exact absurd rfl ht
  | sfpmov => exact ⟨_, sfpmov_lanewise imm (hm rfl), fun _ _ _ => rfl⟩
  | sfploadi => exact ⟨_, sfploadi_lanewise imm, fun _ _ _ => rfl⟩
  | sfpmuli => exact ⟨_, sfpmuli_lanewise imm, fun _ _ _ => rfl⟩
  | sfpaddi => exact ⟨_, sfpaddi_lanewise imm, fun _ _ _ => rfl⟩
  | sfpexexp => exact ⟨_, sfpexexp_lanewise imm, fun _ _ _ => rfl⟩
  | sfpexman => exact ⟨_, sfpexman_lanewise imm, fun _ _ _ => rfl⟩
  | sfpiadd => exact ⟨_, sfpiadd_lanewise imm, fun _ _ _ => rfl⟩
  | sfpshft => exact ⟨_, sfpshft_lanewise imm, fun _ _ _ => rfl⟩
  | sfpsetcc => exact ⟨_, sfpsetcc_lanewise imm, fun _ _ _ => rfl⟩
  | sfpabs => exact ⟨_, sfpabs_lanewise imm, fun _ _ _ => rfl⟩
  | sfpand => exact ⟨_, sfpand_lanewise imm, fun _ _ _ => rfl⟩
  | sfpor => exact ⟨_, sfpor_lanewise imm, fun _ _ _ => rfl⟩
  | sfpnot => exact ⟨_, sfpnot_lanewise imm, fun _ _ _ => rfl⟩
  | sfpsetexp => exact ⟨_, sfpsetexp_lanewise imm, fun _ _ _ => rfl⟩
  | sfpmad | sfpadd | sfpmul => exact ⟨_, sfpMadCommon_lanewise imm, fun _ _ _ => rfl⟩
  | sfppushc => exact ⟨_, sfppushc_lanewise imm, fun _ _ _ => rfl⟩
  | sfppopc => exact ⟨_, sfppopc_lanewise imm, fun _ _ _ => rfl⟩
  | sfpsetsgn => exact ⟨_, sfpsetsgn_lanewise imm, fun _ _ _ => rfl⟩
  | sfpencc => exact ⟨_, sfpencc_lanewise imm, fun _ _ _ => rfl⟩
  | sfpcompc => exact ⟨_, sfpcompc_lanewise imm, fun _ _ _ => rfl⟩
  | sfpxor => exact ⟨_, sfpxor_lanewise imm, fun _ _ _ => rfl⟩
  | sfpstochrnd => exact ⟨_, sfpstochrnd_lanewise imm, fun _ _ _ => rfl⟩
  | sfpcast => exact ⟨_, sfpcast_lanewise imm, fun _ _ _ => rfl⟩
  | sfpswap => exact ⟨_, sfpswap_lanewise imm, fun _ _ _ => rfl⟩
  | sfplutfp32 => exact ⟨_, sfplutfp32_lanewise imm, fun _ _ _ => rfl⟩
  | sfparecip => exact ⟨_, sfparecip_lanewise imm, fun _ _ _ => rfl⟩
  | sfplut | sfpdivp2 | sfplz | sfpsetman | sfpnop | sfploadMacro | sfpshft2 | sfple | sfpgt | sfpmul24 =>
    exact ⟨_, .skip, fun _ _ _ => rfl⟩
  | _ => exact absurd hv (by decide)

end dispatch

section exchange

variable {s : Sfpu} {k : ℕ}

def transpStep (a b p q : ℕ) (s : Sfpu) : Sfpu :=
  let ij := s.lreg a p
  let ji := s.lreg b q
  let s := if s.laneEnabled p then s.setLreg a p ji else s
  if s.laneEnabled q then s.setLreg b q ij else s

def OffSame (k : ℕ) (s s' : Sfpu) : Prop :=
  s'.laneFlags = s.laneFlags ∧ s'.useLaneFlags = s.useLaneFlags ∧ ∀ r, s'.lreg r k = s.lreg r k

theorem setLreg_off (hk : s.laneEnabled k = false) (r j : ℕ) (x : Word) :
    OffSame k s (if s.laneEnabled j then s.setLreg r j x else s) := by
  split
  · next hj =>
    have hne : k ≠ j := fun h => Bool.false_ne_true (hk.symm.trans (h ▸ hj))
    refine ⟨rfl, rfl, fun r' => ?_⟩
    exact congrFun (congrArg Lane.lreg (laneAt_setLreg_ne s j r x hne)) r'
  · exact ⟨rfl, rfl, fun _ => rfl⟩

theorem OffSame.enabled {s' : Sfpu} (h : OffSame k s s') (j : ℕ) : s'.laneEnabled j = s.laneEnabled j := by
  unfold Sfpu.laneEnabled
  rw [h.1, h.2.1]

theorem OffSame.trans {s' s'' : Sfpu} (h : OffSame k s s') (h' : OffSame k s' s'') : OffSame k s s'' :=
  ⟨h'.1.trans h.1, h'.2.1.trans h.2.1, fun r => (h'.2.2 r).trans (h.2.2 r)⟩

theorem transpStep_off (hk : s.laneEnabled k = false) (a b p q : ℕ) : OffSame k s (transpStep a b p q s) := by
  have hfirst := setLreg_off hk a p (s.lreg b q)
  exact hfirst.trans (setLreg_off ((hfirst.enabled k).trans hk) b q (s.lreg a p))

theorem forRange_off {f : Sfpu → ℕ → Sfpu} (n : ℕ) (hf : ∀ s i, s.laneEnabled k = false → OffSame k s (f s i))
    (hk : s.laneEnabled k = false) : OffSame k s (forRange n s f) := by
  apply forRange_induction (P := fun _ t => OffSame k s t)
  · exact ⟨rfl, rfl, fun _ => rfl⟩
  · intro i _ t ht
    exact ht.trans (hf t i ((ht.enabled k).trans hk))

theorem sfptransp_eq (s : Sfpu) (imm : Word) : sfptransp s imm =
    if fieldVd imm ≥ 12 then s
    else forRange 2 s fun s half => forRange 8 s fun s col => forRange 4 s fun s i => forRange i s fun s j =>
      transpStep (4 * half + i) (4 * half + j) (j * 8 + col) (i * 8 + col) s := rfl

theorem sfptransp_off (imm : Word) (hk : s.laneEnabled k = false) : OffSame k s (sfptransp s imm) := by
  rw [sfptransp_eq]
  split
  · exact ⟨rfl, rfl, fun _ => rfl⟩
  · apply forRange_off 2 _ hk
    intro s half hk
    apply forRange_off 8 _ hk
    intro s col hk
    apply forRange_off 4 _ hk
    intro s i hk
    apply forRange_off i _ hk
    intro s j hk
    exact transpStep_off hk _ _ _ _

end exchange

section places

variable (tt : Tensix) (imm : Word) (tid : Tid)

theorem sfpuPlace_injective {j k : ℕ} (hj : j < lregLanes) (hk : k < lregLanes)
    (h : sfpuPlace tt imm tid j = sfpuPlace tt imm tid k) : j = k := by
  unfold lregLanes at hj hk
  obtain ⟨hrow, hcol⟩ := Prod.mk.inj h
  have hrow := BitVec.add_right_inj _ |>.mp (BitVec.eq_of_toNat_eq hrow)
  have hdiv : j / 8 = k / 8 := by
    have hnat := congrArg BitVec.toNat hrow
    simp only [w32, BitVec.toNat_ofNat] at hnat
    omega
  omega

theorem sfpuPlace_col (k : ℕ) : (sfpuPlace tt imm tid k).2 < rowSize := by
  unfold sfpuPlace rowSize
  dsimp only
  split <;> omega

def loadLane (s : Sfpu) (k : ℕ) : Sfpu :=
  if (sfpuPlace tt imm tid k).1 < destRows ∧ (sfpuPlace tt imm tid k).2 < rowSize then
    s.setLreg (bits imm 20 0xF).toNat k (tt.dest (sfpuPlace tt imm tid k).1 (sfpuPlace tt imm tid k).2)
  else s

theorem loadLane_local : lanes.Local (loadLane tt imm tid) :=
  .ite (fun _ _ _ _ => rfl) (setLreg_local (fun _ _ _ _ => rfl) fun _ _ _ _ => rfl) .skip

theorem sfpload_sfpu : (sfpload tt imm tid).sfpu =
    if (bits imm 20 0xF).toNat ≥ 8 then tt.sfpu else forRange lregLanes tt.sfpu (loadLane tt imm tid) := by
  unfold sfpload
  rw [applyAddrMod_sfpu]
  rfl

theorem sfpload_dest : (sfpload tt imm tid).dest = tt.dest := by
  unfold sfpload
  rw [applyAddrMod_dest]

theorem sfpstore_sfpu : (sfpstore tt imm tid).sfpu = tt.sfpu := by
  unfold sfpstore
  rw [applyAddrMod_sfpu]

def storeLane (g : Grid) (k : ℕ) : Grid :=
  if !tt.sfpu.laneEnabled k && bits imm 16 0xF ≠ 10 then g
  else if (sfpuPlace tt imm tid k).1 < destRows ∧ (sfpuPlace tt imm tid k).2 < rowSize then
    Grid.set g (sfpuPlace tt imm tid k).1 (sfpuPlace tt imm tid k).2 (tt.sfpu.lreg (bits imm 20 0xF).toNat k)
  else g

theorem sfpstore_dest : (sfpstore tt imm tid).dest = forRange lregLanes tt.dest (storeLane tt imm tid) := by
  unfold sfpstore
  rw [applyAddrMod_dest]
  apply forRange_congr
  intro k _ g
  unfold storeLane
  rfl

theorem storeLane_off {k : ℕ} (hk : tt.sfpu.laneEnabled k = false) (h10 : bits imm 16 0xF ≠ 10) (g : Grid) :
    storeLane tt imm tid g k = g := by
  unfold storeLane
  rw [hk, if_pos (by simpa using h10)]

theorem storeLane_ne {j k : ℕ} (hj : j < lregLanes) (hk : k < lregLanes) (hne : j ≠ k) (g : Grid) :
    storeLane tt imm tid g j (sfpuPlace tt imm tid k).1 (sfpuPlace tt imm tid k).2 =
      g (sfpuPlace tt imm tid k).1 (sfpuPlace tt imm tid k).2 := by
  unfold storeLane
  split
  · rfl
  split
  · apply if_neg
    rintro ⟨hrow, hcol⟩
    exact hne (sfpuPlace_injective tt imm tid hj hk (Prod.ext hrow.symm hcol.symm))
  · rfl

end places

def Tensix.withLregs (tt : Tensix) (l : ℕ → ℕ → Word) : Tensix := tt.setSfpu { tt.sfpu with lreg := l }

def AgreesOn (s : Sfpu) (l : ℕ → ℕ → Word) : Prop := ∀ k, s.laneEnabled k = true → ∀ r, l r k = s.lreg r k

structure LanesIsolated (insn : Word) (tid : Tid) (cfg : ℕ → Word) (tt : Tensix) : Prop where
  registers : ∀ k, tt.sfpu.laneEnabled k = false →
    ∀ r, (vectorExec insn tid cfg tt).sfpu.lreg r k = tt.sfpu.lreg r k
  place : insnImpl insn = .sfpstore → ∀ k < lregLanes, tt.sfpu.laneEnabled k = false →
    (vectorExec insn tid cfg tt).dest (sfpuPlace tt (tensixInsnParam insn) tid k).1
        (sfpuPlace tt (tensixInsnParam insn) tid k).2 =
      tt.dest (sfpuPlace tt (tensixInsnParam insn) tid k).1 (sfpuPlace tt (tensixInsnParam insn) tid k).2
  independent : insnImpl insn ≠ .sfptransp → ∀ l, AgreesOn tt.sfpu l →
    (∀ k, tt.sfpu.laneEnabled k = true →
      (vectorExec insn tid cfg (tt.withLregs l)).sfpu.laneAt k = (vectorExec insn tid cfg tt).sfpu.laneAt k) ∧
    (vectorExec insn tid cfg (tt.withLregs l)).dest = (vectorExec insn tid cfg tt).dest

def LoadsHeld (insn : Word) (tid : Tid) (tt : Tensix) : Prop :=
  ∀ k < lregLanes, tt.sfpu.laneEnabled k = false → (sfpuPlace tt (tensixInsnParam insn) tid k).1 < destRows →
    tt.dest (sfpuPlace tt (tensixInsnParam insn) tid k).1 (sfpuPlace tt (tensixInsnParam insn) tid k).2 =
      tt.sfpu.lreg (bits (tensixInsnParam insn) 20 0xF).toNat k

section isolation

variable {insn : Word} {tid : Tid} {cfg : ℕ → Word} {tt : Tensix}

theorem vectorExec_of {impl : InsnImpl} (h : insnImpl insn = impl) (tt : Tensix) :
    vectorExec insn tid cfg tt = (runCoreImpl impl tt cfg (tensixInsnParam insn) tid).2 := by
  rw [vectorExec, h]

theorem withLregs_same {l : ℕ → ℕ → Word} (hl : AgreesOn tt.sfpu l) {k : ℕ}
    (hk : tt.sfpu.laneEnabled k = true) :
    SameLane (tt.withLregs l).sfpu tt.sfpu k := by
  refine ⟨rfl, ?_⟩
  change (tt.withLregs l).sfpu.laneAt k = tt.sfpu.laneAt k
  simp only [Sfpu.laneAt, Lane.mk.injEq, Tensix.withLregs, Tensix.setSfpu, and_true]
  funext r
  exact hl k hk r

theorem isolated_of_lanewise {F : Sfpu → Sfpu} (hF : Lanewise F)
    (h : ∀ tt, vectorExec insn tid cfg tt = tt.setSfpu (F tt.sfpu)) (hs : insnImpl insn ≠ .sfpstore) :
    LanesIsolated insn tid cfg tt where
  registers k hk r := by
    rw [h]
    exact hF.disabled hk r
  place hst := absurd hst hs
  independent _ l hl := by
    rw [h, h]
    exact ⟨fun k hk => hF.own (withLregs_same hl hk), rfl⟩

theorem isolated_transp (h : insnImpl insn = .sfptransp) : LanesIsolated insn tid cfg tt where
  registers k hk r := by
    rw [vectorExec_of h]
    exact (sfptransp_off _ hk).2.2 r
  place hst := by simp [h] at hst
  independent hne := absurd h hne

theorem isolated_store (h : insnImpl insn = .sfpstore) (h10 : bits (tensixInsnParam insn) 16 0xF ≠ 10) :
    LanesIsolated insn tid cfg tt := by
  have hexec (tt : Tensix) : vectorExec insn tid cfg tt = sfpstore tt (tensixInsnParam insn) tid :=
    vectorExec_of h tt
  refine ⟨fun k hk r => ?_, fun _ k hlt hk => ?_, fun _ l hl => ⟨fun k hk => ?_, ?_⟩⟩
  · rw [hexec, sfpstore_sfpu]
  · rw [hexec, sfpstore_dest]
    apply forRange_keeps fun g : Grid => g _ _
    intro j hj g
    by_cases hjk : j = k
    · rw [hjk, storeLane_off tt _ tid hk h10]
    · exact storeLane_ne tt _ tid hj hlt hjk g
  · rw [hexec, hexec, sfpstore_sfpu, sfpstore_sfpu]
    exact same_laneAt (withLregs_same hl hk)
  · rw [hexec, hexec, sfpstore_dest, sfpstore_dest]
    apply forRange_congr
    intro k _ g
    cases hk : tt.sfpu.laneEnabled k with
    | false => rw [storeLane_off tt _ tid hk h10, storeLane_off (tt.withLregs l) _ tid hk h10]
    | true =>
      have hread : (tt.withLregs l).sfpu.lreg (bits (tensixInsnParam insn) 20 0xF).toNat k =
          tt.sfpu.lreg _ k := hl k hk _
      unfold storeLane
      rw [hread]
      rfl

theorem sfpload_lreg {imm : Word} (h8 : (bits imm 20 0xF).toNat < 8) {k : ℕ} (hk : k < lregLanes) :
    (sfpload tt imm tid).sfpu.laneAt k = (loadLane tt imm tid tt.sfpu k).laneAt k := by
  rw [sfpload_sfpu, if_neg (by omega)]
  exact (loadLane_local tt imm tid).forRange_lane hk

theorem sfpload_outside {imm : Word} {k : ℕ} (hk : lregLanes ≤ k) :
    (sfpload tt imm tid).sfpu.laneAt k = tt.sfpu.laneAt k := by
  rw [sfpload_sfpu]
  split
  · rfl
  · exact (loadLane_local tt imm tid).forRange_outside hk

theorem load_independent (h : insnImpl insn = .sfpload) {l : ℕ → ℕ → Word} (hl : AgreesOn tt.sfpu l) :
    (∀ k, tt.sfpu.laneEnabled k = true →
      (vectorExec insn tid cfg (tt.withLregs l)).sfpu.laneAt k = (vectorExec insn tid cfg tt).sfpu.laneAt k) ∧
    (vectorExec insn tid cfg (tt.withLregs l)).dest = (vectorExec insn tid cfg tt).dest := by
  have hexec (tt : Tensix) : vectorExec insn tid cfg tt = sfpload tt (tensixInsnParam insn) tid :=
    vectorExec_of h tt
  refine ⟨fun k hk => ?_, ?_⟩
  · have hsame := withLregs_same hl hk
    rw [hexec, hexec, sfpload_sfpu, sfpload_sfpu]
    split
    · exact same_laneAt hsame
    · exact Lanewise.forRange_own (loadLane_local tt _ tid) hsame lregLanes
  · rw [hexec, hexec, sfpload_dest, sfpload_dest]
    rfl

theorem loadLane_lreg (imm : Word) (s : Sfpu) {k : ℕ} (hrow : (sfpuPlace tt imm tid k).1 < destRows) :
    (loadLane tt imm tid s k).lreg (bits imm 20 0xF).toNat k =
      tt.dest (sfpuPlace tt imm tid k).1 (sfpuPlace tt imm tid k).2 := by
  rw [loadLane, if_pos ⟨hrow, sfpuPlace_col tt imm tid k⟩]
  exact if_pos ⟨rfl, rfl⟩

theorem isolated_load (h : insnImpl insn = .sfpload) :
    LanesIsolated insn tid cfg tt ↔ (loadsLreg insn → LoadsHeld insn tid tt) := by
  have hexec : vectorExec insn tid cfg tt = sfpload tt (tensixInsnParam insn) tid := vectorExec_of h tt
  have hread (s : Sfpu) (r k : ℕ) : (s.laneAt k).lreg r = s.lreg r k := rfl
  constructor
  · rintro hi ⟨-, h8⟩ k hlt hk hrow
    have hkept := hi.registers k hk (bits (tensixInsnParam insn) 20 0xF).toNat
    rw [hexec, ← hread, sfpload_lreg h8 hlt, hread, loadLane_lreg _ _ hrow] at hkept
    exact hkept
  · intro hheld
    refine ⟨fun k hk r => ?_, fun hst => by simp [h] at hst, fun _ _ hl => load_independent h hl⟩
    rw [hexec, ← hread]
    by_cases hlt : k < lregLanes
    · by_cases h8 : (bits (tensixInsnParam insn) 20 0xF).toNat < 8
      · rw [sfpload_lreg h8 hlt, hread]
        by_cases hrow : (sfpuPlace tt (tensixInsnParam insn) tid k).1 < destRows
        · by_cases hr : r = (bits (tensixInsnParam insn) 20 0xF).toNat
          · rw [hr, loadLane_lreg _ _ hrow, hheld ⟨h, h8⟩ k hlt hk hrow]
          · rw [loadLane, if_pos ⟨hrow, sfpuPlace_col ..⟩]
            exact if_neg fun heq => hr heq.1
        · rw [loadLane, if_neg fun hand => hrow hand.1]
      · rw [sfpload_sfpu, if_pos (by omega)]
        rfl
    · rw [sfpload_outside (Nat.le_of_not_lt hlt)]
      rfl

theorem predicated_lanes_isolated (hv : (insnImpl insn).isVector = true) (hall : ¬allLanes insn) :
    LanesIsolated insn tid cfg tt ↔ (loadsLreg insn → LoadsHeld insn tid tt) := by
  by_cases hl : insnImpl insn = .sfpload
  · exact isolated_load hl
  refine iff_of_true ?_ fun hload => absurd hload.1 hl
  by_cases hs : insnImpl insn = .sfpstore
  · exact isolated_store hs fun h10 => hall (.inr (.inr ⟨hs, h10⟩))
  by_cases ht : insnImpl insn = .sfptransp
  · exact isolated_transp ht
  obtain ⟨F, hF, hrun⟩ := runCoreImpl_lanewise hv hl hs (fun hc => hall (.inl hc)) ht
    fun hm h2 => hall (.inr (.inl ⟨hm, h2⟩))
  exact isolated_of_lanewise hF (fun tt => hrun tt cfg tid) hs

end isolation

def laneZeroOff : Tensix :=
  let tt := tensixInit ⟨none, none⟩
  { tt with
    dest := Grid.set tt.dest 0 0 1
    sfpu := tt.sfpu.setLaneFlag 0 false }

theorem predicated_lanes_isolated_abs :
    (insnImpl 0x7D000010).isVector = true ∧ ¬allLanes 0x7D000010 ∧
      (LanesIsolated 0x7D000010 0 (fun _ => 0) laneZeroOff ↔
        (loadsLreg 0x7D000010 → LoadsHeld 0x7D000010 0 laneZeroOff)) :=
  have hall : ¬allLanes 0x7D000010 := by
    unfold allLanes
    decide
  ⟨rfl, hall, predicated_lanes_isolated rfl hall⟩

theorem sfpload_writes_disabled_lane :
    (insnImpl 0x70000000).isVector = true ∧ ¬allLanes 0x70000000 ∧
      ¬LanesIsolated 0x70000000 0 (fun _ => 0) laneZeroOff := by
  have himpl : insnImpl 0x70000000 = .sfpload := rfl
  refine ⟨rfl, by unfold allLanes; decide, fun hi => ?_⟩
  have hheld := (isolated_load himpl).mp hi ⟨himpl, by decide⟩
  exact absurd (hheld 0 (by decide) rfl (by decide)) (by decide)

end Rv32Emu
