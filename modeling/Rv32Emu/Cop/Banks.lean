import Rv32Emu.Cop.History
import Rv32Emu.Lib.Handoff

namespace Rv32Emu

inductive Source
  | srca | srcb
  deriving DecidableEq

def Tensix.buffer (tt : Tensix) : Source → DoubleBuffer Grid
  | .srca => ⟨tt.srca, tt.srcaDvalid, tt.unpSrcaBank, tt.mathSrcaBank⟩
  | .srcb => ⟨tt.srcb, tt.srcbDvalid, tt.unpSrcbBank, tt.mathSrcbBank⟩

def Tensix.NoZeroed (tt : Tensix) : Prop := ∀ b, tt.srcbZeroed b = false

def flipField (imm : Word) : Source → Bool
  | .srca => bit (bits imm 22 0x3) 0
  | .srcb => bit (bits imm 22 0x3) 1

def Source.ofUnp (whichUnp : Bool) : Source := if whichUnp then .srcb else .srca

def unpackSource (imm : Word) : Source := .ofUnp (bit imm 23)

def unpacks (imm : Word) : Bool := !bit imm 1 && bits imm 13 0x3 = 0

section handlers

variable {tt tt' : Tensix} {imm : Word} {tid : Tid} (s : Source)

structure Flips (tt : Tensix) (imm : Word) (tt' : Tensix) : Prop where
  buffer : ∀ s, tt'.buffer s = (tt.buffer s).releaseIf (flipField imm s)
  zeroed : tt'.srcbZeroed = tt.srcbZeroed

theorem setRwc_buffer (r : Rwc) : (tt.setRwc tid r).buffer s = tt.buffer s := by cases s <;> rfl

theorem applyAddrMod_buffer (modIdx : Word) : (applyAddrMod tt modIdx tid).buffer s = tt.buffer s := by
  unfold applyAddrMod
  split_ifs
  · rfl
  · exact setRwc_buffer s _

theorem applyAddrMod_zeroed (modIdx : Word) : (applyAddrMod tt modIdx tid).srcbZeroed = tt.srcbZeroed := by
  unfold applyAddrMod
  split_ifs <;> rfl

theorem flipBanks_buffer (flip : Source → Bool) :
    (tt.flipBanks (flip .srca) (flip .srcb)).buffer s = (tt.buffer s).releaseIf (flip s) := by
  unfold Tensix.flipBanks DoubleBuffer.releaseIf
  cases s <;> cases flip .srca <;> cases flip .srcb <;> rfl

theorem flipBanks_zeroed (a b : Bool) : (tt.flipBanks a b).srcbZeroed = tt.srcbZeroed := by
  cases a <;> cases b <;> rfl

theorem flips_dest (g : Grid) (modIdx : Word) :
    Flips tt imm (applyAddrMod (Tensix.flipBanks { tt with dest := g } (flipField imm .srca)
      (flipField imm .srcb))
      modIdx tid) := by
  constructor
  · intro s
    rw [applyAddrMod_buffer, flipBanks_buffer]
    cases s <;> rfl
  · rw [applyAddrMod_zeroed, flipBanks_zeroed]

theorem srcaReady_iff : tt.srcaReady = true ↔ (tt.buffer .srca).Owned := Iff.rfl

theorem srcbReady_iff : tt.srcbReady = true ↔ (tt.buffer .srcb).Owned := Iff.rfl

theorem elementwise_banks {value : Word → Word → Word → Word}
    (h : elementwise tt imm tid value = (true, tt')) :
    (∀ s, (tt.buffer s).Owned) ∧ Flips tt imm tt' := by
  unfold elementwise at h
  cases ha : tt.srcaReady with
  | false =>
    rw [ha] at h
    cases h
  | true =>
    cases hb : tt.srcbReady with
    | false =>
      rw [ha, hb] at h
      cases h
    | true =>
      simp only [ha, hb, Bool.not_true, Bool.false_eq_true, if_false] at h
      obtain rfl := congrArg Prod.snd h
      refine ⟨fun s => ?_, flips_dest _ _⟩
      cases s with
      | srca => exact ha
      | srcb => exact hb

theorem skipZeroedSrcb_self (hz : tt.NoZeroed) : skipZeroedSrcb tt = tt := by
  unfold skipZeroedSrcb
  simp only [hz tt.mathSrcbBank, Bool.false_and, Bool.false_eq_true, if_false]

theorem ttmvmul_banks {mopCfg : ℕ → Word} (hz : tt.NoZeroed) (h : ttmvmul tt mopCfg imm tid = (true, tt')) :
    (∀ s, (tt.buffer s).Owned) ∧ Flips tt imm tt' := by
  unfold ttmvmul at h
  cases ha : tt.srcaReady with
  | false =>
    rw [ha] at h
    cases h
  | true =>
    cases hb : tt.srcbReady with
    | false =>
      rw [ha, hb] at h
      cases h
    | true =>
      simp only [ha, hb, Bool.not_true, Bool.false_eq_true, if_false, skipZeroedSrcb_self hz] at h
      obtain rfl := congrArg Prod.snd h
      refine ⟨fun s => ?_, flips_dest _ _⟩
      cases s with
      | srca => exact ha
      | srcb => exact hb

theorem ttgmpool_banks (h : ttgmpool tt imm tid = (true, tt')) :
    (tt.buffer .srca).Owned ∧ Flips tt imm tt' := by
  unfold ttgmpool at h
  cases ha : tt.srcaReady with
  | false =>
    rw [ha] at h
    cases h
  | true =>
    simp only [ha, Bool.not_true, Bool.false_eq_true, if_false] at h
    obtain rfl := congrArg Prod.snd h
    exact ⟨ha, flips_dest _ _⟩

theorem ttgapool_banks (h : ttgapool tt imm tid = (true, tt')) :
    (tt.buffer .srca).Owned ∧ Flips tt imm tt' := by
  unfold ttgapool at h
  cases ha : tt.srcaReady with
  | false =>
    rw [ha] at h
    cases h
  | true =>
    simp only [ha, Bool.not_true, Bool.false_eq_true, if_false] at h
    obtain rfl := congrArg Prod.snd h
    exact ⟨ha, flips_dest _ _⟩

theorem ttsetrwc_eq (tt : Tensix) (imm : Word) (tid : Tid) : ∃ r, ttsetrwc tt imm tid =
    if flipField imm .srca && !tt.srcaReady then (false, tt)
    else if flipField imm .srcb && !tt.srcbReady then (false, tt)
    else (true, (tt.setRwc tid r).flipBanks (flipField imm .srca && tt.srcaReady)
      (flipField imm .srcb && tt.srcbReady)) :=
  ⟨_, rfl⟩

theorem ttsetrwc_banks (h : ttsetrwc tt imm tid = (true, tt')) :
    (∀ s, flipField imm s = true → (tt.buffer s).Owned) ∧ Flips tt imm tt' := by
  obtain ⟨r, hr⟩ := ttsetrwc_eq tt imm tid
  rw [hr] at h
  split_ifs at h with ha hb
  · cases h
  · cases h
  have hown : ∀ s, flipField imm s = true → (tt.buffer s).Owned := by
    intro s hs
    cases s with
    | srca => simpa [hs, srcaReady_iff] using ha
    | srcb => simpa [hs, srcbReady_iff] using hb
  have hready : ∀ s, (flipField imm s && (tt.buffer s).valid (tt.buffer s).consumer) = flipField imm s := by
    intro s
    cases hs : flipField imm s with
    | false => rfl
    | true => exact hown s hs
  obtain rfl := congrArg Prod.snd h
  refine ⟨hown, fun s => ?_, flipBanks_zeroed _ _⟩
  have hbuf : ((tt.setRwc tid r).flipBanks (flipField imm .srca && tt.srcaReady)
      (flipField imm .srcb && tt.srcbReady)).buffer s = ((tt.setRwc tid r).buffer s).releaseIf
        (flipField imm s && (tt.buffer s).valid (tt.buffer s).consumer) :=
    flipBanks_buffer s fun s => flipField imm s && (tt.buffer s).valid (tt.buffer s).consumer
  rw [hready s, setRwc_buffer] at hbuf
  exact hbuf

theorem ttcleardvalid_banks (tt : Tensix) (imm : Word) :
    (bit imm 0 = true ∧ (∀ s, (ttcleardvalid tt imm).buffer s = (tt.buffer s).reset) ∧
        (ttcleardvalid tt imm).srcbZeroed = tt.srcbZeroed) ∨
      (bit imm 0 = false ∧ Flips tt imm (ttcleardvalid tt imm)) := by
  unfold ttcleardvalid
  cases hr : bit imm 0 with
  | true => exact .inl ⟨rfl, fun s => by cases s <;> rfl, rfl⟩
  | false => exact .inr ⟨rfl, fun s => flipBanks_buffer s (flipField imm), flipBanks_zeroed _ _⟩

theorem unpackLoop_banks (tt : Tensix) (u : UnpackPlan) :
    (∃ x, (unpackLoop tt u).buffer (.ofUnp u.whichUnp) = (tt.buffer (.ofUnp u.whichUnp)).fill x) ∧
      (∀ s, s ≠ .ofUnp u.whichUnp → (unpackLoop tt u).buffer s = tt.buffer s) ∧
      (tt.NoZeroed → (unpackLoop tt u).NoZeroed) := by
  have hsame : ∀ s, ∃ x, tt.buffer s = (tt.buffer s).fill x := by
    intro s
    refine ⟨(tt.buffer s).slot (tt.buffer s).producer, ?_⟩
    rw [DoubleBuffer.fill, Function.update_eq_self]
  unfold unpackLoop
  split
  · exact ⟨hsame _, fun _ _ => rfl, id⟩
  split_ifs with hn hw hd
  · exact ⟨hsame _, fun _ _ => rfl, id⟩
  · rw [hw]
    refine ⟨⟨_, rfl⟩, ?_, fun hz b => ?_⟩
    · rintro (_ | _) hs
      · rfl
      · exact absurd rfl hs
    · by_cases hb : b = tt.unpSrcbBank
      · rw [hb]
        exact Function.update_self ..
      · exact (Function.update_of_ne hb ..).trans (hz b)
  · exact ⟨hsame _, fun s _ => by cases s <;> rfl, id⟩
  · rw [Bool.eq_false_iff.mpr hw]
    refine ⟨⟨_, rfl⟩, ?_, id⟩
    rintro (_ | _) hs
    · exact absurd rfl hs
    · rfl

theorem ttunpacr_idle (h : unpacks imm = false) : ttunpacr tt imm tid = (true, tt) := by
  simp only [unpacks, Bool.and_eq_false_iff, Bool.not_eq_false', decide_eq_false_iff_not] at h
  unfold ttunpacr
  obtain h | h := h
  · simp only [h, if_true]
  · simp only [ne_eq, h, not_false_eq_true, if_true, ite_self]

theorem setAdc_buffer (i : Fin 3) (a : AddrCtrl) : (tt.setAdc i a).buffer s = tt.buffer s := by
  cases s <;> rfl

def unpackEnd (tt : Tensix) (imm : Word) : Tensix :=
  if !bit imm 6 then tt
  else if bit imm 23 then releaseSrcb tt
  else { releaseSrca tt with lastUnpSrcaBank := tt.unpSrcaBank }

theorem unpackEnd_buffer (tt : Tensix) (imm : Word) :
    (unpackEnd tt imm).buffer (unpackSource imm) =
        (if bit imm 6 then (tt.buffer (unpackSource imm)).publish else tt.buffer (unpackSource imm)) ∧
      (∀ s, s ≠ unpackSource imm → (unpackEnd tt imm).buffer s = tt.buffer s) ∧
      (unpackEnd tt imm).srcbZeroed = tt.srcbZeroed := by
  unfold unpackEnd unpackSource
  cases bit imm 6 with
  | false => exact ⟨rfl, fun _ _ => rfl, rfl⟩
  | true =>
    cases bit imm 23 with
    | false =>
      refine ⟨rfl, ?_, rfl⟩
      rintro (_ | _) hs
      · exact absurd rfl hs
      · rfl
    | true =>
      refine ⟨rfl, ?_, rfl⟩
      rintro (_ | _) hs
      · rfl
      · exact absurd rfl hs

theorem ttunpacr_eq (tt : Tensix) (tid : Tid) (hu : unpacks imm = true) : ∃ i a, ttunpacr tt imm tid =
    if (tt.buffer (unpackSource imm)).valid (tt.buffer (unpackSource imm)).producer then (false, tt)
    else (true, (unpackEnd (unpackLoop tt (unpackPlan tt imm tid)) imm).setAdc i a) := by
  simp only [unpacks, Bool.and_eq_true, Bool.not_eq_true', decide_eq_true_eq] at hu
  unfold ttunpacr unpackSource
  simp only [hu.1, hu.2, Bool.false_eq_true, if_false, ne_eq, not_true_eq_false]
  cases hw : bit imm 23 with
  | false =>
    simp only [Bool.not_false, Bool.true_and, Bool.false_and, Bool.false_eq_true, if_false]
    simp only [unpackEnd, hw, Bool.false_eq_true, if_false]
    exact ⟨_, _, rfl⟩
  | true =>
    simp only [Bool.not_true, Bool.false_and, Bool.true_and, Bool.false_eq_true, if_false]
    simp only [unpackEnd, hw, if_true]
    exact ⟨_, _, rfl⟩

theorem ttunpacr_banks (hu : unpacks imm = true) (h : ttunpacr tt imm tid = (true, tt')) :
    (tt.buffer (unpackSource imm)).Free ∧
      (∃ x, tt'.buffer (unpackSource imm) =
        if bit imm 6 then ((tt.buffer (unpackSource imm)).fill x).publish
          else (tt.buffer (unpackSource imm)).fill x) ∧
      (∀ s, s ≠ unpackSource imm → tt'.buffer s = tt.buffer s) ∧ (tt.NoZeroed → tt'.NoZeroed) := by
  obtain ⟨i, a, heq⟩ := ttunpacr_eq tt tid hu
  rw [heq] at h
  split_ifs at h with hfree
  · cases h
  obtain rfl := congrArg Prod.snd h
  obtain ⟨⟨x, hx⟩, hother, hz⟩ := unpackLoop_banks tt (unpackPlan tt imm tid)
  obtain ⟨hend, hend', hendz⟩ := unpackEnd_buffer (unpackLoop tt (unpackPlan tt imm tid)) imm
  refine ⟨Bool.eq_false_iff.mpr hfree, ⟨x, ?_⟩, fun s hs => ?_, fun h b => ?_⟩
  · rw [setAdc_buffer, hend]
    simp only [show (unpackLoop tt (unpackPlan tt imm tid)).buffer (unpackSource imm) =
      (tt.buffer (unpackSource imm)).fill x from hx]
  · rw [setAdc_buffer, hend' s hs]
    exact hother s hs
  · exact (congrFun hendz b).trans (hz h b)

end handlers

inductive BankUse
  | keep
  | fill (publish : Bool)
  | use (reads flip : Bool)
  | reset
  deriving DecidableEq

def bankUse (insn : Word) (s : Source) : BankUse :=
  let imm := tensixInsnParam insn
  match insnImpl insn with
  | .ttunpacr => if unpacks imm && s = unpackSource imm then .fill (bit imm 6) else .keep
  | .ttelwmul | .ttelwadd | .ttelwsub | .ttmvmul | .ttgapool => .use true (flipField imm s)
  | .ttgmpool => .use (s = .srca) (flipField imm s)
  | .ttsetrwc => .use false (flipField imm s)
  | .ttcleardvalid => if bit imm 0 then .reset else .use false (flipField imm s)
  | _ => .keep

namespace BankUse

def Changes (b b' : DoubleBuffer Grid) : BankUse → Prop
  | keep => b' = b
  | fill publish => ∃ x, b' = if publish then (b.fill x).publish else b.fill x
  | use _ flip => b' = b.releaseIf flip
  | reset => b' = b.reset

def Permitted (b : DoubleBuffer Grid) : BankUse → Prop
  | keep => True
  | fill _ => b.Free
  | use _ flip => flip = true → b.Owned
  | reset => True

def flips : BankUse → Bool
  | use _ flip => flip
  | _ => false

theorem Changes.synced {b b' : DoubleBuffer Grid} {m : BankUse} (h : m.Changes b b') (hp : m.Permitted b)
    (hs : b.Synced) : b'.Synced := by
  cases m with
  | keep =>
    obtain rfl : b' = b := h
    exact hs
  | fill publish =>
    obtain ⟨x, rfl⟩ := h
    have hfill : (b.fill x).Synced := hs
    cases publish with
    | false => exact hfill
    | true => exact hfill.publish hp
  | use reads flip =>
    obtain rfl : b' = b.releaseIf flip := h
    exact hs.releaseIf hp
  | reset =>
    obtain rfl : b' = b.reset := h
    exact .reset

end BankUse

def bankImpls : List InsnImpl :=
  [.ttunpacr, .ttelwmul, .ttelwadd, .ttelwsub, .ttmvmul, .ttgmpool, .ttgapool, .ttsetrwc, .ttcleardvalid]

def issueImpls : List InsnImpl :=
  [.ttmop, .ttmopCfg, .ttreplay, .ttnop, .ttstallwait, .ttsemwait, .ttstreamwait]

def flipUnchecked (insn : Word) (s : Source) : Bool :=
  match insnImpl insn with
  | .ttgmpool | .ttgapool => s = .srcb
  | .ttcleardvalid => true
  | _ => false

structure Uses (core : Tensix) (insn : Word) (core' : Tensix) : Prop where
  noZeroed : core'.NoZeroed
  changes : ∀ s, (bankUse insn s).Changes (core.buffer s) (core'.buffer s)
  permitted : ∀ s, (flipUnchecked insn s = true → (bankUse insn s).flips = true → (core.buffer s).Owned) →
    (bankUse insn s).Permitted (core.buffer s)

section uses

variable {tid : Tid} {core core' : Tensix} {insn : Word}

theorem Uses.of_keep (hz : core.NoZeroed) (hu : ∀ s, bankUse insn s = .keep) : Uses core insn core := by
  refine ⟨hz, fun s => ?_, fun s _ => ?_⟩
  · rw [hu s]
    rfl
  · rw [hu s]
    trivial

theorem Uses.of_flips {r : Source → Bool} (h : Flips core (tensixInsnParam insn) core') (hz : core.NoZeroed)
    (hu : ∀ s, bankUse insn s = .use (r s) (flipField (tensixInsnParam insn) s))
    (hp : ∀ s, flipUnchecked insn s = false → flipField (tensixInsnParam insn) s = true →
      (core.buffer s).Owned) :
    Uses core insn core' := by
  refine ⟨fun b => (congrFun h.zeroed b).trans (hz b), fun s => ?_, fun s hc => ?_⟩
  · rw [hu s]
    exact h.buffer s
  · rw [hu s] at hc ⊢
    intro hf
    cases hs : flipUnchecked insn s with
    | false => exact hp s hs hf
    | true => exact hc hs hf

theorem Completes.uses_issue (h : Completes tid core insn core') (hi : insnImpl insn ∈ issueImpls)
    (hz : core.NoZeroed) : Uses core insn core' := by
  obtain ⟨cfg, h⟩ := h
  have hkeep : core' = core ∧ ∀ s, bankUse insn s = .keep := by
    simp only [issueImpls, List.mem_cons, List.not_mem_nil, or_false] at hi
    unfold bankUse
    obtain hi | hi | hi | hi | hi | hi | hi := hi
    all_goals
      rw [hi] at h ⊢
      exact ⟨(congrArg Prod.snd h).symm, fun _ => rfl⟩
  obtain ⟨rfl, hkeep⟩ := hkeep
  exact .of_keep hz hkeep

theorem Completes.uses_unpacr (h : Completes tid core insn core') (hi : insnImpl insn = .ttunpacr)
    (hz : core.NoZeroed) : Uses core insn core' := by
  obtain ⟨cfg, h⟩ := h
  rw [hi] at h
  have hrun : ttunpacr core (tensixInsnParam insn) tid = (true, core') := h
  have huse : ∀ s, bankUse insn s = if unpacks (tensixInsnParam insn) &&
      s = unpackSource (tensixInsnParam insn) then
      .fill (bit (tensixInsnParam insn) 6) else .keep := by
    intro s
    rw [bankUse, hi]
  cases hu : unpacks (tensixInsnParam insn) with
  | false =>
    rw [ttunpacr_idle hu] at hrun
    cases hrun
    simp only [hu, Bool.false_and, Bool.false_eq_true, if_false] at huse
    exact .of_keep hz huse
  | true =>
    obtain ⟨hfree, hfill, hother, hzero⟩ := ttunpacr_banks hu hrun
    have hself : bankUse insn (unpackSource (tensixInsnParam insn)) =
        .fill (bit (tensixInsnParam insn) 6) := by
      simp [huse, hu]
    have hkeep : ∀ s, s ≠ unpackSource (tensixInsnParam insn) → bankUse insn s = .keep := by
      intro s hs
      simp [huse, hs]
    refine ⟨hzero hz, fun s => ?_, fun s _ => ?_⟩
    · by_cases hs : s = unpackSource (tensixInsnParam insn)
      · rw [hs, hself]
        exact hfill
      · rw [hkeep s hs]
        exact hother s hs
    · by_cases hs : s = unpackSource (tensixInsnParam insn)
      · rw [hs, hself]
        exact hfree
      · rw [hkeep s hs]
        trivial

def computeImpls : List InsnImpl := [.ttelwmul, .ttelwadd, .ttelwsub, .ttmvmul]

theorem Completes.compute_banks (h : Completes tid core insn core') (hi : insnImpl insn ∈ computeImpls)
    (hz : core.NoZeroed) : (∀ s, (core.buffer s).Owned) ∧ Flips core (tensixInsnParam insn) core' := by
  obtain ⟨cfg, h⟩ := h
  simp only [computeImpls, List.mem_cons, List.not_mem_nil, or_false] at hi
  obtain hi | hi | hi | hi := hi
  all_goals rw [hi] at h
  · have hrun : ttelwmul core (tensixInsnParam insn) tid = (true, core') := h
    dsimp only [ttelwmul] at hrun
    exact elementwise_banks hrun
  · have hrun : ttelwadd core (tensixInsnParam insn) tid = (true, core') := h
    dsimp only [ttelwadd] at hrun
    exact elementwise_banks hrun
  · have hrun : ttelwsub core (tensixInsnParam insn) tid = (true, core') := h
    dsimp only [ttelwsub] at hrun
    exact elementwise_banks hrun
  · have hrun : ttmvmul core cfg (tensixInsnParam insn) tid = (true, core') := h
    exact ttmvmul_banks hz hrun

theorem bankUse_compute (hi : insnImpl insn ∈ computeImpls) (s : Source) :
    bankUse insn s = .use true (flipField (tensixInsnParam insn) s) := by
  simp only [computeImpls, List.mem_cons, List.not_mem_nil, or_false] at hi
  obtain hi | hi | hi | hi := hi <;> rw [bankUse, hi]

theorem Completes.uses_compute (h : Completes tid core insn core') (hi : insnImpl insn ∈ computeImpls)
    (hz : core.NoZeroed) : Uses core insn core' := by
  obtain ⟨hown, hflips⟩ := h.compute_banks hi hz
  exact .of_flips hflips hz (bankUse_compute hi) fun s _ _ => hown s

theorem Completes.uses_setrwc (h : Completes tid core insn core') (hi : insnImpl insn = .ttsetrwc)
    (hz : core.NoZeroed) : Uses core insn core' := by
  obtain ⟨cfg, h⟩ := h
  rw [hi] at h
  obtain ⟨hown, hflips⟩ := ttsetrwc_banks h
  refine .of_flips (r := fun _ => false) hflips hz (fun s => ?_) fun s _ => hown s
  rw [bankUse, hi]

theorem Completes.uses_pool (h : Completes tid core insn core')
    (hi : insnImpl insn = .ttgmpool ∨ insnImpl insn = .ttgapool) (hz : core.NoZeroed) :
    Uses core insn core' := by
  obtain ⟨cfg, h⟩ := h
  have hpass : ∀ s, (core.buffer .srca).Owned → flipUnchecked insn s = false →
      flipField (tensixInsnParam insn) s = true → (core.buffer s).Owned := by
    intro s hown hs _
    cases s with
    | srca => exact hown
    | srcb =>
      rw [flipUnchecked] at hs
      obtain hi | hi := hi <;> rw [hi] at hs <;> cases hs
  obtain hi | hi := hi
  all_goals rw [hi] at h
  · obtain ⟨hown, hflips⟩ := ttgmpool_banks h
    refine .of_flips (r := fun s => s = .srca) hflips hz (fun s => ?_) fun s => hpass s hown
    rw [bankUse, hi]
  · obtain ⟨hown, hflips⟩ := ttgapool_banks h
    refine .of_flips (r := fun _ => true) hflips hz (fun s => ?_) fun s => hpass s hown
    rw [bankUse, hi]

theorem Completes.uses_cleardvalid (h : Completes tid core insn core') (hi : insnImpl insn = .ttcleardvalid)
    (hz : core.NoZeroed) : Uses core insn core' := by
  obtain ⟨cfg, h⟩ := h
  rw [hi] at h
  obtain rfl : ttcleardvalid core (tensixInsnParam insn) = core' := congrArg Prod.snd h
  obtain ⟨hr, hbuf, hzero⟩ | ⟨hr, hflips⟩ := ttcleardvalid_banks core (tensixInsnParam insn)
  · have hu : ∀ s, bankUse insn s = .reset := by
      intro s
      rw [bankUse, hi]
      exact if_pos hr
    refine ⟨fun b => (congrFun hzero b).trans (hz b), fun s => ?_, fun s _ => ?_⟩
    · rw [hu s]
      exact hbuf s
    · rw [hu s]
      trivial
  · refine .of_flips (r := fun _ => false) hflips hz (fun s => ?_) fun s hs => ?_
    · rw [bankUse, hi]
      simp only [hr, Bool.false_eq_true, if_false]
    · rw [flipUnchecked, hi] at hs
      cases hs

theorem Completes.uses (h : Completes tid core insn core') (hi : insnImpl insn ∈ bankImpls ++ issueImpls)
    (hz : core.NoZeroed) : Uses core insn core' := by
  obtain hi | hi := List.mem_append.mp hi
  · simp only [bankImpls, List.mem_cons, List.not_mem_nil, or_false] at hi
    obtain hi | hi | hi | hi | hi | hi | hi | hi | hi := hi
    · exact h.uses_unpacr hi hz
    iterate 4 exact h.uses_compute (by rw [hi]; decide) hz
    · exact h.uses_pool (.inl hi) hz
    · exact h.uses_pool (.inr hi) hz
    · exact h.uses_setrwc hi hz
    · exact h.uses_cleardvalid hi hz
  · exact h.uses_issue hi hz

end uses

end Rv32Emu
