import Rv32Emu.Tile.StreamCredits

namespace Rv32Emu

def WindowAddr : Type := {a : Word // isPerCoreAddr a.toNat = true ∧ a.toNat % 4 = 0}

def mopCfgAddr (idx : Fin 9) : WindowAddr :=
  ⟨w32 (0xFFB80000 + 4 * idx), by revert idx; decide⟩

def mopCfgs (tt : TensixTile) : Option (Tid → ℕ → Word) := tt.cop.map fun cop t => (cop.threads t).mopCfg

/-- An access to a window by a core, or something else that leaves the windows and the MOP configuration
alone. -/
inductive WindowAccess
  | load (t : Tid) (a : WindowAddr)
  | store (fuel : ℕ) (t : Tid) (a : WindowAddr) (data : Word)
  | other (f : TensixTile → TensixTile) (h : ∀ tt, (f tt).ldm = tt.ldm ∧ mopCfgs (f tt) = mopCfgs tt)

def WindowAccess.exec (tt : TensixTile) : WindowAccess → TensixTile
  | .load t a => (tt.tensixMmioRead (t : ℕ) a.1).2
  | .store fuel t a data => ((tt.tensixMmioWrite fuel (t : ℕ) a.1 data).map Prod.snd).getD tt
  | .other f _ => f tt

def WindowAccess.StoresAt (t : Tid) (a : WindowAddr) : WindowAccess → Prop
  | .store _ u b _ => u = t ∧ b = a
  | _ => False

def windowLoad (tt : TensixTile) (t : Tid) (a : WindowAddr) : Option Word := (tt.tensixMmioRead (t : ℕ) a.1).1

def Mirrored (tt : TensixTile) : Prop :=
  ∀ cfgs, mopCfgs tt = some cfgs → ∀ t idx, windowLoad tt t (mopCfgAddr idx) = some (cfgs t idx)

section addresses

variable (a b : WindowAddr)

theorem WindowAddr.cases : 0xFFB80000 ≤ a.1.toNat ∧ a.1.toNat ≤ 0xFFB80023 ∨
    0xFFE00000 ≤ a.1.toNat ∧ a.1.toNat ≤ 0xFFE00FFF ∨ 0xFFE80000 ≤ a.1.toNat ∧ a.1.toNat ≤ 0xFFE8001F :=
  isPerCoreAddr_iff.mp a.2.1

theorem WindowAddr.offset_lt : addrToLdmOffset a.1.toNat < ldmSize := by
  have hsize : ldmSize = 0x4000 := rfl
  have ha := a.cases
  unfold addrToLdmOffset
  split_ifs <;> omega

theorem WindowAddr.offset_apart {a b : WindowAddr} (h : a ≠ b) :
    addrToLdmOffset a.1.toNat + 4 ≤ addrToLdmOffset b.1.toNat ∨
      addrToLdmOffset b.1.toNat + 4 ≤ addrToLdmOffset a.1.toNat := by
  have hne : a.1.toNat ≠ b.1.toNat := fun heq => h (Subtype.ext (BitVec.eq_of_toNat_eq heq))
  have ha := a.cases
  have hb := b.cases
  have ha4 := a.2.2
  have hb4 := b.2.2
  unfold addrToLdmOffset
  split_ifs <;> omega

theorem WindowAddr.not_mailbox : inMailboxRange a.1 = false := by
  have hbase : mailboxAddrBase.toNat = 0xFFEC0000 := rfl
  have hend : mailboxAddrEnd.toNat = 0xFFEC3FFF := rfl
  have ha := a.cases
  simp only [inMailboxRange, hbase, hend, Bool.and_eq_false_iff, decide_eq_false_iff_not]
  omega

theorem WindowAddr.perCore (t : Tid) : perCore (t : ℕ) a.1.toNat = some t := by
  rw [Rv32Emu.perCore, if_pos a.2.1]
  revert t
  decide

variable (tt : TensixTile) (t : Tid)

theorem windowRead {m : Bytes} (h : tt.ldm t = some m) :
    tt.tensixMmioRead (t : ℕ) a.1 = (some (m.load (addrToLdmOffset a.1.toNat) 4), tt) := by
  have ha := a.cases
  have hread : tt.readPerCore (t : ℕ) a.1.toNat = some (m.load (addrToLdmOffset a.1.toNat) 4) := by
    rw [TensixTile.readPerCore, a.perCore t]
    simp only [h, if_pos a.offset_lt]
  unfold TensixTile.tensixMmioRead
  simp only [a.not_mailbox, Bool.false_eq_true, if_false, hread]
  rw [if_neg (by omega)]

theorem windowWrite (fuel : ℕ) (data : Word) :
    tt.tensixMmioWrite fuel (t : ℕ) a.1 data = some (true, tt.writePerCore t a.1.toNat data) := by
  have ha := a.cases
  unfold TensixTile.tensixMmioWrite
  simp only [a.not_mailbox, Bool.false_eq_true, if_false, a.perCore t]
  rw [if_neg (by omega)]

end addresses

section memory

variable {tt : TensixTile} {t u : Tid} {a b : WindowAddr}

def HasLdm (tt : TensixTile) : Prop := ∀ t, (tt.ldm t).isSome

theorem exec_load (h : HasLdm tt) (t : Tid) (a : WindowAddr) : (WindowAccess.load t a).exec tt = tt := by
  obtain ⟨m, hm⟩ := Option.isSome_iff_exists.mp (h t)
  rw [WindowAccess.exec, windowRead a tt t hm]

theorem exec_store (fuel : ℕ) (data : Word) :
    (WindowAccess.store fuel t a data).exec tt = tt.writePerCore t a.1.toNat data := by
  rw [WindowAccess.exec, windowWrite a tt t]
  rfl

theorem hasLdm_exec (h : HasLdm tt) (w : WindowAccess) : HasLdm (w.exec tt) := by
  cases w with
  | load t a =>
    rw [exec_load h]
    exact h
  | other f hf =>
    intro t
    rw [WindowAccess.exec, (hf tt).1]
    exact h t
  | store fuel t a data =>
    intro u
    rw [exec_store, writePerCore_ldm tt t a.2.1]
    by_cases hu : u = t
    · subst hu
      rw [Function.update_self, Option.isSome_map]
      exact h u
    · rw [Function.update_of_ne hu]
      exact h u

theorem windowLoad_congr {tt' : TensixTile} (h : HasLdm tt) (hldm : tt'.ldm = tt.ldm) (t : Tid)
    (a : WindowAddr) :
    windowLoad tt' t a = windowLoad tt t a := by
  obtain ⟨m, hm⟩ := Option.isSome_iff_exists.mp (h t)
  rw [windowLoad, windowLoad, windowRead a tt t hm, windowRead a tt' t (hldm ▸ hm)]

theorem windowLoad_store (h : HasLdm tt) (t : Tid) (a : WindowAddr) (data : Word) :
    windowLoad (tt.writePerCore t a.1.toNat data) t a = some data := by
  obtain ⟨m, hm⟩ := Option.isSome_iff_exists.mp (h t)
  have hldm : (tt.writePerCore t a.1.toNat data).ldm t =
      some (m.store (addrToLdmOffset a.1.toNat) 4 data) := by
    rw [writePerCore_ldm tt t a.2.1, Function.update_self, hm, Option.map_some]
  rw [windowLoad, windowRead a _ t hldm, Bytes.load_store_self]

theorem windowLoad_store_of_ne (h : HasLdm tt) (data : Word) (hne : ¬(t = u ∧ a = b)) :
    windowLoad (tt.writePerCore t a.1.toNat data) u b = windowLoad tt u b := by
  obtain ⟨m, hm⟩ := Option.isSome_iff_exists.mp (h u)
  by_cases htu : t = u
  · subst htu
    have hab : a ≠ b := fun hab => hne ⟨rfl, hab⟩
    have hldm : (tt.writePerCore t a.1.toNat data).ldm t =
        some (m.store (addrToLdmOffset a.1.toNat) 4 data) := by
      rw [writePerCore_ldm tt t a.2.1, Function.update_self, hm, Option.map_some]
    rw [windowLoad, windowLoad, windowRead b _ t hldm, windowRead b tt t hm,
      Bytes.load_store_apart (WindowAddr.offset_apart hab).symm]
  · have hldm : (tt.writePerCore t a.1.toNat data).ldm u = some m := by
      rw [writePerCore_ldm tt t a.2.1, Function.update_of_ne (Ne.symm htu), hm]
    rw [windowLoad, windowLoad, windowRead b _ u hldm, windowRead b tt u hm]

def windowMemory : RoutedMemory TensixTile WindowAccess Unit (Tid × WindowAddr) (Option Word) where
  read tt _ x := windowLoad tt x.1 x.2
  write := WindowAccess.exec
  route _ := ()
  covers w x := w.StoresAt x.1 x.2
  value w _ := match w with
    | .store _ _ _ data => some data
    | _ => none
  same _ _ _ := True

theorem windowMemory_lawful : windowMemory.Lawful HasLdm (fun _ => True) (fun _ => True) where
  keeps := fun h _ => hasLdm_exec h _
  seen := by
    rintro tt w - ⟨t, a⟩ h - - hc -
    cases w with
    | load => cases hc
    | other => cases hc
    | store fuel u b data =>
      obtain ⟨rfl, rfl⟩ := hc
      change windowLoad ((WindowAccess.store fuel u b data).exec tt) u b = some data
      rw [exec_store]
      exact windowLoad_store h u b data
  unseen := by
    rintro tt w r ⟨t, a⟩ h - - hc
    change windowLoad (w.exec tt) t a = windowLoad tt t a
    cases w with
    | load u b => rw [exec_load h]
    | other f hf => exact windowLoad_congr h (hf tt).1 t a
    | store fuel u b data =>
      rw [exec_store]
      exact windowLoad_store_of_ne h data fun hub => hc ⟨hub, trivial⟩

end memory

section mirror

variable {tt : TensixTile} {t : Tid}

theorem mopCfgAddr_toNat (idx : Fin 9) : (mopCfgAddr idx).1.toNat = 0xFFB80000 + 4 * idx := by
  revert idx
  decide

theorem mopCfgAddr_injective : Function.Injective mopCfgAddr := by
  intro i j h
  have haddr : (mopCfgAddr i).1.toNat = (mopCfgAddr j).1.toNat := by rw [h]
  rw [mopCfgAddr_toNat, mopCfgAddr_toNat] at haddr
  exact Fin.ext (by omega)

theorem mopCfgs_store_cfg (idx : Fin 9) (data : Word) :
    mopCfgs (tt.writePerCore t (mopCfgAddr idx).1.toNat data) =
    (mopCfgs tt).map fun cfgs => Function.update cfgs t (Function.update (cfgs t) (idx : ℕ) data) := by
  have hidx : (idx : ℕ) < 9 := idx.isLt
  have hreg : (0xFFB80000 + 4 * (idx : ℕ) - 0xFFB80000) / 4 = idx := by omega
  have hoff := (mopCfgAddr idx).offset_lt
  rw [mopCfgAddr_toNat] at hoff ⊢
  unfold TensixTile.writePerCore TensixTile.tensixWriteMopCfg
  simp only [if_pos hoff, hreg, if_pos hidx]
  rw [if_pos (by omega), mopCfgs, mopCfgs, Option.map_map, Option.map_map]
  refine congrArg (Option.map · tt.cop) (funext fun cop => funext fun u => ?_)
  by_cases hu : u = t
  · subst hu
    simp
  · simp [Function.update_of_ne hu]

theorem mopCfgs_store_other {a : WindowAddr} (h : ∀ idx, a ≠ mopCfgAddr idx) (data : Word) :
    mopCfgs (tt.writePerCore t a.1.toNat data) = mopCfgs tt := by
  have hout : ¬(0xFFB80000 ≤ a.1.toNat ∧ a.1.toNat ≤ 0xFFB80023) := by
    intro hin
    have h4 := a.2.2
    have hidx : (a.1.toNat - 0xFFB80000) / 4 < 9 := by omega
    refine h ⟨(a.1.toNat - 0xFFB80000) / 4, hidx⟩ (Subtype.ext (BitVec.eq_of_toNat_eq ?_))
    rw [mopCfgAddr_toNat]
    dsimp only
    omega
  unfold TensixTile.writePerCore
  simp only [if_neg hout]
  split_ifs <;> rfl

theorem Mirrored.store (h : HasLdm tt) (hm : Mirrored tt) (a : WindowAddr) (data : Word) :
    Mirrored (tt.writePerCore t a.1.toNat data) := by
  intro cfgs hcfgs u idx
  by_cases ha : ∃ j, a = mopCfgAddr j
  · obtain ⟨j, rfl⟩ := ha
    rw [mopCfgs_store_cfg] at hcfgs
    obtain ⟨old, hold, rfl⟩ := Option.map_eq_some_iff.mp hcfgs
    by_cases hhit : t = u ∧ j = idx
    · obtain ⟨rfl, rfl⟩ := hhit
      rw [windowLoad_store h, Function.update_self, Function.update_self]
    · rw [windowLoad_store_of_ne h data fun ⟨htu, haddr⟩ => hhit ⟨htu, mopCfgAddr_injective haddr⟩,
        hm old hold u idx]
      congr 1
      by_cases htu : u = t
      · subst htu
        have hne : (idx : ℕ) ≠ j := fun heq => hhit ⟨rfl, (Fin.ext heq).symm⟩
        rw [Function.update_self, Function.update_of_ne hne]
      · rw [Function.update_of_ne htu]
  · have hother : ∀ j, a ≠ mopCfgAddr j := fun j hj => ha ⟨j, hj⟩
    rw [mopCfgs_store_other hother] at hcfgs
    rw [windowLoad_store_of_ne h data fun hub => hother idx hub.2]
    exact hm cfgs hcfgs u idx

theorem Mirrored.exec (h : HasLdm tt) (hm : Mirrored tt) (w : WindowAccess) : Mirrored (w.exec tt) := by
  cases w with
  | load t a =>
    rw [exec_load h]
    exact hm
  | store fuel t a data =>
    rw [exec_store]
    exact hm.store h a data
  | other f hf =>
    intro cfgs hcfgs u idx
    rw [WindowAccess.exec, windowLoad_congr h (hf tt).1]
    exact hm cfgs ((hf tt).2.symm.trans hcfgs) u idx

theorem Mirrored.writeAll (h : HasLdm tt) (hm : Mirrored tt) (ws : List WindowAccess) :
    Mirrored (windowMemory.writeAll tt ws) := by
  induction ws generalizing tt with
  | nil => exact hm
  | cons w ws ih => exact ih (hasLdm_exec h w) (hm.exec h w)

end mirror

/-- After any accesses of the cores to their windows, a core loads the word that it stored last at an
address, or what was there; a store changes nothing that another core loads, or the same core elsewhere;
and the expander's MOP configuration is what the core loads, if it was so at the start. -/
theorem windows_private {s : TensixTile} (hldm : HasLdm s) (accesses : List WindowAccess) :
    (∀ before fuel t a data after, accesses = before ++ .store fuel t a data :: after →
        (∀ w ∈ after, ¬w.StoresAt t a) → windowLoad (windowMemory.writeAll s accesses) t a = some data) ∧
      (∀ t a, (∀ w ∈ accesses, ¬w.StoresAt t a) →
        windowLoad (windowMemory.writeAll s accesses) t a = windowLoad s t a) ∧
      (∀ fuel t a data u b, ¬(t = u ∧ a = b) →
        windowLoad ((WindowAccess.store fuel t a data).exec (windowMemory.writeAll s accesses)) u b =
          windowLoad (windowMemory.writeAll s accesses) u b) ∧
      (Mirrored s → Mirrored (windowMemory.writeAll s accesses)) := by
  have hok : ∀ w ∈ accesses, True := fun _ _ => trivial
  refine ⟨fun before fuel t a data after hsplit hno => ?_, fun t a hno => ?_, fun fuel t a data u b hne => ?_,
    fun hm => hm.writeAll hldm accesses⟩
  · exact windowMemory_lawful.read_lastWrite (a := (t, a)) (r := ()) hldm hok trivial
      ⟨before, after, hsplit, ⟨rfl, rfl⟩, hno⟩ trivial
  · exact windowMemory_lawful.read_writeAll (a := (t, a)) (r := ()) hldm hok trivial rfl
      fun w hw hc => absurd hc (hno w hw)
  · rw [exec_store]
    exact windowLoad_store_of_ne (windowMemory_lawful.writeAll_keeps hldm hok) data hne

theorem windows_private_two_cores :
    let accesses : List WindowAccess := [.store 0 1 (mopCfgAddr 2) 5, .store 0 2 (mopCfgAddr 2) 6]
    windowLoad (windowMemory.writeAll CoreMem.blank.tile accesses) 1 (mopCfgAddr 2) = some 5 ∧
      Mirrored (windowMemory.writeAll CoreMem.blank.tile accesses) := by
  intro accesses
  obtain ⟨hlast, -, -, hmirror⟩ := windows_private (s := CoreMem.blank.tile) (fun _ => rfl) accesses
  refine ⟨hlast [] 0 1 (mopCfgAddr 2) 5 _ rfl ?_, hmirror ?_⟩
  · intro w hw
    cases List.mem_singleton.mp hw
    exact fun hat => absurd hat.1 (by decide)
  · intro cfgs hcfgs t idx
    cases hcfgs
    have hzero (a : ℕ) : Bytes.load (fun _ => 0) a 4 = 0 := by simp [Bytes.load, forRange, List.range_succ]
    rw [windowLoad, windowRead (mopCfgAddr idx) CoreMem.blank.tile t rfl, hzero]
    rfl

end Rv32Emu
