import Rv32Emu.Cop.History
import Rv32Emu.Cop.Semaphores
import Rv32Emu.Lib.Counters
import Rv32Emu.Tile.Mmio

namespace Rv32Emu

def SemWindow (addr : Word) : Prop := 0xFFE80020 ≤ addr.toNat ∧ addr.toNat ≤ 0xFFE8003F

def semIndex (addr : Word) : Fin 8 := Fin.ofNat 8 ((addr.toNat - 0xFFE80020) / 4)

inductive SemAction
  | insn (tid : Tid) (w : Word)
  | store (coreId : ℤ) (addr data : Word)

inductive SemStep : Tensix → SemAction → Tensix → Prop
  | insn {core core' : Tensix} {tid : Tid} {w : Word} : Completes tid core w core' →
      SemStep core (.insn tid w) core'
  | store {tt tt' : TensixTile} {fuel : ℕ} {coreId : ℤ} {addr data : Word} {handled : Bool} : SemWindow addr →
      tt.tensixMmioWrite fuel coreId addr data = some (handled, tt') →
      SemStep tt.core (.store coreId addr data) tt'.core

def fourBits (w : Word) (shift : ℕ) : Fin 16 := Fin.ofNat 16 (bits w shift 0xF).toNat

def valueOp (i : Fin 8) : SemAction → Option (CounterOp 15)
  | .insn _ w =>
    let imm := tensixInsnParam w
    if semSelected imm i then
      match insnImpl w with
      | .ttseminit => some (.assign (fourBits imm 16))
      | .ttsempost => some .inc
      | .ttsemget => some .dec
      | _ => none
    else none
  | .store _ addr data =>
    if semIndex addr = i then some (if data = 0 then .inc else if data = 1 then .dec
      else .assign (fourBits data 0))
    else none

def maxOp (i : Fin 8) : SemAction → Option (CounterOp 15)
  | .insn _ w =>
    if semSelected (tensixInsnParam w) i ∧ insnImpl w = .ttseminit then some (.assign
      (fourBits (tensixInsnParam w) 20))
    else none
  | .store .. => none

section words

theorem fourBits_toNat (w : Word) (shift : ℕ) : (bits w shift 0xF).toNat = fourBits w shift := by
  have h : (bits w shift 0xF).toNat ≤ 15 := by
    rw [bits, BitVec.toNat_and]
    exact Nat.and_le_right
  change _ = (bits w shift 0xF).toNat % 16
  omega

theorem and_fifteen_toNat (w : Word) : (w &&& 0xF).toNat = fourBits w 0 := by
  rw [← fourBits_toNat, bits, BitVec.ushiftRight_zero]

theorem post_toNat {w : Word} {c : Fin 16} (h : w.toNat = c) :
    (if w.toNat < 15 then w + 1 else w).toNat = CounterOp.apply c (b := 15) .inc := by
  have hc := c.isLt
  have hone : (1 : Word).toNat = 1 := rfl
  dsimp only [CounterOp.apply]
  split
  · rw [BitVec.toNat_add, hone]
    omega
  · omega

theorem get_toNat {w : Word} {c : Fin 16} (h : w.toNat = c) :
    (if w.toNat > 0 then w - 1 else w).toNat = CounterOp.apply c (b := 15) .dec := by
  have hc := c.isLt
  have hone : (1 : Word).toNat = 1 := rfl
  dsimp only [CounterOp.apply]
  split
  · rw [BitVec.toNat_sub, hone]
    omega
  · omega

end words

section steps

variable {core core' : Tensix} {tid : Tid} {w : Word} {i : Fin 8} {c : Fin 16}

theorem insn_unselected (h : Completes tid core w core') (hsel : semSelected (tensixInsnParam w) i = false) :
    core'.sem i = core.sem i ∧ core'.semMax i = core.semMax i := by
  obtain ⟨cfg, hrun⟩ := h
  by_cases hi : insnImpl w = .ttseminit
  · rw [hi] at hrun
    cases hrun
    simp [ttseminit, hsel]
  by_cases hp : insnImpl w = .ttsempost
  · rw [hp] at hrun
    cases hrun
    simp [ttsempost, hsel]
  by_cases hg : insnImpl w = .ttsemget
  · rw [hg] at hrun
    cases hrun
    simp [ttsemget, hsel]
  · have hsame := runCoreImpl_semaphores core cfg (tensixInsnParam w) tid hi hp hg
    rw [hrun] at hsame
    exact ⟨congrFun (congrArg Prod.fst hsame) i, congrFun (congrArg Prod.snd hsame) i⟩

theorem insn_value (h : Completes tid core w core') (hc : (core.sem i).toNat = c) :
    (core'.sem i).toNat = CounterOp.applyIf c (valueOp i (.insn tid w)) := by
  obtain ⟨cfg, hrun⟩ := h
  dsimp only [valueOp]
  split
  · next hsel =>
    split
    · next himpl =>
      rw [himpl] at hrun
      cases hrun
      exact (congrArg BitVec.toNat (if_pos hsel)).trans (fourBits_toNat _ _)
    · next himpl =>
      rw [himpl] at hrun
      cases hrun
      rw [ttsempost]
      simp only [hsel, true_and]
      exact post_toNat hc
    · next himpl =>
      rw [himpl] at hrun
      cases hrun
      rw [ttsemget]
      simp only [hsel, true_and]
      exact get_toNat hc
    · next hi hp hg =>
      have hsame := runCoreImpl_semaphores core cfg (tensixInsnParam w) tid hi hp hg
      rw [hrun] at hsame
      rw [show core'.sem = core.sem from congrArg Prod.fst hsame]
      exact hc
  · next hsel =>
    rw [insn_unselected ⟨cfg, hrun⟩ (Bool.eq_false_of_not_eq_true hsel) |>.1]
    exact hc

theorem insn_max (h : Completes tid core w core') (hc : (core.semMax i).toNat = c) :
    (core'.semMax i).toNat = CounterOp.applyIf c (maxOp i (.insn tid w)) := by
  dsimp only [maxOp]
  split
  · next hsel =>
    obtain ⟨cfg, hrun⟩ := h
    rw [hsel.2] at hrun
    cases hrun
    exact (congrArg BitVec.toNat (if_pos hsel.1)).trans (fourBits_toNat _ _)
  · next hsel =>
    obtain ⟨cfg, hrun⟩ := h
    by_cases hi : insnImpl w = .ttseminit
    · have hmask : semSelected (tensixInsnParam w) i = false :=
        Bool.eq_false_of_not_eq_true fun hs => hsel ⟨hs, hi⟩
      rw [(insn_unselected ⟨cfg, hrun⟩ hmask).2]
      exact hc
    · have hsame : core'.semMax = core.semMax := by
        by_cases hp : insnImpl w = .ttsempost
        · rw [hp] at hrun
          cases hrun
          rfl
        by_cases hg : insnImpl w = .ttsemget
        · rw [hg] at hrun
          cases hrun
          rfl
        have hkept := runCoreImpl_semaphores core cfg (tensixInsnParam w) tid hi hp hg
        rw [hrun] at hkept
        exact congrArg Prod.snd hkept
      rw [hsame]
      exact hc

end steps

section stores

variable {addr : Word}

theorem not_inMailboxRange (h : SemWindow addr) : inMailboxRange addr = false := by
  have hbase : mailboxAddrBase.toNat = 0xFFEC0000 := rfl
  have hlt : ¬mailboxAddrBase.toNat ≤ addr.toNat := by
    have hhi := h.2
    omega
  rw [inMailboxRange, decide_eq_false hlt, Bool.false_and]

theorem tensixMmioWrite_sem (tt : TensixTile) (fuel : ℕ) (coreId : ℤ) (data : Word) (h : SemWindow addr) :
    tt.tensixMmioWrite fuel coreId addr data = some (true, tt.writeSem (semIndex addr) data) := by
  unfold TensixTile.tensixMmioWrite
  rw [not_inMailboxRange h, if_neg Bool.false_ne_true]
  exact if_pos h

theorem tensixMmioRead_sem (tt : TensixTile) (coreId : ℤ) (h : SemWindow addr) :
    tt.tensixMmioRead coreId addr = (some (tt.core.sem (semIndex addr)), tt) := by
  unfold TensixTile.tensixMmioRead
  rw [not_inMailboxRange h, if_neg Bool.false_ne_true]
  exact if_pos h

theorem store_value (tt : TensixTile) (coreId : ℤ) (data : Word) {i : Fin 8} {c : Fin 16}
    (hc : (tt.core.sem i).toNat = c) : ((tt.writeSem (semIndex addr) data).core.sem i).toNat =
      CounterOp.applyIf c (valueOp i (.store coreId addr data)) := by
  dsimp only [valueOp, TensixTile.writeSem]
  by_cases hi : semIndex addr = i
  · subst hi
    rw [Function.update_self, if_pos rfl]
    by_cases h0 : data = 0
    · rw [if_pos h0, if_pos h0]
      exact post_toNat hc
    by_cases h1 : data = 1
    · rw [if_neg h0, if_neg h0, if_pos h1, if_pos h1]
      exact get_toNat hc
    · rw [if_neg h0, if_neg h0, if_neg h1, if_neg h1]
      exact and_fifteen_toNat data
  · rw [Function.update_of_ne (Ne.symm hi), if_neg hi]
    exact hc

end stores

section runs

variable {core core' : Tensix} {as : List SemAction}

theorem SemStep.value {a : SemAction} (h : SemStep core a core') {i : Fin 8} {c : Fin 16}
    (hc : (core.sem i).toNat = c) : (core'.sem i).toNat = CounterOp.applyIf c (valueOp i a) := by
  cases h with
  | insn hw => exact insn_value hw hc
  | store haddr hstore =>
    rw [tensixMmioWrite_sem _ _ _ _ haddr] at hstore
    cases hstore
    exact store_value _ _ _ hc

theorem SemStep.max {a : SemAction} (h : SemStep core a core') {i : Fin 8} {c : Fin 16}
    (hc : (core.semMax i).toNat = c) : (core'.semMax i).toNat = CounterOp.applyIf c (maxOp i a) := by
  cases h with
  | insn hw => exact insn_max hw hc
  | store haddr hstore =>
    rw [tensixMmioWrite_sem _ _ _ _ haddr] at hstore
    cases hstore
    exact hc

theorem maxOp_unselected {i : Fin 8} {a : SemAction} (h : valueOp i a = none) : maxOp i a = none := by
  cases a with
  | insn tid w =>
    refine if_neg fun hsel => ?_
    dsimp only [valueOp] at h
    rw [if_pos hsel.1, hsel.2] at h
    cases h
  | store => rfl

def SelectsAlone (imm : Word) (i : Fin 8) : Prop := ∀ j, semSelected imm j = true ↔ j = i

theorem store_zero_eq_sempost (tt : TensixTile) (tid : Tid) {imm : Word} {i : Fin 8}
    (h : SelectsAlone imm i) :
    (tt.writeSem i 0).core.semaphores = (ttsempost tt.core imm tid).semaphores := by
  refine Prod.ext (funext fun j => ?_) rfl
  change Function.update tt.core.sem i (if (tt.core.sem i).toNat < 15 then tt.core.sem i + 1
    else tt.core.sem i) j =
    if semSelected imm j ∧ (tt.core.sem j).toNat < 15 then tt.core.sem j + 1 else tt.core.sem j
  by_cases hj : j = i
  · subst hj
    simp only [Function.update_self, (h j).mpr rfl, true_and]
  · rw [Function.update_of_ne hj, if_neg fun hand => hj ((h j).mp hand.1)]

theorem store_one_eq_semget (tt : TensixTile) {imm : Word} {i : Fin 8} (h : SelectsAlone imm i) :
    (tt.writeSem i 1).core.semaphores = (ttsemget tt.core imm).semaphores := by
  refine Prod.ext (funext fun j => ?_) rfl
  change Function.update tt.core.sem i (if (tt.core.sem i).toNat > 0 then tt.core.sem i - 1
    else tt.core.sem i) j =
    if semSelected imm j ∧ (tt.core.sem j).toNat > 0 then tt.core.sem j - 1 else tt.core.sem j
  by_cases hj : j = i
  · subst hj
    simp only [Function.update_self, (h j).mpr rfl, true_and]
  · rw [Function.update_of_ne hj, if_neg fun hand => hj ((h j).mp hand.1)]

def StoresPostAndGet (core : Tensix) : Prop :=
  ∀ (tt : TensixTile) (fuel : ℕ) (coreId : ℤ) (addr imm : Word) (tid : Tid), tt.core = core → SemWindow addr →
    SelectsAlone imm (semIndex addr) →
    (∃ tt', tt.tensixMmioWrite fuel coreId addr 0 = some (true, tt') ∧
      tt'.core.semaphores = (ttsempost core imm tid).semaphores) ∧
    ∃ tt', tt.tensixMmioWrite fuel coreId addr 1 = some (true, tt') ∧
      tt'.core.semaphores = (ttsemget core imm).semaphores

theorem storesPostAndGet (core : Tensix) : StoresPostAndGet core := by
  rintro tt fuel coreId addr imm tid rfl haddr himm
  exact ⟨⟨_, tensixMmioWrite_sem tt fuel coreId 0 haddr, store_zero_eq_sempost tt tid himm⟩,
    ⟨_, tensixMmioWrite_sem tt fuel coreId 1 haddr, store_one_eq_semget tt himm⟩⟩

structure CountersAgree (value max : Fin 8 → Fin 16) (core : Tensix) (as : List SemAction)
    (core' : Tensix) : Prop where
  values : ∀ i, (core'.sem i).toNat = counterAfter (valueOp i) (value i) as
  maxima : ∀ i, (core'.semMax i).toNat = counterAfter (maxOp i) (max i) as
  bounded : ∀ i, (core'.sem i).toNat ≤ 15 ∧ (core'.semMax i).toNat ≤ 15
  unselected : ∀ i, (∀ a ∈ as, valueOp i a = none) → core'.sem i = core.sem i ∧ core'.semMax i = core.semMax i
  stores : StoresPostAndGet core'
  reads : ∀ (tt : TensixTile) (coreId : ℤ) (addr : Word), tt.core = core' → SemWindow addr →
    tt.tensixMmioRead coreId addr = (some (core'.sem (semIndex addr)), tt)

theorem semaphores_are_counters {value max : Fin 8 → Fin 16} (hrun : Run SemStep core as core')
    (hvalue : ∀ i, (core.sem i).toNat = value i) (hmax : ∀ i, (core.semMax i).toNat = max i) :
    CountersAgree value max core as core' := by
  have hvalues (i : Fin 8) : (core'.sem i).toNat = counterAfter (valueOp i) (value i) as :=
    hrun.counters (fun core i => (core.sem i).toNat) (fun _ _ _ _ _ h hc => h.value hc) (hvalue i)
  have hmaxima (i : Fin 8) : (core'.semMax i).toNat = counterAfter (maxOp i) (max i) as :=
    hrun.counters (fun core i => (core.semMax i).toNat) (fun _ _ _ _ _ h hc => h.max hc) (hmax i)
  refine ⟨hvalues, hmaxima, fun i => ?_, fun i hnone => ⟨?_, ?_⟩, storesPostAndGet core', ?_⟩
  · rw [hvalues, hmaxima]
    exact ⟨Fin.is_le _, Fin.is_le _⟩
  · apply BitVec.eq_of_toNat_eq
    rw [hvalues, counterAfter_unselected hnone, hvalue]
  · apply BitVec.eq_of_toNat_eq
    rw [hmaxima, counterAfter_unselected fun a ha => maxOp_unselected (hnone a ha), hmax]
  · rintro tt coreId addr rfl haddr
    exact tensixMmioRead_sem tt coreId haddr

theorem semaphores_are_counters_handoff :
    ∃ core', Run SemStep (tensixInit ⟨none, none⟩)
        [.insn 0 0xA3F00004, .store (-1) 0xFFE80020 0, .insn 1 0xA5000004] core' ∧
      CountersAgree (fun _ => 0) (fun i => if i = 2 ∨ i = 4 ∨ i = 7 then 1 else 0) (tensixInit ⟨none, none⟩)
        [.insn 0 0xA3F00004, .store (-1) 0xFFE80020 0, .insn 1 0xA5000004] core' := by
  let core₁ := ttseminit (tensixInit ⟨none, none⟩) (tensixInsnParam 0xA3F00004)
  let tile : TensixTile := { TensixTile.zero with core := core₁ }
  have hwindow : SemWindow 0xFFE80020 := by
    unfold SemWindow
    decide
  have hinit : SemStep (tensixInit ⟨none, none⟩) (.insn 0 0xA3F00004) core₁ := .insn ⟨fun _ => 0, rfl⟩
  have hstore := tensixMmioWrite_sem tile 0 (-1) 0 hwindow
  have hpost : SemStep tile.core (.store (-1) 0xFFE80020 0) (tile.writeSem (semIndex 0xFFE80020) 0).core :=
    .store hwindow hstore
  have hget : SemStep (tile.writeSem (semIndex 0xFFE80020) 0).core (.insn 1 0xA5000004) _ :=
    .insn ⟨fun _ => 0, rfl⟩
  have hrun := Run.cons hinit (.cons hpost (Run.single.mpr hget))
  exact ⟨_, hrun, semaphores_are_counters hrun (fun _ => rfl) (by decide)⟩

def Item.semAction (i : Item) : Option SemAction := i.executed.map (.insn i.tid)

theorem semRun_of_items {is : List Item} (h : Run CoreStep core is core') :
    Run SemStep core (is.filterMap Item.semAction) core' := by
  induction h with
  | nil => exact .nil _
  | @cons core u core' i is hi _ ih =>
    have hreach := hi.reaches
    cases hx : i.executed with
    | none =>
      rw [hx] at hreach
      obtain rfl : u = core := hreach
      rw [List.filterMap_cons_none (by rw [Item.semAction, hx]; rfl)]
      exact ih
    | some w =>
      rw [hx] at hreach
      rw [List.filterMap_cons_some (by rw [Item.semAction, hx]; rfl)]
      exact .cons (.insn hreach) ih

theorem CopRun.semRun {cop cop' : TensixCop} {ls : List Label} (h : CopRun cop ls cop') :
    ∃ is, History cop ls is cop' ∧ Run SemStep cop.core (is.filterMap Item.semAction) cop'.core := by
  obtain ⟨is, his⟩ := h.history
  exact ⟨is, his, semRun_of_items his.core⟩

end runs

end Rv32Emu
