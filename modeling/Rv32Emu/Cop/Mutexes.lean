import Rv32Emu.Cop.Frames
import Rv32Emu.Cop.History

namespace Rv32Emu

def opcodeAtgetm : Word := 0xA0
def opcodeAtrelm : Word := 0xA1

def mutexOf (insn : Word) : Fin 8 := mutexId (tensixInsnParam insn)

def Item.Gets (i : Item) (t : Tid) (m : Fin 8) : Prop :=
  i.tid = t ∧ ∃ insn, i.executed = some insn ∧ tensixInsnOpcode insn = opcodeAtgetm ∧ mutexOf insn = m

def Item.Releases (i : Item) (t : Tid) (m : Fin 8) : Prop :=
  i.tid = t ∧ ∃ insn, i.executed = some insn ∧ tensixInsnOpcode insn = opcodeAtrelm ∧ mutexOf insn = m

def HoldsMutex (is : List Item) (t : Tid) (m : Fin 8) : Prop :=
  ∃ pre i post, is = pre ++ i :: post ∧ i.Gets t m ∧ ∀ k ∈ post, ¬k.Releases t m

theorem holdsMutex_nil (t : Tid) (m : Fin 8) : ¬HoldsMutex [] t m := by
  rintro ⟨pre, i, post, h, -⟩
  exact List.cons_ne_nil _ _ (List.append_eq_nil_iff.mp h.symm).2

theorem holdsMutex_append {is : List Item} {i : Item} {t : Tid} {m : Fin 8} (h : HoldsMutex (is ++ [i]) t m) :
    i.Gets t m ∨ HoldsMutex is t m ∧ ¬i.Releases t m := by
  obtain ⟨pre, k, post, hsplit, hk, hpost⟩ := h
  cases post using List.reverseRecOn with
  | nil =>
    obtain ⟨-, hlast⟩ := List.append_inj' hsplit rfl
    obtain rfl := (List.cons.inj hlast).1
    exact .inl hk
  | append_singleton post last =>
    rw [← List.cons_append, ← List.append_assoc] at hsplit
    obtain ⟨hinit, hlast⟩ := List.append_inj' hsplit rfl
    obtain rfl := (List.cons.inj hlast).1
    refine .inr ⟨⟨pre, k, post, hinit, hk, fun x hx => hpost x ?_⟩, hpost i ?_⟩
    · exact List.mem_append_left _ hx
    · exact List.mem_append_right _ List.mem_cons_self

theorem ttJumpTable_mutex :
    ∀ op : Fin 256,
      (ttJumpTable.getD op .unimp = .ttatgetm ↔ op = 0xA0) ∧
      (ttJumpTable.getD op .unimp = .ttatrelm ↔ op = 0xA1) := by
  decide +kernel

theorem insnImpl_eq_ttatgetm (insn : Word) :
    insnImpl insn = .ttatgetm ↔ tensixInsnOpcode insn = opcodeAtgetm :=
  insnImpl_eq_iff (by decide) (fun op => (ttJumpTable_mutex op).1) insn

theorem insnImpl_eq_ttatrelm (insn : Word) :
    insnImpl insn = .ttatrelm ↔ tensixInsnOpcode insn = opcodeAtrelm :=
  insnImpl_eq_iff (by decide) (fun op => (ttJumpTable_mutex op).2) insn

theorem runCoreImpl_mutex {impl : InsnImpl} (tt : Tensix) (mopCfg : ℕ → Word) (imm : Word) (tid : Tid)
    (ha : impl ≠ .ttatgetm) (hr : impl ≠ .ttatrelm) :
    (runCoreImpl impl tt mopCfg imm tid).2.mutex = tt.mutex := by
  by_cases hi : impl = .ttseminit
  · subst hi
    rfl
  by_cases hp : impl = .ttsempost
  · subst hp
    rfl
  by_cases hg : impl = .ttsemget
  · subst hg
    rfl
  exact congrArg Beyond.mutex (runCoreImpl_beyond tt mopCfg imm tid hi hp hg ha hr)

section completes

variable {tid : Tid} {core core' : Tensix} {insn : Word}

theorem Completes.mutex_atgetm (h : Completes tid core insn core')
    (ho : tensixInsnOpcode insn = opcodeAtgetm) :
    core'.mutex = if core.mutex (mutexOf insn) = mutexNone then
      Function.update core.mutex (mutexOf insn) (w32 tid) else core.mutex := by
  obtain ⟨cfg, h⟩ := h
  rw [(insnImpl_eq_ttatgetm insn).mpr ho] at h
  obtain rfl : ttatgetm core (tensixInsnParam insn) tid = core' := congrArg Prod.snd h
  unfold ttatgetm mutexOf
  split_ifs <;> rfl

theorem Completes.mutex_atrelm (h : Completes tid core insn core')
    (ho : tensixInsnOpcode insn = opcodeAtrelm) :
    core'.mutex = if core.mutex (mutexOf insn) = w32 tid then
      Function.update core.mutex (mutexOf insn) mutexNone else core.mutex := by
  obtain ⟨cfg, h⟩ := h
  rw [(insnImpl_eq_ttatrelm insn).mpr ho] at h
  obtain rfl : ttatrelm core (tensixInsnParam insn) tid = core' := congrArg Prod.snd h
  unfold ttatrelm mutexOf
  split_ifs <;> rfl

theorem Completes.mutex_other (h : Completes tid core insn core') (hg : tensixInsnOpcode insn ≠ opcodeAtgetm)
    (hr : tensixInsnOpcode insn ≠ opcodeAtrelm) : core'.mutex = core.mutex := by
  obtain ⟨cfg, h⟩ := h
  obtain rfl : (runCoreImpl (insnImpl insn) core cfg (tensixInsnParam insn) tid).2 = core' :=
    congrArg Prod.snd h
  exact runCoreImpl_mutex core cfg _ tid (mt (insnImpl_eq_ttatgetm insn).mp hg)
    (mt (insnImpl_eq_ttatrelm insn).mp hr)

end completes

def MutexFree (core : Tensix) (t : Tid) (insn : Word) : Prop :=
  tensixInsnOpcode insn = opcodeAtgetm →
    core.mutex (mutexOf insn) = mutexNone ∨ core.mutex (mutexOf insn) = w32 t
  deriving Decidable

theorem w32_tid_injective {t t' : Tid} (h : w32 t = w32 t') : t = t' := by
  revert t t'
  decide

theorem w32_tid_ne_none (t : Tid) : w32 t ≠ mutexNone := by
  revert t
  decide

def MutexRecorded (is : List Item) (core : Tensix) : Prop :=
  ∀ t m, HoldsMutex is t m → core.mutex m = w32 t

theorem MutexFree.alone {is : List Item} {core : Tensix} {t t' : Tid} {insn : Word}
    (h : MutexRecorded is core) (hf : MutexFree core t insn) (ho : tensixInsnOpcode insn = opcodeAtgetm)
    (ht : HoldsMutex is t' (mutexOf insn)) : t' = t := by
  have hrec := h t' _ ht
  obtain hfree | hown := hf ho
  · exact absurd (hrec.symm.trans hfree) (w32_tid_ne_none t')
  · exact w32_tid_injective (hrec.symm.trans hown)

theorem holdsMutex_executed {is : List Item} {i : Item} {t : Tid} {m : Fin 8} {insn : Word}
    (hx : i.executed = some insn) (h : HoldsMutex (is ++ [i]) t m) :
    (tensixInsnOpcode insn = opcodeAtgetm ∧ i.tid = t ∧ mutexOf insn = m) ∨
      HoldsMutex is t m ∧ (tensixInsnOpcode insn = opcodeAtrelm → i.tid = t → mutexOf insn ≠ m) := by
  obtain ⟨ht, insn', hx', ho, hm⟩ | ⟨hold, hnot⟩ := holdsMutex_append h
  · obtain rfl : insn = insn' := Option.some.inj (hx.symm.trans hx')
    exact .inl ⟨ho, ht, hm⟩
  · exact .inr ⟨hold, fun ho ht hm => hnot ⟨ht, insn, hx, ho, hm⟩⟩

section recorded

variable {is : List Item} {i : Item} {core core' : Tensix} {insn : Word}

theorem MutexRecorded.atgetm (h : MutexRecorded is core) (hx : i.executed = some insn)
    (hdone : Completes i.tid core insn core') (hfree : MutexFree core i.tid insn)
    (ho : tensixInsnOpcode insn = opcodeAtgetm) : MutexRecorded (is ++ [i]) core' := by
  have hown : core'.mutex (mutexOf insn) = w32 i.tid := by
    rw [hdone.mutex_atgetm ho]
    split_ifs with hn
    · exact Function.update_self ..
    · exact (hfree ho).resolve_left hn
  have hkeep : ∀ m, m ≠ mutexOf insn → core'.mutex m = core.mutex m := by
    intro m hm
    rw [hdone.mutex_atgetm ho]
    split_ifs
    · exact Function.update_of_ne hm ..
    · rfl
  intro t m hold
  obtain ⟨-, rfl, rfl⟩ | ⟨hold, -⟩ := holdsMutex_executed hx hold
  · exact hown
  · by_cases hm : m = mutexOf insn
    · subst hm
      rw [hown, MutexFree.alone h hfree ho hold]
    · rw [hkeep m hm]
      exact h t m hold

theorem MutexRecorded.atrelm (h : MutexRecorded is core) (hx : i.executed = some insn)
    (hdone : Completes i.tid core insn core') (ho : tensixInsnOpcode insn = opcodeAtrelm) :
    MutexRecorded (is ++ [i]) core' := by
  intro t m hold
  obtain ⟨hg, -⟩ | ⟨hold, hnot⟩ := holdsMutex_executed hx hold
  · exact absurd (ho.symm.trans hg) (by decide)
  · have hrec := h t m hold
    rw [hdone.mutex_atrelm ho]
    split_ifs with hown
    · have hm : m ≠ mutexOf insn := by
        rintro rfl
        exact hnot ho (w32_tid_injective (hown.symm.trans hrec)) rfl
      rw [Function.update_of_ne hm]
      exact hrec
    · exact hrec

theorem CoreStep.mutexRecorded (h : MutexRecorded is core) (hs : CoreStep core i core')
    (hfree : i.Meets MutexFree) : MutexRecorded (is ++ [i]) core' := by
  have hreach := hs.reaches
  cases hx : i.executed with
  | none =>
    rw [hx] at hreach
    obtain rfl : core' = core := hreach
    intro t m hold
    obtain ⟨-, insn, hi, -⟩ | ⟨hold, -⟩ := holdsMutex_append hold
    · rw [hx] at hi
      cases hi
    · exact h t m hold
  | some insn =>
    rw [hx] at hreach
    have hdone : Completes i.tid core insn core' := hreach
    by_cases hg : tensixInsnOpcode insn = opcodeAtgetm
    · have hf := hfree insn hx
      rw [hs.before] at hf
      exact h.atgetm hx hdone hf hg
    by_cases hr : tensixInsnOpcode insn = opcodeAtrelm
    · exact h.atrelm hx hdone hr
    intro t m hold
    rw [hdone.mutex_other hg hr]
    obtain ⟨ho, -⟩ | ⟨hold, -⟩ := holdsMutex_executed hx hold
    · exact absurd ho hg
    · exact h t m hold

end recorded

theorem mutexRecorded_run {is : List Item} {core core' : Tensix} (hrun : Run CoreStep core is core')
    (hfree : ∀ i ∈ is, i.Meets MutexFree) : MutexRecorded is core' := by
  have hall := hrun.imp fun s t i hi hs => (⟨hs, hfree i hi⟩ : CoreStep s i t ∧ i.Meets MutexFree)
  have hnil : MutexRecorded [] core := fun t m h => absurd h (holdsMutex_nil t m)
  exact hall.history (fun _ _ _ _ hrec hs => hs.1.mutexRecorded hrec hs.2) hnil

theorem mutual_exclusion {start cop : TensixCop} {ls : List Label} {is : List Item}
    (h : History start ls is cop) (hfree : ∀ i ∈ is, i.Meets MutexFree) :
    (∀ t t' m, HoldsMutex is t m → HoldsMutex is t' m → t = t') ∧
      ∀ pre i post t t' m, is = pre ++ i :: post → i.Gets t m → HoldsMutex pre t' m → t' = t := by
  have hrun := h.core
  constructor
  · intro t t' m ht ht'
    have hrec := mutexRecorded_run hrun hfree
    exact w32_tid_injective ((hrec t m ht).symm.trans (hrec t' m ht'))
  · rintro pre i post t t' m rfl ⟨rfl, insn, hx, ho, rfl⟩ ht'
    obtain ⟨core, hpre, hpost⟩ := hrun.split
    have hrec := mutexRecorded_run hpre fun i hi => hfree i (List.mem_append_left _ hi)
    have hf := hfree i (List.mem_append_right _ List.mem_cons_self) insn hx
    cases hpost with
    | cons hs _ =>
      rw [hs.before] at hf
      exact MutexFree.alone hrec hf ho ht'

theorem mutual_exclusion_passed_on :
    ∃ ls is cop, History powerUp ls is cop ∧ is.length = 4 ∧ (∀ i ∈ is, i.Meets MutexFree) ∧
      ∀ t t' m, HoldsMutex is t m → HoldsMutex is t' m → t = t' := by
  obtain ⟨is, cop, h, hp⟩ := powerUp.issueAll_check 3
    [(0, 0xA0000000), (1, 0xA0000001), (0, 0xA1000000), (1, 0xA0000000)]
    (fun r => r.1.length = 4 ∧ ∀ i ∈ r.1, i.Meets MutexFree) (by decide)
  obtain ⟨hlen, hfree⟩ := of_decide_eq_true hp
  exact ⟨_, is, cop, h, hlen, hfree, (mutual_exclusion h hfree).1⟩

theorem mutual_exclusion_atgetm_twice :
    ∃ ls is cop, History powerUp ls is cop ∧ (∀ i ∈ is, ∀ t m, ¬i.Releases t m) ∧
      HoldsMutex is 0 0 ∧ HoldsMutex is 1 0 := by
  obtain ⟨is, cop, h, hp⟩ := powerUp.issueAll_check 3 [(0, 0xA0000000), (1, 0xA0000000)]
    (fun r => r.1.map (fun i => (i.tid, i.executed)) = [(0, some 0xA0000000), (1, some 0xA0000000)])
      (by decide)
  obtain ⟨i, js, rfl, hi, hjs⟩ := List.map_eq_cons_iff.mp (of_decide_eq_true hp)
  obtain ⟨j, rfl, hj⟩ := List.map_eq_singleton_iff.mp hjs
  obtain ⟨hit, hix⟩ := Prod.ext_iff.mp hi
  obtain ⟨hjt, hjx⟩ := Prod.ext_iff.mp hj
  have hno : ∀ k ∈ [i, j], ∀ t m, ¬k.Releases t m := by
    rintro k hk t m ⟨-, insn, hx, ho, -⟩
    have hword : insn = 0xA0000000 := by
      simp only [List.mem_cons, List.not_mem_nil, or_false] at hk
      obtain rfl | rfl := hk
      · exact Option.some.inj (hx.symm.trans hix)
      · exact Option.some.inj (hx.symm.trans hjx)
    subst hword
    exact absurd ho (by decide)
  refine ⟨_, _, cop, h, hno, ⟨[], i, [j], rfl, ⟨hit, _, hix, by decide, by decide⟩, fun k hk => hno k ?_ _ _⟩,
    ⟨[i], j, [], rfl, ⟨hjt, _, hjx, by decide, by decide⟩, by simp⟩⟩
  exact List.mem_cons_of_mem _ hk

end Rv32Emu
