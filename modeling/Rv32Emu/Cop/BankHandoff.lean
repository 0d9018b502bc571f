import Rv32Emu.Cop.Banks

namespace Rv32Emu

def HandsBanks (_ : Tensix) (_ : Tid) (insn : Word) : Prop := insnImpl insn ∈ bankImpls ++ issueImpls
  deriving Decidable

def UncheckedOwned (core : Tensix) (_ : Tid) (insn : Word) : Prop :=
  ∀ s, flipUnchecked insn s = true → (bankUse insn s).flips = true → (core.buffer s).Owned

structure BanksSynced (core : Tensix) : Prop where
  noZeroed : core.NoZeroed
  synced : ∀ s, (core.buffer s).Synced

theorem banksSynced_init (mem : TensixMemory) : BanksSynced (tensixInit mem) := by
  refine ⟨fun _ => rfl, fun s => ?_⟩
  have hreset : ((tensixInit mem).buffer s).reset.Synced := .reset
  cases s <;> exact hreset

section steps

variable {core core' : Tensix} {i : Item} {insn : Word}

theorem CoreStep.uses (h : CoreStep core i core') (hz : core.NoZeroed) (hx : i.executed = some insn)
    (hclass : insnImpl insn ∈ bankImpls ++ issueImpls) : Uses core insn core' := by
  have hreach := h.reaches
  rw [hx] at hreach
  have hdone : Completes i.tid core insn core' := hreach
  exact hdone.uses hclass hz

theorem CoreStep.banksSynced (h : CoreStep core i core') (hs : BanksSynced core)
    (hclass : i.Meets HandsBanks) (hc : i.Meets UncheckedOwned) :
    BanksSynced core' := by
  cases hx : i.executed with
  | none =>
    have hreach := h.reaches
    rw [hx] at hreach
    obtain rfl : core' = core := hreach
    exact hs
  | some insn =>
    have hu := h.uses hs.noZeroed hx (hclass insn hx)
    have hown := hc insn hx
    rw [h.before] at hown
    exact ⟨hu.noZeroed, fun s => (hu.changes s).synced (hu.permitted s (hown s)) (hs.synced s)⟩

theorem CoreStep.flips_owned (h : CoreStep core i core') (hs : BanksSynced core) (hx : i.executed = some insn)
    (hclass : insnImpl insn ∈ bankImpls ++ issueImpls) (hc : i.Meets UncheckedOwned) {s : Source}
    (hf : (bankUse insn s).flips = true) : (core.buffer s).Owned := by
  have hown := hc insn hx
  rw [h.before] at hown
  have hp := (h.uses hs.noZeroed hx hclass).permitted s (hown s)
  cases hm : bankUse insn s with
  | use reads flip =>
    rw [hm] at hp hf
    exact hp hf
  | _ =>
    rw [hm] at hf
    cases hf

end steps

theorem flips_keep_banks_synced {mem : TensixMemory} {replay : Tid → Replay} {cop : TensixCop}
    {ls : List Label} {is : List Item} (h : History (tensixCopInit (tensixInit mem) replay) ls is cop)
    (hclass : ∀ i ∈ is, i.Meets HandsBanks)
    (hc : ∀ i ∈ is, i.Meets UncheckedOwned) :
    (∀ i ∈ is, ∀ insn ∈ i.executed, ∀ s, (bankUse insn s).flips = true → (i.before.buffer s).Owned) ∧
      (∀ i ∈ is, ∀ s, (i.after.buffer s).Synced) ∧ ∀ s, (cop.core.buffer s).Synced := by
  have hrun := h.core.imp fun s t i hi hs => (⟨hs, hclass i hi, hc i hi⟩ :
    CoreStep s i t ∧ i.Meets HandsBanks ∧ i.Meets UncheckedOwned)
  have hinit : BanksSynced (tensixCopInit (tensixInit mem) replay).core := banksSynced_init mem
  have hvisits := hrun.visits (fun _ _ _ hs hstep => hstep.1.banksSynced hs hstep.2.1 hstep.2.2) hinit
  refine ⟨hvisits.forall_mem ?_, hvisits.forall_mem ?_, ?_⟩
  · rintro core i core' ⟨hs, ⟨hstep, hcl, hown⟩, -⟩ insn hx s hf
    rw [hstep.before]
    exact hstep.flips_owned hs hx (hcl insn hx) hown hf
  · rintro core i core' ⟨-, ⟨hstep, -⟩, hs'⟩ s
    rw [hstep.after]
    exact hs'.synced s
  · exact (hrun.invariant (fun _ _ _ hs hstep => hstep.1.banksSynced hs hstep.2.1 hstep.2.2) hinit).synced

theorem Source.forall_iff {p : Source → Prop} : (∀ s, p s) ↔ p .srca ∧ p .srcb := by
  constructor
  · exact fun h => ⟨h .srca, h .srcb⟩
  · rintro ⟨ha, hb⟩ (_ | _)
    · exact ha
    · exact hb

instance Source.decidableForall (p : Source → Prop) [DecidablePred p] : Decidable (∀ s, p s) :=
  decidable_of_iff _ forall_iff.symm

instance UncheckedOwned.decidable (core : Tensix) (t : Tid) (insn : Word) :
    Decidable (UncheckedOwned core t insn) :=
  inferInstanceAs (Decidable (∀ s, flipUnchecked insn s = true → _ → _))

theorem flips_keep_banks_synced_gmpool :
    ∃ ls is cop, History powerUp ls is cop ∧
      (∀ i ∈ is, i.Meets HandsBanks) ∧
      (∃ i ∈ is, ∃ insn ∈ i.executed, (bankUse insn .srcb).flips = true ∧ ¬(i.before.buffer .srcb).Owned) ∧
      ¬(cop.core.buffer .srcb).Synced := by
  obtain ⟨is, cop, h, hp⟩ := powerUp.issueAll_check 3 [(0, 0x42000040), (1, 0x33C00000)]
    (fun r => decide (∀ i ∈ r.1, i.Meets HandsBanks) &&
      decide ((∃ i ∈ r.1, i.executed = some 0x33C00000 ∧ ¬(i.before.buffer .srcb).Owned) ∧
      ¬(r.2.core.buffer .srcb).Synced)) (by decide)
  obtain ⟨hclass, hp⟩ := Bool.and_eq_true_iff.mp hp
  obtain ⟨⟨i, hi, hx, hown⟩, hs⟩ := of_decide_eq_true hp
  exact ⟨_, is, cop, h, of_decide_eq_true hclass, ⟨i, hi, _, hx, by decide, hown⟩, hs⟩

theorem flips_keep_banks_synced_pool :
    ∃ ls is cop, History powerUp ls is cop ∧ is.length = 4 ∧ ∀ s, (cop.core.buffer s).Synced := by
  obtain ⟨is, cop, h, hp⟩ := powerUp.issueAll_check 3
    [(0, 0x42000040), (0, 0x42800040), (1, 0x33C00000), (1, 0x36000001)]
    (fun r => decide (∀ i ∈ r.1, i.Meets HandsBanks) &&
      decide (r.1.length = 4 ∧ ∀ i ∈ r.1, i.Meets UncheckedOwned)) (by decide)
  obtain ⟨hclass, hp⟩ := Bool.and_eq_true_iff.mp hp
  obtain ⟨hlen, hc⟩ := of_decide_eq_true hp
  exact ⟨_, is, cop, h, hlen, (flips_keep_banks_synced h (of_decide_eq_true hclass) hc).2.2⟩

def handoffImpls : List InsnImpl := [.ttunpacr, .ttelwmul, .ttelwadd, .ttelwsub, .ttmvmul, .ttsetrwc]

def HandsOver (_ : Tensix) (_ : Tid) (insn : Word) : Prop := insnImpl insn ∈ handoffImpls ++ issueImpls
  deriving Decidable

namespace BankUse

def reads : BankUse → Bool
  | use reads _ => reads
  | _ => false

def transfers (b b' : DoubleBuffer Grid) : BankUse → List (Transfer Bank Grid)
  | keep => []
  | fill publish => .write b.producer :: if publish then [.publish b.producer (b'.slot b.producer)] else []
  | use reads flip =>
    (if reads then [.read b.consumer (b.slot b.consumer)] else []) ++
      if flip then [.release b.consumer (b.slot b.consumer)] else []
  | reset => []

theorem Changes.serves {b b' : DoubleBuffer Grid} {m : BankUse} {ts : List (Transfer Bank Grid)}
    (h : m.Changes b b') (hp : m.Permitted b) (hread : m.reads = true → b.Owned) (hreset : m ≠ .reset)
    (hs : b.Serves ts) : b'.Serves (ts ++ m.transfers b b') := by
  cases m with
  | keep =>
    obtain rfl : b' = b := h
    rw [transfers, List.append_nil]
    exact hs
  | fill publish =>
    obtain ⟨x, rfl⟩ := h
    have hwrite := hs.write hp x
    cases publish with
    | false => exact hwrite
    | true =>
      have hpub := hwrite.publish hp
      rw [List.append_assoc] at hpub
      exact hpub
  | use reads flip =>
    obtain rfl : b' = b.releaseIf flip := h
    have hseen : b.Serves (ts ++ if reads then [.read b.consumer (b.slot b.consumer)] else []) := by
      cases reads with
      | false => rwa [if_neg Bool.false_ne_true, List.append_nil]
      | true => exact hs.read (hread rfl)
    rw [transfers, ← List.append_assoc]
    cases flip with
    | false =>
      rw [if_neg Bool.false_ne_true, List.append_nil]
      exact hseen
    | true => exact hseen.release (hp rfl)
  | reset => exact absurd rfl hreset

end BankUse

def Item.transfers (s : Source) (i : Item) : List (Transfer Bank Grid) :=
  match i.executed with
  | none => []
  | some insn => (bankUse insn s).transfers (i.before.buffer s) (i.after.buffer s)

section handoff

variable {core core' : Tensix} {i : Item} {insn : Word} {s : Source} {ts : List (Transfer Bank Grid)}

theorem handoff_use (hi : insnImpl insn ∈ handoffImpls ++ issueImpls) (s : Source) :
    flipUnchecked insn s = false ∧ bankUse insn s ≠ .reset ∧
      ((bankUse insn s).reads = true → insnImpl insn ∈ computeImpls) := by
  simp only [handoffImpls, issueImpls, List.cons_append, List.nil_append, List.mem_cons, List.not_mem_nil,
    or_false] at hi
  rw [flipUnchecked, bankUse]
  obtain hi | hi | hi | hi | hi | hi | hi | hi | hi | hi | hi | hi | hi := hi
  case inl =>
    rw [hi]
    dsimp only
    split_ifs <;> simp [BankUse.reads]
  all_goals
    rw [hi]
    simp [BankUse.reads, computeImpls]

theorem CoreStep.serves (h : CoreStep core i core') (hz : core.NoZeroed) (hs : (core.buffer s).Serves ts)
    (hclass : i.Meets HandsOver) :
    core'.NoZeroed ∧ (core'.buffer s).Serves (ts ++ i.transfers s) := by
  have hreach := h.reaches
  unfold Item.transfers
  cases hx : i.executed with
  | none =>
    rw [hx] at hreach
    obtain rfl : core' = core := hreach
    rw [List.append_nil]
    exact ⟨hz, hs⟩
  | some insn =>
    rw [hx] at hreach
    have hdone : Completes i.tid core insn core' := hreach
    have hi := hclass insn hx
    have hbank : insnImpl insn ∈ bankImpls ++ issueImpls :=
      (by decide : handoffImpls ++ issueImpls ⊆ bankImpls ++ issueImpls) hi
    obtain ⟨hchecked, hreset, hcompute⟩ := handoff_use hi s
    have hu := hdone.uses hbank hz
    have hp := hu.permitted s fun hun => absurd (hun.symm.trans hchecked) Bool.true_eq_false.mp
    rw [h.before, h.after]
    exact ⟨hu.noZeroed, (hu.changes s).serves hp (fun hr => (hdone.compute_banks (hcompute hr) hz).1 s)
      hreset hs⟩

end handoff

def HandedOver (s : Source) (is : List Item) (core : Tensix) : Prop :=
  core.NoZeroed ∧ (core.buffer s).Serves (is.flatMap (Item.transfers s))

theorem handedOver_init (mem : TensixMemory) (s : Source) : HandedOver s [] (tensixInit mem) := by
  have hinit := banksSynced_init mem
  refine ⟨hinit.noZeroed, hinit.synced s, ?_⟩
  cases s <;> exact .nil

theorem handedOver_step {s : Source} {is : List Item} {core core' : Tensix} {i : Item}
    (h : HandedOver s is core) (hstep : CoreStep core i core') (hclass : i.Meets HandsOver) :
    HandedOver s (is ++ [i]) core' := by
  unfold HandedOver
  rw [List.flatMap_append, List.flatMap_singleton]
  exact hstep.serves h.1 h.2 hclass

theorem bank_handoff_in_order {mem : TensixMemory} {replay : Tid → Replay} {cop : TensixCop} {ls : List Label}
    {is : List Item} (h : History (tensixCopInit (tensixInit mem) replay) ls is cop)
    (hclass : ∀ i ∈ is, i.Meets HandsOver) (s : Source) :
    Transfer.released (is.flatMap (Item.transfers s)) <+: Transfer.published (is.flatMap (Item.transfers s)) ∧
      Transfer.InOrder (is.flatMap (Item.transfers s)) ∧
      Transfer.pending (is.flatMap (Item.transfers s)) = (cop.core.buffer s).contents := by
  have hrun := h.core.imp fun _ _ i hi hs => And.intro hs (hclass i hi)
  have hall : HandedOver s ([] ++ is) cop.core :=
    hrun.history (fun _ _ _ _ hs hstep => handedOver_step hs hstep.1 hstep.2) (handedOver_init mem s)
  have hleaves := hall.2.leaves
  exact ⟨hleaves.released_initial, hleaves.inOrder, hleaves.pending_eq⟩

theorem bank_handoff_in_order_two_banks :
    ∃ ls is cop, History powerUp ls is cop ∧
      (Transfer.released (is.flatMap (Item.transfers .srca))).map Prod.fst = [0, 1] ∧
      Transfer.released (is.flatMap (Item.transfers .srca)) <+:
        Transfer.published (is.flatMap (Item.transfers .srca)) := by
  obtain ⟨is, cop, h, hp⟩ := powerUp.issueAll_check 3
    [(0, 0x42000040), (0, 0x42800040), (0, 0x42000040), (1, 0x28C00000), (1, 0x37400000)]
    (fun r => decide (∀ i ∈ r.1, i.Meets HandsOver) &&
      decide ((Transfer.released (r.1.flatMap (Item.transfers .srca))).map Prod.fst = [0, 1])) (by decide)
  obtain ⟨hclass, hbanks⟩ := Bool.and_eq_true_iff.mp hp
  exact ⟨_, is, cop, h, of_decide_eq_true hbanks,
    (bank_handoff_in_order h (of_decide_eq_true hclass) .srca).1⟩

end Rv32Emu
