import Rv32Emu.Lib.Ring
import Rv32Emu.Lib.Runs
import Rv32Emu.Tensix.Word

namespace Rv32Emu

abbrev MailboxCore := Fin 4

def mailboxFifoDepth : ℕ := 4
def mailboxAddrBase : Word := 0xFFEC0000
def mailboxAddrEnd : Word := 0xFFEC3FFF

structure MailboxFifo where
  slots : ℕ → Word
  head : ℕ
  count : ℕ

structure Mailboxes where
  fifo : MailboxCore → MailboxCore → MailboxFifo
  stall : MailboxCore → Bool

def mailboxCoreIndex (coreId : ℤ) : Option MailboxCore :=
  if coreId = -1 then some 0
  else if 0 ≤ coreId ∧ coreId ≤ 2 then some (Fin.ofNat 4 (coreId.toNat + 1))
  else none

def mailboxTarget (addr : Word) : MailboxCore := Fin.ofNat 4 ((addr - mailboxAddrBase) >>> 12).toNat

def inMailboxRange (addr : Word) : Bool :=
  mailboxAddrBase.toNat ≤ addr.toNat && addr.toNat ≤ mailboxAddrEnd.toNat

def fifoPush (f : MailboxFifo) (value : Word) : Option MailboxFifo :=
  if f.count ≥ mailboxFifoDepth then none
  else
    let idx := (f.head + f.count) % mailboxFifoDepth
    some { f with slots := Function.update f.slots idx value, count := f.count + 1 }

def fifoPop (f : MailboxFifo) : Option (Word × MailboxFifo) :=
  if f.count = 0 then none
  else some (f.slots f.head, { f with head := (f.head + 1) % mailboxFifoDepth, count := f.count - 1 })

namespace Mailboxes

def init : Mailboxes := ⟨fun _ _ => ⟨fun _ => 0, 0, 0⟩, fun _ => false⟩

def setFifo (m : Mailboxes) (src dst : MailboxCore) (f : MailboxFifo) : Mailboxes :=
  { m with fifo := Function.update m.fifo src (Function.update (m.fifo src) dst f) }

def setStall (m : Mailboxes) (core : MailboxCore) (stalled : Bool) : Mailboxes :=
  { m with stall := Function.update m.stall core stalled }

end Mailboxes

def mailboxWrite (m : Mailboxes) (coreId : ℤ) (addr value : Word) : Bool × Mailboxes :=
  if !inMailboxRange addr then (false, m)
  else
    match mailboxCoreIndex coreId with
    | none => (true, m)
    | some src =>
      let dst := mailboxTarget addr
      match fifoPush (m.fifo src dst) value with
      -- a full FIFO is reported and the value is dropped
      | none => (true, m)
      | some f => (true, m.setFifo src dst f)

def mailboxRead (m : Mailboxes) (coreId : ℤ) (addr : Word) : Option Word × Mailboxes :=
  if !inMailboxRange addr then (none, m)
  else
    match mailboxCoreIndex coreId with
    | none => (some 0, m)
    | some reader =>
      let src := mailboxTarget addr
      if bit addr 2 then (some (if (m.fifo src reader).count > 0 then 1 else 0), m)
      else
        match fifoPop (m.fifo src reader) with
        | none => (some 0, m.setStall reader true)
        | some (value, f) => (some value, m.setFifo src reader f)

def mailboxProcess (m : Mailboxes) (coreId : ℤ) : Bool × Mailboxes :=
  match mailboxCoreIndex coreId with
  | none => (false, m)
  | some core => if m.stall core then (true, m.setStall core false) else (false, m)

namespace MailboxFifo

structure WellFormed (f : MailboxFifo) : Prop where
  head_lt : f.head < mailboxFifoDepth
  count_le : f.count ≤ mailboxFifoDepth

def contents (f : MailboxFifo) : List Word := Ring.window mailboxFifoDepth f.slots f.head f.count

variable {f f' : MailboxFifo} {value : Word}

theorem contents_length (f : MailboxFifo) : f.contents.length = f.count := Ring.window_length ..

theorem push_contents (h : fifoPush f value = some f') : f'.contents = f.contents ++ [value] := by
  unfold fifoPush at h
  split_ifs at h with hc
  cases h
  exact Ring.window_push f.slots f.head f.count value (Nat.lt_of_not_le hc)

theorem WellFormed.push (hw : f.WellFormed) (h : fifoPush f value = some f') : f'.WellFormed := by
  unfold fifoPush at h
  split_ifs at h with hc
  cases h
  exact ⟨hw.head_lt, Nat.lt_of_not_le hc⟩

theorem push_eq_none : fifoPush f value = none ↔ mailboxFifoDepth ≤ f.count := by
  unfold fifoPush
  split_ifs with hc <;> simp [hc]

theorem WellFormed.pop_contents (hw : f.WellFormed) (h : fifoPop f = some (value, f')) :
    f.contents = value :: f'.contents := by
  unfold fifoPop at h
  split_ifs at h with hc
  cases h
  obtain ⟨n, hn⟩ := Nat.exists_eq_succ_of_ne_zero hc
  unfold contents
  rw [hn, Ring.window_cons, Nat.mod_eq_of_lt hw.head_lt]
  rfl

theorem WellFormed.pop (hw : f.WellFormed) (h : fifoPop f = some (value, f')) : f'.WellFormed := by
  unfold fifoPop at h
  split_ifs at h with hc
  cases h
  exact ⟨Nat.mod_lt _ (by decide), (Nat.sub_le _ _).trans hw.count_le⟩

theorem pop_eq_none : fifoPop f = none ↔ f.count = 0 := by
  unfold fifoPop
  split_ifs with hc <;> simp [hc]

end MailboxFifo

namespace Mailboxes

def WellFormed (m : Mailboxes) : Prop := ∀ src dst, (m.fifo src dst).WellFormed

variable {m : Mailboxes} {src dst s r : MailboxCore} {f : MailboxFifo}

@[simp] theorem setFifo_self : (m.setFifo src dst f).fifo src dst = f := by
  simp [setFifo]

theorem setFifo_of_ne (h : ¬(s = src ∧ r = dst)) : (m.setFifo src dst f).fifo s r = m.fifo s r := by
  dsimp only [setFifo]
  by_cases hs : s = src
  · subst hs
    have hr : r ≠ dst := fun hr => h ⟨rfl, hr⟩
    rw [Function.update_self, Function.update_of_ne hr]
  · rw [Function.update_of_ne hs]

end Mailboxes

def WritesTo (coreId : ℤ) (addr : Word) (s r : MailboxCore) : Prop :=
  inMailboxRange addr = true ∧ mailboxCoreIndex coreId = some s ∧ mailboxTarget addr = r
  deriving Decidable

def ReadsFrom (coreId : ℤ) (addr : Word) (s r : MailboxCore) : Prop :=
  inMailboxRange addr = true ∧ mailboxCoreIndex coreId = some r ∧ mailboxTarget addr = s
  deriving Decidable

inductive MailboxOp
  | write (coreId : ℤ) (addr value : Word)
  | read (coreId : ℤ) (addr : Word)
  | process (coreId : ℤ)

namespace MailboxOp

def run (m : Mailboxes) : MailboxOp → Option Word × Mailboxes
  | write coreId addr value => (none, (mailboxWrite m coreId addr value).2)
  | read coreId addr => mailboxRead m coreId addr
  | process coreId => (none, (mailboxProcess m coreId).2)

def Addresses (s r : MailboxCore) : MailboxOp → Prop
  | write coreId addr _ => WritesTo coreId addr s r
  | read coreId addr => ReadsFrom coreId addr s r
  | process _ => False

def accepted (m : Mailboxes) (s r : MailboxCore) : MailboxOp → List Word
  | write coreId addr value =>
    if WritesTo coreId addr s r ∧ (m.fifo s r).count < mailboxFifoDepth then [value] else []
  | _ => []

def popped (m : Mailboxes) (s r : MailboxCore) : MailboxOp → List Word
  | read coreId addr =>
    if ReadsFrom coreId addr s r ∧ bit addr 2 = false ∧ 0 < (m.fifo s r).count then
      (mailboxRead m coreId addr).1.toList
    else []
  | _ => []

end MailboxOp

section steps

variable {m : Mailboxes} {coreId : ℤ} {addr value : Word} {s r : MailboxCore}

theorem mailboxWrite_fifo (m : Mailboxes) (coreId : ℤ) (addr value : Word) (s r : MailboxCore) :
    (mailboxWrite m coreId addr value).2.fifo s r =
      if WritesTo coreId addr s r then (fifoPush (m.fifo s r) value).getD (m.fifo s r) else m.fifo s r := by
  unfold mailboxWrite
  by_cases hw : WritesTo coreId addr s r
  · rw [if_pos hw]
    obtain ⟨hr, hc, rfl⟩ := hw
    simp only [hr, hc, Bool.not_true, Bool.false_eq_true, if_false]
    cases fifoPush (m.fifo s (mailboxTarget addr)) value with
    | none => rfl
    | some f => exact Mailboxes.setFifo_self
  · rw [if_neg hw]
    cases hr : inMailboxRange addr with
    | false => rfl
    | true =>
      cases hc : mailboxCoreIndex coreId with
      | none => rfl
      | some src =>
        have hp : ¬(s = src ∧ r = mailboxTarget addr) := by
          rintro ⟨rfl, rfl⟩
          exact hw ⟨hr, hc, rfl⟩
        simp only [Bool.not_true, Bool.false_eq_true, if_false]
        cases fifoPush (m.fifo src (mailboxTarget addr)) value with
        | none => rfl
        | some f => exact Mailboxes.setFifo_of_ne hp

theorem mailboxRead_query (h : ReadsFrom coreId addr s r) (hq : bit addr 2 = true) :
    mailboxRead m coreId addr = (some (if (m.fifo s r).count > 0 then 1 else 0), m) := by
  obtain ⟨hr, hc, rfl⟩ := h
  unfold mailboxRead
  simp only [hr, hc, hq, Bool.not_true, Bool.false_eq_true, if_false, if_true]

theorem mailboxRead_pop (h : ReadsFrom coreId addr s r) (hq : bit addr 2 = false) :
    mailboxRead m coreId addr =
      match fifoPop (m.fifo s r) with
      | none => (some 0, m.setStall r true)
      | some (value, f) => (some value, m.setFifo s r f) := by
  obtain ⟨hr, hc, rfl⟩ := h
  unfold mailboxRead
  simp only [hr, hc, hq, Bool.not_true, Bool.false_eq_true, if_false]

theorem mailboxRead_fifo (m : Mailboxes) (coreId : ℤ) (addr : Word) (s r : MailboxCore) :
    (mailboxRead m coreId addr).2.fifo s r =
      if ReadsFrom coreId addr s r ∧ bit addr 2 = false then ((fifoPop (m.fifo s r)).map Prod.snd).getD
        (m.fifo s r)
      else m.fifo s r := by
  by_cases hp : ReadsFrom coreId addr s r ∧ bit addr 2 = false
  · rw [if_pos hp, mailboxRead_pop hp.1 hp.2]
    cases fifoPop (m.fifo s r) with
    | none => rfl
    | some p => exact Mailboxes.setFifo_self
  · rw [if_neg hp]
    unfold mailboxRead
    cases hr : inMailboxRange addr with
    | false => rfl
    | true =>
      cases hc : mailboxCoreIndex coreId with
      | none => rfl
      | some reader =>
        cases hq : bit addr 2 with
        | true => rfl
        | false =>
          have hne : ¬(s = mailboxTarget addr ∧ r = reader) := by
            rintro ⟨rfl, rfl⟩
            exact hp ⟨⟨hr, hc, rfl⟩, hq⟩
          simp only [Bool.not_true, Bool.false_eq_true, if_false]
          cases fifoPop (m.fifo (mailboxTarget addr) reader) with
          | none => rfl
          | some p => exact Mailboxes.setFifo_of_ne hne

theorem mailboxProcess_fifo (m : Mailboxes) (coreId : ℤ) : (mailboxProcess m coreId).2.fifo = m.fifo := by
  unfold mailboxProcess
  split
  · rfl
  · split_ifs <;> rfl

theorem mailboxWrite_contents (m : Mailboxes) (coreId : ℤ) (addr value : Word) (s r : MailboxCore) :
    ((mailboxWrite m coreId addr value).2.fifo s r).contents =
      (m.fifo s r).contents ++ (MailboxOp.write coreId addr value).accepted m s r := by
  rw [mailboxWrite_fifo, MailboxOp.accepted]
  by_cases hw : WritesTo coreId addr s r
  · rw [if_pos hw]
    cases hp : fifoPush (m.fifo s r) value with
    | none =>
      have hfull := MailboxFifo.push_eq_none.mp hp
      rw [if_neg fun h => absurd h.2 (Nat.not_lt.mpr hfull), List.append_nil]
      rfl
    | some f =>
      have hroom : (m.fifo s r).count < mailboxFifoDepth := by
        by_contra hfull
        rw [MailboxFifo.push_eq_none.mpr (Nat.not_lt.mp hfull)] at hp
        cases hp
      rw [if_pos ⟨hw, hroom⟩]
      exact MailboxFifo.push_contents hp
  · rw [if_neg hw, if_neg fun h => hw h.1, List.append_nil]

theorem mailboxRead_contents (hm : m.WellFormed) (coreId : ℤ) (addr : Word) (s r : MailboxCore) :
    (MailboxOp.read coreId addr).popped m s r ++ ((mailboxRead m coreId addr).2.fifo s r).contents =
      (m.fifo s r).contents := by
  rw [mailboxRead_fifo, MailboxOp.popped]
  by_cases hp : ReadsFrom coreId addr s r ∧ bit addr 2 = false
  · rw [if_pos hp, mailboxRead_pop hp.1 hp.2]
    cases hf : fifoPop (m.fifo s r) with
    | none =>
      have hempty := MailboxFifo.pop_eq_none.mp hf
      rw [if_neg fun h => absurd hempty h.2.2.ne']
      rfl
    | some p =>
      have hsome : 0 < (m.fifo s r).count := by
        rw [Nat.pos_iff_ne_zero]
        intro hempty
        rw [MailboxFifo.pop_eq_none.mpr hempty] at hf
        cases hf
      rw [if_pos ⟨hp.1, hp.2, hsome⟩, (hm s r).pop_contents hf]
      rfl
  · rw [if_neg hp, if_neg fun h => hp ⟨h.1, h.2.1⟩]
    rfl

theorem MailboxOp.balance (op : MailboxOp) (hm : m.WellFormed) (s r : MailboxCore) :
    op.popped m s r ++ ((op.run m).2.fifo s r).contents = (m.fifo s r).contents ++ op.accepted m s r := by
  cases op with
  | write coreId addr value => exact mailboxWrite_contents m coreId addr value s r
  | read coreId addr =>
    change _ = _ ++ []
    rw [List.append_nil]
    exact mailboxRead_contents hm coreId addr s r
  | process coreId =>
    change [] ++ ((mailboxProcess m coreId).2.fifo s r).contents = _ ++ []
    rw [mailboxProcess_fifo, List.append_nil]
    rfl

theorem MailboxOp.wellFormed (op : MailboxOp) (hm : m.WellFormed) : (op.run m).2.WellFormed := by
  intro s r
  cases op with
  | write coreId addr value =>
    change ((mailboxWrite m coreId addr value).2.fifo s r).WellFormed
    rw [mailboxWrite_fifo]
    split_ifs
    · cases hp : fifoPush (m.fifo s r) value with
      | none => exact hm s r
      | some f => exact (hm s r).push hp
    · exact hm s r
  | read coreId addr =>
    change ((mailboxRead m coreId addr).2.fifo s r).WellFormed
    rw [mailboxRead_fifo]
    split_ifs
    · cases hp : fifoPop (m.fifo s r) with
      | none => exact hm s r
      | some p => exact (hm s r).pop hp
    · exact hm s r
  | process coreId =>
    change ((mailboxProcess m coreId).2.fifo s r).WellFormed
    rw [mailboxProcess_fifo]
    exact hm s r

theorem MailboxOp.fifo_frame (op : MailboxOp) (m : Mailboxes) (h : ¬op.Addresses s r) :
    (op.run m).2.fifo s r = m.fifo s r := by
  cases op with
  | write coreId addr value =>
    have hw : ¬WritesTo coreId addr s r := h
    change (mailboxWrite m coreId addr value).2.fifo s r = _
    rw [mailboxWrite_fifo, if_neg hw]
  | read coreId addr =>
    change (mailboxRead m coreId addr).2.fifo s r = _
    rw [mailboxRead_fifo, if_neg fun hp => h hp.1]
  | process coreId => exact congrFun (congrFun (mailboxProcess_fifo m coreId) s) r

end steps

structure MailboxEvent where
  op : MailboxOp
  before : Mailboxes

namespace MailboxEvent

def after (e : MailboxEvent) : Mailboxes := (e.op.run e.before).2

def result (e : MailboxEvent) : Option Word := (e.op.run e.before).1

def accepted (s r : MailboxCore) (e : MailboxEvent) : List Word := e.op.accepted e.before s r

def popped (s r : MailboxCore) (e : MailboxEvent) : List Word := e.op.popped e.before s r

end MailboxEvent

def MailboxStep (m : Mailboxes) (e : MailboxEvent) (m' : Mailboxes) : Prop := e.before = m ∧ e.after = m'

structure Delivers (es : List MailboxEvent) (m : Mailboxes) : Prop where
  wellFormed : m.WellFormed
  balance : ∀ s r, es.flatMap (MailboxEvent.popped s r) ++ (m.fifo s r).contents =
    es.flatMap (MailboxEvent.accepted s r)

theorem delivers_init : Delivers [] .init := by
  have hempty : (⟨fun _ => 0, 0, 0⟩ : MailboxFifo).WellFormed := ⟨by decide, by decide⟩
  exact ⟨fun _ _ => hempty, fun _ _ => rfl⟩

theorem Delivers.step {es : List MailboxEvent} {m m' : Mailboxes} {e : MailboxEvent} (h : Delivers es m)
    (hs : MailboxStep m e m') : Delivers (es ++ [e]) m' := by
  obtain ⟨rfl, rfl⟩ := hs
  refine ⟨e.op.wellFormed h.wellFormed, fun s r => ?_⟩
  rw [List.flatMap_append, List.flatMap_append, List.flatMap_singleton,
    List.flatMap_singleton, ← h.balance s r, List.append_assoc, List.append_assoc]
  exact congrArg _ (e.op.balance h.wellFormed s r)

theorem mailboxes_refine_queues {es : List MailboxEvent} {m : Mailboxes} (h : Run MailboxStep .init es m) :
    (∀ s r, es.flatMap (MailboxEvent.popped s r) ++ (m.fifo s r).contents =
        es.flatMap (MailboxEvent.accepted s r)) ∧
      (∀ s r, (m.fifo s r).WellFormed) ∧
      (∀ e ∈ es, ∀ coreId addr s r, e.op = .read coreId addr → ReadsFrom coreId addr s r → bit addr 2 = true →
        e.after = e.before ∧ e.result = some (if (e.before.fifo s r).contents = [] then 0 else 1)) ∧
      ∀ e ∈ es, ∀ s r, ¬e.op.Addresses s r → e.after.fifo s r = e.before.fifo s r := by
  have hall : Delivers ([] ++ es) m := h.history (fun _ _ _ _ hd hs => hd.step hs) delivers_init
  refine ⟨hall.balance, hall.wellFormed, ?_, fun e _ s r => e.op.fifo_frame e.before⟩
  rintro e - coreId addr s r he hread hq
  have hempty : (e.before.fifo s r).contents = [] ↔ ¬(e.before.fifo s r).count > 0 := by
    rw [← List.length_eq_zero_iff, MailboxFifo.contents_length, Nat.not_lt, Nat.le_zero]
  have hrun : e.op.run e.before = (some (if (e.before.fifo s r).count > 0 then 1 else 0), e.before) := by
    rw [he]
    exact mailboxRead_query hread hq
  refine ⟨congrArg Prod.snd hrun, (congrArg Prod.fst hrun).trans ?_⟩
  by_cases hc : (e.before.fifo s r).count > 0
  · rw [if_pos hc, if_neg fun h => hempty.mp h hc]
  · rw [if_neg hc, if_pos (hempty.mpr hc)]

def Mailboxes.runAll : Mailboxes → List MailboxOp → List MailboxEvent × Mailboxes
  | m, [] => ([], m)
  | m, op :: ops =>
    let (es, m') := (op.run m).2.runAll ops
    (⟨op, m⟩ :: es, m')

theorem Mailboxes.runAll_run (m : Mailboxes) (ops : List MailboxOp) :
    Run MailboxStep m (m.runAll ops).1 (m.runAll ops).2 := by
  induction ops generalizing m with
  | nil => exact .nil m
  | cons op ops ih => exact .cons ⟨rfl, rfl⟩ (ih _)

def mailboxExchange : List MailboxOp :=
  [.write (-1) 0xFFEC1000 7, .read 0 0xFFEC0004, .read 0 0xFFEC0000, .process 0]

theorem mailboxes_refine_queues_exchange :
    ((Mailboxes.init.runAll mailboxExchange).1.flatMap (MailboxEvent.popped 0 1)) = [7] ∧
      (Mailboxes.init.runAll mailboxExchange).1.flatMap (MailboxEvent.popped 0 1) ++
          ((Mailboxes.init.runAll mailboxExchange).2.fifo 0 1).contents =
        (Mailboxes.init.runAll mailboxExchange).1.flatMap (MailboxEvent.accepted 0 1) :=
  ⟨by decide, (mailboxes_refine_queues (Mailboxes.init.runAll_run mailboxExchange)).1 0 1⟩

end Rv32Emu
