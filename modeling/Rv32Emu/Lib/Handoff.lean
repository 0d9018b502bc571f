import Mathlib.Data.Fintype.Basic
import Mathlib.Data.Fintype.Pi
import Mathlib.Data.List.Basic

namespace Rv32Emu

section transfers

variable {ι α : Type*}

/-- What happens to the slots of a buffer: a slot gets new contents, or goes from one side to the other. -/
inductive Transfer (ι α : Type*)
  | write (i : ι)
  | publish (i : ι) (x : α)
  | read (i : ι) (x : α)
  | release (i : ι) (x : α)

namespace Transfer

def published (ts : List (Transfer ι α)) : List (ι × α) :=
  ts.filterMap fun
    | publish i x => some (i, x)
    | _ => none

def released (ts : List (Transfer ι α)) : List (ι × α) :=
  ts.filterMap fun
    | release i x => some (i, x)
    | _ => none

def pending (ts : List (Transfer ι α)) : List (ι × α) := (published ts).drop (released ts).length

def Orderly (q : List (ι × α)) : Transfer ι α → Prop
  | write i => i ∉ q.map Prod.fst
  | publish i _ => i ∉ q.map Prod.fst
  | read i x => q.head? = some (i, x)
  | release i x => q.head? = some (i, x)

def InOrder (ts : List (Transfer ι α)) : Prop :=
  ∀ pre t post, ts = pre ++ t :: post → t.Orderly (pending pre)

def next (q : List (ι × α)) : Transfer ι α → List (ι × α)
  | write _ => q
  | publish i x => q ++ [(i, x)]
  | read _ _ => q
  | release _ _ => q.tail

structure Leaves (ts : List (Transfer ι α)) (q : List (ι × α)) : Prop where
  inOrder : InOrder ts
  balance : published ts = released ts ++ q

theorem published_append (ts us : List (Transfer ι α)) :
    published (ts ++ us) = published ts ++ published us :=
  List.filterMap_append ..

theorem released_append (ts us : List (Transfer ι α)) : released (ts ++ us) = released ts ++ released us :=
  List.filterMap_append ..

namespace Leaves

variable {ts : List (Transfer ι α)} {t : Transfer ι α} {q : List (ι × α)}

theorem nil : Leaves ([] : List (Transfer ι α)) [] := by
  constructor
  · intro pre t post h
    exact absurd (List.append_eq_nil_iff.mp h.symm).2 (List.cons_ne_nil _ _)
  · rfl

theorem pending_eq (h : Leaves ts q) : pending ts = q := by
  rw [pending, h.balance, List.drop_left]

theorem released_initial (h : Leaves ts q) : released ts <+: published ts := ⟨q, h.balance.symm⟩

theorem step (h : Leaves ts q) (ht : t.Orderly q) : Leaves (ts ++ [t]) (t.next q) := by
  constructor
  · intro pre u post hsplit
    cases post using List.reverseRecOn with
    | nil =>
      obtain ⟨rfl, hlast⟩ := List.append_inj' hsplit rfl
      obtain rfl := (List.cons.inj hlast).1
      rw [h.pending_eq]
      exact ht
    | append_singleton post last =>
      rw [← List.cons_append, ← List.append_assoc] at hsplit
      exact h.inOrder pre u post (List.append_inj' hsplit rfl).1
  · rw [published_append, released_append, h.balance]
    cases t with
    | write i => simp [published, released, next]
    | publish i x => simp [published, released, next]
    | read i x => simp [published, released, next]
    | release i x =>
      obtain ⟨rest, rfl⟩ := List.head?_eq_some_iff.mp ht
      simp [published, released, next]

end Leaves

end Transfer

end transfers

section flags

/-- The pointers are where the flags say: both slots agree when the pointers meet, and otherwise only the
consumer's slot is valid. -/
def SyncedAt (valid : Fin 2 → Bool) (producer consumer : Fin 2) : Prop :=
  (producer = consumer → valid 0 = valid 1) ∧
    (producer ≠ consumer → valid consumer = true ∧ valid producer = false)
  deriving Decidable

def slotsAt (valid : Fin 2 → Bool) (producer consumer : Fin 2) : List (Fin 2) :=
  if producer = consumer then if valid consumer then [consumer, consumer + 1] else [] else [consumer]

theorem syncedAt_publish : ∀ (valid : Fin 2 → Bool) (p c : Fin 2), SyncedAt valid p c → valid p = false →
    SyncedAt (Function.update valid p true) (p + 1) c := by
  decide

theorem syncedAt_release : ∀ (valid : Fin 2 → Bool) (p c : Fin 2), SyncedAt valid p c → valid c = true →
    SyncedAt (Function.update valid c false) p (c + 1) := by
  decide

theorem slotsAt_publish : ∀ (valid : Fin 2 → Bool) (p c : Fin 2), SyncedAt valid p c → valid p = false →
    slotsAt (Function.update valid p true) (p + 1) c = slotsAt valid p c ++ [p] := by
  decide

theorem slotsAt_release : ∀ (valid : Fin 2 → Bool) (p c : Fin 2), SyncedAt valid p c → valid c = true →
    slotsAt valid p c = c :: slotsAt (Function.update valid c false) p (c + 1) := by
  decide

theorem slotsAt_free : ∀ (valid : Fin 2 → Bool) (p c : Fin 2), SyncedAt valid p c → valid p = false →
    p ∉ slotsAt valid p c := by
  decide

end flags

structure DoubleBuffer (α : Type*) where
  slot : Fin 2 → α
  valid : Fin 2 → Bool
  producer : Fin 2
  consumer : Fin 2

namespace DoubleBuffer

variable {α : Type*} (b : DoubleBuffer α)

def fill (x : α) : DoubleBuffer α := { b with slot := Function.update b.slot b.producer x }

def publish : DoubleBuffer α :=
  { b with valid := Function.update b.valid b.producer true, producer := b.producer + 1 }

def release : DoubleBuffer α :=
  { b with valid := Function.update b.valid b.consumer false, consumer := b.consumer + 1 }

def releaseIf (flip : Bool) : DoubleBuffer α := if flip then b.release else b

def reset : DoubleBuffer α := { b with valid := fun _ => false, producer := 0, consumer := 0 }

def Free : Prop := b.valid b.producer = false
  deriving Decidable

def Owned : Prop := b.valid b.consumer = true
  deriving Decidable

def Synced : Prop := SyncedAt b.valid b.producer b.consumer
  deriving Decidable

def outstanding : List (Fin 2) := slotsAt b.valid b.producer b.consumer

def contents : List (Fin 2 × α) := b.outstanding.map fun i => (i, b.slot i)

section synced

variable {b : DoubleBuffer α}

theorem Synced.publish (h : b.Synced) (hf : b.Free) : b.publish.Synced := syncedAt_publish _ _ _ h hf

theorem Synced.release (h : b.Synced) (ho : b.Owned) : b.release.Synced := syncedAt_release _ _ _ h ho

theorem Synced.releaseIf (h : b.Synced) {flip : Bool} (ho : flip = true → b.Owned) :
    (b.releaseIf flip).Synced := by
  cases flip with
  | false => exact h
  | true => exact h.release (ho rfl)

theorem Synced.reset : b.reset.Synced := by
  have h : SyncedAt (fun _ => false) 0 0 := by decide
  exact h

theorem contents_fill (h : b.Synced) (hf : b.Free) (x : α) : (b.fill x).contents = b.contents := by
  apply List.map_congr_left
  intro i hi
  have hne : i ≠ b.producer := by
    rintro rfl
    exact slotsAt_free _ _ _ h hf hi
  have hslot : (b.fill x).slot i = b.slot i := Function.update_of_ne hne ..
  rw [hslot]

theorem contents_publish (h : b.Synced) (hf : b.Free) :
    b.publish.contents = b.contents ++ [(b.producer, b.slot b.producer)] := by
  have hslots : b.publish.outstanding = b.outstanding ++ [b.producer] := slotsAt_publish _ _ _ h hf
  rw [contents, hslots, List.map_append]
  rfl

theorem contents_release (h : b.Synced) (ho : b.Owned) :
    b.contents = (b.consumer, b.slot b.consumer) :: b.release.contents := by
  have hslots : b.outstanding = b.consumer :: b.release.outstanding := slotsAt_release _ _ _ h ho
  rw [contents, hslots, List.map_cons]
  rfl

end synced

structure Serves (ts : List (Transfer (Fin 2) α)) : Prop where
  synced : b.Synced
  leaves : Transfer.Leaves ts b.contents

namespace Serves

variable {b : DoubleBuffer α} {ts : List (Transfer (Fin 2) α)}

theorem producer_not_mem (h : b.Serves ts) (hf : b.Free) : b.producer ∉ b.contents.map Prod.fst := by
  have hfree : b.producer ∉ b.outstanding := slotsAt_free _ _ _ h.synced hf
  simpa [contents] using hfree

theorem write (h : b.Serves ts) (hf : b.Free) (x : α) : (b.fill x).Serves (ts ++ [.write b.producer]) := by
  refine ⟨h.synced, ?_⟩
  rw [contents_fill h.synced hf]
  exact h.leaves.step (t := .write b.producer) (h.producer_not_mem hf)

theorem publish (h : b.Serves ts) (hf : b.Free) :
    b.publish.Serves (ts ++ [.publish b.producer (b.slot b.producer)]) := by
  refine ⟨h.synced.publish hf, ?_⟩
  rw [contents_publish h.synced hf]
  exact h.leaves.step (t := .publish b.producer (b.slot b.producer)) (h.producer_not_mem hf)

theorem read (h : b.Serves ts) (ho : b.Owned) : b.Serves (ts ++ [.read b.consumer (b.slot b.consumer)]) := by
  refine ⟨h.synced, h.leaves.step (t := .read b.consumer (b.slot b.consumer)) ?_⟩
  rw [contents_release h.synced ho]
  rfl

theorem release (h : b.Serves ts) (ho : b.Owned) :
    b.release.Serves (ts ++ [.release b.consumer (b.slot b.consumer)]) := by
  refine ⟨h.synced.release ho, ?_⟩
  have hhead := contents_release h.synced ho
  have hstep := h.leaves.step (t := .release b.consumer (b.slot b.consumer)) (by rw [hhead]; rfl)
  rw [hhead] at hstep
  exact hstep

end Serves

end DoubleBuffer

end Rv32Emu
