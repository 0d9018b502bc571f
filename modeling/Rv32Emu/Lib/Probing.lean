import Mathlib
import Rv32Emu.Lib.Loop

namespace Rv32Emu

structure Probe (ι : Type*) (n : ℕ) [NeZero n] where
  slot : ι → Fin n
  next : ι → ι
  slot_next : ∀ x, slot (next x) = slot x + 1

namespace Probe

section occupancy

variable {β : Type*} {n : ℕ} {slots : Fin n → Option β}

def occupied (slots : Fin n → Option β) : ℕ := (Finset.univ.filter fun s => (slots s).isSome).card

theorem occupied_empty : occupied (fun _ : Fin n => (none : Option β)) = 0 := by simp [occupied]

theorem occupied_update {s : Fin n} (h : slots s = none) (b : β) :
    occupied (Function.update slots s (some b)) = occupied slots + 1 := by
  unfold occupied
  have hset : (Finset.univ.filter fun t => (Function.update slots s (some b) t).isSome) =
      insert s (Finset.univ.filter fun t => (slots t).isSome) := by
    ext t
    by_cases ht : t = s
    · simp [ht]
    · simp [ht]
  rw [hset, Finset.card_insert_of_notMem (by simp [h])]

theorem exists_empty (h : occupied slots < n) : ∃ s, slots s = none := by
  by_contra! hfull
  have hall : (Finset.univ.filter fun s => (slots s).isSome) = Finset.univ :=
    Finset.filter_true_of_mem fun s _ => Option.isSome_iff_ne_none.mpr (hfull s)
  simp [occupied, hall] at h

end occupancy

variable {ι β κ : Type*} {n : ℕ} [NeZero n] (P : Probe ι n) (slots : Fin n → Option β)

def findTurn (p : β → Bool) (x : ι) : Option (ι ⊕ Option β) :=
  match slots (P.slot x) with
  | none => some (.inr none)
  | some b => if p b then some (.inr (some b)) else some (.inl (P.next x))

def placeTurn (x : ι) : Option (ι ⊕ Fin n) :=
  match slots (P.slot x) with
  | none => some (.inr (P.slot x))
  | some _ => some (.inl (P.next x))

inductive Reaches : ι → Fin n → Prop
  | here (x : ι) : Reaches x (P.slot x)
  | step {x : ι} {s : Fin n} : slots (P.slot x) ≠ none → Reaches (P.next x) s → Reaches x s

variable {P slots} {p : β → Bool} {x : ι} {s e : Fin n} {b : β} {m : ℕ}

theorem Reaches.mono {slots' : Fin n → Option β} (h : P.Reaches slots x s)
    (hs : ∀ s, slots s ≠ none → slots' s ≠ none) : P.Reaches slots' x s := by
  induction h with
  | here x => exact .here x
  | step hx _ ih => exact .step (hs _ hx) ih

theorem findTurn_cases (P : Probe ι n) (slots : Fin n → Option β) (p : β → Bool) (x : ι) :
    (slots (P.slot x) = none ∧ P.findTurn slots p x = some (.inr none)) ∨
      ∃ b, slots (P.slot x) = some b ∧
        ((p b ∧ P.findTurn slots p x = some (.inr (some b))) ∨
          (p b = false ∧ P.findTurn slots p x = some (.inl (P.next x)))) := by
  unfold findTurn
  cases hx : slots (P.slot x) with
  | none => exact .inl ⟨rfl, rfl⟩
  | some b =>
    refine .inr ⟨b, rfl, ?_⟩
    cases hb : p b with
    | true => exact .inl ⟨rfl, by simp [hb]⟩
    | false => exact .inr ⟨rfl, by simp [hb]⟩

theorem placeTurn_cases (P : Probe ι n) (slots : Fin n → Option β) (x : ι) :
    (slots (P.slot x) = none ∧ P.placeTurn slots x = some (.inr (P.slot x))) ∨
      (slots (P.slot x) ≠ none ∧ P.placeTurn slots x = some (.inl (P.next x))) := by
  unfold placeTurn
  cases hx : slots (P.slot x) with
  | none => exact .inl ⟨rfl, rfl⟩
  | some b => exact .inr ⟨nofun, rfl⟩

section termination

theorem sub_slot_next (h : P.slot x ≠ e) : (e - P.slot (P.next x)).val < (e - P.slot x).val := by
  have hne : e - P.slot x ≠ 0 := fun h0 => h (sub_eq_zero.mp h0).symm
  have hval : (e - P.slot x).val ≠ 0 := fun h0 => hne (Fin.ext h0)
  rw [P.slot_next, sub_add_eq_sub_sub, Fin.val_sub_one_of_ne_zero hne]
  omega

theorem loop_returns {ρ : Type*} {turn : ι → Option (ι ⊕ ρ)} (he : slots e = none)
    (hturn : ∀ x, (∃ r, turn x = some (.inr r)) ∨ (slots (P.slot x) ≠ none ∧ turn x = some (.inl (P.next x))))
    (x : ι) : ∃ r, loop turn n x = some r := by
  have hbody : ∀ x, True → (∃ r, turn x = some (.inr r)) ∨
      ∃ x', turn x = some (.inl x') ∧ True ∧ (e - P.slot x').val < (e - P.slot x).val := by
    intro x _
    obtain hr | ⟨hx, hn⟩ := hturn x
    · exact .inl hr
    · exact .inr ⟨_, hn, trivial, sub_slot_next fun h => hx (h ▸ he)⟩
  obtain ⟨r, hr⟩ := Loop.returns (fun x => (e - P.slot x).val) hbody (s := x) trivial
  exact ⟨r, Loop.mono (fun _ _ h => h) (Nat.succ_le_of_lt (e - P.slot x).isLt) hr⟩

theorem find_returns (he : slots e = none) (p : β → Bool) (x : ι) :
    ∃ r, loop (P.findTurn slots p) n x = some r := by
  refine loop_returns (P := P) he (fun x => ?_) x
  obtain ⟨-, ht⟩ | ⟨b, hx, ⟨-, ht⟩ | ⟨-, ht⟩⟩ := P.findTurn_cases slots p x
  · exact .inl ⟨_, ht⟩
  · exact .inl ⟨_, ht⟩
  · exact .inr ⟨by simp [hx], ht⟩

theorem place_returns (he : slots e = none) (x : ι) : ∃ s, loop (P.placeTurn slots) n x = some s := by
  refine loop_returns (P := P) he (fun x => ?_) x
  obtain ⟨-, ht⟩ | hgo := P.placeTurn_cases slots x
  · exact .inl ⟨_, ht⟩
  · exact .inr hgo

end termination

section results

theorem find_some (h : loop (P.findTurn slots p) m x = some (some b)) : p b ∧ ∃ s, slots s = some b := by
  refine Loop.invariant (I := fun _ => True) (Q := fun r => ∀ b, r = some b → p b ∧ ∃ s, slots s = some b)
    (fun _ _ _ _ => trivial) ?_ h trivial b rfl
  rintro x r - hr b rfl
  obtain ⟨-, ht⟩ | ⟨b', hx, ⟨hb, ht⟩ | ⟨-, ht⟩⟩ := P.findTurn_cases slots p x <;> cases ht.symm.trans hr
  exact ⟨hb, _, hx⟩

theorem find_none (hr : P.Reaches slots x s) (hb : slots s = some b)
    (h : loop (P.findTurn slots p) m x = some none) : p b = false := by
  induction hr generalizing m with
  | here x =>
    obtain ⟨hx, -⟩ | ⟨b', hx, ⟨-, ht⟩ | ⟨hp, -⟩⟩ := P.findTurn_cases slots p x <;> cases hb.symm.trans hx
    · obtain ⟨_, rfl, hexit | ⟨x', hgo, -⟩⟩ := Loop.unfold h
      · cases ht.symm.trans hexit
      · cases ht.symm.trans hgo
    · exact hp
  | @step x s hne _ ih =>
    obtain ⟨_, rfl, hexit | ⟨x', hgo, hl⟩⟩ := Loop.unfold h
    · obtain ⟨hx, -⟩ | ⟨b', -, ⟨-, ht⟩ | ⟨-, ht⟩⟩ := P.findTurn_cases slots p x
      · exact absurd hx hne
      · cases ht.symm.trans hexit
      · cases ht.symm.trans hexit
    · obtain ⟨-, ht⟩ | ⟨b', -, ⟨-, ht⟩ | ⟨-, ht⟩⟩ := P.findTurn_cases slots p x <;> cases ht.symm.trans hgo
      exact ih hb hl

theorem place_some (h : loop (P.placeTurn slots) m x = some s) : slots s = none ∧ P.Reaches slots x s := by
  induction m generalizing x with
  | zero => cases h
  | succ m ih =>
    obtain ⟨_, hm, hexit | ⟨x', hgo, hl⟩⟩ := Loop.unfold h
    · obtain ⟨hx, ht⟩ | ⟨-, ht⟩ := P.placeTurn_cases slots x <;> cases ht.symm.trans hexit
      exact ⟨hx, .here x⟩
    · obtain ⟨-, ht⟩ | ⟨hx, ht⟩ := P.placeTurn_cases slots x <;> cases ht.symm.trans hgo
      cases hm
      obtain ⟨hnone, hr⟩ := ih hl
      exact ⟨hnone, .step hx hr⟩

end results

section tables

variable (P slots)

structure Keyed (home : κ → ι) (key : β → κ) : Prop where
  reach : ∀ {s b}, slots s = some b → P.Reaches slots (home (key b)) s
  unique : ∀ {s s' b b'}, slots s = some b → slots s' = some b' → key b = key b' → s = s'

variable {P slots} {home : κ → ι} {key : β → κ} {k : κ}

theorem Keyed.empty (home : κ → ι) (key : β → κ) : P.Keyed (fun _ => none) home key := ⟨nofun, nofun⟩

theorem Keyed.congr {key' : β → κ} (h : P.Keyed slots home key)
    (hk : ∀ {s b}, slots s = some b → key' b = key b) :
    P.Keyed slots home key' where
  reach hb := hk hb ▸ h.reach hb
  unique hb hb' heq := h.unique hb hb' (by rw [← hk hb, ← hk hb', heq])

theorem Keyed.find_iff [DecidableEq κ] (h : P.Keyed slots home key) {r : Option β}
    (hr : loop (P.findTurn slots fun b => key b = k) m (home k) = some r) (b : β) :
    r = some b ↔ ∃ s, slots s = some b ∧ key b = k := by
  constructor
  · rintro rfl
    obtain ⟨hk, s, hs⟩ := find_some hr
    exact ⟨s, hs, of_decide_eq_true hk⟩
  · rintro ⟨s, hs, rfl⟩
    cases r with
    | none => exact absurd (find_none (h.reach hs) hs hr) (by simp)
    | some b' =>
      obtain ⟨hk, s', hs'⟩ := find_some hr
      cases h.unique hs hs' (of_decide_eq_true hk).symm
      exact hs'.symm.trans hs

theorem Keyed.insert [DecidableEq κ] (h : P.Keyed slots home key)
    (hnew : ∀ {s b'}, slots s = some b' → key b' ≠ key b)
    (hs : loop (P.placeTurn slots) m (home (key b)) = some s) :
    P.Keyed (Function.update slots s (some b)) home key := by
  obtain ⟨hempty, hreach⟩ := place_some hs
  have hmono : ∀ t, slots t ≠ none → Function.update slots s (some b) t ≠ none := by
    intro t ht
    by_cases hts : t = s
    · simp [hts]
    · rwa [Function.update_of_ne hts]
  -- an entry of the new table is the new one or an old one
  have hcases : ∀ {t b'}, Function.update slots s (some b) t = some b' → (t = s ∧ b' = b) ∨
      slots t = some b' := by
    intro t b' ht
    by_cases hts : t = s
    · subst hts
      rw [Function.update_self] at ht
      exact .inl ⟨rfl, (Option.some.inj ht).symm⟩
    · rw [Function.update_of_ne hts] at ht
      exact .inr ht
  constructor
  · intro t b' ht
    obtain ⟨rfl, rfl⟩ | ht := hcases ht
    · exact hreach.mono hmono
    · exact (h.reach ht).mono hmono
  · intro t t' c c' ht ht' hk
    obtain ⟨rfl, rfl⟩ | hold := hcases ht <;> obtain ⟨rfl, rfl⟩ | hold' := hcases ht'
    · rfl
    · exact absurd hk.symm (hnew hold')
    · exact absurd hk (hnew hold)
    · exact h.unique hold hold' hk

end tables

end Probe

end Rv32Emu
