import Rv32Emu.Cop.Mop
import Mathlib.Tactic.Ring

namespace Rv32Emu

variable {cfg : ℕ → Word} {st st' : MopExpandState} {w : Word}

def tmpl0Ahead (st : MopExpandState) : ℕ :=
  8 * (st.tmpl0Count - st.tmpl0I) + (st.tmpl0SubInsns.length - st.tmpl0Sub)

theorem tmpl0Words_length (cfg : ℕ → Word) (skip : Bool) : (tmpl0Words cfg skip).length ≤ 5 := by
  simp only [tmpl0Words]
  split_ifs <;> simp

theorem tmpl0Words_head (cfg : ℕ → Word) (skip : Bool) : ∃ w ws, tmpl0Words cfg skip = w :: ws := by
  simp only [tmpl0Words]
  cases skip
  · exact ⟨_, _, rfl⟩
  · exact ⟨_, _, rfl⟩

theorem mopGenerateNextT0_cases (cfg : ℕ → Word) (st : MopExpandState) :
    mopGenerateNextT0 cfg st = (none, { st with active := false }) ∨
      ∃ w st', mopGenerateNextT0 cfg st = (some w, st') ∧ tmpl0Ahead st' < tmpl0Ahead st ∧
        st'.tmpl = st.tmpl ∧ st'.active = st.active := by
  unfold mopGenerateNextT0
  split_ifs with hsub hi
  · refine .inr ⟨st.tmpl0SubInsns[st.tmpl0Sub], { st with tmpl0Sub := st.tmpl0Sub + 1 },
      by rw [List.getElem?_eq_getElem hsub], ?_, rfl, rfl⟩
    simp only [tmpl0Ahead]
    omega
  · exact .inl rfl
  · obtain ⟨w, ws, hw⟩ := tmpl0Words_head cfg (bit st.tmpl0Mask 0)
    have hlen := tmpl0Words_length cfg (bit st.tmpl0Mask 0)
    rw [hw] at hlen ⊢
    refine .inr ⟨w, { st with
      tmpl0SubInsns := w :: ws, tmpl0Mask := st.tmpl0Mask >>> 1, tmpl0I := st.tmpl0I + 1, tmpl0Sub := 1 },
      rfl, ?_, rfl, rfl⟩
    simp only [tmpl0Ahead, List.length_cons] at hlen ⊢
    omega

def tmpl1Place (st : MopExpandState) : ℕ :=
  match st.tmpl1Phase with
  | .start => 0
  | .inner => 1 + min st.tmpl1I st.tmpl1Inner
  | .end0 => st.tmpl1Inner + 2
  | .end1 => st.tmpl1Inner + 3

def tmpl1Ahead (st : MopExpandState) : ℕ :=
  (st.tmpl1Outer - st.tmpl1J) * (st.tmpl1Inner + 4) - tmpl1Place st

structure Tmpl1Advance (st st' : MopExpandState) : Prop where
  ahead : tmpl1Ahead st' < tmpl1Ahead st
  tmpl : st'.tmpl = st.tmpl
  active : st'.active = st.active

theorem Tmpl1Advance.after {s s' : MopExpandState} (h : Tmpl1Advance s s') (hi : s = st ∨ Tmpl1Advance st s) :
    Tmpl1Advance st s' := by
  obtain rfl | hi := hi
  · exact h
  · exact ⟨h.ahead.trans hi.ahead, h.tmpl.trans hi.tmpl, h.active.trans hi.active⟩

theorem tmpl1Turn_cases (cfg : ℕ → Word) (st : MopExpandState) :
    tmpl1Turn cfg st = some (.inr (none, { st with active := false })) ∨
      (∃ st', tmpl1Turn cfg st = some (.inl st') ∧ tmpl1Silent st' < tmpl1Silent st ∧ Tmpl1Advance st st') ∨
      ∃ w st', tmpl1Turn cfg st = some (.inr (some w, st')) ∧ Tmpl1Advance st st' := by
  unfold tmpl1Turn
  by_cases hj : st.tmpl1J ≥ st.tmpl1Outer
  · exact .inl (if_pos hj)
  simp only [if_neg hj]
  obtain ⟨k, hk⟩ : ∃ k, st.tmpl1Outer - st.tmpl1J = k + 1 := ⟨st.tmpl1Outer - st.tmpl1J - 1, by omega⟩
  have hmul : (k + 1) * (st.tmpl1Inner + 4) = k * (st.tmpl1Inner + 4) + (st.tmpl1Inner + 4) := by ring
  cases hp : st.tmpl1Phase with
  | start =>
    have hadv : Tmpl1Advance st { st with tmpl1Phase := .inner, tmpl1I := 0 } := by
      refine ⟨?_, rfl, rfl⟩
      simp only [tmpl1Ahead, tmpl1Place, hp, hk, hmul]
      omega
    dsimp only
    split_ifs
    · refine .inr (.inl ⟨_, rfl, ?_, hadv⟩)
      simp [tmpl1Silent, hp, Tmpl1Phase.rank]
    · exact .inr (.inr ⟨_, _, rfl, hadv⟩)
  | inner =>
    by_cases hi : st.tmpl1I < st.tmpl1Inner
    · simp only [if_pos hi]
      refine .inr (.inr ⟨_, _, rfl, ?_, rfl, rfl⟩)
      simp only [tmpl1Ahead, tmpl1Place, hp, hk, hmul]
      omega
    · simp only [if_neg hi]
      refine .inr (.inl ⟨_, rfl, ?_, ?_, rfl, rfl⟩)
      · simp [tmpl1Silent, hp, Tmpl1Phase.rank]
      · simp only [tmpl1Ahead, tmpl1Place, hp, hk, hmul]
        omega
  | end0 =>
    have hadv : Tmpl1Advance st { st with tmpl1Phase := .end1 } := by
      refine ⟨?_, rfl, rfl⟩
      simp only [tmpl1Ahead, tmpl1Place, hp, hk, hmul]
      omega
    dsimp only
    split_ifs
    · refine .inr (.inl ⟨_, rfl, ?_, hadv⟩)
      simp [tmpl1Silent, hp, Tmpl1Phase.rank]
    · exact .inr (.inr ⟨_, _, rfl, hadv⟩)
  | end1 =>
    have hadv : Tmpl1Advance st { st with tmpl1J := st.tmpl1J + 1, tmpl1Phase := .start } := by
      refine ⟨?_, rfl, rfl⟩
      have hk' : st.tmpl1Outer - (st.tmpl1J + 1) = k := by omega
      simp only [tmpl1Ahead, tmpl1Place, hp, hk, hk', hmul]
      omega
    dsimp only
    split_ifs
    · refine .inr (.inl ⟨_, rfl, ?_, hadv⟩)
      simp only [tmpl1Silent, hp, Tmpl1Phase.rank]
      omega
    · exact .inr (.inr ⟨_, _, rfl, hadv⟩)

theorem tmpl1Turn_returns (cfg : ℕ → Word) (st : MopExpandState) :
    ∃ r, loop (tmpl1Turn cfg) (tmpl1Silent st + 1) st = some r := by
  apply Loop.returns (I := fun _ => True) tmpl1Silent ?_ trivial
  intro s _
  obtain h | ⟨s', h, hlt, -⟩ | ⟨w, s', h, -⟩ := tmpl1Turn_cases cfg s
  · exact .inl ⟨_, h⟩
  · exact .inr ⟨s', h, trivial, hlt⟩
  · exact .inl ⟨_, h⟩

theorem mopGenerateNextT1_cases (cfg : ℕ → Word) (st : MopExpandState) :
    (∃ st', mopGenerateNextT1 cfg st = (none, st') ∧ st'.active = false) ∨
      ∃ w st', mopGenerateNextT1 cfg st = (some w, st') ∧ Tmpl1Advance st st' := by
  obtain ⟨⟨x, st'⟩, hr⟩ := tmpl1Turn_returns cfg st
  have hgen : mopGenerateNextT1 cfg st = (x, st') := by rw [mopGenerateNextT1, hr]; rfl
  have hx : (x = none ∧ st'.active = false) ∨ (∃ w, x = some w) ∧ Tmpl1Advance st st' := by
    -- the silent turns so far have only moved towards the end
    have h := Loop.invariant (I := fun s => s = st ∨ Tmpl1Advance st s)
      (Q := fun r => (r.1 = none ∧ r.2.active = false) ∨ (∃ w, r.1 = some w) ∧ Tmpl1Advance st r.2)
      ?_ ?_ hr (.inl rfl)
    · exact h
    · intro s s' hi hs
      obtain h | ⟨u, h, -, hadv⟩ | ⟨w, u, h, -⟩ := tmpl1Turn_cases cfg s <;> rw [h] at hs <;> cases hs
      exact .inr (hadv.after hi)
    · intro s r hi hs
      obtain h | ⟨u, h, -, -⟩ | ⟨w, u, h, hadv⟩ := tmpl1Turn_cases cfg s <;> rw [h] at hs <;> cases hs
      · exact .inl ⟨rfl, rfl⟩
      · exact .inr ⟨⟨w, rfl⟩, hadv.after hi⟩
  obtain ⟨rfl, ha⟩ | ⟨⟨w, rfl⟩, hadv⟩ := hx
  · exact .inl ⟨st', hgen, ha⟩
  · exact .inr ⟨w, st', hgen, hadv⟩

def mopAhead (st : MopExpandState) : ℕ := if st.tmpl = 0 then tmpl0Ahead st else tmpl1Ahead st

theorem mopGenerateNext_some (h : mopGenerateNext cfg st = (some w, st')) :
    mopAhead st' < mopAhead st ∧ st'.active = true := by
  unfold mopGenerateNext at h
  split_ifs at h with ha ht
  · cases h
  · obtain h' | ⟨w', s', h', hlt, htmpl, hact⟩ := mopGenerateNextT0_cases cfg st <;> rw [h'] at h <;> cases h
    simp only [mopAhead, htmpl, ht, if_true]
    exact ⟨hlt, by simpa [hact] using ha⟩
  · obtain ⟨s', h', -⟩ | ⟨w', s', h', hadv⟩ := mopGenerateNextT1_cases cfg st <;> rw [h'] at h <;> cases h
    simp only [mopAhead, hadv.tmpl, ht, if_false]
    exact ⟨hadv.ahead, by simpa [hadv.active] using ha⟩

theorem mopGenerateNext_none (h : mopGenerateNext cfg st = (none, st')) : st'.active = false := by
  unfold mopGenerateNext at h
  split_ifs at h with ha ht
  · cases h
    simpa using ha
  · obtain h' | ⟨w', s', h', -⟩ := mopGenerateNextT0_cases cfg st <;> rw [h'] at h <;> cases h
    rfl
  · obtain ⟨s', h', hact⟩ | ⟨w', s', h', -⟩ := mopGenerateNextT1_cases cfg st <;> rw [h'] at h <;> cases h
    exact hact

theorem generates_exists (cfg : ℕ → Word) (st : MopExpandState) : ∃ ws, Generates cfg st ws := by
  induction hn : mopAhead st using Nat.strongRecOn generalizing st with
  | ind n ih =>
    cases hg : mopGenerateNext cfg st with
    | mk x st' =>
      cases x with
      | none => exact ⟨[], .done (by rw [hg])⟩
      | some w =>
        obtain ⟨ws, hws⟩ := ih _ (hn ▸ (mopGenerateNext_some hg).1) st' rfl
        exact ⟨w :: ws, .next hg hws⟩

namespace Generates

variable {ws : List Word}

theorem nil_of_none (hg : Generates cfg st ws) (h : mopGenerateNext cfg st = (none, st')) : ws = [] := by
  cases hg with
  | done => rfl
  | next h' => cases h'.symm.trans h

theorem tail_of_some (hg : Generates cfg st ws) (h : mopGenerateNext cfg st = (some w, st')) :
    ∃ ws', ws = w :: ws' ∧ Generates cfg st' ws' := by
  cases hg with
  | done h' => rw [h] at h'; cases h'
  | next h' hg' =>
    cases h'.symm.trans h
    exact ⟨_, rfl, hg'⟩

theorem of_inactive (h : st.active = false) : Generates cfg st [] := .done (by simp [mopGenerateNext, h])

theorem nil_of_inactive (hg : Generates cfg st ws) (h : st.active = false) : ws = [] := by
  have hnone : mopGenerateNext cfg st = (none, st) := by simp [mopGenerateNext, h]
  exact hg.nil_of_none hnone

end Generates

def templateWords (cfg : ℕ → Word) : List Word := [cfg 2, cfg 3, cfg 4, cfg 5, cfg 6, cfg 7, cfg 8]

structure FromTemplate (cfg : ℕ → Word) (st : MopExpandState) : Prop where
  subInsns : st.tmpl0SubInsns ⊆ templateWords cfg
  loopOp : st.tmpl1Outer = 0 ∨ st.tmpl1LoopOp = cfg 5 ∧ st.tmpl1LoopOpFlip = 0 ∨
    (st.tmpl1LoopOp = cfg 5 ∨ st.tmpl1LoopOp = cfg 6) ∧ st.tmpl1LoopOpFlip = cfg 5 ^^^ cfg 6

theorem tmpl0Words_subset (cfg : ℕ → Word) (skip : Bool) : tmpl0Words cfg skip ⊆ templateWords cfg := by
  simp only [tmpl0Words, templateWords]
  split_ifs <;> simp

theorem mopStart_fromTemplate (cfg : ℕ → Word) (zmaskHi16 param : Word) :
    FromTemplate cfg (mopStart cfg zmaskHi16 param) := by
  unfold mopStart
  dsimp only
  split_ifs with ht
  · exact ⟨by simp [MopExpandState.zero], .inl rfl⟩
  all_goals refine ⟨by simp [MopExpandState.zero], .inr ?_⟩
  all_goals simp

namespace FromTemplate

theorem loopOp_mem (h : FromTemplate cfg st) (hj : ¬st.tmpl1J ≥ st.tmpl1Outer) :
    st.tmpl1LoopOp ∈ templateWords cfg := by
  obtain h | ⟨h, -⟩ | ⟨h | h, -⟩ := h.loopOp
  · omega
  all_goals rw [h]; simp [templateWords]

theorem flip (h : FromTemplate cfg st) (i : ℕ) :
    FromTemplate cfg { st with tmpl1LoopOp := st.tmpl1LoopOp ^^^ st.tmpl1LoopOpFlip, tmpl1I := i } := by
  refine ⟨h.subInsns, ?_⟩
  obtain h | ⟨h, hf⟩ | ⟨h | h, hf⟩ := h.loopOp
  · exact .inl h
  · exact .inr (.inl ⟨by simp [h, hf], hf⟩)
  · refine .inr (.inr ⟨.inr ?_, hf⟩)
    simp only [h, hf, ← BitVec.xor_assoc, BitVec.xor_self, BitVec.zero_xor]
  · refine .inr (.inr ⟨.inl ?_, hf⟩)
    rw [h, hf, BitVec.xor_comm (cfg 5), ← BitVec.xor_assoc, BitVec.xor_self, BitVec.zero_xor]

theorem nextT0 (h : FromTemplate cfg st) :
    (∀ w, (mopGenerateNextT0 cfg st).1 = some w → w ∈ templateWords cfg) ∧
      FromTemplate cfg (mopGenerateNextT0 cfg st).2 := by
  unfold mopGenerateNextT0
  split_ifs
  · exact ⟨fun w hw => h.subInsns (List.mem_of_getElem? hw), h.subInsns, h.loopOp⟩
  · exact ⟨by simp, h.subInsns, h.loopOp⟩
  · exact ⟨fun w hw => tmpl0Words_subset _ _ (List.mem_of_getElem? hw), tmpl0Words_subset _ _, h.loopOp⟩

def TurnFrom (cfg : ℕ → Word) : MopExpandState ⊕ (Option Word × MopExpandState) → Prop
  | .inl st => FromTemplate cfg st
  | .inr r => (∀ w, r.1 = some w → w ∈ templateWords cfg) ∧ FromTemplate cfg r.2

theorem emit {x : MopExpandState ⊕ (Option Word × MopExpandState)} {w : Word} (hw : w ∈ templateWords cfg)
    (h : FromTemplate cfg st)
    (hx : (if mopIsNop w then some (.inl st) else some (.inr (some w, st))) = some x) : TurnFrom cfg x := by
  split_ifs at hx <;> cases hx
  · exact h
  · refine ⟨fun w' hw' => ?_, h⟩
    cases hw'
    exact hw

theorem turn {x : MopExpandState ⊕ (Option Word × MopExpandState)} (h : FromTemplate cfg st)
    (ht : tmpl1Turn cfg st = some x) : TurnFrom cfg x := by
  unfold tmpl1Turn at ht
  by_cases hj : st.tmpl1J ≥ st.tmpl1Outer
  · rw [if_pos hj] at ht
    cases ht
    exact ⟨by simp, h.subInsns, h.loopOp⟩
  rw [if_neg hj] at ht
  cases hp : st.tmpl1Phase with
  | start =>
    rw [hp] at ht
    refine emit (w := cfg 2) (by simp [templateWords]) ?_ ht
    exact ⟨h.subInsns, h.loopOp⟩
  | end0 =>
    rw [hp] at ht
    refine emit (w := cfg 3) (by simp [templateWords]) ?_ ht
    exact ⟨h.subInsns, h.loopOp⟩
  | end1 =>
    rw [hp] at ht
    refine emit (w := cfg 4) (by simp [templateWords]) ?_ ht
    exact ⟨h.subInsns, h.loopOp⟩
  | inner =>
    simp only [hp] at ht
    by_cases hi : st.tmpl1I < st.tmpl1Inner
    · rw [if_pos hi] at ht
      cases ht
      have hflip := h.flip (st.tmpl1I + 1)
      refine ⟨fun w hw => ?_, hflip.subInsns, hflip.loopOp⟩
      split_ifs at hw <;> cases hw
      · exact h.loopOp_mem hj
      · simp [templateWords]
      · simp [templateWords]
    · rw [if_neg hi] at ht
      cases ht
      exact ⟨h.subInsns, h.loopOp⟩

theorem nextT1 (h : FromTemplate cfg st) :
    (∀ w, (mopGenerateNextT1 cfg st).1 = some w → w ∈ templateWords cfg) ∧
      FromTemplate cfg (mopGenerateNextT1 cfg st).2 := by
  unfold mopGenerateNextT1
  cases hl : loop (tmpl1Turn cfg) (tmpl1Silent st + 1) st with
  | none => exact ⟨by simp, h⟩
  | some r =>
    apply Loop.invariant (I := fun s => FromTemplate cfg s)
      (Q := fun r => (∀ w, r.1 = some w → w ∈ templateWords cfg) ∧ FromTemplate cfg r.2) ?_ ?_ hl h
    · exact fun s s' hs ht => hs.turn ht
    · exact fun s r hs ht => hs.turn ht

theorem next (h : FromTemplate cfg st) :
    (∀ w, (mopGenerateNext cfg st).1 = some w → w ∈ templateWords cfg) ∧
      FromTemplate cfg (mopGenerateNext cfg st).2 := by
  unfold mopGenerateNext
  split_ifs
  · exact ⟨by simp, h⟩
  · exact h.nextT0
  · exact h.nextT1

end FromTemplate

theorem Generates.subset {ws : List Word} (hg : Generates cfg st ws) (h : FromTemplate cfg st) :
    ws ⊆ templateWords cfg := by
  induction hg with
  | done => simp
  | next hn _ ih =>
    have hnext := h.next
    rw [hn] at hnext
    exact List.cons_subset.mpr ⟨hnext.1 _ rfl, ih hnext.2⟩

end Rv32Emu
