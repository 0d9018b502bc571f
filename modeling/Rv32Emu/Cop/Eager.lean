import Rv32Emu.Cop.Unfolding

namespace Rv32Emu

def unlessNop (insn : Word) : List Word := if mopIsNop insn then [] else [insn]

def loopOpAt (cfg : ℕ → Word) (i : ℕ) : Word := if mopIsNop (cfg 6) ∨ i % 2 = 0 then cfg 5 else cfg 6

def innerWords (cfg : ℕ → Word) (inner : ℕ) (final : Bool) : List Word :=
  (List.range inner).map fun i =>
    if i + 1 = inner then if final then cfg 7 else cfg 8
    else loopOpAt cfg i

def tmpl1Words (cfg : ℕ → Word) (inner : ℕ) (final : Bool) : List Word :=
  unlessNop (cfg 2) ++ innerWords cfg inner final ++ unlessNop (cfg 3) ++ unlessNop (cfg 4)

def tmpl1InnerCount (cfg : ℕ → Word) : ℕ :=
  if mopIsNop (cfg 6) then (cfg 1 &&& 127).toNat else (cfg 1 &&& 127).toNat * 2

def tmpl1OuterCount (cfg : ℕ → Word) : ℕ :=
  let outer := (cfg 0 &&& 127).toNat
  if outer = 1 ∧ mopIsNop (cfg 2) ∧ tmpl1InnerCount cfg = 0 ∧ !mopIsNop (cfg 3) then outer + 128 else outer

def mopExpansion (cfg : ℕ → Word) (zmaskHi16 param : Word) : List Word :=
  if bits param 23 0x1 = 0 then
    let mask := (zmaskHi16 <<< 16) ||| (param &&& 0xFFFF)
    (List.range ((bits param 16 0x7F).toNat + 1)).flatMap fun i => tmpl0Words cfg (bit mask i)
  else
    (List.range (tmpl1OuterCount cfg)).flatMap fun j =>
      tmpl1Words cfg (tmpl1InnerCount cfg) (j + 1 = tmpl1OuterCount cfg)

variable {cfg : ℕ → Word} {st : MopExpandState} {ws : List Word}

section template0

def tmpl0Rest (cfg : ℕ → Word) (st : MopExpandState) : List Word :=
  st.tmpl0SubInsns.drop st.tmpl0Sub ++
    (List.range (st.tmpl0Count - st.tmpl0I)).flatMap fun k => tmpl0Words cfg (bit st.tmpl0Mask k)

theorem bit_shiftRight_one (mask : Word) (k : ℕ) : bit (mask >>> 1) k = bit mask (k + 1) := by
  simp [bit, Nat.add_comm]

theorem mopGenerateNextT0_rest (cfg : ℕ → Word) (st : MopExpandState) :
    (tmpl0Rest cfg st = [] ∧ mopGenerateNextT0 cfg st = (none, { st with active := false })) ∨
      ∃ w st', mopGenerateNextT0 cfg st = (some w, st') ∧ tmpl0Rest cfg st = w :: tmpl0Rest cfg st' ∧
        st'.tmpl = st.tmpl ∧ st'.active = st.active := by
  unfold mopGenerateNextT0
  split_ifs with hsub hi
  · refine .inr ⟨st.tmpl0SubInsns[st.tmpl0Sub], { st with tmpl0Sub := st.tmpl0Sub + 1 },
      by rw [List.getElem?_eq_getElem hsub], ?_, rfl, rfl⟩
    simp only [tmpl0Rest]
    rw [List.drop_eq_getElem_cons hsub, List.cons_append]
  · have hdrop : st.tmpl0SubInsns.drop st.tmpl0Sub = [] := List.drop_eq_nil_of_le (Nat.not_lt.mp hsub)
    have hcount : st.tmpl0Count - st.tmpl0I = 0 := Nat.sub_eq_zero_of_le hi
    exact .inl ⟨by simp [tmpl0Rest, hdrop, hcount], rfl⟩
  · obtain ⟨w, us, hw⟩ := tmpl0Words_head cfg (bit st.tmpl0Mask 0)
    have hdrop : st.tmpl0SubInsns.drop st.tmpl0Sub = [] := List.drop_eq_nil_of_le (Nat.not_lt.mp hsub)
    have hcount : st.tmpl0Count - st.tmpl0I = st.tmpl0Count - (st.tmpl0I + 1) + 1 := by omega
    refine .inr ⟨w, { st with
      tmpl0SubInsns := w :: us, tmpl0Mask := st.tmpl0Mask >>> 1, tmpl0I := st.tmpl0I + 1, tmpl0Sub := 1 },
      by rw [hw]; rfl, ?_, rfl, rfl⟩
    simp only [tmpl0Rest, hdrop, hcount, List.range_succ_eq_map, List.flatMap_cons, List.flatMap_map, hw,
      bit_shiftRight_one]
    rfl

end template0

section template1

def outerRest (cfg : ℕ → Word) (inner outer j : ℕ) : List Word :=
  (List.range' j (outer - j)).flatMap fun k => tmpl1Words cfg inner (k + 1 = outer)

theorem outerRest_of_lt (cfg : ℕ → Word) (inner : ℕ) {outer j : ℕ} (h : j < outer) :
    outerRest cfg inner outer j = tmpl1Words cfg inner (j + 1 = outer) ++
      outerRest cfg inner outer (j + 1) := by
  have hcount : outer - j = outer - (j + 1) + 1 := by omega
  simp only [outerRest]
  rw [hcount, List.range'_succ, List.flatMap_cons]

theorem outerRest_of_le (cfg : ℕ → Word) (inner : ℕ) {outer j : ℕ} (h : outer ≤ j) :
    outerRest cfg inner outer j = [] := by
  simp [outerRest, Nat.sub_eq_zero_of_le h]

def tmpl1Rest (cfg : ℕ → Word) (st : MopExpandState) : List Word :=
  let later := outerRest cfg st.tmpl1Inner st.tmpl1Outer (st.tmpl1J + 1)
  if st.tmpl1J ≥ st.tmpl1Outer then []
  else
    match st.tmpl1Phase with
    | .start => outerRest cfg st.tmpl1Inner st.tmpl1Outer st.tmpl1J
    | .inner => (innerWords cfg st.tmpl1Inner (st.tmpl1J + 1 = st.tmpl1Outer)).drop st.tmpl1I ++
        unlessNop (cfg 3) ++ unlessNop (cfg 4) ++ later
    | .end0 => unlessNop (cfg 3) ++ unlessNop (cfg 4) ++ later
    | .end1 => unlessNop (cfg 4) ++ later

theorem tmpl1Rest_start (cfg : ℕ → Word) (st : MopExpandState) (h : st.tmpl1Phase = .start) :
    tmpl1Rest cfg st = outerRest cfg st.tmpl1Inner st.tmpl1Outer st.tmpl1J := by
  by_cases hj : st.tmpl1J ≥ st.tmpl1Outer
  · simp only [tmpl1Rest, if_pos hj, outerRest_of_le cfg _ hj]
  · simp only [tmpl1Rest, if_neg hj, h]

/-- The running XOR has come as far as the place in the inner sequence says. An inner sequence of two ops
has even length, so each one ends where it began. -/
structure Tmpl1At (cfg : ℕ → Word) (st : MopExpandState) : Prop where
  flip : st.tmpl1LoopOpFlip = if mopIsNop (cfg 6) then 0 else cfg 5 ^^^ cfg 6
  even : ¬mopIsNop (cfg 6) → st.tmpl1Inner % 2 = 0
  place : st.tmpl1Phase = .inner → st.tmpl1I ≤ st.tmpl1Inner
  op : st.tmpl1LoopOp = loopOpAt cfg (if st.tmpl1Phase = .inner then st.tmpl1I else 0)

theorem loopOpAt_succ (cfg : ℕ → Word) (i : ℕ) :
    loopOpAt cfg i ^^^ (if mopIsNop (cfg 6) then 0 else cfg 5 ^^^ cfg 6) = loopOpAt cfg (i + 1) := by
  unfold loopOpAt
  by_cases hn : mopIsNop (cfg 6)
  · simp [hn]
  · obtain hi | hi := Nat.mod_two_eq_zero_or_one i
    · have hi' : (i + 1) % 2 = 1 := by omega
      simp only [hn, hi, hi', false_or, if_true, if_false, reduceCtorEq, one_ne_zero]
      rw [← BitVec.xor_assoc, BitVec.xor_self, BitVec.zero_xor]
    · have hi' : (i + 1) % 2 = 0 := by omega
      simp only [hn, hi, hi', false_or, if_true, if_false, reduceCtorEq, one_ne_zero]
      rw [BitVec.xor_comm (cfg 5), ← BitVec.xor_assoc, BitVec.xor_self, BitVec.zero_xor]

theorem loopOpAt_end {inner : ℕ} (h : ¬mopIsNop (cfg 6) → inner % 2 = 0) :
    loopOpAt cfg inner = loopOpAt cfg 0 := by
  unfold loopOpAt
  by_cases hn : mopIsNop (cfg 6)
  · simp [hn]
  · simp [h hn]

theorem innerWords_drop (cfg : ℕ → Word) {inner i : ℕ} (final : Bool) (h : i < inner) :
    (innerWords cfg inner final).drop i =
      (if i + 1 = inner then if final then cfg 7 else cfg 8 else loopOpAt cfg i) ::
        (innerWords cfg inner final).drop (i + 1) := by
  have hlen : i < (innerWords cfg inner final).length := by simpa [innerWords] using h
  rw [List.drop_eq_getElem_cons hlen]
  simp [innerWords]

theorem loop_word {i inner j outer : ℕ} (hi : i < inner) (hj : j < outer) (op : Word) :
    (if i ≠ inner - 1 then op else if j ≠ outer - 1 then cfg 8 else cfg 7) =
      if i + 1 = inner then if decide (j + 1 = outer) then cfg 7 else cfg 8 else op := by
  have hlast : i = inner - 1 ↔ i + 1 = inner := by omega
  have hfinal : j = outer - 1 ↔ j + 1 = outer := by omega
  simp only [ne_eq, hlast, hfinal, ite_not, decide_eq_true_eq]

def Tmpl1Emits (cfg : ℕ → Word) (st : MopExpandState) : Prop :=
  (∃ st', tmpl1Turn cfg st = some (.inl st') ∧ Tmpl1At cfg st' ∧
      tmpl1Rest cfg st' = tmpl1Rest cfg st) ∨
    ∃ w st', tmpl1Turn cfg st = some (.inr (some w, st')) ∧ Tmpl1At cfg st' ∧
      tmpl1Rest cfg st = w :: tmpl1Rest cfg st'

theorem Tmpl1Emits.of_unlessNop {st' : MopExpandState} {w : Word}
    (hturn : tmpl1Turn cfg st = if mopIsNop w then some (.inl st') else some (.inr (some w, st')))
    (hat : Tmpl1At cfg st') (hrest : tmpl1Rest cfg st = unlessNop w ++ tmpl1Rest cfg st') :
    Tmpl1Emits cfg st := by
  by_cases hn : mopIsNop w
  · rw [if_pos hn] at hturn
    rw [unlessNop, if_pos hn] at hrest
    exact .inl ⟨st', hturn, hat, hrest.symm⟩
  · rw [if_neg hn] at hturn
    rw [unlessNop, if_neg hn] at hrest
    exact .inr ⟨w, st', hturn, hat, hrest⟩

theorem tmpl1Turn_rest (h : Tmpl1At cfg st) :
    (tmpl1Turn cfg st = some (.inr (none, { st with active := false })) ∧ tmpl1Rest cfg st = []) ∨
      Tmpl1Emits cfg st := by
  by_cases hj : st.tmpl1J ≥ st.tmpl1Outer
  · exact .inl ⟨by rw [tmpl1Turn, if_pos hj], by simp only [tmpl1Rest, if_pos hj]⟩
  refine .inr ?_
  have hlt : st.tmpl1J < st.tmpl1Outer := Nat.lt_of_not_le hj
  cases hp : st.tmpl1Phase with
  | start =>
    have hat : Tmpl1At cfg { st with tmpl1Phase := .inner, tmpl1I := 0 } :=
      ⟨h.flip, h.even, fun _ => Nat.zero_le _, by simpa [hp] using h.op⟩
    refine .of_unlessNop (w := cfg 2) (by simp only [tmpl1Turn, if_neg hj, hp]) hat ?_
    rw [tmpl1Rest_start cfg st hp, outerRest_of_lt cfg _ hlt]
    simp only [tmpl1Rest, if_neg hj, tmpl1Words, List.drop_zero, List.append_assoc]
  | inner =>
    have hop : st.tmpl1LoopOp = loopOpAt cfg st.tmpl1I := by simpa [hp] using h.op
    obtain hi | hi := Nat.lt_or_ge st.tmpl1I st.tmpl1Inner
    · have hturn : tmpl1Turn cfg st = some (.inr (some
          (if st.tmpl1I + 1 = st.tmpl1Inner then if decide (st.tmpl1J + 1 = st.tmpl1Outer) then cfg 7
            else cfg 8
            else st.tmpl1LoopOp), { st with
          tmpl1LoopOp := st.tmpl1LoopOp ^^^ st.tmpl1LoopOpFlip, tmpl1I := st.tmpl1I + 1 })) := by
        simp only [tmpl1Turn, if_neg hj, hp, if_pos hi, loop_word hi hlt]
      refine .inr ⟨_, _, hturn, ⟨h.flip, h.even, fun _ => hi, ?_⟩, ?_⟩
      · simp only [hp, if_true, hop, h.flip, loopOpAt_succ]
      · simp only [tmpl1Rest, if_neg hj, hp, innerWords_drop cfg _ hi, List.cons_append, hop]
    · have hend : st.tmpl1I = st.tmpl1Inner := Nat.le_antisymm (h.place hp) hi
      refine .inl ⟨{ st with tmpl1Phase := .end0 }, ?_, ⟨h.flip, h.even, by simp, ?_⟩, ?_⟩
      · simp only [tmpl1Turn, if_neg hj, hp, if_neg (Nat.not_lt.mpr hi)]
      · simp only [hop, hend, reduceCtorEq, if_false]
        exact loopOpAt_end h.even
      · have hdrop : (innerWords cfg st.tmpl1Inner (st.tmpl1J + 1 = st.tmpl1Outer)).drop st.tmpl1I = [] :=
          List.drop_eq_nil_of_le (by simpa [innerWords] using hi)
        simp only [tmpl1Rest, if_neg hj, hp, hdrop, List.nil_append]
  | end0 =>
    have hat : Tmpl1At cfg { st with tmpl1Phase := .end1 } :=
      ⟨h.flip, h.even, by simp, by simpa [hp] using h.op⟩
    refine .of_unlessNop (w := cfg 3) (by simp only [tmpl1Turn, if_neg hj, hp]) hat ?_
    simp only [tmpl1Rest, if_neg hj, hp, List.append_assoc]
  | end1 =>
    have hat : Tmpl1At cfg { st with tmpl1J := st.tmpl1J + 1, tmpl1Phase := .start } :=
      ⟨h.flip, h.even, by simp, by simpa [hp] using h.op⟩
    refine .of_unlessNop (w := cfg 4) (by simp only [tmpl1Turn, if_neg hj, hp]) hat ?_
    rw [tmpl1Rest_start cfg { st with tmpl1J := st.tmpl1J + 1, tmpl1Phase := .start } rfl]
    simp only [tmpl1Rest, if_neg hj, hp]

theorem mopGenerateNextT1_rest (h : Tmpl1At cfg st) :
    (tmpl1Rest cfg st = [] ∧ (mopGenerateNextT1 cfg st).1 = none) ∨
      ∃ w st', mopGenerateNextT1 cfg st = (some w, st') ∧ Tmpl1At cfg st' ∧
        tmpl1Rest cfg st = w :: tmpl1Rest cfg st' := by
  obtain ⟨⟨x, st'⟩, hr⟩ := tmpl1Turn_returns cfg st
  have hgen : mopGenerateNextT1 cfg st = (x, st') := by rw [mopGenerateNextT1, hr]; rfl
  -- the silent turns keep the words ahead, and the last turn emits the first of them
  have hx := Loop.invariant (I := fun s => Tmpl1At cfg s ∧ tmpl1Rest cfg s = tmpl1Rest cfg st)
    (Q := fun r => (tmpl1Rest cfg st = [] ∧ r.1 = none) ∨
      ∃ w, r.1 = some w ∧ Tmpl1At cfg r.2 ∧ tmpl1Rest cfg st = w :: tmpl1Rest cfg r.2)
    ?_ ?_ hr ⟨h, rfl⟩
  · rw [hgen]
    obtain hx | ⟨w, rfl, hat, hrest⟩ := hx
    · exact .inl hx
    · exact .inr ⟨w, st', rfl, hat, hrest⟩
  · rintro s s' ⟨hat, hrest⟩ hs
    obtain ⟨ht, -⟩ | ⟨u, ht, hat', hrest'⟩ | ⟨w, u, ht, -⟩ :=
      tmpl1Turn_rest hat <;> rw [ht] at hs <;> cases hs
    exact ⟨hat', hrest'.trans hrest⟩
  · rintro s r ⟨hat, hrest⟩ hs
    obtain ⟨ht, hnil⟩ | ⟨u, ht, -⟩ | ⟨w, u, ht, hat', hrest'⟩ :=
      tmpl1Turn_rest hat <;> rw [ht] at hs <;> cases hs
    · exact .inl ⟨hrest.symm.trans hnil, rfl⟩
    · exact .inr ⟨w, rfl, hat', hrest.symm.trans hrest'⟩

end template1

structure HasAhead (cfg : ℕ → Word) (st : MopExpandState) (ws : List Word) : Prop where
  active : st.active = true
  words : (st.tmpl = 0 ∧ ws = tmpl0Rest cfg st) ∨ (st.tmpl ≠ 0 ∧ Tmpl1At cfg st ∧ ws = tmpl1Rest cfg st)

theorem HasAhead.next (h : HasAhead cfg st ws) :
    (ws = [] ∧ (mopGenerateNext cfg st).1 = none) ∨
      ∃ w ws' st', ws = w :: ws' ∧ mopGenerateNext cfg st = (some w, st') ∧ HasAhead cfg st' ws' := by
  obtain ⟨ht, rfl⟩ | ⟨ht, hat, rfl⟩ := h.words
  · have hgen : mopGenerateNext cfg st = mopGenerateNextT0 cfg st := by simp [mopGenerateNext, h.active, ht]
    rw [hgen]
    obtain ⟨hnil, hnone⟩ | ⟨w, st', hsome, hrest, htmpl, hact⟩ := mopGenerateNextT0_rest cfg st
    · exact .inl ⟨hnil, by rw [hnone]⟩
    · exact .inr ⟨w, _, st', hrest, hsome, hact.trans h.active, .inl ⟨htmpl.trans ht, rfl⟩⟩
  · have hgen : mopGenerateNext cfg st = mopGenerateNextT1 cfg st := by
      simp only [mopGenerateNext, h.active, Bool.not_true, Bool.false_eq_true, if_false, if_neg ht]
    rw [hgen]
    obtain hend | ⟨w, st', hsome, hat', hrest⟩ := mopGenerateNextT1_rest hat
    · exact .inl hend
    · obtain ⟨_, hnone, -⟩ | ⟨_, _, hsome', hadv⟩ := mopGenerateNextT1_cases cfg st
      · cases hnone.symm.trans hsome
      · cases hsome'.symm.trans hsome
        exact .inr ⟨w, _, st', hrest, hsome, hadv.active.trans h.active, .inr ⟨hadv.tmpl ▸ ht, hat', rfl⟩⟩

theorem HasAhead.generates (h : HasAhead cfg st ws) : Generates cfg st ws := by
  induction ws generalizing st with
  | nil =>
    obtain ⟨-, hnone⟩ | ⟨w, ws', st', hcons, -⟩ := h.next
    · exact .done hnone
    · cases hcons
  | cons w ws ih =>
    obtain ⟨hnil, -⟩ | ⟨w', ws', st', hcons, hsome, h'⟩ := h.next
    · cases hnil
    · cases hcons
      exact .next hsome (ih h')

theorem mopStart_tmpl0 (cfg : ℕ → Word) (zmaskHi16 : Word) {param : Word} (h : bits param 23 0x1 = 0) :
    mopStart cfg zmaskHi16 param = { MopExpandState.zero with
      active := true
      tmpl := bits param 23 0x1
      tmpl0Mask := (zmaskHi16 <<< 16) ||| (param &&& 0xFFFF)
      tmpl0Count := (bits param 16 0x7F).toNat + 1 } :=
  if_pos h

theorem mopStart_tmpl1 (cfg : ℕ → Word) (zmaskHi16 : Word) {param : Word} (h : bits param 23 0x1 ≠ 0) :
    mopStart cfg zmaskHi16 param = { MopExpandState.zero with
      active := true
      tmpl := bits param 23 0x1
      tmpl1Outer := tmpl1OuterCount cfg
      tmpl1Inner := tmpl1InnerCount cfg
      tmpl1LoopOp := cfg 5
      tmpl1LoopOpFlip := if mopIsNop (cfg 6) then 0 else cfg 5 ^^^ cfg 6 } :=
  if_neg h

theorem mopStart_hasAhead (cfg : ℕ → Word) (zmaskHi16 param : Word) :
    HasAhead cfg (mopStart cfg zmaskHi16 param) (mopExpansion cfg zmaskHi16 param) := by
  by_cases ht : bits param 23 0x1 = 0
  · rw [mopStart_tmpl0 cfg zmaskHi16 ht, mopExpansion, if_pos ht]
    exact ⟨rfl, .inl ⟨ht, rfl⟩⟩
  · rw [mopStart_tmpl1 cfg zmaskHi16 ht, mopExpansion, if_neg ht]
    refine ⟨rfl, .inr ⟨ht, ⟨rfl, fun hn => ?_, nofun, ?_⟩, ?_⟩⟩
    · simp [tmpl1InnerCount, hn]
    · simp [loopOpAt, MopExpandState.zero]
    · rw [List.range_eq_range', tmpl1Rest_start]
      · rfl
      · rfl

theorem mop_generates_expansion (thread : TensixThreadCop) (param : Word) :
    let expander := (tensixCopMopExpand thread param).mopState
    (∀ ws, Generates thread.mopCfg expander ws ↔ ws = mopExpansion thread.mopCfg thread.zmaskHi16 param) ∧
      ∀ st st', mopGenerateNext thread.mopCfg st = (none, st') → st'.active = false := by
  have hgen := (mopStart_hasAhead thread.mopCfg thread.zmaskHi16 param).generates
  refine ⟨fun ws => ⟨fun h => h.unique hgen, fun h => h ▸ hgen⟩, fun st st' => mopGenerateNext_none⟩

end Rv32Emu
