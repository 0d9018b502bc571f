import Rv32Emu.Cop.Termination
import Rv32Emu.Tile.Mmio

namespace Rv32Emu

def CopView.waiting (v : CopView) : ℕ :=
  v.thread.insnFifo.count + if v.thread.currentInsn.isSome then 1 else 0

def Advances (tid : Tid) (v : CopView) (_ : Unit) (u : CopView) : Prop := tensixCopStep v tid = (true, u)

def pushTurn (insn : Word) (tid : Tid) (v : CopView) : Option (CopView ⊕ CopView) :=
  match tensixCopPush v insn with
  | (true, v) => some (.inr v)
  | (false, v) =>
    match tensixCopStep v tid with
    | (true, v) => some (.inl v)
    | (false, _) => none

def FullAndBlocked (v : CopView) (tid : Tid) : Prop :=
  tensixFifoSize ≤ v.thread.insnFifo.count ∧ (tensixCopStep v tid).1 = false

def Blocks (insn : Word) (tid : Tid) (v : CopView) (n : ℕ) : Prop :=
  ∃ ss u, Loop.Visits (pushTurn insn tid) v ss u ∧ ss.length ≤ n ∧ FullAndBlocked u tid

structure QueueDrained (v u : CopView) (executed : List Word) : Prop where
  wellFormed : u.thread.insnFifo.WellFormed
  queue : v.queue = executed ++ u.queue
  ran : ranWords u.thread.log = ranWords v.thread.log ++ executed

section loop

variable {v u w : CopView} {insn : Word} {tid : Tid} {fuel : ℕ}

theorem advances_bounded {es : List Unit} (h : Run (Advances tid) v es u) :
    es.length + u.waiting ≤ v.waiting := by
  induction h with
  | nil v => simp
  | cons hs _ ih =>
    have hlt := tensixCopStep_consumes hs
    simp only [CopView.waiting, List.length_cons] at ih ⊢
    omega

theorem drainFifo_within (v : CopView) (tid : Tid) : ∃ u, drainFifo (v.waiting + 1) v tid = some u := by
  apply Loop.returns (I := fun _ => True) CopView.waiting ?_ trivial
  intro s _
  cases hs : tensixCopStep s tid with
  | mk ok u =>
    cases ok with
    | false => exact .inl ⟨u, rfl⟩
    | true => exact .inr ⟨u, rfl, trivial, tensixCopStep_consumes hs⟩

theorem pushTurn_cases (insn : Word) (tid : Tid) (v : CopView) :
    (∃ u, tensixCopPush v insn = (true, u) ∧ pushTurn insn tid v = some (.inr u)) ∨
      (∃ u, tensixCopStep v tid = (true, u) ∧ pushTurn insn tid v = some (.inl u)) ∨
      (FullAndBlocked v tid ∧ pushTurn insn tid v = none) := by
  unfold pushTurn
  cases hp : tensixCopPush v insn with
  | mk ok u =>
    cases ok with
    | true => exact .inl ⟨u, rfl, rfl⟩
    | false =>
      have hfull := (tensixCopPush_refused v insn).mp (by rw [hp])
      have hu : u = v := by
        unfold tensixCopPush at hp
        dsimp only at hp
        split_ifs at hp <;> cases hp
        rfl
      subst hu
      cases hs : tensixCopStep u tid with
      | mk done x =>
        cases done with
        | true => exact .inr (.inl ⟨x, rfl, by simp only [hs]⟩)
        | false => exact .inr (.inr ⟨⟨hfull, by rw [hs]⟩, by simp only [hs]⟩)

theorem pushDraining_ends (insn : Word) (tid : Tid) (v : CopView) :
    (∃ w, pushDraining (v.waiting + 1) v insn tid = some w) ∨ Blocks insn tid v v.waiting := by
  induction hn : v.waiting using Nat.strongRecOn generalizing v with
  | ind n ih =>
    obtain ⟨u, -, hturn⟩ | ⟨u, hs, hturn⟩ | ⟨hb, -⟩ := pushTurn_cases insn tid v
    · exact .inl ⟨u, Loop.exit hturn n⟩
    · have hlt : u.waiting < n := hn ▸ tensixCopStep_consumes hs
      obtain ⟨w, hw⟩ | ⟨ss, x, hv, hlen, hb⟩ := ih u.waiting hlt u rfl
      · exact .inl ⟨w, (Loop.step hturn n).trans (Loop.mono (fun _ _ h => h) hlt hw)⟩
      · exact .inr ⟨v :: ss, x, .cons ⟨rfl, hturn⟩ hv, Nat.succ_le_of_lt (Nat.lt_of_le_of_lt hlen hlt), hb⟩
    · exact .inr ⟨[], v, .nil v, Nat.zero_le n, hb⟩

theorem Blocks.fails {n : ℕ} (h : Blocks insn tid v n) (fuel : ℕ) : pushDraining fuel v insn tid = none := by
  obtain ⟨ss, u, hv, -, hfull, hb⟩ := h
  have hturn : pushTurn insn tid u = none := by
    obtain ⟨x, hp, -⟩ | ⟨x, hs, -⟩ | ⟨-, hturn⟩ := pushTurn_cases insn tid u
    · have hrefused := (tensixCopPush_refused u insn).mpr hfull
      rw [hp] at hrefused
      cases hrefused
    · rw [hs] at hb
      cases hb
    · exact hturn
  cases hr : pushDraining fuel v insn tid with
  | none => rfl
  | some w =>
    -- enough fuel for the way to the blocked state, and there the loop fails
    have hmore : loop (pushTurn insn tid) (fuel + ss.length) v = some w :=
      Loop.mono (fun _ _ h => h) (by omega) hr
    rw [hv.loop_eq fuel] at hmore
    obtain ⟨_, -, hx | ⟨x, hx, -⟩⟩ := Loop.unfold hmore
    · cases hturn.symm.trans hx
    · cases hturn.symm.trans hx

theorem pushDraining_appends (hw : v.thread.insnFifo.WellFormed) (h : pushDraining fuel v insn tid = some w) :
    ∃ x executed, QueueDrained v x executed ∧ tensixCopPush x insn = (true, w) := by
  have hloop : loop (pushTurn insn tid) fuel v = some w := h
  refine Loop.invariant (I := fun x => ∃ executed, QueueDrained v x executed)
    (Q := fun w => ∃ x executed, QueueDrained v x executed ∧ tensixCopPush x insn = (true, w)) ?_ ?_ hloop
    ⟨[], hw, rfl, by simp⟩
  · rintro x y ⟨executed, hx⟩ hturn
    obtain ⟨u, -, ht⟩ | ⟨u, hs, ht⟩ | ⟨-, ht⟩ := pushTurn_cases insn tid x <;> cases ht.symm.trans hturn
    obtain ⟨hwf, -, o, i, hq, hlog⟩ := tensixCopStep_queue hx.wellFormed hs
    refine ⟨executed ++ [i], hwf, ?_, ?_⟩
    · rw [hx.queue, hq]
      simp
    · rw [hlog, ranWords_append, hx.ran, List.append_assoc]
      rfl
  · rintro x y ⟨executed, hx⟩ hturn
    obtain ⟨u, hp, ht⟩ | ⟨u, -, ht⟩ | ⟨-, ht⟩ := pushTurn_cases insn tid x <;> cases ht.symm.trans hturn
    exact ⟨x, executed, hx, hp⟩

end loop

section store

variable {tt : TensixTile} {cop : Coprocessor} {coreId : ℤ} {addr data : Word} {t : Tid}

theorem instrnBuf_write (hlo : 0xFFE40000 ≤ addr.toNat) (hhi : addr.toNat ≤ 0xFFE6FFFF)
    (ht : TensixTile.instrnTarget coreId addr.toNat = some t) (fuel : ℕ) :
    tt.tensixMmioWrite fuel coreId addr data = (tt.pushInstrn fuel t data).map fun tt => (true, tt) := by
  have hmail : inMailboxRange addr = false := by
    have hbase : mailboxAddrBase.toNat = 0xFFEC0000 := rfl
    simp only [inMailboxRange, hbase, Bool.and_eq_false_iff, decide_eq_false_iff_not]
    omega
  have hper : perCore coreId addr.toNat = none := by
    rw [perCore, if_neg]
    simp only [isPerCoreAddr, Bool.or_eq_true, Bool.and_eq_true, decide_eq_true_eq]
    omega
  unfold TensixTile.tensixMmioWrite
  simp only [hmail, Bool.false_eq_true, if_false, hper, ht]
  rw [if_neg (by omega), if_pos ⟨hlo, hhi⟩]

/-- What a store that succeeds leaves: the word is behind what is left of the queue of its thread, and
the other threads are as they were. -/
structure Appended (cop cop' : Coprocessor) (v v' : CopView) (t : Tid) (data : Word) : Prop where
  queue : v.thread.insnFifo.WellFormed → ∃ executed rest, v.queue = executed ++ rest ∧
    v'.queue = rest ++ [data] ∧
    ranWords v'.thread.log = ranWords v.thread.log ++ executed
  others : ∀ u, u ≠ t → cop'.threads u = cop.threads u

theorem pushInstrn_appends {fuel : ℕ} {tt' : TensixTile} (hcop : tt.cop = some cop)
    (h : tt.pushInstrn fuel t data = some tt') :
    ∃ cop', tt'.cop = some cop' ∧ Appended cop cop' ((tt.toCop cop).view t) ((tt'.toCop cop').view t) t
      data := by
  unfold TensixTile.pushInstrn at h
  rw [hcop] at h
  obtain ⟨w, hw, rfl⟩ := Option.map_eq_some_iff.mp h
  refine ⟨_, rfl, fun hwf => ?_, fun u hu => Function.update_of_ne hu ..⟩
  obtain ⟨x, executed, hx, hpush⟩ := pushDraining_appends hwf hw
  obtain ⟨-, -, hq, hlog⟩ := tensixCopPush_queue hx.wellFormed hpush
  have hthread : Function.update cop.threads t w.thread t = w.thread := Function.update_self ..
  refine ⟨executed, x.queue, hx.queue, ?_, ?_⟩
  · exact (congrArg (fun th : TensixThreadCop => th.currentInsn.toList ++ th.insnFifo.contents)
      hthread).trans hq
  · refine (congrArg (fun th : TensixThreadCop => ranWords th.log) hthread).trans ?_
    rw [hlog, ranWords_append, hx.ran]
    exact List.append_nil _

/-- Consecutive steps of a thread execute no more than what waits in its slot and FIFO. So a store to an
instruction buffer ends: where the FIFO is full and the thread blocked, or with the word behind what is
left of the queue. -/
theorem instrn_buf_appends :
    (∀ tid v es u, Run (Advances tid) v es u → es.length ≤ v.waiting) ∧
      (∀ v tid, ∃ u, drainFifo (v.waiting + 1) v tid = some u) ∧
      ∀ (tt : TensixTile) cop coreId (addr data : Word) t, tt.cop = some cop → 0xFFE40000 ≤ addr.toNat →
        addr.toNat ≤ 0xFFE6FFFF → TensixTile.instrnTarget coreId addr.toNat = some t →
        let v := (tt.toCop cop).view t
        (Blocks data t v v.waiting ∧ ∀ fuel, tt.tensixMmioWrite fuel coreId addr data = none) ∨
          ∃ tt' cop', tt.tensixMmioWrite (v.waiting + 1) coreId addr data = some (true, tt') ∧
            tt'.cop = some cop' ∧
            Appended cop cop' v ((tt'.toCop cop').view t) t data := by
  refine ⟨fun tid v es u h => Nat.le_of_add_right_le (advances_bounded h), drainFifo_within, ?_⟩
  intro tt cop coreId addr data t hcop hlo hhi ht v
  obtain ⟨w, hw⟩ | hb := pushDraining_ends data t v
  · obtain ⟨tt', hpush⟩ : ∃ tt', tt.pushInstrn (v.waiting + 1) t data = some tt' := by
      unfold TensixTile.pushInstrn
      rw [hcop]
      exact ⟨_, congrArg (Option.map _) hw⟩
    obtain ⟨cop', hcop', happ⟩ := pushInstrn_appends hcop hpush
    exact .inr ⟨tt', cop', by rw [instrnBuf_write hlo hhi ht, hpush]; rfl, hcop', happ⟩
  · refine .inl ⟨hb, fun fuel => ?_⟩
    have hfail : tt.pushInstrn fuel t data = none := by
      unfold TensixTile.pushInstrn
      rw [hcop]
      exact congrArg (Option.map _) (hb.fails fuel)
    rw [instrnBuf_write hlo hhi ht, hfail]
    rfl

def fullThread : TensixThreadCop :=
  { TensixThreadCop.init with insnFifo := ⟨fun i => 0x02000000 + w32 i, 0, 0, tensixFifoSize⟩ }

def fullCop : Coprocessor := { Coprocessor.init (some 0) with threads := fun _ => fullThread }

def fullTile : TensixTile :=
  { TensixTile.tensixInit ⟨some fun _ => 0, some fun _ => 0⟩ (fun _ => some fun _ => 0) 0 (some 0) true with
    cop := some fullCop }

/-- One step of the full FIFO makes room. -/
theorem instrn_buf_appends_full :
    ∃ tt' cop', fullTile.tensixMmioWrite 33 1 0xFFE40000 0x02000020 = some (true, tt') ∧ tt'.cop = some cop' ∧
      Appended fullCop cop' ((fullTile.toCop fullCop).view 1) ((tt'.toCop cop').view 1) 1 0x02000020 ∧
      ranWords (cop'.threads 1).log = [0x02000000] := by
  have hran : (fullTile.tensixMmioWrite 33 1 0xFFE40000 0x02000020).map
      (fun r => r.2.cop.map fun cop => ranWords (cop.threads 1).log) = some (some [0x02000000]) := rfl
  obtain ⟨-, hfail⟩ | ⟨tt', cop', hwrite, hcop, happ⟩ :=
    instrn_buf_appends.2.2 fullTile fullCop 1 0xFFE40000 0x02000020 1 rfl (by decide) (by decide) rfl
  · rw [hfail] at hran
    cases hran
  · have hwrite : fullTile.tensixMmioWrite 33 1 0xFFE40000 0x02000020 = some (true, tt') := hwrite
    rw [hwrite, Option.map_some, hcop] at hran
    exact ⟨tt', cop', hwrite, hcop, happ, by simpa using hran⟩

end store

end Rv32Emu
