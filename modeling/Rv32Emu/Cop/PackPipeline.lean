import Rv32Emu.Cop.GateSafety
import Rv32Emu.Cop.Semaphores
import Rv32Emu.Lib.Rounds

/-!
The semaphore between math and pack. The math thread runs rounds of SEMWAIT on a full semaphore,
matrix work and SEMPOST; the pack thread runs rounds of SEMWAIT on an empty one, PACRs and SEMGET.
The semaphore then counts the rounds that are posted and not yet taken, in every interleaving.
-/

namespace Rv32Emu

def Covers (wait insn : Word) : Prop :=
  insnGetBlockBits (tensixInsnOpcode insn) &&& (waitGateLatch waitGateClear wait).blockMask =
    insnGetBlockBits (tensixInsnOpcode insn)

def IsMath (insn : Word) : Prop :=
  insnGetBlockBits (tensixInsnOpcode insn) = 0x40 ∨ insnGetBlockBits (tensixInsnOpcode insn) = 0x100

def IsPacr (insn : Word) : Prop := tensixInsnOpcode insn = opcodePacr

/-- A round guarded by semaphore `s`: bit `cond` of the SEMWAIT is 0 for an empty and 1 for a full
semaphore. -/
structure Round (s : Fin 8) (cond : ℕ) (IsWork : Word → Prop) (closing : Word) where
  wait : Word
  work : List Word
  close : Word
  wait_opcode : tensixInsnOpcode wait = opcodeSemwait
  wait_sem : bit (bits (tensixInsnParam wait) 2 0x1FFF) s = true
  wait_cond : bit (tensixInsnParam wait &&& 0x3) cond = true
  work_ok : ∀ insn ∈ work, IsWork insn
  close_opcode : tensixInsnOpcode close = closing
  close_sem : semSelected (tensixInsnParam close) s = true
  covers : ∀ insn ∈ work ++ [close], Covers wait insn

abbrev MathRound (s : Fin 8) := Round s 1 IsMath opcodeSempost

abbrev PackRound (s : Fin 8) := Round s 0 IsPacr opcodeSemget

structure Guardable (insn : Word) : Prop where
  bits_ne : insnGetBlockBits (tensixInsnOpcode insn) ≠ 0
  not_wait : isWaitOpcode (tensixInsnOpcode insn) = false

theorem Covers.of_mask {wait insn : Word} (mask op : Word) (hw : isWaitOpcode (tensixInsnOpcode wait) = true)
    (hm : bits (tensixInsnParam wait) 15 0x1FF = mask) (h0 : mask ≠ 0) (ho : tensixInsnOpcode insn = op)
    (hc : insnGetBlockBits op &&& mask = insnGetBlockBits op) : Covers wait insn := by
  rwa [Covers, waitGateLatch_blockMask _ hw, hm, if_neg h0, ho]

section guardable

variable {insn : Word}

theorem Guardable.of_bits {b : Word} (hb : insnGetBlockBits (tensixInsnOpcode insn) = b) (h0 : b ≠ 0)
    (h1 : b ≠ 0x1FF) : Guardable insn := by
  refine ⟨hb ▸ h0, Bool.eq_false_iff.mpr fun hw => h1 ?_⟩
  simp only [isWaitOpcode, Bool.or_eq_true, decide_eq_true_eq] at hw
  rw [← hb]
  obtain (h | h) | h := hw <;> rw [h] <;> decide

theorem isSemOpcode_bits (h : isSemOpcode (tensixInsnOpcode insn) = true) :
    insnGetBlockBits (tensixInsnOpcode insn) = 0x2 := by
  simp only [isSemOpcode, Bool.or_eq_true, decide_eq_true_eq] at h
  obtain (h | h) | h := h <;> rw [h] <;> decide

theorem IsMath.guardable (h : IsMath insn) :
    Guardable insn ∧ isSemOpcode (tensixInsnOpcode insn) = false := by
  refine ⟨?_, Bool.eq_false_iff.mpr fun hs => ?_⟩
  · obtain h | h := h <;> exact .of_bits h (by decide) (by decide)
  · obtain h | h := h <;> exact absurd (h.symm.trans (isSemOpcode_bits hs)) (by decide)

theorem IsPacr.guardable (h : IsPacr insn) :
    Guardable insn ∧ isSemOpcode (tensixInsnOpcode insn) = false := by
  have hb : insnGetBlockBits (tensixInsnOpcode insn) = 0x5 := by
    rw [show tensixInsnOpcode insn = opcodePacr from h]
    decide
  refine ⟨.of_bits hb (by decide) (by decide), ?_⟩
  rw [show tensixInsnOpcode insn = opcodePacr from h]
  decide

theorem Guardable.matches {wait : Word} (h : Guardable insn) (hc : Covers wait insn)
    (hw : tensixInsnOpcode wait = opcodeSemwait) (gate : TensixWaitGate) :
    waitGateMatches (waitGateLatch gate wait) (tensixInsnOpcode insn) = true := by
  have hwait : isWaitOpcode (tensixInsnOpcode wait) = true := by rw [hw]; decide
  have hmask : (waitGateLatch gate wait).blockMask = (waitGateLatch waitGateClear wait).blockMask := by
    rw [waitGateLatch_blockMask gate hwait, waitGateLatch_blockMask waitGateClear hwait]
  have hnop : tensixInsnOpcode insn ≠ opcodeNop := by
    intro hn
    exact h.bits_ne (by rw [hn]; decide)
  simp only [waitGateMatches, hnop, false_and, if_false, hmask, decide_eq_true_eq]
  rw [show _ &&& _ = _ from hc]
  exact h.bits_ne

end guardable

namespace Round

variable {s : Fin 8} {cond : ℕ} {IsWork : Word → Prop} {closing : Word} (r : Round s cond IsWork closing)

def words : List Word := r.wait :: (r.work ++ [r.close])

theorem words_ne : r.words ≠ [] := List.cons_ne_nil _ _

theorem latch_eq (gate : TensixWaitGate) :
    (waitGateLatch gate r.wait).opcode = opcodeSemwait ∧
      (waitGateLatch gate r.wait).conditionMask = tensixInsnParam r.wait &&& 0x3 ∧
      (waitGateLatch gate r.wait).semaphoreMask = bits (tensixInsnParam r.wait) 2 0x1FFF := by
  have hc : tensixInsnParam r.wait &&& 0x03 ≠ 0 := by
    intro h
    have := r.wait_cond
    rw [h] at this
    simp [bit] at this
  unfold waitGateLatch
  dsimp only
  rw [r.wait_opcode, if_neg (by decide), if_pos rfl, if_neg hc]
  exact ⟨rfl, rfl, rfl⟩

theorem mem_selected (gate : TensixWaitGate) :
    s ∈ (List.finRange 8).filter fun i : Fin 8 => bit (waitGateLatch gate r.wait).semaphoreMask i := by
  rw [(r.latch_eq gate).2.2, List.mem_filter]
  exact ⟨List.mem_finRange s, r.wait_sem⟩

end Round

theorem MathRound.met {s : Fin 8} (r : MathRound s) {gate : TensixWaitGate} {core : Tensix}
    (h : waitGateMet (waitGateLatch gate r.wait) core = true) :
    (core.sem s).toNat < (core.semMax s).toNat := by
  have hs := r.mem_selected gate
  obtain ⟨hop, hcond, -⟩ := r.latch_eq gate
  by_contra hn
  have hany : ((List.finRange 8).filter fun i : Fin 8 =>
      bit (waitGateLatch gate r.wait).semaphoreMask i).any
        (fun i => (core.semMax i).toNat ≤ (core.sem i).toNat) = true :=
    List.any_eq_true.mpr ⟨s, hs, by simpa using hn⟩
  have hbit : bit (waitGateLatch gate r.wait).conditionMask 1 = true := hcond ▸ r.wait_cond
  unfold waitGateMet at h
  rw [hop, if_neg (by decide), if_pos rfl] at h
  dsimp only at h
  rw [hany, hbit] at h
  simp at h

theorem PackRound.met {s : Fin 8} (r : PackRound s) {gate : TensixWaitGate} {core : Tensix}
    (h : waitGateMet (waitGateLatch gate r.wait) core = true) : 0 < (core.sem s).toNat := by
  have hs := r.mem_selected gate
  obtain ⟨hop, hcond, -⟩ := r.latch_eq gate
  by_contra hn
  have hzero : core.sem s = 0 := by
    apply BitVec.eq_of_toNat_eq
    simpa using hn
  have hany : ((List.finRange 8).filter fun i : Fin 8 =>
      bit (waitGateLatch gate r.wait).semaphoreMask i).any (fun i => core.sem i = 0) = true :=
    List.any_eq_true.mpr ⟨s, hs, by simpa using hzero⟩
  have hbit : bit (waitGateLatch gate r.wait).conditionMask 0 = true := hcond ▸ r.wait_cond
  unfold waitGateMet at h
  rw [hop, if_neg (by decide), if_pos rfl] at h
  dsimp only at h
  rw [hany, hbit] at h
  simp at h

/-- The gate of a thread that has run `done` of a round: before the SEMWAIT it is open, behind it
latched or, once `ok` has been seen, open. -/
def Guarded (wait : Word) (done : List Word) (gate : TensixWaitGate) (ok : Prop) : Prop :=
  done = [] ∧ gate.active = false ∨
    done = [wait] ∧ (∃ g, gate = waitGateLatch g wait) ∨
    done ≠ [] ∧ gate.active = false ∧ ok

namespace Guarded

variable {wait : Word} {done : List Word} {gate : TensixWaitGate} {ok ok' : Prop}

theorem mono (h : Guarded wait done gate ok) (hi : ok → ok') : Guarded wait done gate ok' := by
  obtain h | h | ⟨hd, ha, hk⟩ := h
  · exact .inl h
  · exact .inr (.inl h)
  · exact .inr (.inr ⟨hd, ha, hi hk⟩)

theorem of_long (h : Guarded wait done gate ok) (hl : 1 < done.length) : ok := by
  obtain ⟨rfl, -⟩ | ⟨rfl, -⟩ | ⟨-, -, hk⟩ := h
  · simp at hl
  · simp at hl
  · exact hk

theorem held {u x : CopView} {insn : Word} {tid : Tid} {counted : Bool}
    (h : Guarded wait done u.thread.waitGate ok)
    (hmet : ∀ g, waitGateMet (waitGateLatch g wait) u.core = true → ok)
    (hx : verdict u insn tid = .held counted x) : Guarded wait done x.thread.waitGate ok := by
  obtain rfl | ⟨rfl, hm, hcheck⟩ := verdict_held hx
  · exact h
  · have ha := meetsGate_active hm
    obtain ⟨-, hn⟩ | ⟨rfl, g, hg⟩ | ⟨-, hn, -⟩ := h
    · rw [hn] at ha
      cases ha
    · refine .inr (.inr ⟨List.cons_ne_nil _ _, rfl, hmet g ?_⟩)
      have := waitGateCheck_met ha hcheck
      rwa [hg] at this
    · rw [hn] at ha
      cases ha

theorem passed {u x : CopView} {insn : Word} {tid : Tid} (h : Guarded wait done u.thread.waitGate ok)
    (hd : done ≠ []) (hmet : ∀ g, waitGateMet (waitGateLatch g wait) u.core = true → ok)
    (hi : Guardable insn) (hw : tensixInsnOpcode wait = opcodeSemwait) (hc : Covers wait insn)
    (hx : verdict u insn tid = .passed x) : x.thread.waitGate.active = false ∧ ok := by
  obtain ⟨rfl, -⟩ | ⟨-, g, hg⟩ | ⟨-, hn, hk⟩ := h
  · exact absurd rfl hd
  · have hm : meetsGate u insn = true := by
      rw [meetsGate, hg, waitGateLatch_active, hi.matches hc hw g]
      rfl
    refine ⟨?_, hmet g (hg ▸ verdict_passed_met hx hm)⟩
    obtain ⟨-, hn⟩ | ⟨hk, -⟩ | ⟨hwait, -⟩ := verdict_passed_gate hx
    · simp [hn] at hm
    · rw [hk]
      rfl
    · simp [hi.not_wait] at hwait
  · have hm : meetsGate u insn = false := by
      rw [meetsGate, hn]
      rfl
    refine ⟨?_, hk⟩
    obtain ⟨hk, -⟩ | ⟨-, hm'⟩ | ⟨hwait, -⟩ := verdict_passed_gate hx
    · rw [hk]
      exact hn
    · simp [hm] at hm'
    · simp [hi.not_wait] at hwait

end Guarded

namespace Round

variable {s : Fin 8} {cond : ℕ} {IsWork : Word → Prop} {closing : Word} (r : Round s cond IsWork closing)

theorem passed {u x : CopView} {insn : Word} {tid : Tid} {done rest : List Word} {ok : Prop}
    (hwork : ∀ insn, IsWork insn → Guardable insn ∧ isSemOpcode (tensixInsnOpcode insn) = false)
    (hclose : insnGetBlockBits closing = 0x2)
    (hg : Guarded r.wait done u.thread.waitGate ok)
    (hmet : ∀ g, waitGateMet (waitGateLatch g r.wait) u.core = true → ok)
    (hs : done ++ insn :: rest = r.words) (hx : verdict u insn tid = .passed x) :
    rest ≠ [] ∧ x.core.semaphores = u.core.semaphores ∧
        Guarded r.wait (done ++ [insn]) x.thread.waitGate ok ∨
      rest = [] ∧ insn = r.close ∧ ok ∧ x.thread.waitGate.active = false := by
  cases done with
  | nil =>
    obtain ⟨rfl, rfl⟩ : insn = r.wait ∧ rest = r.work ++ [r.close] := by simpa [words] using hs
    have hwait : isWaitOpcode (tensixInsnOpcode r.wait) = true := by rw [r.wait_opcode]; decide
    refine .inl ⟨by simp, verdict_passed_semaphores hx (by rw [r.wait_opcode]; decide), ?_⟩
    exact .inr (.inl ⟨rfl, verdict_passed_wait hx hwait⟩)
  | cons w done =>
    obtain ⟨rfl, hbehind⟩ : w = r.wait ∧ done ++ insn :: rest = r.work ++ [r.close] := by
      simpa [words] using hs
    have hmem : insn ∈ r.work ++ [r.close] := by
      rw [← hbehind]
      simp
    obtain ⟨hrest, rfl⟩ | ⟨hrest, hin⟩ := split_last hbehind
    · have hguard : Guardable r.close := .of_bits (r.close_opcode ▸ hclose) (by decide) (by decide)
      obtain ⟨ha, hk⟩ := hg.passed (List.cons_ne_nil _ _) hmet hguard r.wait_opcode (r.covers _ hmem) hx
      exact .inr ⟨hrest, rfl, hk, ha⟩
    · obtain ⟨hguard, hsem⟩ := hwork insn (r.work_ok insn hin)
      obtain ⟨ha, hk⟩ := hg.passed (List.cons_ne_nil _ _) hmet hguard r.wait_opcode (r.covers _ hmem) hx
      exact .inl ⟨hrest, verdict_passed_semaphores hx hsem, .inr (.inr ⟨by simp, ha, hk⟩)⟩

end Round

section thread

variable {s : Fin 8} {cond : ℕ} {IsWork : Word → Prop} {closing : Word}
variable (rounds : ℕ → Round s cond IsWork closing)

structure RoundAt (r : ℕ) (done : List Word) (ok : Prop) (thread : TensixThreadCop) : Prop where
  place : ∃ rest, InRound (fun k => (rounds k).words) (ranWords thread.log) r done rest
  guarded : Guarded (rounds r).wait done thread.waitGate ok

theorem RoundAt.mono {r : ℕ} {done : List Word} {ok ok' : Prop} {thread : TensixThreadCop}
    (h : RoundAt rounds r done ok thread) (hi : ok → ok') : RoundAt rounds r done ok' thread :=
  ⟨h.place, h.guarded.mono hi⟩

theorem RoundAt.step {r : ℕ} {done : List Word} {ok : Prop} {v v' : CopView} {tid : Tid} {b : Bool} {n : ℕ}
    (h : RoundAt rounds r done ok v.thread)
    (hwork : ∀ insn, IsWork insn → Guardable insn ∧ isSemOpcode (tensixInsnOpcode insn) = false)
    (hclose : insnGetBlockBits closing = 0x2)
    (hmet : ∀ g, waitGateMet (waitGateLatch g (rounds r).wait) v.core = true → ok)
    (hs : tensixCopStep v tid = (b, v'))
    (hp : ranWords v'.thread.log <+: firstRounds (fun k => (rounds k).words) n) :
    (v'.core.semaphores = v.core.semaphores ∧ ∃ done', RoundAt rounds r done' ok v'.thread) ∨
      ok ∧ (∃ u x, u.core = v.core ∧ verdict u (rounds r).close tid = .passed x ∧ v'.core = x.core) ∧
        ∀ ok', RoundAt rounds (r + 1) [] ok' v'.thread := by
  obtain ⟨⟨rest, hin⟩, hg⟩ := h
  cases StepCase.of_eq hs with
  | halted => exact .inl ⟨rfl, done, ⟨rest, hin⟩, hg⟩
  | empty => exact .inl ⟨rfl, done, ⟨rest, hin⟩, hg⟩
  | @held insn u x counted _ hf hx =>
    obtain ⟨-, hcore, -, hthread⟩ := verdict_held_thread hx
    have hlog : x.thread.log = v.thread.log := by rw [hthread]; exact hf.log
    refine .inl ⟨by rw [CopView.heldAt_core, hcore, hf.core], done, ⟨rest, ?_⟩, ?_⟩
    · rwa [CopView.heldAt_log, hlog]
    · rw [CopView.heldAt_gate]
      rw [← hf.core] at hmet
      exact (hf.gate ▸ hg).held hmet hx
  | @passed insn u x _ hf hx =>
    have hran : ranWords (x.complete (.ran x.thread.currentOrigin insn)).thread.log =
        ranWords v.thread.log ++ [insn] := by
      show ranWords (x.thread.log ++ _) = _
      rw [(verdict_passed hx).log, hf.log]
      simp [ranWords]
    rw [hran] at hp
    obtain ⟨rest', rfl⟩ := hin.next hp
    rw [← hf.core] at hmet
    obtain ⟨hrest, hsem, hg'⟩ | ⟨rfl, hins, hk, ha⟩ :=
      (rounds r).passed hwork hclose (hf.gate ▸ hg) hmet hin.split hx
    · refine .inl ⟨hsem.trans (by rw [hf.core]), done ++ [insn], ⟨rest', ?_⟩, hg'⟩
      rw [hran]
      exact hin.advance hrest
    · refine .inr ⟨hk, ⟨u, x, hf.core, hins ▸ hx, rfl⟩,
        fun ok' => ⟨⟨(rounds (r + 1)).words, ?_⟩, .inl ⟨rfl, ha⟩⟩⟩
      rw [hran]
      exact hin.advance_last (rounds (r + 1)).words_ne

end thread

section pipeline

variable {s : Fin 8} {m : ℕ} (math : ℕ → MathRound s) (pack : ℕ → PackRound s)

/-- The math thread is in round `r₁` and the pack thread in round `r₂`; the semaphore holds the
rounds between them. -/
structure PipeAt (m r₁ r₂ : ℕ) (done₁ done₂ : List Word) (cop : TensixCop) : Prop where
  value : (cop.core.sem s).toNat + r₂ = r₁
  bound : (cop.core.sem s).toNat ≤ m
  max : (cop.core.semMax s).toNat = m
  math : RoundAt math r₁ done₁ ((cop.core.sem s).toNat < m) (cop.threads 1)
  pack : RoundAt pack r₂ done₂ (0 < (cop.core.sem s).toNat) (cop.threads 2)

variable {math pack}

theorem semaphores_sem {core core' : Tensix} (h : core'.semaphores = core.semaphores) (s : Fin 8) :
    core'.sem s = core.sem s ∧ core'.semMax s = core.semMax s := by
  simp only [Tensix.semaphores, Prod.mk.injEq] at h
  exact ⟨congrFun h.1 s, congrFun h.2 s⟩

theorem sempost_value {core : Tensix} {imm : Word} {tid : Tid} (hs : semSelected imm s = true)
    (hlt : (core.sem s).toNat < 15) :
    ((ttsempost core imm tid).sem s).toNat = (core.sem s).toNat + 1 := by
  simp only [ttsempost, hs, hlt, and_self, if_true, BitVec.toNat_add]
  simp
  omega

theorem semget_value {core : Tensix} {imm : Word} (hs : semSelected imm s = true)
    (hlt : 0 < (core.sem s).toNat) : ((ttsemget core imm).sem s).toNat = (core.sem s).toNat - 1 := by
  have hle : (1 : Word) ≤ core.sem s := by
    rw [BitVec.le_def]
    exact hlt
  simp only [ttsemget, hs, hlt, gt_iff_lt, and_self, if_true, BitVec.toNat_sub_of_le hle]
  rfl

theorem PipeAt.math_step {r₁ r₂ n : ℕ} {done₁ done₂ : List Word} {cop : TensixCop} {v : CopView} {b : Bool}
    (h : PipeAt math pack m r₁ r₂ done₁ done₂ cop) (hm : m ≤ 15)
    (hs : tensixCopStep (cop.view 1) 1 = (b, v))
    (hp : ranWords v.thread.log <+: firstRounds (fun k => (math k).words) n) :
    ∃ r₁' done₁', PipeAt math pack m r₁' r₂ done₁' done₂ (cop.putView 1 v) := by
  have hmet (g : TensixWaitGate)
      (hg : waitGateMet (waitGateLatch g (math r₁).wait) (cop.view 1).core = true) :
      (cop.core.sem s).toNat < m := by
    have := (math r₁).met hg
    rwa [cop.view_core, h.max] at this
  have hpack : (cop.putView 1 v).threads 2 = cop.threads 2 := cop.putView_thread_ne v (by decide)
  obtain ⟨hsem, done₁', hat⟩ | ⟨hlt, ⟨u, x, hu, hx, hv⟩, hat⟩ :=
    RoundAt.step math h.math (fun _ => IsMath.guardable) (by decide) hmet hs hp
  · obtain ⟨hval, hmax⟩ := semaphores_sem hsem s
    refine ⟨r₁, done₁', ⟨?_, ?_, ?_, ?_, ?_⟩⟩ <;> simp only [TensixCop.putView_core, hval, hmax]
    · exact h.value
    · exact h.bound
    · exact h.max
    · simpa using hat
    · rw [hpack]
      exact h.pack
  · have hpost := verdict_passed_sempost hx (math r₁).close_opcode
    have hval : (v.core.sem s).toNat = (cop.core.sem s).toNat + 1 := by
      rw [hv, hpost, hu]
      exact sempost_value (math r₁).close_sem (by simp only [TensixCop.view_core]; omega)
    have hmax : v.core.semMax s = cop.core.semMax s := by
      rw [hv, hpost, hu]
      rfl
    have hvalue := h.value
    refine ⟨r₁ + 1, [], ⟨?_, ?_, ?_, ?_, ?_⟩⟩ <;> simp only [TensixCop.putView_core, hval, hmax]
    · omega
    · omega
    · exact h.max
    · simpa using hat _
    · rw [hpack]
      exact h.pack.mono pack fun _ => by omega

theorem PipeAt.pack_step {r₁ r₂ n : ℕ} {done₁ done₂ : List Word} {cop : TensixCop} {v : CopView} {b : Bool}
    (h : PipeAt math pack m r₁ r₂ done₁ done₂ cop)
    (hs : tensixCopStep (cop.view 2) 2 = (b, v))
    (hp : ranWords v.thread.log <+: firstRounds (fun k => (pack k).words) n) :
    ∃ r₂' done₂', PipeAt math pack m r₁ r₂' done₁ done₂' (cop.putView 2 v) := by
  have hmet (g : TensixWaitGate)
      (hg : waitGateMet (waitGateLatch g (pack r₂).wait) (cop.view 2).core = true) :
      0 < (cop.core.sem s).toNat := (pack r₂).met hg
  have hmath : (cop.putView 2 v).threads 1 = cop.threads 1 := cop.putView_thread_ne v (by decide)
  obtain ⟨hsem, done₂', hat⟩ | ⟨hlt, ⟨u, x, hu, hx, hv⟩, hat⟩ :=
    RoundAt.step pack h.pack (fun _ => IsPacr.guardable) (by decide) hmet hs hp
  · obtain ⟨hval, hmax⟩ := semaphores_sem hsem s
    refine ⟨r₂, done₂', ⟨?_, ?_, ?_, ?_, ?_⟩⟩ <;> simp only [TensixCop.putView_core, hval, hmax]
    · exact h.value
    · exact h.bound
    · exact h.max
    · rw [hmath]
      exact h.math
    · simpa using hat
  · have hget := verdict_passed_semget hx (pack r₂).close_opcode
    have hval : (v.core.sem s).toNat = (cop.core.sem s).toNat - 1 := by
      rw [hv, hget, hu]
      exact semget_value (pack r₂).close_sem hlt
    have hmax : v.core.semMax s = cop.core.semMax s := by
      rw [hv, hget, hu]
      rfl
    have hvalue := h.value
    have hbound := h.bound
    refine ⟨r₂ + 1, [], ⟨?_, ?_, ?_, ?_, ?_⟩⟩ <;> simp only [TensixCop.putView_core, hval, hmax]
    · omega
    · omega
    · exact h.max
    · rw [hmath]
      exact h.math.mono math fun _ => by omega
    · simpa using hat _

structure Fresh (thread : TensixThreadCop) : Prop where
  wellFormed : thread.insnFifo.WellFormed
  fifo : thread.insnFifo.contents = []
  current : thread.currentInsn = none
  log : thread.log = []
  gate : thread.waitGate.active = false

theorem QueueRun.ran_initial {t : Tid} {ls : List Label} {cop cop' : TensixCop} (h : QueueRun t ls cop cop')
    (hf : Fresh (cop.threads t)) : ranWords (cop'.threads t).log <+: acceptedPushes t ls := by
  obtain ⟨-, more, hlog, hq⟩ := h
  rw [hf.log] at hlog
  simp only [CopView.queue, TensixCop.view_thread, hf.fifo, hf.current, Option.toList_none, List.nil_append,
    List.append_nil] at hq
  rw [hlog, ← hq]
  exact List.prefix_append _ _

theorem tensixCopPush_frame {v v' : CopView} {insn : Word} {ok : Bool} (h : tensixCopPush v insn = (ok, v')) :
    v'.core = v.core ∧ ranWords v'.thread.log = ranWords v.thread.log ∧
      v'.thread.waitGate = v.thread.waitGate := by
  unfold tensixCopPush at h
  split at h
  split_ifs at h <;> cases h
  · refine ⟨rfl, ?_, rfl⟩
    show ranWords (v.thread.log ++ _) = _
    simp [ranWords]
  · exact ⟨rfl, rfl, rfl⟩

theorem RoundAt.congr {cond : ℕ} {IsWork : Word → Prop} {closing : Word}
    {rounds : ℕ → Round s cond IsWork closing} {r : ℕ} {done : List Word} {ok : Prop}
    {thread thread' : TensixThreadCop} (h : RoundAt rounds r done ok thread)
    (hl : ranWords thread'.log = ranWords thread.log) (hg : thread'.waitGate = thread.waitGate) :
    RoundAt rounds r done ok thread' := by
  refine ⟨?_, ?_⟩
  · rw [hl]
    exact h.place
  · rw [hg]
    exact h.guarded

theorem PipeAt.frame {r₁ r₂ : ℕ} {done₁ done₂ : List Word} {cop cop' : TensixCop}
    (h : PipeAt math pack m r₁ r₂ done₁ done₂ cop) (hs : cop'.core.sem s = cop.core.sem s)
    (hmax : cop'.core.semMax s = cop.core.semMax s)
    (hl : ∀ t, t ≠ 0 → ranWords (cop'.threads t).log = ranWords (cop.threads t).log ∧
      (cop'.threads t).waitGate = (cop.threads t).waitGate) :
    PipeAt math pack m r₁ r₂ done₁ done₂ cop' := by
  refine ⟨?_, ?_, ?_, ?_, ?_⟩ <;> simp only [hs, hmax]
  · exact h.value
  · exact h.bound
  · exact h.max
  · exact h.math.congr (hl 1 (by decide)).1 (hl 1 (by decide)).2
  · exact h.pack.congr (hl 2 (by decide)).1 (hl 2 (by decide)).2

def PipeActs (s : Fin 8) (cop : TensixCop) (l : Label) (cop' : TensixCop) : Prop :=
  Acts cop l cop' ∧
    (l.tid = 0 → cop'.core.sem s = cop.core.sem s ∧ cop'.core.semMax s = cop.core.semMax s) ∧
    (l.tid ≠ 0 → l.isFifo)

theorem PipeAt.acts {r₁ r₂ n₁ n₂ : ℕ} {done₁ done₂ : List Word} {cop cop' : TensixCop} {l : Label}
    (h : PipeAt math pack m r₁ r₂ done₁ done₂ cop) (hm : m ≤ 15) (hl : PipeActs s cop l cop')
    (hp₁ : ranWords (cop'.threads 1).log <+: firstRounds (fun k => (math k).words) n₁)
    (hp₂ : ranWords (cop'.threads 2).log <+: firstRounds (fun k => (pack k).words) n₂) :
    ∃ r₁ r₂ done₁ done₂, PipeAt math pack m r₁ r₂ done₁ done₂ cop' := by
  obtain ⟨⟨v, hv, rfl⟩, h0, hfifo⟩ := hl
  obtain ⟨tid, a, ok⟩ := l
  by_cases ht : tid = 0
  · subst ht
    obtain ⟨hs, hmax⟩ := h0 rfl
    refine ⟨r₁, r₂, done₁, done₂, h.frame hs hmax fun t ht => ?_⟩
    rw [cop.putView_thread_ne v ht]
    exact ⟨rfl, rfl⟩
  · cases a with
    | issue insn => cases hfifo ht
    | push insn =>
      obtain ⟨hcore, hran, hgate⟩ := tensixCopPush_frame hv
      have hcore : v.core = cop.core := hcore
      refine ⟨r₁, r₂, done₁, done₂, h.frame ?_ ?_ fun t _ => ?_⟩
      · rw [cop.putView_core, hcore]
      · rw [cop.putView_core, hcore]
      · by_cases htt : t = tid
        · subst htt
          rw [cop.putView_thread_self]
          exact ⟨hran, hgate⟩
        · rw [cop.putView_thread_ne v htt]
          exact ⟨rfl, rfl⟩
    | step =>
      obtain rfl | rfl : tid = 1 ∨ tid = 2 := (by decide : ∀ t : Tid, t ≠ 0 → t = 1 ∨ t = 2) tid ht
      · rw [cop.putView_thread_self] at hp₁
        obtain ⟨r₁', done₁', h'⟩ := h.math_step hm hv hp₁
        exact ⟨r₁', r₂, done₁', done₂, h'⟩
      · rw [cop.putView_thread_self] at hp₂
        obtain ⟨r₂', done₂', h'⟩ := h.pack_step hv hp₂
        exact ⟨r₁, r₂', done₁, done₂', h'⟩

theorem PipeAt.run {n₁ n₂ : ℕ} {cop cop' : TensixCop} {ls : List Label} (hm : m ≤ 15)
    (hf₁ : Fresh (cop.threads 1)) (hf₂ : Fresh (cop.threads 2))
    (h : PipeAt math pack m 0 0 [] [] cop) (hrun : Run (PipeActs s) cop ls cop')
    (hp₁ : acceptedPushes 1 ls <+: firstRounds (fun k => (math k).words) n₁)
    (hp₂ : acceptedPushes 2 ls <+: firstRounds (fun k => (pack k).words) n₂) :
    QueueRun 1 ls cop cop' ∧ QueueRun 2 ls cop cop' ∧
      ∃ r₁ r₂ done₁ done₂, PipeAt math pack m r₁ r₂ done₁ done₂ cop' := by
  let I (ls : List Label) (c : TensixCop) : Prop :=
    acceptedPushes 1 ls <+: firstRounds (fun k => (math k).words) n₁ →
    acceptedPushes 2 ls <+: firstRounds (fun k => (pack k).words) n₂ →
      QueueRun 1 ls cop c ∧ QueueRun 2 ls cop c ∧
        ∃ r₁ r₂ done₁ done₂, PipeAt math pack m r₁ r₂ done₁ done₂ c
  have hstep (ls : List Label) (c : TensixCop) (l : Label) (c' : TensixCop) (hi : I ls c)
      (hl : PipeActs s c l c') : I (ls ++ [l]) c' := by
    intro hp₁ hp₂
    have hle (t : Tid) : acceptedPushes t ls <+: acceptedPushes t (ls ++ [l]) := by
      rw [acceptedPushes_append]
      exact List.prefix_append _ _
    obtain ⟨hq₁, hq₂, r₁, r₂, done₁, done₂, hat⟩ := hi ((hle 1).trans hp₁) ((hle 2).trans hp₂)
    have hq₁' := hq₁.trans (queueRun_step 1 (fun ht => hl.2.2 (by rw [ht]; decide)) hq₁.wellFormed hl.1)
    have hq₂' := hq₂.trans (queueRun_step 2 (fun ht => hl.2.2 (by rw [ht]; decide)) hq₂.wellFormed hl.1)
    exact ⟨hq₁', hq₂', hat.acts hm hl ((hq₁'.ran_initial hf₁).trans hp₁) ((hq₂'.ran_initial hf₂).trans hp₂)⟩
  have hinit : I [] cop := fun _ _ => ⟨queueRun 1 (.nil _) (by simp) hf₁.wellFormed,
    queueRun 2 (.nil _) (by simp) hf₂.wellFormed, 0, 0, [], [], h⟩
  exact hrun.history hstep hinit hp₁ hp₂

theorem PipeAt.init {cop : TensixCop} (hf₁ : Fresh (cop.threads 1)) (hf₂ : Fresh (cop.threads 2))
    (hs : cop.core.sem s = 0) (hmax : (cop.core.semMax s).toNat = m) : PipeAt math pack m 0 0 [] [] cop := by
  refine ⟨by simp [hs], by simp [hs], hmax, ⟨⟨(math 0).words, ?_⟩, .inl ⟨rfl, hf₁.gate⟩⟩,
    ⟨⟨(pack 0).words, ?_⟩, .inl ⟨rfl, hf₂.gate⟩⟩⟩
  · rw [hf₁.log]
    exact InRound.start _ (math 0).words_ne
  · rw [hf₂.log]
    exact InRound.start _ (pack 0).words_ne

end pipeline

/-- In every interleaving the semaphore stays within its maximum, a PACR of round `k` runs only
after the SEMPOST of round `k`, and a math instruction of round `k + m` only after the SEMGET of
round `k`. -/
theorem semaphore_guards_pipeline (s : Fin 8) (m n₁ n₂ : ℕ) (hm : m ≤ 15) (math : ℕ → MathRound s)
    (pack : ℕ → PackRound s) {cop cop' : TensixCop} {ls : List Label}
    (hs : cop.core.sem s = 0) (hmax : (cop.core.semMax s).toNat = m)
    (hf₁ : Fresh (cop.threads 1)) (hf₂ : Fresh (cop.threads 2)) (hrun : Run (PipeActs s) cop ls cop')
    (hp₁ : acceptedPushes 1 ls <+: firstRounds (fun k => (math k).words) n₁)
    (hp₂ : acceptedPushes 2 ls <+: firstRounds (fun k => (pack k).words) n₂) :
    (cop'.core.sem s).toNat ≤ m ∧
      ranWords (cop'.threads 1).log <+: firstRounds (fun k => (math k).words) n₁ ∧
      ranWords (cop'.threads 2).log <+: firstRounds (fun k => (pack k).words) n₂ ∧
      (∀ k i, i < (pack k).work.length →
        (firstRounds (fun k => (pack k).words) k).length + (1 + i) < (ranWords (cop'.threads 2).log).length →
        (firstRounds (fun k => (math k).words) (k + 1)).length ≤ (ranWords (cop'.threads 1).log).length) ∧
      ∀ k i, i < (math (k + m)).work.length →
        (firstRounds (fun k => (math k).words) (k + m)).length + (1 + i) <
          (ranWords (cop'.threads 1).log).length →
        (firstRounds (fun k => (pack k).words) (k + 1)).length ≤ (ranWords (cop'.threads 2).log).length := by
  obtain ⟨hq₁, hq₂, r₁, r₂, done₁, done₂, hat⟩ := (PipeAt.init hf₁ hf₂ hs hmax).run hm hf₁ hf₂ hrun hp₁ hp₂
  obtain ⟨⟨rest₁, hin₁⟩, hg₁⟩ := hat.math
  obtain ⟨⟨rest₂, hin₂⟩, hg₂⟩ := hat.pack
  have hvalue := hat.value
  have hbound := hat.bound
  refine ⟨hbound, (hq₁.ran_initial hf₁).trans hp₁, (hq₂.ran_initial hf₂).trans hp₂, ?_, ?_⟩
  · intro k i _ hlong
    refine hin₁.length_le ?_
    obtain hk | ⟨rfl, hd⟩ := hin₂.place hlong
    · omega
    · have := hg₂.of_long (by omega)
      omega
  · intro k i _ hlong
    refine hin₂.length_le ?_
    obtain hk | ⟨hk, hd⟩ := hin₁.place hlong
    · omega
    · have := hg₁.of_long (by omega)
      omega

def mathDoneRound : MathRound 7 where
  wait := 0xA6210202
  work := [0x37000000]
  close := 0xA4000200
  wait_opcode := by decide
  wait_sem := by decide
  wait_cond := by decide
  work_ok := by
    simp only [List.mem_singleton, forall_eq, IsMath, show tensixInsnOpcode 0x37000000 = 0x37 by decide]
    decide
  close_opcode := by decide
  close_sem := by decide
  covers := by
    simp only [List.cons_append, List.nil_append, List.forall_mem_cons, List.not_mem_nil, false_imp_iff,
      implies_true, and_true]
    exact ⟨.of_mask 0x42 0x37 (by decide) (by decide) (by decide) (by decide) (by decide),
      .of_mask 0x42 0xA4 (by decide) (by decide) (by decide) (by decide) (by decide)⟩

def packDoneRound : PackRound 7 where
  wait := 0xA6038201
  work := [0x41000000]
  close := 0xA5000200
  wait_opcode := by decide
  wait_sem := by decide
  wait_cond := by decide
  work_ok := by
    simp only [List.mem_singleton, forall_eq, IsPacr]
    decide
  close_opcode := by decide
  close_sem := by decide
  covers := by
    simp only [List.cons_append, List.nil_append, List.forall_mem_cons, List.not_mem_nil, false_imp_iff,
      implies_true, and_true]
    exact ⟨.of_mask 0x7 0x41 (by decide) (by decide) (by decide) (by decide) (by decide),
      .of_mask 0x7 0xA5 (by decide) (by decide) (by decide) (by decide) (by decide)⟩

def packedTrace : List Label :=
  [⟨2, .push 0xA6038201, true⟩, ⟨2, .push 0x41000000, true⟩, ⟨2, .step, true⟩, ⟨2, .step, false⟩,
    ⟨1, .push 0xA6210202, true⟩, ⟨1, .push 0x37000000, true⟩, ⟨1, .push 0xA4000200, true⟩,
    ⟨1, .step, true⟩, ⟨1, .step, true⟩, ⟨1, .step, true⟩, ⟨2, .step, true⟩]

theorem semaphore_guards_pipeline_packed :
    ∃ cop, Run (PipeActs 7) powerUp packedTrace cop ∧ (cop.core.sem 7).toNat ≤ 1 ∧
      (ranWords (cop.threads 2).log).length = 2 ∧ 3 ≤ (ranWords (cop.threads 1).log).length := by
  have h : CopRun powerUp packedTrace (powerUp.after 0 (packedTrace.map fun l => (l.tid, l.act))) :=
    TensixCop.exec_after (by decide)
  have hrun : Run (PipeActs 7) powerUp packedTrace _ := h.imp fun _ _ l hl hs =>
    ⟨hs, fun h0 => absurd h0 ((by decide : ∀ l ∈ packedTrace, l.tid ≠ 0) l hl),
      fun _ => (by decide : ∀ l ∈ packedTrace, l.isFifo) l hl⟩
  have hfresh (t : Tid) : Fresh (powerUp.threads t) := ⟨TensixThreadCop.init_wellFormed, rfl, rfl, rfl, rfl⟩
  obtain ⟨hle, -, -, hpack, -⟩ := semaphore_guards_pipeline 7 1 1 1 (by decide) (fun _ => mathDoneRound)
    (fun _ => packDoneRound) rfl (by decide) (hfresh 1) (hfresh 2) hrun (by decide) (by decide)
  exact ⟨_, hrun, hle, by decide, hpack 0 0 (by decide) (by decide)⟩

end Rv32Emu
