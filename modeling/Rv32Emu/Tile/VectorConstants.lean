import Rv32Emu.Cop.VectorRegisters
import Rv32Emu.Tile.Widths

namespace Rv32Emu

namespace TensixTile

def putView (tt : TensixTile) (cop : Coprocessor) (t : Tid) (v : CopView) : TensixTile :=
  { tt with
    core := v.core
    replay := Function.update tt.replay t v.replay
    cop := some { cop with threads := Function.update cop.threads t v.thread } }

def tensixReset (tt : TensixTile) : TensixTile :=
  match tt.cop with
  | none => tt
  | some cop =>
    let reset := Rv32Emu.tensixReset (tt.toCop cop)
    { tt with
      core := reset.core
      cop := some { cop with threads := reset.threads, halted := reset.halted, totalCycles := 0 } }

end TensixTile

/-- What is done to a tile: an action of a thread, a call that executes one instruction, a word load or
a store of a core, a reset and a clear. -/
inductive TileAction
  | thread (l : Label)
  | execute (tid : Tid) (insn : Word)
  | load (c : MemConfig) (addr : Word)
  | store (c : MemConfig) (s : StoreInsn)
  | reset
  | clear

inductive TileActs : TensixTile → TileAction → TensixTile → Prop
  | thread {tt : TensixTile} {cop : Coprocessor} {l : Label} {v : CopView} : tt.cop = some cop →
      ThreadActs l.tid ((tt.toCop cop).view l.tid) l.act l.ok v →
        TileActs tt (.thread l) (tt.putView cop l.tid v)
  | execute {tt : TensixTile} {cop : Coprocessor} {tid : Tid} {insn : Word} {v : CopView} {ok : Bool} :
      tt.cop = some cop → tensixExecuteInsn ((tt.toCop cop).view tid) insn tid = (ok, v) →
      TileActs tt (.execute tid insn) (tt.putView cop tid v)
  | load {tt : TensixTile} {c : MemConfig} {addr value : Word} {loc : Bytes} {d : CoreMem} :
      CoreMem.onMemReadW c ⟨tt, loc⟩ addr = (value, d) → TileActs tt (.load c addr) d.tile
  | store {tt : TensixTile} {c : MemConfig} {s : StoreInsn} {loc : Bytes} {fuel : ℕ} {d : CoreMem} :
      s.exec fuel c ⟨tt, loc⟩ = some d → TileActs tt (.store c s) d.tile
  | reset {tt : TensixTile} : TileActs tt .reset tt.tensixReset
  | clear {tt : TensixTile} : TileActs tt .clear tt.tensixClear

/-- The instructions that a thread completes between two states of the tile: its log has grown by them,
and they lead from one core to the other. -/
structure ExecutedBetween (tt : TensixTile) (is : List Item) (tt' : TensixTile) : Prop where
  core : Run CoreStep tt.core is tt'.core
  log : ∃ t cop cop', tt.cop = some cop ∧ tt'.cop = some cop' ∧ (∀ i ∈ is, i.tid = t) ∧
    (cop'.threads t).log = (cop.threads t).log ++ is.map Item.event

inductive Rewrites (r : ℕ) (tt : TensixTile) : TileAction → TensixTile → Prop
  | clear : Rewrites r tt .clear tt.tensixClear
  | execute {tid : Tid} {insn : Word} {tt' : TensixTile} : Configures insn r →
      Completes tid tt.core insn tt'.core →
      Rewrites r tt (.execute tid insn) tt'
  | within {a : TileAction} {tt' : TensixTile} {is : List Item} {i : Item} {insn : Word} :
      ExecutedBetween tt is tt' →
      i ∈ is → i.executed = some insn → Configures insn r → Rewrites r tt a tt'

section accesses

variable {tt tt' : TensixTile} {c : MemConfig}

theorem tensixMmioRead_core (tt : TensixTile) (coreId : ℤ) (addr : Word) :
    (tt.tensixMmioRead coreId addr).2.core = tt.core := by
  unfold TensixTile.tensixMmioRead
  dsimp only
  repeat' split
  all_goals rfl

theorem onMemReadW_core {loc : Bytes} {addr value : Word} {d : CoreMem}
    (h : CoreMem.onMemReadW c ⟨tt, loc⟩ addr = (value, d)) : d.tile.core = tt.core := by
  have hmmio := tensixMmioRead_core tt c.coreId addr
  unfold CoreMem.onMemReadW at h
  split at h
  · split at h
    · next hread =>
      cases h
      rw [hread] at hmmio
      exact hmmio
    · next hread =>
      cases h
      rw [hread] at hmmio
      exact hmmio
  · cases h
    rfl

theorem memoryWrite_sfpu (c : MemConfig) (d : CoreMem) (addr : Word) (n : ℕ) (data : Word) :
    (memoryWrite c d addr n data).tile.core.sfpu = d.tile.core.sfpu := by
  unfold memoryWrite
  cases (memoryPtr c addr.toNat).1 <;> rfl

theorem tensixMmioWrite_lreg {fuel : ℕ} {coreId : ℤ} {addr data : Word} {handled : Bool}
    (h : tt.tensixMmioWrite fuel coreId addr data = some (handled, tt')) :
    tt'.core.sfpu.lreg = tt.core.sfpu.lreg ∨ handled = true ∧ ∃ t, tt.pushInstrn fuel t data = some tt' := by
  have hcfg (a : ℕ) : (tt.noteCfgWrite a data).core.sfpu.lreg = tt.core.sfpu.lreg := by
    unfold TensixTile.noteCfgWrite TensixTile.noteRegister
    dsimp only
    split <;> rfl
  have hown (t : Tid) (a : ℕ) : (tt.writePerCore t a data).core = tt.core := by
    unfold TensixTile.writePerCore TensixTile.tensixWriteMopCfg
    dsimp only
    split_ifs <;> rfl
  unfold TensixTile.tensixMmioWrite at h
  dsimp only at h
  split at h
  · cases h
    exact .inl rfl
  split at h
  · cases h
    exact .inl rfl
  split at h
  · cases h
    exact .inl (congrArg (fun core : Tensix => core.sfpu.lreg) (hown _ _))
  split at h
  · split at h
    · next t _ =>
      obtain ⟨u, hu, he⟩ := Option.map_eq_some_iff.mp h
      cases he
      exact .inr ⟨rfl, t, hu⟩
    · cases h
      exact .inl rfl
  split at h
  · cases h
    exact .inl rfl
  split at h
  · cases h
    exact .inl (hcfg _)
  repeat' split at h
  all_goals
    cases h
    exact .inl rfl

theorem StoreInsn.exec_lreg {s : StoreInsn} {loc : Bytes} {fuel : ℕ} {d : CoreMem}
    (h : s.exec fuel c ⟨tt, loc⟩ = some d) :
    d.tile.core.sfpu.lreg = tt.core.sfpu.lreg ∨ ∃ t, tt.pushInstrn fuel t s.value = some d.tile := by
  have plain (tile : TensixTile) (n : ℕ) (data : Word) (hd : d = memoryWrite c ⟨tile, loc⟩ s.addr n data) :
      d.tile.core.sfpu.lreg = tile.core.sfpu.lreg := by
    rw [hd, memoryWrite_sfpu]
  unfold StoreInsn.exec at h
  split at h
  · unfold CoreMem.onMemWriteW at h
    split at h
    · split at h
      · cases h
      · next tile hmmio =>
        cases h
        obtain hsame | ⟨-, hpush⟩ := tensixMmioWrite_lreg hmmio
        · exact .inl hsame
        · exact .inr hpush
      · next tile hmmio =>
        obtain hsame | ⟨hhandled, -⟩ := tensixMmioWrite_lreg hmmio
        · exact .inl ((plain tile 4 _ (Option.some.inj h).symm).trans hsame)
        · cases hhandled
    · exact .inl (plain tt 4 _ (Option.some.inj h).symm)
  · exact .inl (plain tt 2 _ (Option.some.inj h).symm)
  · exact .inl (plain tt 1 _ (Option.some.inj h).symm)

end accesses

section steps

variable {tt tt' : TensixTile} {cop : Coprocessor} {t : Tid} {v w : CopView} {r : ℕ} {a : TileAction}

theorem pushDraining_traced {fuel : ℕ} {insn : Word} (h : pushDraining fuel v insn t = some w) :
    Traced t v w := by
  apply Loop.invariant (I := Traced t v) (Q := Traced t v) ?_ ?_ h (.refl v)
  · intro s s' hs hturn
    cases hpush : tensixCopPush s insn with
    | mk room u =>
      rw [hpush] at hturn
      cases room with
      | true => cases hturn
      | false =>
        cases hstep : tensixCopStep u t with
        | mk went x =>
          simp only [hstep] at hturn
          cases went <;> cases hturn
          exact hs.trans ((tensixCopPush_traced hpush).trans (tensixCopStep_traced hstep))
  · intro s w hs hturn
    cases hpush : tensixCopPush s insn with
    | mk room u =>
      rw [hpush] at hturn
      cases room with
      | true =>
        cases hturn
        exact hs.trans (tensixCopPush_traced hpush)
      | false =>
        cases hstep : tensixCopStep u t with
        | mk went x =>
          simp only [hstep] at hturn
          cases went <;> cases hturn

theorem Traced.executedBetween (hcop : tt.cop = some cop) (h : Traced t ((tt.toCop cop).view t) v) :
    ∃ is, ExecutedBetween tt is (tt.putView cop t v) := by
  obtain ⟨is, htid, hlog, hrun⟩ := h
  refine ⟨is, hrun, t, cop, _, hcop, rfl, htid, ?_⟩
  dsimp only
  rw [Function.update_self]
  exact hlog

theorem pushInstrn_executedBetween {fuel : ℕ} {insn : Word} (h : tt.pushInstrn fuel t insn = some tt') :
    ∃ is, ExecutedBetween tt is tt' := by
  unfold TensixTile.pushInstrn at h
  cases hcop : tt.cop with
  | none =>
    rw [hcop] at h
    cases h
  | some cop =>
    simp only [hcop] at h
    obtain ⟨v, hv, rfl⟩ := Option.map_eq_some_iff.mp h
    exact (pushDraining_traced hv).executedBetween hcop

theorem ExecutedBetween.rewrites {is : List Item} (h : ExecutedBetween tt is tt')
    (hr : lregWritable r = false) (hne : tt'.core.sfpu.lreg r ≠ tt.core.sfpu.lreg r) :
    Rewrites r tt a tt' := by
  obtain ⟨i, hi, core, core', hstep, hchange⟩ :=
    h.core.exists_change (fun core : Tensix => core.sfpu.lreg r) hne
  have hreach := hstep.reaches
  cases hx : i.executed with
  | none =>
    rw [hx] at hreach
    obtain rfl : core' = core := hreach
    exact absurd rfl hchange
  | some insn =>
    rw [hx] at hreach
    by_cases hc : Configures insn r
    · exact .within h hi hx hc
    · exact absurd (Completes.lreg hreach hr hc) hchange

theorem execute_rewrites {tid : Tid} {insn : Word} {ok : Bool} (hr : lregWritable r = false)
    (h : tensixExecuteInsn ((tt.toCop cop).view tid) insn tid = (ok, v))
    (hne : v.core.sfpu.lreg r ≠ tt.core.sfpu.lreg r) :
    Rewrites r tt (.execute tid insn) (tt.putView cop tid v) := by
  cases ok with
  | true =>
    have hok : (tensixExecuteInsn ((tt.toCop cop).view tid) insn tid).1 = true := by rw [h]
    have hcompletes := execute_completes hok
    rw [h] at hcompletes
    by_cases hc : Configures insn r
    · exact .execute hc hcompletes
    · exact absurd (hcompletes.lreg hr hc) hne
  | false =>
    -- an instruction that has not completed has left the core as it was
    have hsame := execute_refused ((tt.toCop cop).view tid) tid (by rw [h])
    rw [h] at hsame
    obtain rfl : v = (tt.toCop cop).view tid := hsame
    exact absurd rfl hne

theorem TileActs.rewrites (h : TileActs tt a tt') (hr : lregWritable r = false)
    (hne : tt'.core.sfpu.lreg r ≠ tt.core.sfpu.lreg r) : Rewrites r tt a tt' := by
  cases h with
  | thread hcop hact =>
    obtain ⟨is, his⟩ := hact.traced.executedBetween hcop
    exact his.rewrites hr hne
  | execute _ hexec => exact execute_rewrites hr hexec hne
  | load hread => exact absurd (congrArg (fun core : Tensix => core.sfpu.lreg r) (onMemReadW_core hread)) hne
  | store hstore =>
    obtain hsame | ⟨t, hpush⟩ := StoreInsn.exec_lreg hstore
    · exact absurd (congrFun hsame r) hne
    · obtain ⟨is, his⟩ := pushInstrn_executedBetween hpush
      exact his.rewrites hr hne
  | reset =>
    have hsame : tt.tensixReset.core.sfpu = tt.core.sfpu := by
      unfold TensixTile.tensixReset
      split <;> rfl
    exact absurd (congrArg (fun s : Sfpu => s.lreg r) hsame) hne
  | clear => exact .clear

end steps

def IsConstant (r : ℕ) : Prop := r = 8 ∨ r = 9 ∨ r = 10 ∨ r = 15

def IsConfigurable (r : ℕ) : Prop := 11 ≤ r ∧ r ≤ 14

theorem IsConstant.lregWritable {r : ℕ} (h : IsConstant r) : lregWritable r = false := by
  obtain rfl | rfl | rfl | rfl := h <;> rfl

theorem IsConfigurable.lregWritable {r : ℕ} (h : IsConfigurable r) : lregWritable r = false := by
  obtain ⟨h₀, h₁⟩ := h
  rw [Rv32Emu.lregWritable, decide_eq_false (by omega), decide_eq_false (by omega)]
  rfl

theorem Configures.isConfigurable {insn : Word} {r : ℕ} (h : Configures insn r) : IsConfigurable r := h.2.2

theorem IsConstant.not_isConfigurable {r : ℕ} (h : IsConstant r) : ¬IsConfigurable r := by
  unfold IsConstant at h
  unfold IsConfigurable
  omega

theorem TileActs.constants {tt tt' : TensixTile} {a : TileAction} {r : ℕ} (h : TileActs tt a tt')
    (hr : IsConstant r) (hi : tt.core.sfpu.lreg r = lregConstants TensixTile.zero.core.sfpu.lreg r) :
    tt'.core.sfpu.lreg r = lregConstants TensixTile.zero.core.sfpu.lreg r := by
  by_contra hne
  have hchange : tt'.core.sfpu.lreg r ≠ tt.core.sfpu.lreg r := fun heq => hne (heq.trans hi)
  cases h.rewrites hr.lregWritable hchange with
  | clear => exact hne rfl
  | execute hc _ => exact hr.not_isConfigurable hc.isConfigurable
  | within _ _ _ hc => exact hr.not_isConfigurable hc.isConfigurable

theorem vector_constants_constant {mem : TensixMemory} {ldm : Tid → Option Bytes} {nocXy : BitVec 16}
    {self : Ptr} {allocated : Bool} {as : List TileAction} {tt : TensixTile}
    (h : Run TileActs (TensixTile.tensixInit mem ldm nocXy self allocated) as tt) :
    (∀ r lane, IsConstant r →
      tt.core.sfpu.lreg r lane = (TensixTile.tensixInit mem ldm nocXy self allocated).core.sfpu.lreg r lane) ∧
    ∀ a tt' r, TileActs tt a tt' → IsConfigurable r → tt'.core.sfpu.lreg r ≠ tt.core.sfpu.lreg r →
      Rewrites r tt a tt' := by
  refine ⟨fun r lane hr => ?_, fun a tt' r hstep hr hne => hstep.rewrites hr.lregWritable hne⟩
  have hkept : tt.core.sfpu.lreg r = lregConstants TensixTile.zero.core.sfpu.lreg r :=
    h.invariant (I := fun tt => tt.core.sfpu.lreg r = lregConstants TensixTile.zero.core.sfpu.lreg r)
      (fun _ _ _ hi hstep => hstep.constants hr hi) rfl
  exact congrFun hkept lane

def bareTile : TensixTile := .tensixInit ⟨none, none⟩ (fun _ => none) 0 none true

def configuringTile : TensixTile :=
  bareTile.putView (.init none) 0 (tensixCopPush ((bareTile.toCop (.init none)).view 0) 0x913F80B1).2

def configuringCop : Coprocessor := configuringTile.cop.getD (.init none)

theorem vector_constants_constant_config :
    ∃ tt, Run TileActs bareTile [.thread ⟨0, .push 0x913F80B1, true⟩, .thread ⟨0, .step, true⟩, .reset] tt ∧
      bareTile.core.sfpu.lreg 11 0 = 0xBF800000 ∧ tt.core.sfpu.lreg 11 0 = 0x3F800000 ∧
      (∀ r lane, IsConstant r → tt.core.sfpu.lreg r lane = bareTile.core.sfpu.lreg r lane) ∧
      ∀ a tt' r, TileActs tt a tt' → IsConfigurable r → tt'.core.sfpu.lreg r ≠ tt.core.sfpu.lreg r →
        Rewrites r tt a tt' := by
  have hpush : TileActs bareTile (.thread ⟨0, .push 0x913F80B1, true⟩) configuringTile := .thread rfl rfl
  have hstep : TileActs configuringTile (.thread ⟨0, .step, true⟩)
      (configuringTile.putView configuringCop 0
        (tensixCopStep ((configuringTile.toCop configuringCop).view 0) 0).2) :=
    .thread rfl (Prod.ext (by decide) rfl)
  have hrun := Run.cons hpush (.cons hstep (Run.single.mpr .reset))
  exact ⟨_, hrun, rfl, by decide, vector_constants_constant hrun⟩

end Rv32Emu
