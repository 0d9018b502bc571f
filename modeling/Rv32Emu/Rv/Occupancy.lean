import Rv32Emu.Rv.Frames

namespace Rv32Emu

variable {δ ξ : Type} {P : Platform δ ξ} {cfg : TileConfig}

def observe (P : Platform δ ξ) (c : CoreConfig) (rv : Rv ξ) (sh : Shared δ) :
    Rv ξ × Shared δ × List TileEvent :=
  let (rv, sh, events) := kernelTransition P c rv sh
  ({ rv with prePc := rv.pc }, sh, events)

inductive TensixCore
  | brisc | trisc0 | trisc1 | trisc2
  deriving DecidableEq

namespace TensixCore

def core : TensixCore → Core
  | brisc => .brisc
  | trisc0 => .trisc0
  | trisc1 => .trisc1
  | trisc2 => .trisc2

def isTrisc : TensixCore → Bool
  | brisc => false
  | _ => true

theorem core_injective : Function.Injective core := by
  intro j k h
  cases j <;> cases k <;> first | rfl | cases h

theorem isTrisc_coreId (k : TensixCore) : Rv32Emu.isTrisc k.core.coreId = k.isTrisc := by
  cases k <;> rfl

theorem tensix (cfg : TileConfig) (k : TensixCore) : (cfg.core k.core).tensix = true := by
  cases k <;> rfl

end TensixCore

@[ext] structure Occupancy where
  prePc : TensixCore → Word
  coresInKernel : BitVec 8
  hadTriscInKernel : Bool

def Tile.occupancy (t : Tile δ ξ) : Occupancy :=
  ⟨fun k => (t.cores k.core).prePc, t.shared.coresInKernel, t.shared.hadTriscInKernel⟩

def Occupancy.fresh : Occupancy := ⟨fun _ => 0, 0, false⟩

structure Observation where
  core : TensixCore
  pc : Word
  events : List TileEvent

def Observation.Clears (o : Observation) : Prop := TileEvent.clear ∈ o.events

/-- A dispatch at the PC of the observation, whatever else the core and the tile hold at that time. -/
def Observes (P : Platform δ ξ) (cfg : TileConfig) (s : Occupancy) (o : Observation) (t : Occupancy) : Prop :=
  ∃ (rv rv' : Rv ξ) (sh sh' : Shared δ),
    rv.pc = o.pc ∧ rv.prePc = s.prePc o.core ∧
      sh.coresInKernel = s.coresInKernel ∧ sh.hadTriscInKernel = s.hadTriscInKernel ∧
      observe P (cfg.core o.core.core) rv sh = (rv', sh', o.events) ∧
      t = ⟨Function.update s.prePc o.core rv'.prePc, sh'.coresInKernel, sh'.hadTriscInKernel⟩

section history

def lastSeen (os : List Observation) (k : TensixCore) : Option Word :=
  ((os.filter (·.core = k)).getLast?).map (·.pc)

def InKernel (os : List Observation) (k : TensixCore) : Prop := ∃ pc, lastSeen os k = some pc ∧ inKernel pc

def Enters (os : List Observation) (o : Observation) : Prop := ¬InKernel os o.core ∧ inKernel o.pc

def Leaves (os : List Observation) (o : Observation) : Prop := InKernel os o.core ∧ ¬inKernel o.pc

def TriscEntered (os : List Observation) : Prop :=
  ∃ as o bs, os = as ++ o :: bs ∧ o.core.isTrisc ∧ Enters as o ∧ ∀ b ∈ o :: bs, ¬b.Clears

def Lawful (os : List Observation) : Prop :=
  ∀ as o bs, os = as ++ o :: bs → o.pc ≠ 0 ∧ (lastSeen as o.core = none → ¬inKernel o.pc)

variable {os : List Observation} {o : Observation}

@[simp] theorem lastSeen_nil (k : TensixCore) : lastSeen [] k = none := rfl

theorem lastSeen_snoc (os : List Observation) (o : Observation) (k : TensixCore) :
    lastSeen (os ++ [o]) k = if o.core = k then some o.pc else lastSeen os k := by
  unfold lastSeen
  rw [List.filter_append]
  by_cases hk : o.core = k
  · simp [hk]
  · simp [hk]

theorem inKernel_snoc (os : List Observation) (o : Observation) (k : TensixCore) :
    InKernel (os ++ [o]) k ↔ if o.core = k then inKernel o.pc = true else InKernel os k := by
  unfold InKernel
  rw [lastSeen_snoc]
  split_ifs <;> simp

theorem triscEntered_snoc (os : List Observation) (o : Observation) :
    TriscEntered (os ++ [o]) ↔ (TriscEntered os ∨ o.core.isTrisc ∧ Enters os o) ∧ ¬o.Clears := by
  constructor
  · rintro ⟨as, p, bs, h, ht, he, hc⟩
    rcases List.eq_nil_or_concat bs with rfl | ⟨bs, q, rfl⟩
    · obtain ⟨rfl, hp⟩ := List.append_inj' h rfl
      cases hp
      exact ⟨.inr ⟨ht, he⟩, hc _ List.mem_cons_self⟩
    · rw [List.concat_eq_append, ← List.cons_append, ← List.append_assoc] at h
      obtain ⟨rfl, hq⟩ := List.append_inj' h rfl
      cases hq
      refine ⟨.inl ⟨as, p, bs, rfl, ht, he, fun b hb => hc b ?_⟩, hc _ (by simp)⟩
      simp only [List.concat_eq_append, List.mem_cons, List.mem_append] at hb ⊢
      tauto
  · rintro ⟨⟨as, p, bs, rfl, ht, he, hc⟩ | ⟨ht, he⟩, ho⟩
    · refine ⟨as, p, bs ++ [o], by simp, ht, he, fun b hb => ?_⟩
      rw [← List.cons_append, List.mem_append, List.mem_singleton] at hb
      rcases hb with hb | rfl
      · exact hc b hb
      · exact ho
    · refine ⟨os, o, [], rfl, ht, he, fun b hb => ?_⟩
      rw [List.mem_singleton] at hb
      exact hb ▸ ho

theorem Lawful.init (h : Lawful (os ++ [o])) : Lawful os := by
  rintro as p bs rfl
  exact h as p (bs ++ [o]) (by simp)

theorem lawful_nil : Lawful [] := by
  rintro as o bs h
  simp at h

theorem Lawful.snoc (h : Lawful os) (hpc : o.pc ≠ 0) (hfirst : lastSeen os o.core = none → ¬inKernel o.pc) :
    Lawful (os ++ [o]) := by
  intro as p bs hsplit
  rcases List.eq_nil_or_concat bs with rfl | ⟨bs, q, rfl⟩
  · obtain ⟨rfl, hp⟩ := List.append_inj' hsplit rfl
    cases hp
    exact ⟨hpc, hfirst⟩
  · rw [List.concat_eq_append, ← List.cons_append, ← List.append_assoc] at hsplit
    obtain ⟨rfl, -⟩ := List.append_inj' hsplit rfl
    exact h as p bs rfl

theorem Lawful.last (h : Lawful (os ++ [o])) : o.pc ≠ 0 ∧ (lastSeen os o.core = none → ¬inKernel o.pc) :=
  h os o [] rfl

end history

section mask

def kernelMask (f : TensixCore → Bool) : BitVec 8 :=
  (if f .brisc then 8 else 0) ||| (if f .trisc0 then 1 else 0) ||| (if f .trisc1 then 2 else 0) |||
    (if f .trisc2 then 4 else 0)

theorem kernelMask_update (f : TensixCore → Bool) (k : TensixCore) (b : Bool) :
    kernelMask (Function.update f k b) =
      if b then kernelMask f ||| coreBit k.core.coreId else kernelMask f &&& ~~~coreBit k.core.coreId := by
  cases k <;> simp only [kernelMask, Function.update_self, Function.update_of_ne, ne_eq, reduceCtorEq,
    not_false_eq_true]
  all_goals
    generalize f .brisc = p, f .trisc0 = q, f .trisc1 = r, f .trisc2 = s
    revert p q r s b
    decide

theorem kernelMask_bit (f : TensixCore → Bool) (k : TensixCore) :
    kernelMask f &&& coreBit k.core.coreId ≠ 0 ↔ f k = true := by
  cases k <;> unfold kernelMask
  all_goals
    generalize f .brisc = p, f .trisc0 = q, f .trisc1 = r, f .trisc2 = s
    revert p q r s
    decide

theorem kernelMask_eq_zero (f : TensixCore → Bool) : kernelMask f = 0 ↔ ∀ k, f k = false := by
  have hmask : kernelMask f = 0 ↔ f .brisc = false ∧ f .trisc0 = false ∧ f .trisc1 = false ∧
      f .trisc2 = false := by
    unfold kernelMask
    generalize f .brisc = p, f .trisc0 = q, f .trisc1 = r, f .trisc2 = s
    revert p q r s
    decide
  rw [hmask]
  constructor
  · rintro ⟨hb, h0, h1, h2⟩ k
    cases k <;> assumption
  · exact fun h => ⟨h _, h _, h _, h _⟩

end mask

section track

variable {s t : Occupancy} {os : List Observation} {o : Observation}

structure Tracks (os : List Observation) (s : Occupancy) : Prop where
  prePc : ∀ k, s.prePc k = (lastSeen os k).getD 0
  seen : ∀ k, lastSeen os k ≠ some 0
  mask : ∃ f, s.coresInKernel = kernelMask f ∧ ∀ k, f k = true ↔ InKernel os k
  had : s.hadTriscInKernel = true ↔ TriscEntered os

theorem tracks_fresh : Tracks [] .fresh := by
  refine ⟨fun _ => rfl, fun _ => by simp, ⟨fun _ => false, rfl, fun k => ?_⟩, ?_⟩
  · simp [InKernel]
  · simp [TriscEntered, Occupancy.fresh]

theorem Tracks.inKernel_prePc (h : Tracks os s) (k : TensixCore) :
    inKernel (s.prePc k) = true ↔ InKernel os k := by
  unfold InKernel
  rw [h.prePc]
  cases lastSeen os k with
  | none => simp [inKernel, tensixKernelAddrThreshold]
  | some pc => simp

theorem Tracks.prePc_ne_zero (h : Tracks os s) {k : TensixCore} {pc : Word} (hk : lastSeen os k = some pc) :
    s.prePc k ≠ 0 := by
  rw [h.prePc, hk]
  intro h0
  exact h.seen k (hk.trans (congrArg some h0))

theorem kernelTransition_tensix {c : CoreConfig} {rv : Rv ξ} (hc : c.tensix = true) (hp : rv.prePc ≠ 0)
    (sh : Shared δ) :
    kernelTransition P c rv sh =
      if inKernel rv.prePc = false ∧ inKernel rv.pc = true then
        (rv, { sh with
          coresInKernel := sh.coresInKernel ||| coreBit c.coreId
          hadTriscInKernel := sh.hadTriscInKernel || isTrisc c.coreId }, [])
      else if inKernel rv.prePc = true ∧ inKernel rv.pc = false then
        if sh.coresInKernel &&& ~~~coreBit c.coreId = 0 ∧ sh.hadTriscInKernel = true then
          (blockMapClear rv,
            tensixClear P { sh with coresInKernel := sh.coresInKernel &&& ~~~coreBit c.coreId }, [.clear])
        else (blockMapClear rv, { sh with coresInKernel := sh.coresInKernel &&& ~~~coreBit c.coreId }, [])
      else (rv, sh, []) := by
  have hp : rv.prePc ≠ 0#32 := hp
  unfold kernelTransition inKernel
  simp [hc, hp]

theorem kernelTransition_first {c : CoreConfig} {rv : Rv ξ} (hc : c.coreId ≠ 3) (hp : rv.prePc = 0)
    (sh : Shared δ) :
    kernelTransition P c rv sh = (rv, sh, []) := by
  unfold kernelTransition
  simp [hc, hp]

inductive Moves (os : List Observation) (s : Occupancy) (o : Observation) (t : Occupancy) : Prop
  | enters : Enters os o → t.coresInKernel = s.coresInKernel ||| coreBit o.core.core.coreId →
      t.hadTriscInKernel = (s.hadTriscInKernel || o.core.isTrisc) → ¬o.Clears → Moves os s o t
  | leaves : Leaves os o → t.coresInKernel = s.coresInKernel &&& ~~~coreBit o.core.core.coreId →
      ¬(t.coresInKernel = 0 ∧ s.hadTriscInKernel = true) → t.hadTriscInKernel = s.hadTriscInKernel →
        ¬o.Clears →
      Moves os s o t
  | clears : Leaves os o → t.coresInKernel = s.coresInKernel &&& ~~~coreBit o.core.core.coreId →
      t.coresInKernel = 0 → s.hadTriscInKernel = true → t.hadTriscInKernel = false → o.Clears → Moves os s o t
  | stays : (InKernel os o.core ↔ inKernel o.pc = true) → t.coresInKernel = s.coresInKernel →
      t.hadTriscInKernel = s.hadTriscInKernel → ¬o.Clears → Moves os s o t

theorem Observes.moves (hl : Lawful (os ++ [o])) (ht : Tracks os s) (h : Observes P cfg s o t) :
    t.prePc = Function.update s.prePc o.core o.pc ∧ Moves os s o t := by
  obtain ⟨rv, rv', sh, sh', hpc, hpre, hmask, hhad, hobs, rfl⟩ := h
  have hin := ht.inKernel_prePc o.core
  rw [← hpre] at hin
  unfold observe at hobs
  cases hk : lastSeen os o.core with
  | none =>
    have hzero : rv.prePc = 0 := by rw [hpre, ht.prePc, hk, Option.getD_none]
    have hid : (cfg.core o.core.core).coreId ≠ 3 := by
      cases o.core <;> simp [TileConfig.core, TensixCore.core, Core.coreId]
    rw [kernelTransition_first hid hzero] at hobs
    simp only [Prod.mk.injEq] at hobs
    obtain ⟨rfl, rfl, hev⟩ := hobs
    have hout : ¬InKernel os o.core := by simp [InKernel, hk]
    exact ⟨congrArg (Function.update s.prePc o.core) hpc,
      .stays (iff_of_false hout (hl.last.2 hk)) hmask hhad (by simp [Observation.Clears, ← hev])⟩
  | some pc =>
    have hne : rv.prePc ≠ 0 := hpre ▸ ht.prePc_ne_zero hk
    rw [kernelTransition_tensix (o.core.tensix cfg) hne] at hobs
    rw [hpc] at hobs
    split_ifs at hobs with he hlv hz
    all_goals
      simp only [Prod.mk.injEq] at hobs
      obtain ⟨rfl, rfl, hev⟩ := hobs
      refine ⟨congrArg (Function.update s.prePc o.core) hpc, ?_⟩
    · have henters : Enters os o := ⟨by simp [← hin, he.1], he.2⟩
      exact .enters henters (by rw [← hmask]; rfl) (by rw [← hhad, ← o.core.isTrisc_coreId]; rfl)
        (by simp [Observation.Clears, ← hev])
    · have hleaves : Leaves os o := ⟨hin.mp hlv.1, by simp [hlv.2]⟩
      exact .clears hleaves (by rw [← hmask]; rfl) hz.1 (hhad ▸ hz.2) rfl
        (by simp [Observation.Clears, ← hev])
    · have hleaves : Leaves os o := ⟨hin.mp hlv.1, by simp [hlv.2]⟩
      exact .leaves hleaves (by rw [← hmask]; rfl) (by rw [← hhad]; exact hz) hhad
        (by simp [Observation.Clears, ← hev])
    · have hsame : InKernel os o.core ↔ inKernel o.pc = true := by
        rw [← hin]
        cases h₁ : inKernel rv.prePc <;> cases h₂ : inKernel o.pc <;> simp_all
      exact .stays hsame hmask hhad (by simp [Observation.Clears, ← hev])

theorem Tracks.step (hl : Lawful (os ++ [o])) (ht : Tracks os s) (h : Observes P cfg s o t) :
    Tracks (os ++ [o]) t := by
  obtain ⟨hpre, hm⟩ := h.moves hl ht
  obtain ⟨f, hmask, hf⟩ := ht.mask
  have hcore : ∀ b, (b = true ↔ inKernel o.pc = true) →
      ∀ k, Function.update f o.core b k = true ↔ InKernel (os ++ [o]) k := by
    intro b hb k
    rw [inKernel_snoc, Function.update_apply]
    split_ifs with h₁ h₂ h₂
    · exact hb
    · exact absurd h₁.symm h₂
    · exact absurd h₂.symm h₁
    · exact hf k
  constructor
  · intro k
    rw [hpre, lastSeen_snoc, Function.update_apply]
    split_ifs with h₁ h₂ h₂
    · rfl
    · exact absurd h₁.symm h₂
    · exact absurd h₂.symm h₁
    · exact ht.prePc k
  · intro k
    rw [lastSeen_snoc]
    split_ifs
    · simpa using hl.last.1
    · exact ht.seen k
  · have hupdate (b : Bool) (hb : b = true ↔ inKernel o.pc = true)
        (hmove : t.coresInKernel =
          if b then s.coresInKernel ||| coreBit o.core.core.coreId
            else s.coresInKernel &&& ~~~coreBit o.core.core.coreId) :
        ∃ f, t.coresInKernel = kernelMask f ∧ ∀ k, f k = true ↔ InKernel (os ++ [o]) k :=
      ⟨Function.update f o.core b, by rw [hmove, kernelMask_update, hmask], hcore b hb⟩
    cases hm with
    | enters he hc => exact hupdate true (by simp [he.2]) hc
    | leaves hl hc => exact hupdate false (by simp [hl.2]) hc
    | clears hl hc => exact hupdate false (by simp [hl.2]) hc
    | stays hs hc =>
      refine ⟨f, hc.trans hmask, fun k => ?_⟩
      rw [hf, inKernel_snoc]
      split_ifs with hk
      · exact hk ▸ hs
      · rfl
  · rw [triscEntered_snoc]
    cases hm with
    | enters he hc hh hn => simp [hh, ht.had, hn, he]
    | leaves hl hc hz hh hn => simp [hh, ht.had, hn, Enters, hl.1]
    | clears hl hc hz hs hh hn => simp [hh, hn]
    | stays hs hc hh hn =>
      have hno : ¬Enters os o := fun he => he.1 (hs.mpr he.2)
      simp [hh, ht.had, hn, hno]

theorem tracks_run (h : Run (Observes P cfg) .fresh os t) (hl : Lawful os) : Tracks os t := by
  have hstep : ∀ as s o t, (Lawful as → Tracks as s) → Observes P cfg s o t → Lawful (as ++ [o]) →
      Tracks (as ++ [o]) t :=
    fun as s o t hi hs hl => (hi hl.init).step hl hs
  exact h.history (I := fun os s => Lawful os → Tracks os s) hstep (fun _ => tracks_fresh) hl

theorem Moves.clears_iff (ht : Tracks os s) (h : Moves os s o t) :
    o.Clears ↔ Leaves os o ∧ (∀ k, k ≠ o.core → ¬InKernel os k) ∧ TriscEntered os := by
  obtain ⟨f, hmask, hf⟩ := ht.mask
  have hempty : Leaves os o → (s.coresInKernel &&& ~~~coreBit o.core.core.coreId = 0 ↔ ∀ k, k ≠ o.core →
      ¬InKernel os k) := by
    intro hl
    have hupdate := kernelMask_update f o.core false
    rw [← hmask] at hupdate
    rw [if_neg Bool.false_ne_true] at hupdate
    rw [← hupdate, kernelMask_eq_zero]
    refine forall_congr' fun k => ?_
    rw [Function.update_apply, ← hf]
    split_ifs with hk <;> simp [hk]
  cases h with
  | enters he _ _ hn => exact iff_of_false hn fun hl => he.1 hl.1.1
  | stays hs _ _ hn => exact iff_of_false hn fun hl => hl.1.2 (hs.mp hl.1.1)
  | leaves hl hc hz _ hn =>
    rw [hc, hempty hl, ht.had] at hz
    exact iff_of_false hn fun h => hz h.2
  | clears hl hc hz hs _ hn =>
    rw [hc, hempty hl] at hz
    exact iff_of_true hn ⟨hl, hz, ht.had.mp hs⟩

/-- In every interleaving the mask tells which cores were last seen in a kernel, and the coprocessor is
cleared exactly when the last of them leaves and a TRISC has been there. -/
theorem kernel_occupancy (h : Run (Observes P cfg) .fresh os t) (hl : Lawful os) :
    (∀ k, t.coresInKernel &&& coreBit k.core.coreId ≠ 0 ↔ InKernel os k) ∧
      ∀ as o bs, os = as ++ o :: bs →
        (o.Clears ↔ Leaves as o ∧ (∀ k, k ≠ o.core → ¬InKernel as k) ∧ TriscEntered as) := by
  constructor
  · intro k
    obtain ⟨f, hmask, hf⟩ := (tracks_run h hl).mask
    rw [hmask, kernelMask_bit, hf]
  · rintro as o bs rfl
    have hlaw : Lawful (as ++ [o]) := by
      rintro xs p ys hxs
      exact hl xs p (ys ++ bs) (by rw [← List.singleton_append, ← List.append_assoc, hxs]; simp)
    obtain ⟨u, hu, hbs⟩ := h.split
    cases hbs with
    | cons hs _ =>
      have ht := tracks_run hu hlaw.init
      exact (hs.moves hlaw ht).2.clears_iff ht

theorem kernel_occupancy_trisc0 :
    ∃ (os : List Observation) (t : Occupancy),
      Run (Observes (romPlatform []) ⟨false, fun _ => 1⟩) .fresh os t ∧ Lawful os ∧ (∃ o ∈ os, o.Clears) ∧
        (∀ k, t.coresInKernel &&& coreBit k.core.coreId ≠ 0 ↔ InKernel os k) ∧
          ∀ as o bs, os = as ++ o :: bs →
            (o.Clears ↔ Leaves as o ∧ (∀ k, k ≠ o.core → ¬InKernel as k) ∧ TriscEntered as) := by
  let brisc : Observation := ⟨.brisc, 4, []⟩
  let boot : Observation := ⟨.trisc0, 4, []⟩
  let enter : Observation := ⟨.trisc0, 0x9f00, []⟩
  let leave : Observation := ⟨.trisc0, 4, [.clear]⟩
  have hrun : ∃ t, Run (Observes (romPlatform []) ⟨false, fun _ => 1⟩) .fresh [brisc, boot, enter, leave]
      t := by
    let rv (prePc pc : Word) : Rv Unit := { Rv.reset with prePc, pc }
    let sh (mask : BitVec 8) (had : Bool) : Shared Unit :=
      { Shared.reset with coresInKernel := mask, hadTriscInKernel := had }
    let cfg : TileConfig := ⟨false, fun _ => 1⟩
    let s₁ : Occupancy := ⟨Function.update (fun _ => 0) .brisc 4, 0, false⟩
    let s₂ : Occupancy := ⟨Function.update s₁.prePc .trisc0 4, 0, false⟩
    let s₃ : Occupancy := ⟨Function.update s₂.prePc .trisc0 0x9f00, 0 ||| coreBit 0, false || isTrisc 0⟩
    have hbrisc : Observes (romPlatform []) cfg .fresh brisc s₁ :=
      ⟨rv 0 4, _, sh 0 false, _, rfl, rfl, rfl, rfl, rfl, rfl⟩
    have hboot : Observes (romPlatform []) cfg s₁ boot s₂ :=
      ⟨rv 0 4, _, sh 0 false, _, rfl, rfl, rfl, rfl, rfl, rfl⟩
    have henter : Observes (romPlatform []) cfg s₂ enter s₃ := by
      refine ⟨rv 4 0x9f00, rv 0x9f00 0x9f00, sh 0 false, sh s₃.coresInKernel s₃.hadTriscInKernel,
        rfl, rfl, rfl, rfl, ?_, rfl⟩
      unfold observe
      rw [kernelTransition_tensix rfl (by decide), if_pos (by decide)]
      rfl
    have hleave : ∃ rv' sh', observe (romPlatform []) (cfg.core .trisc0) (rv 0x9f00 4)
        (sh s₃.coresInKernel s₃.hadTriscInKernel) = (rv', sh', [.clear]) := by
      unfold observe
      rw [kernelTransition_tensix rfl (by decide), if_neg (by decide), if_pos (by decide), if_pos (by decide)]
      exact ⟨_, _, rfl⟩
    obtain ⟨rv', sh', hleave⟩ := hleave
    exact ⟨_, .cons hbrisc (.cons hboot (.cons henter
      (.cons ⟨rv 0x9f00 4, rv', _, sh', rfl, rfl, rfl, rfl, hleave, rfl⟩ (.nil _))))⟩
  obtain ⟨t, ht⟩ := hrun
  have h₁ : Lawful [brisc] := lawful_nil.snoc (by decide) (by decide)
  have h₂ : Lawful [brisc, boot] := h₁.snoc (by decide) (by decide)
  have h₃ : Lawful [brisc, boot, enter] := h₂.snoc (by decide) (by decide)
  have h₄ : Lawful [brisc, boot, enter, leave] := h₃.snoc (by decide) (by decide)
  have hclears : leave.Clears := List.mem_singleton_self _
  exact ⟨_, t, ht, h₄, ⟨leave, by simp, hclears⟩, kernel_occupancy ht h₄⟩

end track

section tile

theorem updatePrev_pc (rv : Rv ξ) : (updatePrev rv).pc = rv.pc ∧ (updatePrev rv).prePc = rv.prePc := by
  unfold updatePrev
  split
  · split_ifs <;> exact ⟨rfl, rfl⟩
  · exact ⟨rfl, rfl⟩

theorem chainBlock_prePc (rv : Rv ξ) : (chainBlock rv).prePc = rv.prePc := by
  unfold chainBlock
  split
  · rfl
  · split
    · rfl
    · split_ifs <;> rfl

theorem blockFindOrTranslate_prePc {c : CoreConfig} (rv : Rv ξ) (dev : δ) :
    (blockFindOrTranslate P c rv dev).1.prePc = rv.prePc := by
  unfold blockFindOrTranslate
  split
  · rfl
  · dsimp only
    split
    · split_ifs <;> rfl
    · dsimp only
      split_ifs <;> rfl

theorem coreStep_observes (c : CoreConfig) (s : CoreState δ ξ) :
    ((coreStep P c s).rv.prePc = s.rv.prePc ∧ s.shared.Keeps (coreStep P c s).shared) ∨
      ∃ rv : Rv ξ, rv.pc = s.rv.pc ∧ rv.prePc = s.rv.prePc ∧
        (coreStep P c s).rv.prePc = (observe P c rv s.shared).1.prePc ∧
        (coreStep P c s).shared = (observe P c rv s.shared).2.1 ∧
        (coreStep P c s).events = (observe P c rv s.shared).2.2 := by
  unfold coreStep
  split
  · split_ifs
    · refine .inr ⟨updatePrev s.rv, (updatePrev_pc s.rv).1, (updatePrev_pc s.rv).2, ?_⟩
      unfold dispatchBlock observe
      dsimp only
      have hpre := blockFindOrTranslate_prePc (P := P) (c := c)
        { (kernelTransition P c (updatePrev s.rv) s.shared).1 with
          prePc := (kernelTransition P c (updatePrev s.rv) s.shared).1.pc }
        (kernelTransition P c (updatePrev s.rv) s.shared).2.1.dev
      split
      case h_1 rv hb =>
        rw [hb] at hpre
        exact ⟨hpre, rfl, rfl⟩
      case h_2 rv b hb =>
        rw [hb] at hpre
        exact ⟨(chainBlock_prePc rv).trans hpre, rfl, rfl⟩
    · exact .inl ⟨rfl, .refl _⟩
  case h_2 target block f hctl =>
    have hk := execute_keeps (P := P) (c := c) s.rv s.shared f
    refine .inl ?_
    dsimp only
    split
    · exact ⟨hk.rv.prePc, hk.shared⟩
    · exact ⟨hk.rv.prePc, hk.shared⟩
    · exact ⟨hk.rv.prePc, hk.shared.trans ⟨rfl, rfl, rfl⟩⟩
    · exact ⟨hk.rv.prePc, hk.shared⟩

theorem observe_detached {c : CoreConfig} (hc : c.tensix = false) (rv : Rv ξ) (sh : Shared δ) :
    (observe P c rv sh).2.1.coresInKernel = sh.coresInKernel ∧
      (observe P c rv sh).2.1.hadTriscInKernel = sh.hadTriscInKernel := by
  unfold observe kernelTransition
  simp only [hc, Bool.false_and, Bool.false_eq_true, if_false]
  split_ifs <;> exact ⟨rfl, rfl⟩

theorem core_cases (k : Core) : k = .ncrisc ∨ ∃ j : TensixCore, j.core = k := by
  cases k with
  | ncrisc => exact .inl rfl
  | brisc => exact .inr ⟨.brisc, rfl⟩
  | trisc0 => exact .inr ⟨.trisc0, rfl⟩
  | trisc1 => exact .inr ⟨.trisc1, rfl⟩
  | trisc2 => exact .inr ⟨.trisc2, rfl⟩

theorem TileStep.observes {t t' : Tile δ ξ} {es : List TileEvent} (hn : cfg.ncriscTensix = false)
    (h : TileStep P cfg t es t') :
    t'.occupancy = t.occupancy ∨ ∃ o, (t.cores o.core.core).pc = o.pc ∧
      Observes P cfg t.occupancy o t'.occupancy := by
  obtain ⟨choice, h⟩ := h
  unfold tileStep at h
  split at h
  · dsimp only at h
    split_ifs at h <;> cases h <;> exact .inl rfl
  case h_2 k ctl hactive =>
    have hstep := coreStep_observes (P := P) (cfg.core k) ⟨t.cores k, t.shared, ctl⟩
    obtain ⟨hcores, hshared⟩ : t'.cores = Function.update t.cores k
        (coreStep P (cfg.core k) ⟨t.cores k, t.shared, ctl⟩).rv ∧
        (coreStep P (cfg.core k) ⟨t.cores k, t.shared, ctl⟩).shared.Keeps t'.shared := by
      dsimp only at h
      split at h
      · cases h
        exact ⟨rfl, .refl _⟩
      · split_ifs at h <;> cases h <;> exact ⟨rfl, rfl, rfl, rfl⟩
    generalize coreStep P (cfg.core k) ⟨t.cores k, t.shared, ctl⟩ = r at hstep hcores hshared
    rcases hstep with ⟨hpre, hkeeps⟩ | ⟨rv, hpc, hpre, hprePc, hsh, -⟩
    · have hkept := hkeeps.trans hshared
      have hcore : ∀ j : TensixCore, (t'.cores j.core).prePc = (t.cores j.core).prePc := by
        intro j
        rw [hcores, Function.update_apply]
        split_ifs with hj
        · exact hj ▸ hpre
        · rfl
      exact .inl (Occupancy.ext (funext hcore) hkept.coresInKernel hkept.hadTriscInKernel)
    · rcases core_cases k with rfl | ⟨j, rfl⟩
      · have hdet := observe_detached (P := P) (c := cfg.core .ncrisc) hn rv t.shared
        have hcore : ∀ j : TensixCore, (t'.cores j.core).prePc = (t.cores j.core).prePc := by
          intro j
          rw [hcores, Function.update_of_ne (by cases j <;> simp [TensixCore.core])]
        have hmask := hshared.coresInKernel.trans ((congrArg Shared.coresInKernel hsh).trans hdet.1)
        have hhad := hshared.hadTriscInKernel.trans ((congrArg Shared.hadTriscInKernel hsh).trans hdet.2)
        exact .inl (Occupancy.ext (funext hcore) hmask hhad)
      · refine .inr ⟨⟨j, (t.cores j.core).pc, (observe P (cfg.core j.core) rv t.shared).2.2⟩, rfl,
          rv, _, t.shared, _, hpc, hpre, rfl, rfl, rfl, ?_⟩
        have hcore : ∀ i : TensixCore, (t'.cores i.core).prePc =
            Function.update t.occupancy.prePc j (observe P (cfg.core j.core) rv t.shared).1.prePc i := by
          intro i
          rw [hcores, ← hprePc]
          by_cases hi : i = j
          · rw [hi, Function.update_self, Function.update_self]
          · rw [Function.update_of_ne hi, Function.update_of_ne (TensixCore.core_injective.ne hi)]
            rfl
        have hmask := hshared.coresInKernel.trans (congrArg Shared.coresInKernel hsh)
        have hhad := hshared.hadTriscInKernel.trans (congrArg Shared.hadTriscInKernel hsh)
        exact Occupancy.ext (funext hcore) hmask hhad

theorem tile_run_observes {t t' : Tile δ ξ} {ess : List (List TileEvent)} (hn : cfg.ncriscTensix = false)
    (h : Run (TileStep P cfg) t ess t') : ∃ os, Run (Observes P cfg) t.occupancy os t'.occupancy := by
  induction h with
  | nil t => exact ⟨[], .nil _⟩
  | cons hs _ ih =>
    obtain ⟨os, ho⟩ := ih
    rcases hs.observes hn with heq | ⟨o, -, hobs⟩
    · exact ⟨os, heq ▸ ho⟩
    · exact ⟨o :: os, .cons hobs ho⟩

end tile

end Rv32Emu
