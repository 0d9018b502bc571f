import Rv32Emu.Rv.Cached
import Rv32Emu.Rv.Extensions

namespace Rv32Emu

variable {δ ξ : Type} (P : Platform δ ξ) (c : CoreConfig)

def runIrs : List Ir → Rv ξ → Shared δ → Frame → Executed δ ξ
  | [], rv, sh, f => execute P c rv sh { f with irs := [] }
  | ir :: rest, rv, sh, f =>
    let e := execute P c rv sh { f with irs := ir :: rest }
    match e.flow with
    | .next f' => runIrs rest e.rv e.shared f'
    | _ => e

/-- What is left of a block once it is done: the registers, memory and the devices, the CSRs, the next PC,
the cycle count, and whether `rv_step` goes on. -/
structure Effect (δ ξ : Type) where
  x : Reg → Word
  ext : ξ
  halt : Bool
  shared : Shared δ
  pc : Word
  cycle : ℕ
  ok : Bool

def Executed.effect (e : Executed δ ξ) : Effect δ ξ :=
  match e.flow with
  | .next f | .jump f => ⟨e.rv.x, e.rv.ext, e.rv.halt, e.shared, f.pc, f.cycle, true⟩
  | .ret ok _ => ⟨e.rv.x, e.rv.ext, e.rv.halt, e.shared, e.rv.pc, e.rv.csrCycle, ok⟩

def Flow.bare : Flow → Flow
  | next f => next { f with irs := [] }
  | flow => flow

structure Executed.Agrees (e e' : Executed δ ξ) : Prop where
  rv : e.rv = e'.rv
  shared : e.shared = e'.shared
  flow : e.flow.bare = e'.flow.bare

variable {P c} {rv : Rv ξ} {sh : Shared δ} {f : Frame} {ir : Ir} {rest rest' irs : List Ir}

namespace Executed.Agrees

variable {e e' : Executed δ ξ}

theorem refl (e : Executed δ ξ) : e.Agrees e := ⟨rfl, rfl, rfl⟩

theorem effect (h : e.Agrees e') : e.effect = e'.effect := by
  have hbare (e : Executed δ ξ) : e.effect = (Executed.mk e.rv e.shared e.flow.bare [] 0).effect := by
    unfold Executed.effect
    cases e.flow <;> rfl
  rw [hbare e, hbare e', h.rv, h.shared, h.flow]

end Executed.Agrees

section rest

def SameEnd (rest rest' : List Ir) : Prop := rest = [] ↔ rest' = []

variable {irs' : List Ir} {n : ℕ} {pc : Word} {events : List TileEvent}

theorem endOp_agrees (h : SameEnd rest rest') :
    (endOp rv sh { f with irs := irs } rest n pc events).Agrees
      (endOp rv sh { f with irs := irs' } rest' n pc events) := by
  cases rest with
  | nil =>
    rw [h.mp rfl]
    exact .refl _
  | cons next rest =>
    cases rest' with
    | nil => cases h.mpr rfl
    | cons next' rest' => exact ⟨rfl, rfl, rfl⟩

theorem doLoad_agrees {op : LoadOp} (h : SameEnd rest rest') :
    (doLoad P c rv sh { f with irs := irs } ir rest op).Agrees
      (doLoad P c rv sh { f with irs := irs' } ir rest' op) := by
  cases op with
  | lb | lbu => exact endOp_agrees h
  | lh | lhu =>
    dsimp only [doLoad]
    split_ifs
    · exact .refl _
    · exact endOp_agrees h

theorem doStore_agrees {op : StoreOp} (h : SameEnd rest rest') :
    (doStore P c rv sh { f with irs := irs } ir rest op).Agrees
      (doStore P c rv sh { f with irs := irs' } ir rest' op) := by
  cases op with
  | sb => exact endOp_agrees h
  | sh =>
    dsimp only [doStore]
    split_ifs
    · exact .refl _
    · exact endOp_agrees h

theorem doExt_agrees {e : ExtInsn} (h : SameEnd rest rest') :
    (doExt P c rv sh { f with irs := irs } rest e).Agrees
      (doExt P c rv sh { f with irs := irs' } rest' e) := by
  unfold doExt
  dsimp only
  split
  · exact endOp_agrees h
  · exact .refl _

theorem doFuse3_agrees (h : SameEnd rest rest') :
    (doFuse3 P c rv sh { f with irs := irs } ir rest).Agrees
      (doFuse3 P c rv sh { f with irs := irs' } ir rest') := by
  unfold doFuse3
  dsimp only
  split
  · exact .refl _
  · exact endOp_agrees h

theorem doFuse4_agrees (h : SameEnd rest rest') :
    (doFuse4 P c rv sh { f with irs := irs } ir rest).Agrees
      (doFuse4 P c rv sh { f with irs := irs' } ir rest') := by
  unfold doFuse4
  dsimp only
  split
  · exact .refl _
  · exact endOp_agrees h

theorem dispatchOp_agrees (op : Opcode) (h : SameEnd rest rest') :
    (dispatchOp P c rv sh { f with irs := irs } ir rest op).Agrees
      (dispatchOp P c rv sh { f with irs := irs' } ir rest' op) := by
  cases op with
  | jal | jalr | branch | ttinsn => exact .refl _
  | load op => exact doLoad_agrees h
  | store op => exact doStore_agrees h
  | ext e => exact doExt_agrees h
  | lw =>
    dsimp only [dispatchOp, doLw]
    split_ifs
    · exact .refl _
    · exact endOp_agrees h
  | sw =>
    dsimp only [dispatchOp, doSw]
    split_ifs
    · exact .refl _
    · exact endOp_agrees h
  | fuse3 => exact doFuse3_agrees h
  | fuse4 => exact doFuse4_agrees h
  | _ => exact endOp_agrees h

theorem execute_agrees (h : SameEnd rest rest') :
    (execute P c rv sh { f with irs := ir :: rest }).Agrees
      (execute P c rv sh { f with irs := ir :: rest' }) := by
  unfold execute
  dsimp only
  split
  · exact dispatchOp_agrees _ h
  · exact .refl _
  · exact .refl _

end rest

theorem runIrs_bare (irs : List Ir) (rv : Rv ξ) (sh : Shared δ) (f : Frame) :
    runIrs P c irs rv sh { f with irs := [] } = runIrs P c irs rv sh f := by
  cases irs <;> rfl

theorem runIrs_single (ir : Ir) : runIrs P c [ir] rv sh f = execute P c rv sh { f with irs := [ir] } := by
  have hflow := execute_follows (P := P) (c := c) rv sh { f with irs := [ir] }
  dsimp only [runIrs]
  generalize execute P c rv sh { f with irs := [ir] } = e at *
  cases he : e.flow with
  | next f' =>
    rw [he] at hflow
    cases hflow with
    | next hirs hne => exact absurd (List.cons.inj hirs).2.symm hne
  | jump f' => rfl
  | ret ok counted => rfl

theorem runIrs_effect_congr {ir' : Ir}
    (h : (execute P c rv sh { f with irs := ir :: rest }).Agrees
      (execute P c rv sh { f with irs := ir' :: rest' }))
    (hrest : ∀ f', (execute P c rv sh { f with irs := ir :: rest }).flow = .next f' →
      (runIrs P c rest (execute P c rv sh { f with irs := ir :: rest }).rv
          (execute P c rv sh { f with irs := ir :: rest }).shared f').effect =
        (runIrs P c rest' (execute P c rv sh { f with irs := ir :: rest }).rv
          (execute P c rv sh { f with irs := ir :: rest }).shared f').effect) :
    (runIrs P c (ir :: rest) rv sh f).effect = (runIrs P c (ir' :: rest') rv sh f).effect := by
  dsimp only [runIrs]
  have heffect := h.effect
  obtain ⟨hrv, hsh, hflow⟩ := h
  generalize execute P c rv sh { f with irs := ir :: rest } = e at *
  generalize execute P c rv sh { f with irs := ir' :: rest' } = e' at *
  cases he : e.flow with
  | next f' =>
    rw [he] at hflow
    cases he' : e'.flow with
    | next f'' =>
      rw [he'] at hflow
      have hbare : ({ f' with irs := [] } : Frame) = { f'' with irs := [] } := by
        injection hflow
      dsimp only
      rw [hrest f' he, hrv, hsh, ← runIrs_bare rest' e'.rv e'.shared f', hbare, runIrs_bare]
    | jump f'' | ret ok counted =>
      rw [he'] at hflow
      cases hflow
  | jump f' | ret ok counted =>
    rw [he] at hflow
    cases he' : e'.flow with
    | next f'' =>
      rw [he'] at hflow
      cases hflow
    | jump f'' | ret ok' counted' => exact heffect

def romCore (program : List Word) : Platform Unit Unit := (romPlatform program).extend .none

def briscConfig : CoreConfig := ⟨-1, true, 16⟩

def romIrs (program : List Word) : List Ir :=
  (translateLoop (romCore program) briscConfig () (fun _ => 0) 64 0 fun _ => 0).getD []

def romEffect (program : List Word) (irs : List Ir) : Effect Unit Unit :=
  (runIrs (romCore program) briscConfig irs Rv.reset Shared.reset ⟨0, [], 0, 0⟩).effect

end Rv32Emu
