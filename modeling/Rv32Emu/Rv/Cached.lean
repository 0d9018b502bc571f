import Rv32Emu.Rv.Frames

namespace Rv32Emu

variable {δ ξ : Type} {P : Platform δ ξ} {c : CoreConfig}

/-- Where a handler goes: to the rest of its block, to a block of the map, or back. -/
inductive Follows (rv : Rv ξ) (f : Frame) : Flow → Prop
  | next {f' : Frame} {ir : Ir} : f.irs = ir :: f'.irs → f'.irs ≠ [] → f'.block = f.block →
      f'.pc = f.pc + w32 (4 * ir.weight) → Follows rv f (.next f')
  | jump {f' : Frame} {b : Block} : rv.blockMap f'.block = some b → f'.irs = b.irs → Follows rv f (.jump f')
  | ret {ok counted : Bool} : Follows rv f (.ret ok counted)

section handlers

variable {rv rv' : Rv ξ} {sh sh' : Shared δ} {f : Frame} {ir : Ir} {rest : List Ir} {count : ℕ} {pc : Word}
  {events : List TileEvent}

theorem endOp_follows (hf : f.irs = ir :: rest) (hpc : pc = f.pc + w32 (4 * ir.weight)) :
    Follows rv f (endOp rv' sh' f rest count pc events).flow := by
  cases rest with
  | nil => exact .ret
  | cons next rest => exact .next hf (List.cons_ne_nil _ _) rfl hpc

theorem jumpTo_follows {block : Word} (hm : rv'.blockMap = rv.blockMap) :
    Follows rv f (jumpTo rv' sh' f pc block).flow := by
  unfold jumpTo
  split
  case h_1 b hb => exact .jump (hm ▸ hb) rfl
  · exact .ret

theorem doLoad_follows {op : LoadOp} (hf : f.irs = ir :: rest) (hpc : f.pc + 4 = f.pc + w32 (4 * ir.weight)) :
    Follows rv f (doLoad P c rv sh f ir rest op).flow := by
  cases op with
  | lb | lbu => exact endOp_follows hf hpc
  | lh | lhu =>
    dsimp only [doLoad]
    split_ifs
    · exact .ret
    · exact endOp_follows hf hpc

theorem doStore_follows {op : StoreOp} (hf : f.irs = ir :: rest)
    (hpc : f.pc + 4 = f.pc + w32 (4 * ir.weight)) :
    Follows rv f (doStore P c rv sh f ir rest op).flow := by
  cases op with
  | sb => exact endOp_follows hf hpc
  | sh =>
    dsimp only [doStore]
    split_ifs
    · exact .ret
    · exact endOp_follows hf hpc

theorem doExt_follows {e : ExtInsn} (hf : f.irs = ir :: rest) (hpc : f.pc + 4 = f.pc + w32 (4 * ir.weight)) :
    Follows rv f (doExt P c rv sh f rest e).flow := by
  unfold doExt
  dsimp only
  split
  · exact endOp_follows hf hpc
  · exact .ret

theorem dispatchOp_follows {op : Opcode} (hf : f.irs = ir :: rest) (hi : ir.impl = .dispatch op) :
    Follows rv f (dispatchOp P c rv sh f ir rest op).flow := by
  have hfour (hw : ir.weight = 1) : f.pc + 4 = f.pc + w32 (4 * ir.weight) := by
    rw [hw]
    rfl
  cases op with
  | jal =>
    dsimp only [dispatchOp, doJal]
    split
    · exact jumpTo_follows (link_keeps rv _ _).blockMap
    · exact .ret
  | jalr => exact jumpTo_follows (link_keeps rv _ _).blockMap
  | branch cond => exact .ret
  | ttinsn => exact .ret
  | load op => exact doLoad_follows hf (hfour (by rw [Ir.weight, hi]))
  | store op => exact doStore_follows hf (hfour (by rw [Ir.weight, hi]))
  | ext e => exact doExt_follows hf (hfour (by rw [Ir.weight, hi]))
  | lw =>
    dsimp only [dispatchOp, doLw]
    split_ifs
    · exact .ret
    · exact endOp_follows hf (hfour (by rw [Ir.weight, hi]))
  | sw =>
    dsimp only [dispatchOp, doSw]
    split_ifs
    · exact .ret
    · exact endOp_follows hf (hfour (by rw [Ir.weight, hi]))
  | fuse3 =>
    dsimp only [dispatchOp, doFuse3]
    split
    · exact .ret
    · exact endOp_follows hf (by rw [Ir.weight, hi])
  | fuse4 =>
    dsimp only [dispatchOp, doFuse4]
    split
    · exact .ret
    · exact endOp_follows hf (by rw [Ir.weight, hi])
  | fuse1 => exact endOp_follows hf (by rw [Ir.weight, hi])
  | fuse5 => exact endOp_follows hf (by rw [Ir.weight, hi])
  | fuse2 =>
    apply endOp_follows hf
    rw [Ir.weight, hi]
    rfl
  | nop | lui | auipc | imm | alu => exact endOp_follows hf (hfour (by rw [Ir.weight, hi]))

theorem execute_follows (rv : Rv ξ) (sh : Shared δ) (f : Frame) :
    Follows rv f (execute P c rv sh f).flow := by
  unfold execute
  split
  · exact .ret
  case h_2 ir rest hf =>
    split
    case h_1 op hi => exact dispatchOp_follows hf hi
    · dsimp only [doLwMailbox]
      split_ifs <;> exact .ret
    · exact .ret

end handlers

section tile

variable {B : Word → Block → Prop} {cfg : TileConfig} {t t' : Tile δ ξ}

def Ctl.Runs (B : Word → Block → Prop) (ctl : Ctl) : Prop :=
  ∀ target block f, ctl = .exec target block f → ∃ b, B f.block b ∧ f.irs <:+ b.irs

theorem Follows.runs {rv : Rv ξ} {f f' : Frame} {target : ℕ} {block : Word} (hr : rv.Caches B)
    (hf : Ctl.Runs B (.exec target block f)) (h : Follows rv f (.next f') ∨ Follows rv f (.jump f')) :
    Ctl.Runs B (.exec target block f') := by
  rintro _ _ _ ⟨⟩
  obtain ⟨b, hb, hs⟩ := hf _ _ _ rfl
  obtain h | h := h
  · cases h with
    | next hirs _ hblock _ =>
      refine ⟨b, hblock ▸ hb, .trans ?_ hs⟩
      rw [hirs]
      exact List.suffix_cons _ _
  · cases h with
    | @jump _ b' hb' hirs => exact ⟨b', hr _ b' hb', hirs ▸ List.suffix_rfl⟩

theorem dispatchBlock_shared (rv : Rv ξ) (sh : Shared δ) (target : ℕ) :
    (dispatchBlock P c rv sh target).shared = (kernelTransition P c (updatePrev rv) sh).2.1 := by
  unfold dispatchBlock
  dsimp only
  split <;> rfl

theorem dispatchBlock_caches {rv : Rv ξ} {sh : Shared δ} (hB : Unlinked B)
    (h : (kernelTransition P c (updatePrev rv) sh).1.Caches B)
    (hT : ∀ rv' b, blockTranslate P c (kernelTransition P c (updatePrev rv) sh).2.1.dev rv' = some b →
      B rv'.pc b)
    (target : ℕ) :
    (dispatchBlock P c rv sh target).rv.Caches B ∧
      ∀ ctl, (dispatchBlock P c rv sh target).ctl = some ctl → ctl.Runs B := by
  unfold dispatchBlock
  dsimp only
  generalize kernelTransition P c (updatePrev rv) sh = k at *
  have hpre : ({ k.1 with prePc := k.1.pc } : Rv ξ).Caches B := h.of_eq rfl
  have hfind := blockFindOrTranslate_caches hT hpre
  have hpc := blockFindOrTranslate_pc (P := P) (c := c) { k.1 with prePc := k.1.pc } k.2.1.dev
  generalize blockFindOrTranslate P c { k.1 with prePc := k.1.pc } k.2.1.dev = p at *
  obtain ⟨rv₂, _ | b⟩ := p
  · exact ⟨hfind.1.of_eq rfl, nofun⟩
  · refine ⟨(chainBlock_caches hB hfind.1).of_eq rfl, ?_⟩
    rintro _ ⟨⟩ _ _ _ ⟨⟩
    refine ⟨b, ?_, List.suffix_rfl⟩
    have hb : B k.1.pc b := hfind.2 b rfl
    have hchain : (chainBlock rv₂).pc = k.1.pc := (chainBlock_pc rv₂).trans hpc
    exact hchain ▸ hb

theorem Rv.Caches.dispatched {rv : Rv ξ} (hB : Unlinked B) (hT : Translates P c B) (h : rv.Caches B)
    (sh : Shared δ) (target : ℕ) :
    (dispatchBlock P c rv sh target).rv.Caches B ∧
      ∀ ctl, (dispatchBlock P c rv sh target).ctl = some ctl → ctl.Runs B :=
  dispatchBlock_caches hB (kernelTransition_caches (h.of_eq updatePrev_blockMap) sh) (hT _) target

theorem coreStep_caches (hB : Unlinked B) (hT : Translates P c B) {s : CoreState δ ξ} (h : s.rv.Caches B) :
    (coreStep P c s).rv.Caches B := by
  unfold coreStep
  split
  · split_ifs
    · exact (h.dispatched hB hT _ _).1
    · exact h
  case h_2 f _ =>
    have hexec := h.of_eq (execute_keeps (P := P) (c := c) s.rv s.shared f).rv.blockMap
    dsimp only
    split
    · exact hexec
    · exact hexec
    · exact hexec.of_eq rfl
    · exact hexec.of_eq rfl

theorem coreStep_runs (hB : Unlinked B) (hT : Translates P c B) {s : CoreState δ ξ} (h : s.rv.Caches B)
    (hr : s.ctl.Runs B) : ∀ ctl, (coreStep P c s).ctl = some ctl → ctl.Runs B := by
  obtain ⟨rv, sh, ctl⟩ := s
  cases ctl with
  | loop target =>
    dsimp only [coreStep]
    split_ifs
    · exact (h.dispatched hB hT sh target).2
    · exact nofun
  | exec target block f =>
    have hflow := execute_follows (P := P) (c := c) rv sh f
    dsimp only [coreStep]
    generalize execute P c rv sh f = e at *
    obtain ⟨rv', sh', flow, es, n⟩ := e
    cases flow with
    | next f' =>
      rintro _ ⟨⟩
      exact Follows.runs h hr (.inl hflow)
    | jump f' =>
      rintro _ ⟨⟩
      exact Follows.runs h hr (.inr hflow)
    | ret ok counted =>
      cases ok with
      | false => exact nofun
      | true => rintro _ ⟨⟩ _ _ _ ⟨⟩

structure Tile.Caches (t : Tile δ ξ) (B : Word → Block → Prop) : Prop where
  cores : ∀ k, (t.cores k).Caches B
  active : ∀ k ctl, t.active = some (k, ctl) → ctl.Runs B

theorem TileStep.cases {es : List TileEvent} (h : TileStep P cfg t es t') :
    (t.active = none ∧ t'.cores = t.cores ∧ t'.shared = t.shared ∧ es = [] ∧
        ∀ k ctl, t'.active = some (k, ctl) → ∃ target, ctl = .loop target) ∨
      ∃ k ctl, t.active = some (k, ctl) ∧
        t'.cores = Function.update t.cores k (coreStep P (cfg.core k) ⟨t.cores k, t.shared, ctl⟩).rv ∧
        t'.active = (coreStep P (cfg.core k) ⟨t.cores k, t.shared, ctl⟩).ctl.map (k, ·) := by
  obtain ⟨choice, h⟩ := h
  unfold tileStep at h
  split at h
  · next hn =>
    refine .inl ⟨hn, ?_⟩
    dsimp only at h
    split_ifs at h <;> cases h
    · exact ⟨rfl, rfl, rfl, fun k ctl hk => by rw [hn] at hk; cases hk⟩
    · refine ⟨rfl, rfl, rfl, ?_⟩
      rintro k ctl ⟨⟩
      exact ⟨_, rfl⟩
  case h_2 k ctl hk =>
    refine .inr ⟨k, ctl, hk, ?_⟩
    dsimp only at h
    split at h
    case h_1 ctl' hc =>
      cases h
      exact ⟨rfl, by rw [hc]; rfl⟩
    case h_2 hc => split_ifs at h <;> cases h <;> exact ⟨rfl, by rw [hc]; rfl⟩

theorem TileStep.cores_caches (hB : Unlinked B) (hT : ∀ k, Translates P (cfg.core k) B) {es : List TileEvent}
    (h : TileStep P cfg t es t') (ht : ∀ k, (t.cores k).Caches B) : ∀ k, (t'.cores k).Caches B := by
  obtain ⟨-, hcores, -⟩ | ⟨k, ctl, -, hcores, -⟩ := h.cases
  · exact fun k => hcores ▸ ht k
  · intro k'
    rw [hcores]
    by_cases hk : k' = k
    · rw [hk, Function.update_self]
      exact coreStep_caches hB (hT k) (ht k)
    · rw [Function.update_of_ne hk]
      exact ht k'

theorem TileStep.caches (hB : Unlinked B) (hT : ∀ k, Translates P (cfg.core k) B) {es : List TileEvent}
    (h : TileStep P cfg t es t') (ht : t.Caches B) : t'.Caches B := by
  refine ⟨h.cores_caches hB hT ht.cores, fun k' ctl' hk' => ?_⟩
  obtain ⟨-, -, -, -, hloop⟩ | ⟨k, ctl, hk, -, hactive⟩ := h.cases
  · obtain ⟨target, rfl⟩ := hloop k' ctl' hk'
    rintro _ _ _ ⟨⟩
  · rw [hactive] at hk'
    obtain ⟨ctl'', hc, heq⟩ := Option.map_eq_some_iff.mp hk'
    cases heq
    exact coreStep_runs hB (hT k') (ht.cores k') (ht.active k' ctl hk) ctl' hc

end tile

end Rv32Emu
