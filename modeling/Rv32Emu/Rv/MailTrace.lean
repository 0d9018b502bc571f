import Rv32Emu.Rv.Execute

namespace Rv32Emu

variable {δ ξ : Type}

def LwItem.read (i : LwItem) : Option Word × Mailboxes := mailboxRead i.before i.coreId i.addr

def LwItem.stalled (i : LwItem) : Bool := (mailboxCoreIndex i.coreId).any fun k => i.read.2.stall k

inductive LwItem.Ends (i : LwItem) : Mailboxes → Prop
  | trapped : i.handler ≠ .lwMailbox → i.outcome = .trapped → i.Ends i.before
  | dropped : i.handler = .fuse4 false → i.outcome = .dropped → i.Ends i.read.2
  | retired {v : Word} : i.handler ≠ .fuse4 false → (i.handler = .lwMailbox → i.stalled = false) →
      (∀ s r, ReadsFrom i.coreId i.addr s r → i.read.1 = some v) → i.outcome = .retired v → i.Ends i.read.2
  | stayed : i.handler = .lwMailbox → i.stalled = true → i.outcome = .stayed i.pc → i.Ends i.read.2

inductive MailStep (coreId : ℤ) (m : Mailboxes) : TileEvent → Mailboxes → Prop
  | lw {i : LwItem} {m' : Mailboxes} : i.coreId = coreId → i.before = m → i.Ends m' →
      MailStep coreId m (.lw i) m'
  | sw {i : SwItem} : i.coreId = coreId → i.before = m →
      MailStep coreId m (.sw i) (if i.outcome = .trapped then m else (mailboxWrite m coreId i.addr i.value).2)
  | read (addr : Word) : MailStep coreId m (.ext ⟨.read coreId addr, m⟩) (mailboxRead m coreId addr).2
  | write (addr value : Word) :
      MailStep coreId m (.ext ⟨.write coreId addr value, m⟩) (mailboxWrite m coreId addr value).2
  | process : MailStep coreId m (.process ⟨.process coreId, m⟩) (mailboxProcess m coreId).2
  | clear : MailStep coreId m .clear .init

def TileEvent.Stays : TileEvent → Prop
  | lw i => ∃ pc, i.outcome = .stayed pc
  | _ => False

structure Executed.Traced (coreId : ℤ) (m : Mailboxes) (e : Executed δ ξ) : Prop where
  run : Run (MailStep coreId) m e.events e.shared.mail
  stays : (∀ ev ∈ e.events, ¬ev.Stays) ∨ (∃ ev, e.events = [ev]) ∧ e.flow = .ret false true

section memory

variable {P : Platform δ ξ} {c : CoreConfig} {s r : MailboxCore}

def CoreConfig.Wired (c : CoreConfig) : Prop := c.tensix = false → mailboxCoreIndex c.coreId = none

theorem CoreConfig.Wired.and_any (hc : c.Wired) (p : MailboxCore → Bool) :
    (c.tensix && (mailboxCoreIndex c.coreId).any p) = (mailboxCoreIndex c.coreId).any p := by
  cases ht : c.tensix with
  | false =>
    rw [hc ht]
    rfl
  | true => rfl

theorem mailboxRead_of_none {coreId : ℤ} (h : mailboxCoreIndex coreId = none) (m : Mailboxes) (addr : Word) :
    (mailboxRead m coreId addr).2 = m := by
  unfold mailboxRead
  split
  · rfl
  · rw [h]

theorem mailboxWrite_of_none {coreId : ℤ} (h : mailboxCoreIndex coreId = none) (m : Mailboxes)
    (addr value : Word) :
    (mailboxWrite m coreId addr value).2 = m := by
  unfold mailboxWrite
  split
  · rfl
  · rw [h]

theorem mailboxRead_isSome {m : Mailboxes} {coreId : ℤ} {addr : Word} (h : ReadsFrom coreId addr s r) :
    ∃ v, (mailboxRead m coreId addr).1 = some v := by
  cases hq : bit addr 2 with
  | true => exact ⟨_, congrArg Prod.fst (mailboxRead_query h hq)⟩
  | false =>
    rw [mailboxRead_pop h hq]
    cases fifoPop (m.fifo s r) with
    | none => exact ⟨_, rfl⟩
    | some p => exact ⟨_, rfl⟩

theorem mailboxRead_snd_of_fst_none {m : Mailboxes} {coreId : ℤ} {addr : Word}
    (h : (mailboxRead m coreId addr).1 = none) : (mailboxRead m coreId addr).2 = m := by
  cases hk : mailboxCoreIndex coreId with
  | none => exact mailboxRead_of_none hk m addr
  | some k =>
    cases hr : inMailboxRange addr with
    | false => simp [mailboxRead, hr]
    | true =>
      obtain ⟨v, hv⟩ := mailboxRead_isSome (m := m) ⟨hr, hk, rfl⟩
      rw [hv] at h
      cases h

theorem onMemReadW_mail (hc : c.Wired) (sh : Shared δ) (addr : Word) :
    (onMemReadW P c sh addr).2.mail = (mailboxRead sh.mail c.coreId addr).2 := by
  unfold onMemReadW
  cases ht : c.tensix with
  | false => exact (mailboxRead_of_none (hc ht) sh.mail addr).symm
  | true =>
    cases hv : (mailboxRead sh.mail c.coreId addr).1 with
    | some v => simp [hv]
    | none => simp [hv, mailboxRead_snd_of_fst_none hv]

theorem onMemReadW_value (hc : c.Wired) (sh : Shared δ) {addr : Word} (h : ReadsFrom c.coreId addr s r) :
    (mailboxRead sh.mail c.coreId addr).1 = some (onMemReadW P c sh addr).1 := by
  obtain ⟨v, hv⟩ := mailboxRead_isSome (m := sh.mail) h
  have ht : c.tensix = true := by
    by_contra ht
    have hnone := hc (Bool.not_eq_true _ ▸ ht)
    rw [h.2.1] at hnone
    cases hnone
  simp [onMemReadW, ht, hv]

theorem onMemWriteW_mail (hc : c.Wired) (sh : Shared δ) (addr value : Word) :
    (onMemWriteW P c sh addr value).mail = (mailboxWrite sh.mail c.coreId addr value).2 := by
  unfold onMemWriteW
  cases ht : c.tensix with
  | false => exact (mailboxWrite_of_none (hc ht) sh.mail addr value).symm
  | true => rfl

theorem WordIo.run_mail {α : Type} (hc : c.Wired) (io : WordIo α) (sh : Shared δ) :
    Run (MailStep c.coreId) sh.mail (io.run P c sh).2.2 (io.run P c sh).2.1.mail ∧
      ∀ ev ∈ (io.run P c sh).2.2, ¬ev.Stays := by
  induction io generalizing sh with
  | done a => exact ⟨.nil _, by simp [WordIo.run]⟩
  | read addr next ih =>
    obtain ⟨hrun, hstay⟩ := ih (onMemReadW P c sh addr).1 (onMemReadW P c sh addr).2
    refine ⟨.cons (.read addr) ?_, List.forall_mem_cons.mpr ⟨id, hstay⟩⟩
    rw [← onMemReadW_mail (P := P) hc]
    exact hrun
  | write addr value next ih =>
    obtain ⟨hrun, hstay⟩ := ih (onMemWriteW P c sh addr value)
    refine ⟨.cons (.write addr value) ?_, List.forall_mem_cons.mpr ⟨id, hstay⟩⟩
    rw [← onMemWriteW_mail (P := P) hc]
    exact hrun

end memory

section handlers

variable {P : Platform δ ξ} {c : CoreConfig} {coreId : ℤ} {m : Mailboxes} {rv : Rv ξ} {sh : Shared δ}
  {f : Frame}
  {ir : Ir} {rest : List Ir} {count : ℕ} {pc : Word} {events : List TileEvent}

theorem endOp_traced (h : Run (MailStep coreId) m events sh.mail) (hs : ∀ ev ∈ events, ¬ev.Stays) :
    (endOp rv sh f rest count pc events).Traced coreId m := by
  cases rest with
  | nil => exact ⟨h, .inl hs⟩
  | cons ir rest => exact ⟨h, .inl hs⟩

theorem trapOp_traced {cause tval : Word} (h : Run (MailStep coreId) m events sh.mail)
    (hs : ∀ ev ∈ events, ¬ev.Stays) : (trapOp P rv sh f count cause tval events).Traced coreId m :=
  ⟨h, .inl hs⟩

theorem endOp_silent : (endOp rv sh f rest count pc []).Traced coreId sh.mail :=
  endOp_traced (.nil _) (by simp)

theorem trapOp_silent {cause tval : Word} : (trapOp P rv sh f count cause tval []).Traced coreId sh.mail :=
  trapOp_traced (.nil _) (by simp)

theorem jumpTo_traced {block : Word} : (jumpTo rv sh f pc block).Traced coreId sh.mail := by
  unfold jumpTo
  split
  · exact ⟨.nil _, .inl (by simp)⟩
  · exact endOp_silent

theorem doJal_traced : (doJal rv sh f ir).Traced coreId sh.mail := by
  unfold doJal
  dsimp only
  split
  · exact jumpTo_traced
  · exact endOp_silent

theorem doBranch_traced {cond : BranchCond} : (doBranch rv sh f ir cond).Traced coreId sh.mail := by
  unfold doBranch
  exact endOp_silent

theorem doLoad_traced {op : LoadOp} : (doLoad P c rv sh f ir rest op).Traced coreId sh.mail := by
  cases op with
  | lb => exact endOp_silent
  | lbu => exact endOp_silent
  | lh =>
    dsimp only [doLoad]
    split_ifs
    · exact trapOp_silent
    · exact endOp_silent
  | lhu =>
    dsimp only [doLoad]
    split_ifs
    · exact trapOp_silent
    · exact endOp_silent

theorem doStore_traced {op : StoreOp} : (doStore P c rv sh f ir rest op).Traced coreId sh.mail := by
  cases op with
  | sb => exact endOp_traced (.nil _) (by simp)
  | sh =>
    dsimp only [doStore]
    split_ifs
    · exact trapOp_silent
    · exact endOp_traced (.nil _) (by simp)

@[simp] theorem Rv.setX_x_self (rv : Rv ξ) (rd : Reg) (v : Word) : (rv.setX rd v).x rd = v :=
  Function.update_self ..

theorem retired_ends (hc : c.Wired) {h : LwHandler} (hh : h ≠ .lwMailbox) (hg : h ≠ .fuse4 false) (rd : Reg)
    (addr : Word) :
    (LwItem.mk h c.coreId pc rd addr sh.mail (.retired (onMemReadW P c sh addr).1)).Ends
      (onMemReadW P c sh addr).2.mail := by
  rw [onMemReadW_mail hc]
  exact .retired hg (fun h => absurd h hh) (fun _ _ hr => onMemReadW_value hc sh hr) rfl

theorem doLw_traced (hc : c.Wired) : (doLw P c rv sh f ir rest).Traced c.coreId sh.mail := by
  dsimp only [doLw]
  split_ifs
  · exact trapOp_traced (Run.single.mpr (.lw rfl rfl (.trapped (by simp) rfl))) (by simp [TileEvent.Stays])
  · refine endOp_traced (Run.single.mpr (.lw rfl rfl ?_)) (by simp [TileEvent.Stays])
    rw [Rv.setX_x_self]
    exact retired_ends hc (by simp) (by simp) _ _

theorem doSw_traced (hc : c.Wired) : (doSw P c rv sh f ir rest).Traced c.coreId sh.mail := by
  dsimp only [doSw]
  split_ifs
  · exact trapOp_traced (Run.single.mpr (.sw rfl rfl)) (by simp [TileEvent.Stays])
  · refine endOp_traced (Run.single.mpr ?_) (by simp [TileEvent.Stays])
    rw [onMemWriteW_mail hc]
    exact .sw rfl rfl

theorem doLwMailbox_traced (hc : c.Wired) : (doLwMailbox P c rv sh f ir).Traced c.coreId sh.mail := by
  have hmail := onMemReadW_mail (P := P) hc sh (rv.x ir.rs1 + ir.imm)
  dsimp only [doLwMailbox]
  rw [hc.and_any, hmail]
  split_ifs with hs
  · refine ⟨Run.single.mpr (.lw rfl rfl ?_), .inr ⟨⟨_, rfl⟩, rfl⟩⟩
    dsimp only
    rw [hmail]
    exact .stayed rfl hs rfl
  · refine ⟨Run.single.mpr (.lw rfl rfl ?_), .inl (by simp [TileEvent.Stays])⟩
    dsimp only
    rw [hmail]
    exact .retired (by simp) (fun _ => Bool.eq_false_iff.mpr hs)
      (fun _ _ hr => onMemReadW_value (P := P) hc sh hr)
      (by simp)

theorem doTtinsn_traced : (doTtinsn P c rv sh f ir).Traced coreId sh.mail :=
  ⟨.nil _, .inl (by simp [doTtinsn])⟩

theorem doExt_traced (hc : c.Wired) {e : ExtInsn} : (doExt P c rv sh f rest e).Traced c.coreId sh.mail := by
  obtain ⟨hrun, hs⟩ := (P.run e rv.x rv.ext f.pc).run_mail (P := P) hc sh
  unfold doExt
  dsimp only
  split
  · exact endOp_traced hrun hs
  · exact ⟨hrun, .inl hs⟩

theorem LwItem.Ends.drop {i : LwItem} (h : i.Ends m) (hh : i.handler = .fuse4 true) : i.drop.Ends m := by
  cases h with
  | trapped _ ho => exact .trapped (by simp [LwItem.drop]) (by simp [LwItem.drop, ho])
  | dropped _ ho => exact .dropped rfl (by simp [LwItem.drop, ho])
  | retired _ _ _ ho => exact .dropped rfl (by simp [LwItem.drop, ho])
  | stayed hl => simp [hh] at hl

structure FusedLw (coreId : ℤ) (m : Mailboxes) (i : LwItem) (m' : Mailboxes) : Prop where
  core : i.coreId = coreId
  before : i.before = m
  handler : i.handler = .fuse4 true
  ends : i.Ends m'

theorem FusedLw.not_stays {i : LwItem} {m' : Mailboxes} (h : FusedLw coreId m i m') :
    ¬(TileEvent.lw i).Stays := by
  rintro ⟨pc, ho⟩
  cases h.ends with
  | trapped _ hi | dropped _ hi | retired _ _ _ hi => simp [hi] at ho
  | stayed hl => simp [h.handler] at hl

theorem fuse4Loop_run (hc : c.Wired) (gs : List OpcodeFuse) (sh : Shared δ) (x : Reg → Word) (pc : Word) :
    Run (FusedLw c.coreId) sh.mail (fuse4Loop P c sh x pc gs).items
      (fuse4Loop P c sh x pc gs).shared.mail := by
  induction gs generalizing sh x pc with
  | nil => exact .nil _
  | cons g gs ih =>
    dsimp only [fuse4Loop]
    split_ifs
    · exact Run.single.mpr ⟨rfl, rfl, rfl, .trapped (by simp) rfl⟩
    · refine .cons ⟨rfl, rfl, rfl, ?_⟩ (ih _ _ _)
      rw [Function.update_self]
      exact retired_ends hc (by simp) (by simp) _ _

theorem doFuse4_traced (hc : c.Wired) : (doFuse4 P c rv sh f ir rest).Traced c.coreId sh.mail := by
  have hrun := fuse4Loop_run (P := P) hc ir.fuse sh rv.x f.pc
  have hstay := hrun.forall_mem fun _ _ _ h => h.not_stays
  unfold doFuse4
  dsimp only
  split
  · refine trapOp_traced (hrun.map fun m i m' h => .lw h.core h.before (h.ends.drop h.handler)) ?_
    rw [List.forall_mem_map]
    rintro i - ⟨pc, ho⟩
    dsimp only [LwItem.drop] at ho
    split at ho <;> cases ho
  · refine endOp_traced (hrun.map fun m i m' h => .lw h.core h.before h.ends) ?_
    rw [List.forall_mem_map]
    exact hstay

structure FusedSw (coreId : ℤ) (m : Mailboxes) (i : SwItem) (m' : Mailboxes) : Prop where
  core : i.coreId = coreId
  before : i.before = m
  after : m' = if i.outcome = .trapped then m else (mailboxWrite m coreId i.addr i.value).2

theorem fuse3Loop_run (hc : c.Wired) (gs : List OpcodeFuse) (sh : Shared δ) (x : Reg → Word) (pc : Word) :
    Run (FusedSw c.coreId) sh.mail (fuse3Loop P c sh x pc gs).items
      (fuse3Loop P c sh x pc gs).shared.mail := by
  induction gs generalizing sh pc with
  | nil => exact .nil _
  | cons g gs ih =>
    dsimp only [fuse3Loop]
    split_ifs
    · exact Run.single.mpr ⟨rfl, rfl, rfl⟩
    · exact .cons ⟨rfl, rfl, onMemWriteW_mail hc ..⟩ (ih _ _)

theorem SwItem.drop_trapped (i : SwItem) : i.drop.outcome = .trapped ↔ i.outcome = .trapped := by
  dsimp only [SwItem.drop]
  split <;> simp_all

theorem doFuse3_traced (hc : c.Wired) : (doFuse3 P c rv sh f ir rest).Traced c.coreId sh.mail := by
  have hrun := fuse3Loop_run (P := P) hc ir.fuse sh rv.x f.pc
  unfold doFuse3
  dsimp only
  split
  · refine trapOp_traced (hrun.map fun m i m' h => ?_) (List.forall_mem_map.mpr fun _ _ => id)
    rw [h.after, ← if_congr i.drop_trapped rfl rfl]
    exact .sw h.core h.before
  · refine endOp_traced (hrun.map fun m i m' h => ?_) (List.forall_mem_map.mpr fun _ _ => id)
    rw [h.after]
    exact .sw h.core h.before

theorem dispatchOp_traced (hc : c.Wired) (op : Opcode) :
    (dispatchOp P c rv sh f ir rest op).Traced c.coreId sh.mail := by
  cases op with
  | jal => exact doJal_traced
  | jalr => exact jumpTo_traced
  | branch cond => exact doBranch_traced
  | load op => exact doLoad_traced
  | lw => exact doLw_traced hc
  | store op => exact doStore_traced
  | sw => exact doSw_traced hc
  | ext e => exact doExt_traced hc
  | ttinsn => exact doTtinsn_traced
  | fuse3 => exact doFuse3_traced hc
  | fuse4 => exact doFuse4_traced hc
  | nop | lui | auipc | imm | alu | fuse1 | fuse2 | fuse5 => exact endOp_silent

theorem execute_traced (hc : c.Wired) (rv : Rv ξ) (sh : Shared δ) (f : Frame) :
    (execute P c rv sh f).Traced c.coreId sh.mail := by
  unfold execute
  split
  · exact endOp_silent
  · split
    · exact dispatchOp_traced hc _
    · exact doLwMailbox_traced hc
    · exact doTtinsn_traced

end handlers

section steps

variable {P : Platform δ ξ} {c : CoreConfig} {coreId : ℤ} {m m' : Mailboxes} {es : List TileEvent}

structure Stepped.Traced (coreId : ℤ) (m : Mailboxes) (s : Stepped δ ξ) : Prop where
  run : Run (MailStep coreId) m s.events s.shared.mail
  stays : (∀ ev ∈ s.events, ¬ev.Stays) ∨ (∃ ev, s.events = [ev]) ∧ s.ctl = none

theorem kernelTransition_traced (rv : Rv ξ) (sh : Shared δ) :
    Run (MailStep c.coreId) sh.mail (kernelTransition P c rv sh).2.2 (kernelTransition P c rv sh).2.1.mail ∧
      ∀ ev ∈ (kernelTransition P c rv sh).2.2, ¬ev.Stays := by
  unfold kernelTransition
  dsimp only
  split_ifs
  case pos => exact ⟨.nil _, by simp⟩
  case pos => exact ⟨Run.single.mpr .clear, by simp [TileEvent.Stays]⟩
  all_goals exact ⟨.nil _, by simp⟩

theorem dispatchBlock_traced (rv : Rv ξ) (sh : Shared δ) (target : ℕ) :
    (dispatchBlock P c rv sh target).Traced c.coreId sh.mail := by
  obtain ⟨hrun, hs⟩ := kernelTransition_traced (P := P) (c := c) (updatePrev rv) sh
  unfold dispatchBlock
  dsimp only
  split
  · exact ⟨hrun, .inl hs⟩
  · exact ⟨hrun, .inl hs⟩

theorem coreStep_traced (hc : c.Wired) (s : CoreState δ ξ) :
    (coreStep P c s).Traced c.coreId s.shared.mail := by
  unfold coreStep
  split
  · split_ifs
    · exact dispatchBlock_traced ..
    · exact ⟨.nil _, .inl (by simp)⟩
  case h_2 f _ =>
    have h := execute_traced (P := P) hc s.rv s.shared f
    dsimp only
    split
    case h_4 => exact ⟨h.run, h.stays.imp_right fun hs => ⟨hs.1, rfl⟩⟩
    all_goals exact ⟨h.run, .inl (h.stays.resolve_right fun hs => by simp_all)⟩

inductive TileTrace (coreId : ℤ) (m : Mailboxes) : List TileEvent → Mailboxes → Prop
  | within {es : List TileEvent} {m' : Mailboxes} : Run (MailStep coreId) m es m' → (∀ ev ∈ es, ¬ev.Stays) →
      TileTrace coreId m es m'
  | leaves {es : List TileEvent} {m' : Mailboxes} : Run (MailStep coreId) m es m' →
      (∀ ev ∈ es, ¬ev.Stays) ∨ (∃ ev, es = [ev]) →
      TileTrace coreId m (es ++ [.process ⟨.process coreId, m'⟩]) (mailboxProcess m' coreId).2
  | unwired {es : List TileEvent} {m' : Mailboxes} : mailboxCoreIndex coreId = none →
      Run (MailStep coreId) m es m' →
      TileTrace coreId m es m'

theorem TileTrace.run (h : TileTrace coreId m es m') : Run (MailStep coreId) m es m' := by
  cases h with
  | within hr => exact hr
  | leaves hr => exact hr.append (Run.single.mpr .process)
  | unwired _ hr => exact hr

theorem TileConfig.wired (cfg : TileConfig) (k : Core) : (cfg.core k).Wired := by
  cases k with
  | ncrisc => exact fun _ => rfl
  | _ => exact fun h => by cases h

theorem TileStep.trace {cfg : TileConfig} {t t' : Tile δ ξ} (h : TileStep P cfg t es t') :
    ∃ k : Core, TileTrace k.coreId t.shared.mail es t'.shared.mail := by
  obtain ⟨choice, h⟩ := h
  unfold tileStep at h
  split at h
  · refine ⟨choice, ?_⟩
    dsimp only at h
    split_ifs at h
    · cases h
      exact .within (.nil _) (by simp)
    · cases h
      exact .within (.nil _) (by simp)
  case h_2 k ctl _ =>
    have hs := coreStep_traced (P := P) (cfg.wired k) ⟨t.cores k, t.shared, ctl⟩
    refine ⟨k, ?_⟩
    dsimp only at h
    split at h
    · cases h
      exact .within hs.run (hs.stays.resolve_right fun h => by simp_all)
    · split_ifs at h with ht
      · cases h
        exact .leaves hs.run (hs.stays.imp_right And.left)
      · cases h
        exact .unwired (cfg.wired k (Bool.not_eq_true _ ▸ ht)) hs.run

def TileMail (m : Mailboxes) (e : TileEvent) (m' : Mailboxes) : Prop := ∃ k : Core, MailStep k.coreId m e m'

theorem tile_run_mail {cfg : TileConfig} {t t' : Tile δ ξ} {ess : List (List TileEvent)}
    (h : Run (TileStep P cfg) t ess t') : Run TileMail t.shared.mail ess.flatten t'.shared.mail := by
  induction h with
  | nil => exact .nil _
  | cons hs _ ih =>
    obtain ⟨k, hk⟩ := hs.trace
    exact (hk.run.imp fun _ _ _ _ h => ⟨k, h⟩).append ih

end steps

end Rv32Emu
