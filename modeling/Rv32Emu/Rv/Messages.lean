import Mathlib.Data.List.Flatten
import Rv32Emu.Rv.MailTrace

namespace Rv32Emu

namespace TileEvent

def mail : TileEvent → List MailboxEvent
  | lw i => if i.outcome = .trapped then [] else [⟨.read i.coreId i.addr, i.before⟩]
  | sw i => if i.outcome = .trapped then [] else [⟨.write i.coreId i.addr i.value, i.before⟩]
  | ext e => [e]
  | process e => [e]
  | clear => []

variable (s r : MailboxCore)

def accepted (e : TileEvent) : List Word := e.mail.flatMap (MailboxEvent.accepted s r)

def popped (e : TileEvent) : List Word := e.mail.flatMap (MailboxEvent.popped s r)

def stored : TileEvent → List Word
  | sw i => if i.outcome = .retired ∧ WritesTo i.coreId i.addr s r then [i.value] else []
  | _ => []

end TileEvent

def sinceClear (es : List TileEvent) : List TileEvent :=
  es.foldl (fun acc e => match e with
    | .clear => []
    | e => acc ++ [e]) []

theorem sinceClear_clear (es : List TileEvent) : sinceClear (es ++ [.clear]) = [] := by
  simp [sinceClear, List.foldl_append]

theorem sinceClear_snoc (es : List TileEvent) {e : TileEvent} (h : e ≠ .clear) :
    sinceClear (es ++ [e]) = sinceClear es ++ [e] := by
  cases e with
  | clear => exact absurd rfl h
  | _ => simp [sinceClear, List.foldl_append]

theorem mem_of_mem_sinceClear {es : List TileEvent} {e : TileEvent} : e ∈ sinceClear es → e ∈ es := by
  induction es using List.reverseRecOn with
  | nil => exact id
  | append_singleton es a ih =>
    by_cases ha : a = .clear
    · rw [ha, sinceClear_clear]
      intro he
      cases he
    · rw [sinceClear_snoc es ha, List.mem_append, List.mem_append]
      exact Or.imp_left ih

theorem MailStep.mail {coreId : ℤ} {m m' : Mailboxes} {e : TileEvent} (h : MailStep coreId m e m')
    (he : e ≠ .clear) : Run MailboxStep m e.mail m' := by
  cases h with
  | @lw i m' hc hb hi =>
    subst hb
    cases hi with
    | trapped _ ho =>
      simp only [TileEvent.mail, ho, if_true]
      exact .nil _
    | dropped _ ho | retired _ _ _ ho | stayed _ _ ho =>
      simp only [TileEvent.mail, ho, reduceCtorEq, if_false]
      exact Run.single.mpr ⟨rfl, rfl⟩
  | @sw i hc hb =>
    subst hb hc
    dsimp only [TileEvent.mail]
    split_ifs
    · exact .nil _
    · exact Run.single.mpr ⟨rfl, rfl⟩
  | read addr => exact Run.single.mpr ⟨rfl, rfl⟩
  | write addr value => exact Run.single.mpr ⟨rfl, rfl⟩
  | process => exact Run.single.mpr ⟨rfl, rfl⟩
  | clear => exact absurd rfl he

theorem mail_delivers {es : List TileEvent} {m : Mailboxes} (h : Run TileMail .init es m) :
    Delivers ((sinceClear es).flatMap TileEvent.mail) m := by
  have hstep : ∀ es m e m', Delivers ((sinceClear es).flatMap TileEvent.mail) m → TileMail m e m' →
      Delivers ((sinceClear (es ++ [e])).flatMap TileEvent.mail) m' := by
    rintro es m e m' hd ⟨k, hs⟩
    by_cases he : e = .clear
    · subst he
      cases hs
      rw [sinceClear_clear]
      exact delivers_init
    · rw [sinceClear_snoc es he, List.flatMap_append, List.flatMap_singleton]
      exact (hs.mail he).history (fun _ _ _ _ => Delivers.step) hd
  have hall : Delivers ((sinceClear ([] ++ es)).flatMap TileEvent.mail) m :=
    h.history (I := fun es m => Delivers ((sinceClear es).flatMap TileEvent.mail) m) hstep delivers_init
  exact hall

theorem mail_balance {es : List TileEvent} {m : Mailboxes} (h : Run TileMail .init es m) (s r : MailboxCore) :
    (sinceClear es).flatMap (TileEvent.popped s r) ++ (m.fifo s r).contents =
      (sinceClear es).flatMap (TileEvent.accepted s r) := by
  have hb := (mail_delivers h).balance s r
  rw [List.flatMap_assoc, List.flatMap_assoc] at hb
  exact hb

section stores

def TileEvent.FindsRoom : TileEvent → Prop
  | sw i => ∀ s r, WritesTo i.coreId i.addr s r → (i.before.fifo s r).count < mailboxFifoDepth
  | _ => True

instance findsRoomDecidable : DecidablePred TileEvent.FindsRoom
  | .sw i => inferInstanceAs
      (Decidable (∀ s r, WritesTo i.coreId i.addr s r → (i.before.fifo s r).count < mailboxFifoDepth))
  | .lw _ | .ext _ | .process _ | .clear => inferInstanceAs (Decidable True)

theorem stored_sublist_accepted {e : TileEvent} (h : e.FindsRoom) (s r : MailboxCore) :
    (e.stored s r).Sublist (e.accepted s r) := by
  cases e with
  | sw i =>
    dsimp only [TileEvent.stored]
    split_ifs with hs
    · have hroom := h s r hs.2
      simp [TileEvent.accepted, TileEvent.mail, MailboxEvent.accepted, MailboxOp.accepted, hs, hroom]
    · exact List.nil_sublist _
  | _ => exact List.nil_sublist _

variable {δ ξ : Type} {P : Platform δ ξ} {cfg : TileConfig} {t t' : Tile δ ξ} {ess : List (List TileEvent)}

theorem no_message_lost (h : Run (TileStep P cfg) t ess t') (hinit : t.shared.mail = .init)
    (hroom : ∀ e ∈ ess.flatten, e.FindsRoom) (s r : MailboxCore) :
    ((sinceClear ess.flatten).flatMap (TileEvent.stored s r)).Sublist
      ((sinceClear ess.flatten).flatMap (TileEvent.popped s r) ++ (t'.shared.mail.fifo s r).contents) := by
  have hmail := tile_run_mail h
  rw [hinit] at hmail
  rw [mail_balance hmail s r]
  exact List.Sublist.flatMap_right _ fun e he =>
    stored_sublist_accepted (hroom e (mem_of_mem_sinceClear he)) s r

def sendProgram (n : ℕ) : List Word := 0xFFEC17B7 :: List.replicate n 0x00F7A023 ++ [0x0000006F]

def oneCycle : TileConfig := ⟨true, fun _ => 1⟩

def sends (n : ℕ) : List (List TileEvent) × Tile Unit Unit :=
  Tile.reset.runAll (romPlatform (sendProgram n)) oneCycle (List.replicate 6 .brisc)

theorem no_message_lost_four : (∀ e ∈ (sends 4).1.flatten, e.FindsRoom) ∧
    ((sends 4).1.flatten.flatMap (TileEvent.stored 0 1)).length = 4 ∧
    ((sinceClear (sends 4).1.flatten).flatMap (TileEvent.stored 0 1)).Sublist
      ((sinceClear (sends 4).1.flatten).flatMap (TileEvent.popped 0 1) ++
        ((sends 4).2.shared.mail.fifo 0 1).contents) := by
  have hroom : ∀ e ∈ (sends 4).1.flatten, e.FindsRoom := by decide
  exact ⟨hroom, by decide, no_message_lost (Tile.runAll_run ..) rfl hroom 0 1⟩

theorem message_lost_five :
    ∃ ess t', Run (TileStep (romPlatform (sendProgram 5)) oneCycle) Tile.reset ess t' ∧
      (t'.cores .brisc).pc = 0x18 ∧
      ¬((sinceClear ess.flatten).flatMap (TileEvent.stored 0 1)).Sublist
        ((sinceClear ess.flatten).flatMap (TileEvent.popped 0 1) ++ (t'.shared.mail.fifo 0 1).contents) := by
  refine ⟨_, _, Tile.runAll_run _ oneCycle Tile.reset (List.replicate 6 .brisc), by decide, ?_⟩
  intro h
  have hlen := h.length_le
  revert hlen
  decide

end stores

end Rv32Emu
