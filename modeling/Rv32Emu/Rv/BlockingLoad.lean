import Rv32Emu.Rv.Messages
import Rv32Emu.Rv.WellFormed

namespace Rv32Emu

def LwItem.Pops (i : LwItem) (s r : MailboxCore) : Prop :=
  ReadsFrom i.coreId i.addr s r ∧ bit i.addr 2 = false
  deriving Decidable

def LwItem.loaded (i : LwItem) : List Word :=
  match i.outcome with
  | .retired v => [v]
  | _ => []

namespace TileEvent

def loaded (s r : MailboxCore) : TileEvent → List Word
  | lw i => if i.Pops s r then i.loaded else []
  | _ => []

def Blocking : TileEvent → Prop
  | lw i =>
    ∀ s r, i.Pops s r → i.handler = .lwMailbox ∨ i.handler ≠ .fuse4 false ∧ 0 < (i.before.fifo s r).count
  | ext ⟨.read coreId addr, _⟩ => ∀ s r, ReadsFrom coreId addr s r → bit addr 2 = true
  | _ => True

instance blockingDecidable : DecidablePred Blocking
  | lw i => inferInstanceAs (Decidable (∀ s r, i.Pops s r →
      i.handler = .lwMailbox ∨ i.handler ≠ .fuse4 false ∧ 0 < (i.before.fifo s r).count))
  | ext ⟨.read coreId addr, _⟩ =>
    inferInstanceAs (Decidable (∀ s r, ReadsFrom coreId addr s r → bit addr 2 = true))
  | ext ⟨.write _ _ _, _⟩ | ext ⟨.process _, _⟩ | sw _ | process _ | clear => inferInstanceAs (Decidable True)

def Delivered : TileEvent → Prop
  | lw i => ∀ s r, i.Pops s r →
      (lw i).popped s r = i.loaded ∧ ((i.before.fifo s r).count = 0 → i.outcome = .stayed i.pc)
  | e => ∀ s r, e.popped s r = []

end TileEvent

namespace Mailboxes

def Unstalled (m : Mailboxes) : Prop := ∀ k, m.stall k = false

def StallsOnly (coreId : ℤ) (m : Mailboxes) : Prop := ∀ k, m.stall k = true → mailboxCoreIndex coreId = some k

variable {m : Mailboxes} {coreId : ℤ}

theorem Unstalled.stallsOnly (h : m.Unstalled) : m.StallsOnly coreId := by
  intro k hk
  rw [h k] at hk
  cases hk

theorem StallsOnly.unstalled (h : m.StallsOnly coreId) (hn : mailboxCoreIndex coreId = none) :
    m.Unstalled := by
  intro k
  rw [Bool.eq_false_iff]
  intro hk
  rw [h k hk] at hn
  cases hn

theorem StallsOnly.process (h : m.StallsOnly coreId) : (mailboxProcess m coreId).2.Unstalled := by
  cases hc : mailboxCoreIndex coreId with
  | none =>
    simp only [mailboxProcess, hc]
    exact h.unstalled hc
  | some core =>
    have hother : ∀ k, k ≠ core → m.stall k = false := by
      intro k hk
      rw [Bool.eq_false_iff]
      intro hs
      exact hk (Option.some.inj ((h k hs).symm.trans hc))
    intro k
    simp only [mailboxProcess, hc]
    by_cases hk : k = core
    · subst hk
      split_ifs with hs
      · exact Function.update_self ..
      · exact Bool.eq_false_iff.mpr hs
    · split_ifs
      · exact (Function.update_of_ne hk ..).trans (hother k hk)
      · exact hother k hk

end Mailboxes

section stall

variable {m : Mailboxes} {coreId : ℤ} {addr value : Word} {s r : MailboxCore}

theorem mailboxWrite_stall (m : Mailboxes) (coreId : ℤ) (addr value : Word) :
    (mailboxWrite m coreId addr value).2.stall = m.stall := by
  unfold mailboxWrite
  split
  · rfl
  · split
    · rfl
    · dsimp only
      split <;> rfl

theorem mailboxRead_stall_of (h : ∀ s r, ReadsFrom coreId addr s r → bit addr 2 = false →
      0 < (m.fifo s r).count) :
    (mailboxRead m coreId addr).2.stall = m.stall := by
  cases hr : inMailboxRange addr with
  | false => simp [mailboxRead, hr]
  | true =>
    cases hc : mailboxCoreIndex coreId with
    | none => rw [mailboxRead_of_none hc]
    | some k =>
      have hreads : ReadsFrom coreId addr (mailboxTarget addr) k := ⟨hr, hc, rfl⟩
      cases hq : bit addr 2 with
      | true => rw [mailboxRead_query hreads hq]
      | false =>
        rw [mailboxRead_pop hreads hq]
        cases hp : fifoPop (m.fifo (mailboxTarget addr) k) with
        | none => exact absurd (MailboxFifo.pop_eq_none.mp hp) (h _ _ hreads hq).ne'
        | some p => rfl

theorem mailboxRead_empty (h : ReadsFrom coreId addr s r) (hq : bit addr 2 = false)
    (hc : (m.fifo s r).count = 0) :
    mailboxRead m coreId addr = (some 0, m.setStall r true) := by
  rw [mailboxRead_pop h hq, MailboxFifo.pop_eq_none.mpr hc]

theorem mailboxRead_stallsOnly (h : m.Unstalled) : (mailboxRead m coreId addr).2.StallsOnly coreId := by
  by_cases he : ∃ s r, ReadsFrom coreId addr s r ∧ bit addr 2 = false ∧ (m.fifo s r).count = 0
  · obtain ⟨s, r, hr, hq, hc⟩ := he
    intro k hk
    rw [mailboxRead_empty hr hq hc] at hk
    by_cases hkr : k = r
    · rw [hkr]
      exact hr.2.1
    · have hset : (m.setStall r true).stall k = m.stall k := Function.update_of_ne hkr ..
      rw [hset, h k] at hk
      cases hk
  · have hstall : (mailboxRead m coreId addr).2.stall = m.stall :=
      mailboxRead_stall_of fun s r hr hq => Nat.pos_of_ne_zero fun hc => he ⟨s, r, hr, hq, hc⟩
    have hu : (mailboxRead m coreId addr).2.Unstalled := by
      intro k
      rw [hstall]
      exact h k
    exact hu.stallsOnly

end stall

section load

variable {i : LwItem} {s r : MailboxCore} {v : Word}

theorem LwItem.stalled_of_empty (h : i.Pops s r) (hc : (i.before.fifo s r).count = 0) : i.stalled = true := by
  have hread : i.read = (some 0, i.before.setStall r true) := mailboxRead_empty h.1 h.2 hc
  simp [LwItem.stalled, h.1.2.1, hread, Mailboxes.setStall]

theorem LwItem.not_stalled (hu : i.before.Unstalled) (h : ∀ s r, i.Pops s r → 0 < (i.before.fifo s r).count) :
    i.stalled = false := by
  have hstall : i.read.2.stall = i.before.stall := mailboxRead_stall_of fun s r hr hq => h s r ⟨hr, hq⟩
  unfold LwItem.stalled
  rw [hstall]
  cases mailboxCoreIndex i.coreId with
  | none => rfl
  | some k => exact hu k

theorem LwItem.popped_eq (h : i.Pops s r) (ho : i.outcome ≠ .trapped) (hc : 0 < (i.before.fifo s r).count)
    (hv : i.read.1 = some v) : (TileEvent.lw i).popped s r = [v] := by
  have hread : (mailboxRead i.before i.coreId i.addr).1 = some v := hv
  simp [TileEvent.popped, TileEvent.mail, ho, MailboxEvent.popped, MailboxOp.popped, h.1, h.2, hc, hread]

theorem LwItem.popped_eq_nil (hc : (i.before.fifo s r).count = 0) : (TileEvent.lw i).popped s r = [] := by
  dsimp only [TileEvent.popped, TileEvent.mail]
  split_ifs
  · rfl
  · simp [MailboxEvent.popped, MailboxOp.popped, hc]

theorem LwItem.unstalled_of (hu : i.before.Unstalled)
    (h : ∀ s r, i.Pops s r → 0 < (i.before.fifo s r).count) :
    i.read.2.Unstalled := by
  intro k
  have hstall : i.read.2.stall = i.before.stall := mailboxRead_stall_of fun s r hr hq => h s r ⟨hr, hq⟩
  rw [hstall]
  exact hu k

theorem LwItem.Ends.delivered {m : Mailboxes} (h : i.Ends m) (hu : i.before.Unstalled)
    (hb : (TileEvent.lw i).Blocking) :
    (TileEvent.lw i).Delivered ∧ m.StallsOnly i.coreId ∧ (¬(TileEvent.lw i).Stays → m.Unstalled) := by
  cases h with
  | trapped hh ho =>
    refine ⟨fun s r hp => ⟨?_, fun hc => ?_⟩, hu.stallsOnly, fun _ => hu⟩
    · simp [TileEvent.popped, TileEvent.mail, LwItem.loaded, ho]
    · exact absurd hc ((hb s r hp).resolve_left hh).2.ne'
  | dropped hh ho =>
    have hno : ∀ s r, ¬i.Pops s r := by
      intro s r hp
      rcases hb s r hp with hl | hl
      · simp [hh] at hl
      · exact hl.1 hh
    refine ⟨fun s r hp => absurd hp (hno s r), mailboxRead_stallsOnly hu, fun _ => ?_⟩
    exact LwItem.unstalled_of hu fun s r hp => absurd hp (hno s r)
  | @retired v _ hs hv ho =>
    have hsome : ∀ s r, i.Pops s r → 0 < (i.before.fifo s r).count := by
      intro s r hp
      rcases hb s r hp with hl | hl
      · refine Nat.pos_of_ne_zero fun hc => ?_
        have hstalled := LwItem.stalled_of_empty hp hc
        rw [hs hl] at hstalled
        cases hstalled
      · exact hl.2
    refine ⟨fun s r hp => ⟨?_, fun hc => absurd hc (hsome s r hp).ne'⟩, mailboxRead_stallsOnly hu,
      fun _ => LwItem.unstalled_of hu hsome⟩
    rw [LwItem.popped_eq hp (by simp [ho]) (hsome s r hp) (hv s r hp.1)]
    simp [LwItem.loaded, ho]
  | stayed hh hs ho =>
    refine ⟨fun s r hp => ⟨?_, fun _ => ho⟩, mailboxRead_stallsOnly hu, fun hn => absurd ⟨_, ho⟩ hn⟩
    have hempty : (i.before.fifo s r).count = 0 := by
      by_contra hc
      -- the flag of the core was down, and a load that pops leaves it there
      have hdown := LwItem.not_stalled hu fun s' r' hp' => by
        obtain rfl : s' = s := hp'.1.2.2.symm.trans hp.1.2.2
        obtain rfl : r' = r := Option.some.inj (hp'.1.2.1.symm.trans hp.1.2.1)
        exact Nat.pos_of_ne_zero hc
      rw [hs] at hdown
      cases hdown
    rw [LwItem.popped_eq_nil hempty]
    simp [LwItem.loaded, ho]

end load

section translate

variable {δ ξ : Type} {P : Platform δ ξ} {E : ExtUnits δ ξ} {c : CoreConfig} {m p : Ir} {pre post : List Ir}

/-- The constants that the translator holds for the registers once it has passed `irs`. -/
def luiAfter (luiConst : Reg → Word) (irs : List Ir) : Reg → Word :=
  irs.foldl (fun luiConst ir => Function.update luiConst ir.rd (if isLui ir.opcode then ir.imm else 0))
    luiConst

/-- An LW becomes a mailbox load exactly when the address guessed for it is a mailbox address. -/
theorem translateLoop_mailbox_iff {dev : δ} {x luiConst : Reg → Word} {n : ℕ} {pc : Word}
    (h : translateLoop (P.extend E) c dev x n pc luiConst = some (pre ++ m :: post)) (hop : m.opcode = .lw) :
    m.impl = .lwMailbox ↔ c.tensix = true ∧ inMailboxRange (effAddr (luiAfter luiConst pre) x m) = true := by
  induction n generalizing pc luiConst pre with
  | zero => cases h
  | succ n ih =>
    unfold translateLoop at h
    dsimp only at h
    split at h
    · cases h
    split at h
    · cases pre with
      | nil =>
        cases h
        cases hop
      | cons => simp at h
    case h_2 ir hd =>
      have himpl : ir.impl = .dispatch ir.opcode := (rvDecode_decoded hd).impl
      split at h
      case isTrue hguess =>
        cases pre with
        | nil =>
          cases h
          rw [Bool.and_eq_true, Bool.and_eq_true] at hguess
          exact iff_of_true rfl ⟨hguess.1.1, hguess.2⟩
        | cons => simp at h
      case isFalse hguess =>
        have plain (hm : m = { ir with pc := pc }) :
            m.impl = .lwMailbox ↔ c.tensix = true ∧ inMailboxRange (effAddr luiConst x m) = true := by
          subst hm
          refine iff_of_false (fun hmail => ?_) fun hrange => hguess ?_
          · cases himpl.symm.trans hmail
          · rw [Bool.and_eq_true, Bool.and_eq_true]
            exact ⟨⟨hrange.1, isLw_iff.mpr hop⟩, hrange.2⟩
        split at h
        · cases pre with
          | nil =>
            rw [Option.some.injEq, List.nil_append, List.cons.injEq] at h
            exact plain h.1.symm
          | cons => simp at h
        · obtain ⟨rest, hrest, heq⟩ := Option.map_eq_some_iff.mp h
          cases pre with
          | nil =>
            rw [List.nil_append, List.cons.injEq] at heq
            exact plain heq.1.symm
          | cons =>
            rw [List.cons_append, List.cons.injEq] at heq
            obtain ⟨rfl, rfl⟩ := heq
            have htail := ih hrest
            exact htail

theorem constopt_isLw (ir : Ir) (info : ConstInfo) : isLw (constopt P ir info).1.opcode = isLw ir.opcode := by
  unfold constopt
  split
  all_goals first
    | rfl
    | rename_i hop
      rw [hop]
      repeat' split
      all_goals first | rfl | exact congrArg isLw hop

theorem optimizeConstant_lw_last (info : ConstInfo) (pre : List Ir) (hop : m.opcode = .lw) :
    ∃ pre', optimizeConstant P info (pre ++ [m]) = pre' ++ [m] ∧
      pre'.map (fun ir => isLw ir.opcode) = pre.map fun ir => isLw ir.opcode := by
  induction pre generalizing info with
  | nil => exact ⟨[], by simp [optimizeConstant, constopt, hop], rfl⟩
  | cons ir pre ih =>
    obtain ⟨pre', heq, hmap⟩ := ih (constopt P ir info).2
    refine ⟨(constopt P ir info).1 :: pre', ?_, ?_⟩
    · change _ :: optimizeConstant P (constopt P ir info).2 (pre ++ [m]) = _
      rw [heq]
      rfl
    · rw [List.map_cons, List.map_cons, hmap, constopt_isLw]

theorem fuseRun_keeps {kind : Opcode → Bool} (opcode : Opcode)
    (h : kind m.opcode = false ∨ ∃ q ∈ pre, kind q.opcode = false) :
    ∃ k ≤ pre.length, (fuseRun p (pre ++ [m]) kind opcode).2 = (pre ++ [m]).drop k := by
  have hlen : ((pre ++ [m]).takeWhile (kind ·.opcode)).length ≤ pre.length := by
    rw [List.takeWhile_append]
    split_ifs with hall
    · obtain hm | ⟨q, hq, hkind⟩ := h
      · simp [hm]
      · rw [← (List.takeWhile_prefix _).eq_of_length hall] at hq
        have hall := List.all_takeWhile (p := fun ir : Ir => kind ir.opcode) (l := pre)
        rw [List.all_eq_true.mp hall q hq] at hkind
        cases hkind
    · exact (List.takeWhile_prefix _).length_le
  unfold fuseRun
  dsimp only
  split_ifs
  · exact ⟨0, Nat.zero_le _, rfl⟩
  · exact ⟨_, (Nat.mod_le _ _).trans hlen, rfl⟩

/-- Fusion at an instruction before a final LW leaves that LW, unless the LW before it is fused with it. -/
theorem fuseHead_keeps (hop : m.opcode = .lw) (hlast : ∀ q ∈ (p :: pre).getLast?, q.opcode ≠ .lw) :
    ∃ k ≤ pre.length, (fuseHead p (pre ++ [m])).2 = (pre ++ [m]).drop k := by
  have hstop : p.opcode = .lw → ∃ q ∈ pre, isLw q.opcode = false := by
    intro hp
    cases hq : pre.getLast? with
    | none =>
      rw [List.getLast?_eq_none_iff] at hq
      subst hq
      exact absurd hp (hlast p rfl)
    | some q =>
      have hne : q.opcode ≠ .lw := hlast q (by rw [List.getLast?_cons, hq]; rfl)
      exact ⟨q, List.mem_of_getLast? hq, Bool.eq_false_iff.mpr fun h => hne (isLw_iff.mp h)⟩
  have hm : isLui m.opcode = false ∧ isSw m.opcode = false ∧ isShift m.opcode = false := by
    rw [hop]
    exact ⟨rfl, rfl, rfl⟩
  cases hrest : pre ++ [m] with
  | nil => exact absurd hrest (by simp)
  | cons next rest =>
    have runs {kind : Opcode → Bool} (opcode : Opcode)
        (hkind : kind m.opcode = false ∨ ∃ q ∈ pre, kind q.opcode = false) :
        ∃ k ≤ pre.length, (fuseRun p (next :: rest) kind opcode).2 = (next :: rest).drop k := by
      rw [← hrest]
      exact fuseRun_keeps opcode hkind
    unfold fuseHead
    dsimp only
    split
    · split
      case h_1 hadd =>
        split
        · cases pre with
          | nil =>
            cases hrest
            rw [hop] at hadd
            cases hadd
          | cons q pre =>
            exact ⟨1, Nat.succ_pos _, rfl⟩
        · exact ⟨0, Nat.zero_le _, rfl⟩
      · exact runs _ (.inl hm.1)
    · exact runs _ (.inl hm.2.1)
    case h_3 hp => exact runs _ (.inr (hstop hp))
    · exact runs _ (.inl hm.2.2)
    · exact runs _ (.inl hm.2.2)
    · exact runs _ (.inl hm.2.2)
    · exact ⟨0, Nat.zero_le _, rfl⟩

theorem matchPattern_keeps {n : ℕ} (hn : pre.length < n) (hop : m.opcode = .lw)
    (hlast : ∀ q ∈ pre.getLast?, q.opcode ≠ .lw) : (matchPattern n (pre ++ [m])).getLast? = some m := by
  induction n generalizing pre with
  | zero => cases hn
  | succ n ih =>
    cases pre with
    | nil => cases n <;> rfl
    | cons p pre =>
      obtain ⟨k, hk, hrest⟩ := fuseHead_keeps hop hlast
      rw [List.drop_append_of_le_length hk] at hrest
      have hdrop : (matchPattern n (pre.drop k ++ [m])).getLast? = some m := by
        refine ih ?_ fun q hq => hlast q ?_
        · rw [List.length_drop]
          exact Nat.lt_of_le_of_lt (Nat.sub_le _ _) (Nat.lt_of_succ_lt_succ hn)
        · rw [List.getLast?_drop] at hq
          split_ifs at hq
          · cases hq
          · rw [List.getLast?_cons, Option.mem_def.mp hq]
            rfl
      change (_ :: matchPattern n (fuseHead p (pre ++ [m])).2).getLast? = some m
      rw [hrest, List.getLast?_cons, hdrop]
      rfl

/-- An LW that the translator takes for a mailbox load and that comes directly behind no other LW ends
its block and waits for its mailbox, whatever address it turns out to have. -/
theorem translated_load_blocks {dev : δ} {rv : Rv ξ} {b : Block}
    (h : blockTranslate (P.extend E) c dev rv = some b)
    (hl : translateLoop (P.extend E) c dev rv.x P.irPool rv.pc (fun _ => 0) = some (pre ++ [m]))
    (hop : m.opcode = .lw) (ht : c.tensix = true)
    (hguess : inMailboxRange (effAddr (luiAfter (fun _ => 0) pre) rv.x m) = true)
    (hprev : ∀ q ∈ pre.getLast?, q.opcode ≠ .lw) :
    b.irs.getLast? = some m ∧
      ∀ rv sh f, f.irs = [m] → ∀ e ∈ (execute (P.extend E) c rv sh f).events, e.Blocking := by
  have hm : m.impl = .lwMailbox := (translateLoop_mailbox_iff hl hop).mpr ⟨ht, hguess⟩
  refine ⟨?_, fun rv sh f hf e he => ?_⟩
  · obtain ⟨irs, hirs, hb⟩ := Option.bind_eq_some_iff.mp h
    cases hl.symm.trans hirs
    split_ifs at hb
    cases hb
    obtain ⟨pre', heq, hmap⟩ := optimizeConstant_lw_last (P := P.extend E) ⟨fun r => r = 0, fun _ => 0⟩ pre
        hop
    dsimp only
    rw [heq]
    refine matchPattern_keeps (by simp) hop fun q hq hlw => ?_
    have hpre : (pre.map fun ir => isLw ir.opcode).getLast? = some true := by
      rw [← hmap, List.getLast?_map, Option.mem_def.mp hq]
      exact congrArg some (isLw_iff.mpr hlw)
    rw [List.getLast?_map, Option.map_eq_some_iff] at hpre
    obtain ⟨q', hq', hlw'⟩ := hpre
    exact hprev q' hq' (isLw_iff.mp hlw')
  · have hexec : ∃ outcome, e = .lw ⟨.lwMailbox, c.coreId, f.pc, m.rd, rv.x m.rs1 + m.imm, sh.mail,
        outcome⟩ := by
      simp only [execute, hf, hm, doLwMailbox] at he
      split_ifs at he <;> exact ⟨_, List.mem_singleton.mp he⟩
    obtain ⟨outcome, rfl⟩ := hexec
    exact fun s r _ => .inl rfl

end translate

section runs

variable {coreId : ℤ} {m m' : Mailboxes} {e : TileEvent} {es : List TileEvent}

theorem Mailboxes.Unstalled.of_eq (hu : m.Unstalled) (h : m'.stall = m.stall) : m'.Unstalled := by
  intro k
  rw [h]
  exact hu k

theorem MailStep.delivered (h : MailStep coreId m e m') (hu : m.Unstalled) (hb : e.Blocking) :
    e.Delivered ∧ m'.StallsOnly coreId ∧ (¬e.Stays → m'.Unstalled) := by
  have other (hd : e.Delivered) (hu : m'.Unstalled) :
      e.Delivered ∧ m'.StallsOnly coreId ∧ (¬e.Stays → m'.Unstalled) := ⟨hd, hu.stallsOnly, fun _ => hu⟩
  cases h with
  | lw hc hm hi =>
    subst hc hm
    exact hi.delivered hu hb
  | @sw i hc hm =>
    refine other (fun s r => ?_) ?_
    · dsimp only [TileEvent.popped, TileEvent.mail]
      split_ifs <;> rfl
    · split_ifs
      · exact hu
      · exact hu.of_eq (mailboxWrite_stall ..)
  | read addr =>
    have hquery : ∀ s r, ReadsFrom coreId addr s r → bit addr 2 = true := hb
    refine other (fun s r => ?_) (hu.of_eq (mailboxRead_stall_of fun s r hr hq => ?_))
    · have hno : ¬(ReadsFrom coreId addr s r ∧ bit addr 2 = false ∧ 0 < (m.fifo s r).count) := by
        rintro ⟨hr, hq, -⟩
        rw [hquery s r hr] at hq
        cases hq
      simp only [TileEvent.popped, TileEvent.mail, List.flatMap_singleton, MailboxEvent.popped,
        MailboxOp.popped, if_neg hno]
    · rw [hquery s r hr] at hq
      cases hq
  | write addr value => exact other (fun _ _ => rfl) (hu.of_eq (mailboxWrite_stall ..))
  | process => exact other (fun _ _ => rfl) hu.stallsOnly.process
  | clear => exact other (fun _ _ => rfl) fun _ => rfl

theorem run_delivered (h : Run (MailStep coreId) m es m') (hu : m.Unstalled) (hb : ∀ e ∈ es, e.Blocking)
    (hs : (∀ e ∈ es, ¬e.Stays) ∨ mailboxCoreIndex coreId = none) :
    (∀ e ∈ es, e.Delivered) ∧ m'.Unstalled := by
  induction h with
  | nil => exact ⟨by simp, hu⟩
  | cons hstep _ ih =>
    obtain ⟨hd, honly, hquiet⟩ := hstep.delivered hu (hb _ List.mem_cons_self)
    have hu' := hs.elim (fun hs => hquiet (hs _ List.mem_cons_self)) honly.unstalled
    obtain ⟨hds, hu''⟩ := ih hu' (fun e he => hb e (List.mem_cons_of_mem _ he))
      (hs.imp_left fun hs e he => hs e (List.mem_cons_of_mem _ he))
    exact ⟨List.forall_mem_cons.mpr ⟨hd, hds⟩, hu''⟩

theorem TileTrace.delivered (h : TileTrace coreId m es m') (hu : m.Unstalled) (hb : ∀ e ∈ es, e.Blocking) :
    (∀ e ∈ es, e.Delivered) ∧ m'.Unstalled := by
  cases h with
  | within hr hs => exact run_delivered hr hu hb (.inl hs)
  | unwired hn hr => exact run_delivered hr hu hb (.inr hn)
  | @leaves es m' hr hs =>
    have hb' : ∀ e ∈ es, e.Blocking := fun e he => hb e (List.mem_append_left _ he)
    have hbefore : (∀ e ∈ es, e.Delivered) ∧ m'.StallsOnly coreId := by
      rcases hs with hs | ⟨ev, rfl⟩
      · obtain ⟨hd, hu'⟩ := run_delivered hr hu hb' (.inl hs)
        exact ⟨hd, hu'.stallsOnly⟩
      · obtain ⟨hd, honly, -⟩ := (Run.single.mp hr).delivered hu (hb' ev (List.mem_singleton_self ev))
        exact ⟨by simpa using hd, honly⟩
    refine ⟨?_, hbefore.2.process⟩
    rw [List.forall_mem_append]
    exact ⟨hbefore.1, by simp [TileEvent.Delivered, TileEvent.popped, TileEvent.mail, MailboxEvent.popped,
      MailboxOp.popped]⟩

variable {δ ξ : Type} {P : Platform δ ξ} {cfg : TileConfig} {t t' : Tile δ ξ} {ess : List (List TileEvent)}

theorem tile_run_delivered (h : Run (TileStep P cfg) t ess t') (hu : t.shared.mail.Unstalled)
    (hb : ∀ e ∈ ess.flatten, e.Blocking) : ∀ e ∈ ess.flatten, e.Delivered := by
  induction h with
  | nil => simp
  | cons hs _ ih =>
    rw [List.flatten_cons, List.forall_mem_append] at hb ⊢
    obtain ⟨k, hk⟩ := hs.trace
    obtain ⟨hd, hu'⟩ := hk.delivered hu hb.1
    exact ⟨hd, ih hu' hb.2⟩

theorem TileEvent.Delivered.popped_eq_loaded (h : e.Delivered) (s r : MailboxCore) :
    e.popped s r = e.loaded s r := by
  cases e with
  | lw i =>
    dsimp only [TileEvent.loaded]
    split_ifs with hp
    · exact (h s r hp).1
    · have hno : ¬(ReadsFrom i.coreId i.addr s r ∧ bit i.addr 2 = false ∧ 0 < (i.before.fifo s r).count) :=
        fun hr => hp ⟨hr.1, hr.2.1⟩
      dsimp only [TileEvent.popped, TileEvent.mail]
      split_ifs
      · rfl
      · simp only [List.flatMap_singleton, MailboxEvent.popped, MailboxOp.popped, if_neg hno]
  | _ => exact h s r

theorem mailbox_loads_block (h : Run (TileStep P cfg) t ess t') (hinit : t.shared.mail = .init)
    (hb : ∀ e ∈ ess.flatten, e.Blocking) (s r : MailboxCore) :
    (∀ i, TileEvent.lw i ∈ ess.flatten → i.Pops s r →
        (TileEvent.lw i).popped s r = i.loaded ∧ ((i.before.fifo s r).count = 0 → i.outcome = .stayed i.pc)) ∧
      ess.flatten.flatMap (TileEvent.popped s r) = ess.flatten.flatMap (TileEvent.loaded s r) ∧
      (sinceClear ess.flatten).flatMap (TileEvent.loaded s r) ++ (t'.shared.mail.fifo s r).contents =
        (sinceClear ess.flatten).flatMap (TileEvent.accepted s r) := by
  have hu : t.shared.mail.Unstalled := by
    rw [hinit]
    exact fun _ => rfl
  have hd := tile_run_delivered h hu hb
  have hmail := tile_run_mail h
  rw [hinit] at hmail
  refine ⟨fun i hi hp => hd _ hi s r hp, List.flatMap_congr fun e he => (hd e he).popped_eq_loaded s r, ?_⟩
  rw [← mail_balance hmail s r]
  exact congrArg (· ++ _) (List.flatMap_congr fun e he =>
    ((hd e (mem_of_mem_sinceClear he)).popped_eq_loaded s r).symm)

def waitProgram : List Word := sendProgram 1 ++ [0xFFEC07B7, 0x0007A803, 0x0000006F]

def waitTile : Tile Unit Unit :=
  { Tile.reset with cores := Function.update Tile.reset.cores .trisc0 { Rv.reset with pc := 0xC } }

def waits : List (List TileEvent) × Tile Unit Unit :=
  waitTile.runAll (romPlatform waitProgram) oneCycle
    (List.replicate 4 .trisc0 ++ List.replicate 6 .brisc ++ List.replicate 4 .trisc0)

theorem mailbox_loads_block_wait : (∀ e ∈ waits.1.flatten, e.Blocking) ∧
    waits.1.flatten.flatMap (TileEvent.loaded 0 1) = [0xFFEC1000] ∧
      (waits.2.cores .trisc0).x 16 = 0xFFEC1000 ∧
    waits.1.flatten.flatMap (TileEvent.popped 0 1) = waits.1.flatten.flatMap (TileEvent.loaded 0 1) := by
  have hb : ∀ e ∈ waits.1.flatten, e.Blocking := by decide
  exact ⟨hb, by decide, by decide, (mailbox_loads_block (Tile.runAll_run ..) rfl hb 0 1).2.1⟩

/-- `lui a5, 0xFFEC0; addi a5, a5, 0; lw a6, 0(a5)`: the base register is no LUI constant any more, and it
is zero when the block is translated. -/
def addiProgram : List Word := [0xFFEC07B7, 0x00078793, 0x0007A803, 0x0000006F]

def addiLoad : LwItem := ⟨.lw, 0, 8, 16, 0xFFEC0000, .init, .retired 0⟩

theorem mailbox_load_retires_empty :
    ∃ ess t', Run (TileStep (romPlatform addiProgram) oneCycle) Tile.reset ess t' ∧
      TileEvent.lw addiLoad ∈ ess.flatten ∧
      addiLoad.Pops 0 1 ∧ (addiLoad.before.fifo 0 1).count = 0 ∧ addiLoad.outcome = .retired 0 ∧
      (TileEvent.lw addiLoad).popped 0 1 = [] ∧ (t'.cores .trisc0).pc = 0xC := by
  refine ⟨_, _, Tile.runAll_run _ oneCycle Tile.reset
    (List.replicate 7 .trisc0), ?_, by decide, rfl, rfl, by decide, by decide⟩
  exact List.mem_of_getElem? (i := 0) rfl

end runs

end Rv32Emu
