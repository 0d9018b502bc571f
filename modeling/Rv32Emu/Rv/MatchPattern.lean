import Rv32Emu.Rv.Fusion

namespace Rv32Emu

variable {δ ξ : Type} {P : Platform δ ξ} {c : CoreConfig} {rv rv' : Rv ξ} {sh sh' : Shared δ} {f : Frame}
  {ir g : Ir}
  {irs run rest tail : List Ir} {prev : Opcode}

section withTrap

variable (trap : ξ → Word → Word → Word → ξ × Word × Bool)

theorem WordIo.run_withTrap {α : Type} (io : WordIo α) (sh : Shared δ) :
    io.run (P.withTrap trap) c sh = io.run P c sh := by
  induction io generalizing sh with
  | done a => rfl
  | read addr next ih =>
    simp only [WordIo.run, ih]
    rfl
  | write addr value next ih =>
    simp only [WordIo.run, ih]
    rfl

theorem dispatchOp_withTrap {op : Opcode} (hplain : op.fused = false) :
    dispatchOp (P.withTrap trap) c rv sh f ir rest op = dispatchOp P c rv sh f ir rest op ∨
      (dispatchOp P c rv sh f ir rest op).flow = .ret false true := by
  cases op with
  | load op =>
    cases op with
    | lb | lbu => exact .inl rfl
    | lh | lhu =>
      dsimp only [dispatchOp, doLoad]
      split_ifs
      · exact .inr rfl
      · exact .inl rfl
  | store op =>
    cases op with
    | sb => exact .inl rfl
    | sh =>
      dsimp only [dispatchOp, doStore]
      split_ifs
      · exact .inr rfl
      · exact .inl rfl
  | lw =>
    dsimp only [dispatchOp, doLw]
    split_ifs
    · exact .inr rfl
    · exact .inl rfl
  | sw =>
    dsimp only [dispatchOp, doSw]
    split_ifs
    · exact .inr rfl
    · exact .inl rfl
  | ext e =>
    dsimp only [dispatchOp, doExt]
    rw [WordIo.run_withTrap]
    exact .inl rfl
  | fuse3 | fuse4 => cases hplain
  | _ => exact .inl rfl

theorem execute_withTrap {f' : Frame} (hf : f.irs = ir :: rest)
    (hplain : ∀ op, ir.impl = .dispatch op → op.fused = false) (h : (execute P c rv sh f).flow = .next f') :
    execute (P.withTrap trap) c rv sh f = execute P c rv sh f := by
  unfold execute at h ⊢
  rw [hf] at h ⊢
  dsimp only at h ⊢
  split at h
  case h_1 op hi =>
    refine (dispatchOp_withTrap trap (hplain op hi)).resolve_right fun hret => ?_
    rw [hret] at h
    cases h
  · rfl
  · rfl

end withTrap

section alone

variable {rest' : List Ir} {f' : Frame}

theorem runIrs_next (hend : SameEnd rest rest')
    (h : (execute P c rv sh { f with irs := ir :: rest }).flow = .next f') :
    runIrs P c (ir :: rest') rv sh f =
      runIrs P c rest' (execute P c rv sh { f with irs := ir :: rest }).rv
        (execute P c rv sh { f with irs := ir :: rest }).shared f' := by
  have hagrees : (execute P c rv sh { f with irs := ir :: rest }).Agrees
      (execute P c rv sh { f with irs := ir :: rest' }) := execute_agrees hend
  obtain ⟨hrv, hsh, hflow⟩ := hagrees
  rw [h] at hflow
  rw [runIrs, hrv, hsh]
  cases he : (execute P c rv sh { f with irs := ir :: rest' }).flow with
  | next f'' =>
    rw [he] at hflow
    have hbare : ({ f' with irs := [] } : Frame) = { f'' with irs := [] } := by injection hflow
    dsimp only
    rw [← runIrs_bare, ← hbare, runIrs_bare]
  | jump f'' | ret ok counted =>
    rw [he] at hflow
    cases hflow

theorem runsAlike_alone (hplain : ∀ op, ir.impl = .dispatch op → op.fused = false)
    (hend : SameEnd rest rest') :
    RunsAlike P c (ir :: rest) (ir :: rest') rv sh f ↔
      ∀ f', (execute P c rv sh { f with irs := ir :: rest }).flow = .next f' →
        RunsAlike P c rest rest' (execute P c rv sh { f with irs := ir :: rest }).rv
          (execute P c rv sh { f with irs := ir :: rest }).shared f' := by
  constructor
  · intro halike f' hflow trap
    have heq := execute_withTrap trap rfl hplain hflow
    have hnext := halike trap
    rw [← heq] at hflow ⊢
    rw [runIrs_next .rfl hflow, runIrs_next hend hflow] at hnext
    exact hnext
  · intro hrest trap
    refine runIrs_effect_congr (execute_agrees hend) fun f' hflow => ?_
    have heq : execute P c rv sh { f with irs := ir :: rest } =
        execute (P.withTrap trap) c rv sh { f with irs := ir :: rest } :=
      execute_withTrap P.trap rfl hplain hflow
    have hnext := hrest f' (heq ▸ hflow) trap
    rw [heq] at hnext
    exact hnext

theorem spoils_alone (hprev : paired prev ir.opcode = false)
    (hnext : ∀ next ∈ rest.head?, paired ir.opcode next.opcode = false) :
    spoilsGroup P c prev (ir :: rest) rv sh f = false ↔
      ∀ f', (execute P c rv sh { f with irs := ir :: rest }).flow = .next f' →
        spoilsGroup P c ir.opcode rest (execute P c rv sh { f with irs := ir :: rest }).rv
          (execute P c rv sh { f with irs := ir :: rest }).shared f' = false := by
  have hany : rest.head?.any (paired ir.opcode ·.opcode) = false := by
    cases rest with
    | nil => rfl
    | cons next rest => exact hnext next rfl
  rw [spoilsGroup, hprev, hany, Bool.or_self, Bool.false_and, Bool.false_or]
  cases (execute P c rv sh { f with irs := ir :: rest }).flow with
  | next f' =>
    constructor
    · rintro h _ ⟨⟩
      exact h
    · intro h
      exact h f' rfl
  | jump f' => exact ⟨fun _ _ h => (by cases h), fun _ => rfl⟩
  | ret ok counted => exact ⟨fun _ _ h => (by cases h), fun _ => rfl⟩

end alone

section mailbox

variable {pre : List Ir} {m : Ir}

theorem doLwMailbox_effect (rv : Rv ξ) (sh : Shared δ) (f : Frame) (m : Ir) :
    (doLwMailbox P c rv sh f m).effect.ok = !stalls c (onMemReadW P c sh (rv.x m.rs1 + m.imm)).2 ∧
      (stalls c (onMemReadW P c sh (rv.x m.rs1 + m.imm)).2 = false → (doLwMailbox P c rv sh f m).effect =
        (runIrs P c [] (rv.setX m.rd (onMemReadW P c sh (rv.x m.rs1 + m.imm)).1)
          (onMemReadW P c sh (rv.x m.rs1 + m.imm)).2 (f.past 1)).effect) := by
  unfold doLwMailbox
  dsimp only
  rw [← stalls]
  cases stalls c (onMemReadW P c sh (rv.x m.rs1 + m.imm)).2 with
  | false => exact ⟨rfl, fun _ => rfl⟩
  | true => exact ⟨rfl, nofun⟩

theorem runIrs_mailbox (hm : m.impl = .lwMailbox) (rv : Rv ξ) (sh : Shared δ) (f : Frame) :
    runIrs P c [m] rv sh f = doLwMailbox P c rv sh { f with irs := [m] } m := by
  rw [runIrs_single]
  simp only [execute, hm]

theorem spoils_mailbox (hm : m.impl = .lwMailbox) (hop : m.opcode = .lw) (hprev : isLw prev = true) :
    spoilsGroup P c prev [m] rv sh f = m.irregular P c rv sh := by
  have hpaired : paired prev m.opcode = true := by rw [paired_lw (by rw [hop]; rfl), hprev]
  have hret : ∀ f', (execute P c rv sh { f with irs := [m] }).flow ≠ .next f' := by
    intro f' h
    simp only [execute, hm, doLwMailbox] at h
    split_ifs at h
  rw [spoilsGroup, hpaired, Bool.true_or, Bool.true_and]
  cases hflow : (execute P c rv sh { f with irs := [m] }).flow with
  | next f' => exact absurd hflow (hret f')
  | jump f' | ret ok counted => exact Bool.or_false _

theorem mailbox_last (hm : m.impl = .lwMailbox)
    (hg : ∀ trap, g.Fuses (P.withTrap trap) c loadMisaligned (loadMember P c)
      ((pre ++ [m]).map Ir.toOpcodeFuse))
    (hpre : ∀ trap, ∀ ir ∈ pre, ir.Steps (P.withTrap trap) c loadMisaligned (loadMember P c))
    (hdone : groupRun (loadMember P c) (pre.map Ir.toOpcodeFuse) rv sh = .done rv' sh') :
    RunsAlike P c (pre ++ [m]) [g] rv sh f ↔ m.irregular P c rv' sh' = false := by
  have hlen : ((pre ++ [m]).map Ir.toOpcodeFuse).length = pre.length + 1 := by
    rw [List.length_map, List.length_append, List.length_singleton]
  have hunfused (trap : ξ → Word → Word → Word → ξ × Word × Bool) :
      (runIrs (P.withTrap trap) c (pre ++ [m]) rv sh f).effect =
        (doLwMailbox P c rv' sh' { f.past pre.length with irs := [m] } m).effect := by
    rw [group_runs (hpre trap), hdone, GroupEnd.effect, runIrs_mailbox hm]
    rfl
  have hgroup : groupRun (loadMember P c) ((pre ++ [m]).map Ir.toOpcodeFuse) rv sh =
      (groupRun (loadMember P c) [m.toOpcodeFuse] rv' sh').later pre.length := by
    rw [List.map_append, groupRun_append, hdone, List.length_map]
    rfl
  obtain ⟨hok, hretires⟩ := doLwMailbox_effect (P := P) (c := c) rv' sh'
      { f.past pre.length with irs := [m] } m
  unfold RunsAlike
  simp only [hunfused, fused_runs (hg _), hgroup, hlen]
  generalize (doLwMailbox P c rv' sh' { f.past pre.length with irs := [m] } m).effect = e at *
  rw [Ir.irregular, hm, isMailbox, Bool.true_and, groupRun, loadMember]
  cases misaligned (rv'.x m.rs1 + m.imm) 3 with
  | true =>
    -- the fused load traps, and the handler may go anywhere
    refine iff_of_false (fun h => ?_) (fun h => Bool.noConfusion h)
    have hpc : e.pc = e.pc + 1 := congrArg Effect.pc (h fun ext _ _ _ => (ext, e.pc + 1, false))
    cases BitVec.self_eq_add_right.mp hpc
  | false =>
    cases hstall : stalls c (onMemReadW P c sh' (rv'.x m.rs1 + m.imm)).2 with
    | true =>
      rw [hstall] at hok
      refine iff_of_false (fun h => ?_) (fun h => Bool.noConfusion h)
      have htrue : e.ok = true := congrArg Effect.ok (h P.trap)
      rw [hok] at htrue
      cases htrue
    | false =>
      refine iff_of_true (fun trap => ?_) rfl
      rw [hretires hstall]
      change _ = (runIrs (P.withTrap trap) c [] _ _ (f.past (pre.length + 1))).effect
      rw [← f.past_past]
      rfl

theorem mailbox_group (hm : m.impl = .lwMailbox) (hop : m.opcode = .lw) (hne : pre ≠ [])
    (hpre : ∀ ir ∈ pre, isLw ir.opcode = true ∧ ir.impl = .dispatch ir.opcode)
    (hg : ∀ trap, g.Fuses (P.withTrap trap) c loadMisaligned (loadMember P c)
      ((pre ++ [m]).map Ir.toOpcodeFuse))
    (hshort : pre.length + 1 ≤ 256) :
    RunsAlike P c (pre ++ [m]) [g] rv sh f ↔ spoilsGroup P c prev (pre ++ [m]) rv sh f = false := by
  have hsteps (trap : ξ → Word → Word → Word → ξ × Word × Bool) :
      ∀ ir ∈ pre, ir.Steps (P.withTrap trap) c loadMisaligned (loadMember P c) :=
    fun ir h => lw_steps (hpre ir h).1 (hpre ir h).2
  have hpos : 0 < pre.length := List.length_pos_iff.mpr hne
  have hpair : ∃ next ∈ (pre ++ [m])[1]?, isLw next.opcode = true := by
    have hlt : 1 < (pre ++ [m]).length := by
      rw [List.length_append, List.length_singleton]
      omega
    refine ⟨(pre ++ [m])[1], List.getElem?_eq_getElem hlt, ?_⟩
    obtain hmem | hmem := List.mem_append.mp (List.getElem_mem hlt)
    · exact (hpre _ hmem).1
    · rw [List.mem_singleton.mp hmem, hop]
      rfl
  rw [spoils_group lw_kind hpre (.inr hpair)]
  cases hgroup : groupRun (loadMember P c) (pre.map Ir.toOpcodeFuse) rv sh with
  | done rv' sh' =>
    dsimp only
    rw [spoils_mailbox hm hop (lastOp_kind prev hne fun ir h => (hpre ir h).1)]
    exact mailbox_last hm hg hsteps hgroup
  | trapped k rv' sh' addr =>
    refine iff_of_false (fun h => ?_) nofun
    have hk : k < pre.length := by
      rw [← List.length_map]
      exact groupRun_trapped_lt hgroup
    obtain ⟨trap, hdiff⟩ := trapped_differs P rv' sh' f loadMisaligned addr (hk.trans (Nat.lt_succ_self _))
      (by omega : 2 ≤ pre.length + 1) hshort
    apply hdiff
    have heq := h trap
    rw [group_runs (hsteps trap), hgroup, fused_runs (hg trap), List.map_append, groupRun_append, hgroup,
      List.length_append, List.length_map] at heq
    exact heq

end mailbox

section straight

variable {pc : Word}

theorem Straight.plain (hs : Straight pc irs) (hir : ir ∈ irs) :
    ∀ op, ir.impl = .dispatch op → op.fused = false := by
  induction hs with
  | last hd _ =>
    rintro op hi
    rw [List.mem_singleton.mp hir, hd.impl] at hi
    cases hi
    exact hd.plain
  | mailbox _ _ _ =>
    intro op hi
    rw [List.mem_singleton.mp hir] at hi
    cases hi
  | ttinsn =>
    intro op hi
    rw [List.mem_singleton.mp hir] at hi
    cases hi
  | cons hd _ _ _ ih =>
    obtain rfl | hmem := List.mem_cons.mp hir
    · intro op hi
      rw [hd.impl] at hi
      cases hi
      exact hd.plain
    · exact ih hmem

theorem Straight.handlers (hs : Straight pc irs) :
    (∀ ir ∈ irs, ir.impl = .dispatch ir.opcode ∨ ir.opcode = .ttinsn) ∨
      ∃ pre m, irs = pre ++ [m] ∧ m.impl = .lwMailbox ∧ m.opcode = .lw ∧
        ∀ ir ∈ pre, ir.impl = .dispatch ir.opcode := by
  induction hs with
  | last hd _ => exact .inl (List.forall_mem_singleton.mpr (.inl hd.impl))
  | mailbox _ hop _ => exact .inr ⟨[], _, rfl, rfl, hop, List.forall_mem_nil _⟩
  | ttinsn => exact .inl (List.forall_mem_singleton.mpr (.inr rfl))
  | cons hd _ _ _ ih =>
    obtain hall | ⟨pre, m, rfl, hm, hop, hpre⟩ := ih
    · exact .inl (List.forall_mem_cons.mpr ⟨.inl hd.impl, hall⟩)
    · exact .inr ⟨_ :: pre, m, rfl, hm, hop, List.forall_mem_cons.mpr ⟨hd.impl, hpre⟩⟩

def StraightRest (irs : List Ir) : Prop := irs = [] ∨ ∃ pc, Straight pc irs

theorem StraightRest.drop (h : StraightRest (run ++ tail)) : StraightRest tail := by
  induction run with
  | nil => exact h
  | cons ir run ih =>
    apply ih
    obtain h | ⟨pc, hs⟩ := h
    · cases h
    · rw [List.cons_append] at hs
      generalize run ++ tail = rest at hs
      cases hs with
      | last | mailbox | ttinsn => exact .inl rfl
      | cons _ _ _ hs => exact .inr ⟨_, hs⟩

theorem StraightRest.drop_cons (h : StraightRest (ir :: rest)) (n : ℕ) : StraightRest (rest.drop n) := by
  have hsplit : StraightRest (ir :: rest.take n ++ rest.drop n) := by
    rw [List.cons_append, List.take_append_drop]
    exact h
  exact hsplit.drop

end straight

section alike

theorem matchPattern_nil (n : ℕ) : matchPattern n [] = [] := by
  cases n <;> rfl

theorem matchPattern_sameEnd (n : ℕ) (irs : List Ir) : SameEnd irs (matchPattern n irs) := by
  cases irs with
  | nil =>
    rw [matchPattern_nil]
    exact .rfl
  | cons ir rest =>
    cases n with
    | zero => exact .rfl
    | succ n => exact ⟨nofun, nofun⟩

variable {kind : Opcode → Bool} {access : Bool} {cause : Word} {step : MemberStep δ ξ}

theorem group_alike {tail' : List Ir}
    (hfused : ∀ trap, Fused (P.withTrap trap) c kind access cause step ir run tail g)
    (hlen : run.length < 256) (hrun : ∀ x ∈ ir :: run, x.impl = .dispatch x.opcode)
    (htail : ∀ (rv : Rv ξ) (sh : Shared δ) (f : Frame), RunsAlike P c tail tail' rv sh f ↔
      spoilsGroup P c (lastOp prev (ir :: run)) tail rv sh f = false) :
    RunsAlike P c (ir :: run ++ tail) (g :: tail') rv sh f ↔
      spoilsGroup P c prev (ir :: run ++ tail) rv sh f = false := by
  have h : Fused P c kind access cause step ir run tail g := hfused P.trap
  have hkind : ∀ x ∈ ir :: run, kind x.opcode = true := List.forall_mem_cons.mpr ⟨h.head, h.members⟩
  have hsteps (trap : ξ → Word → Word → Word → ξ × Word × Bool) :
      ∀ x ∈ ir :: run, x.Steps (P.withTrap trap) c cause step :=
    fun x hx => (hfused trap).group.steps x (hkind x hx) (hrun x hx)
  have hpair : ∃ next ∈ (ir :: run ++ tail)[1]?, kind next.opcode = true := by
    obtain ⟨next, run', rfl⟩ := List.exists_cons_of_ne_nil h.ne
    exact ⟨next, rfl, h.members next List.mem_cons_self⟩
  have hpos : 0 < run.length := List.length_pos_iff.mpr h.ne
  rw [spoils_group h.group (fun x hx => ⟨hkind x hx, hrun x hx⟩) (.inr hpair)]
  cases hgroup : groupRun step ((ir :: run).map Ir.toOpcodeFuse) rv sh with
  | done rv' sh' =>
    rw [runsAlike_done hsteps (fun trap => (hfused trap).fuses) hgroup]
    exact htail rv' sh' _
  | trapped k rv' sh' addr =>
    refine iff_of_false ?_ nofun
    refine not_runsAlike_trapped hsteps (fun trap => (hfused trap).fuses) ?_ ?_ hgroup
    · rw [List.length_cons]
      omega
    · rw [List.length_cons]
      omega

theorem group_handlers (hs : StraightRest (ir :: (run ++ tail)))
    (h : Fused P c kind access cause step ir run tail g) :
    (∀ x ∈ ir :: run, x.impl = .dispatch x.opcode) ∨
      ∃ pre m, ir :: run = pre ++ [m] ∧ tail = [] ∧ m.impl = .lwMailbox ∧ m.opcode = .lw ∧
        ∀ x ∈ pre, x.impl = .dispatch x.opcode := by
  obtain hnil | ⟨pc, hs⟩ := hs
  · cases hnil
  have hkind : ∀ x ∈ ir :: run, kind x.opcode = true := List.forall_mem_cons.mpr ⟨h.head, h.members⟩
  obtain hall | ⟨pre, m, heq, hm, hop, hpre⟩ := hs.handlers
  · refine .inl fun x hx => (hall x (List.mem_append_left tail hx)).resolve_right fun htt => ?_
    have hx := hkind x hx
    rw [htt, h.group.core] at hx
    cases hx
  · obtain rfl | ⟨tail', last, rfl⟩ := List.eq_nil_or_concat tail
    · rw [List.append_nil] at heq
      exact .inr ⟨pre, m, heq, rfl, hm, hop, hpre⟩
    · refine .inl fun x hx => hpre x ?_
      rw [List.concat_eq_append, ← List.append_assoc, ← List.cons_append] at heq
      have hpre_eq : ir :: (run ++ tail') = pre := (List.append_inj' heq rfl).1
      rw [← hpre_eq]
      exact List.mem_append_left tail' hx

theorem mailbox_alike (hfused : ∀ trap, Fused (P.withTrap trap) c kind access cause step ir run [] g)
    (hlen : run.length < 256) {pre : List Ir} {m : Ir} (heq : ir :: run = pre ++ [m])
    (hm : m.impl = .lwMailbox) (hop : m.opcode = .lw) (hpre : ∀ x ∈ pre, x.impl = .dispatch x.opcode) :
    RunsAlike P c (ir :: run) [g] rv sh f ↔ spoilsGroup P c prev (ir :: run) rv sh f = false := by
  have h : Fused P c kind access cause step ir run [] g := hfused P.trap
  have hkind : ∀ x ∈ pre ++ [m], kind x.opcode = true := by
    rw [← heq]
    exact List.forall_mem_cons.mpr ⟨h.head, h.members⟩
  have hlw : kind .lw = true := by
    rw [← hop]
    exact hkind m List.mem_concat_self
  obtain ⟨rfl, rfl, rfl⟩ := h.group.loads hlw
  have hlength : run.length = pre.length := by
    have hcons := congrArg List.length heq
    rw [List.length_cons, List.length_append, List.length_singleton] at hcons
    omega
  have hne : pre ≠ [] := by
    rw [← List.length_pos_iff, ← hlength, List.length_pos_iff]
    exact h.ne
  have hg (trap : ξ → Word → Word → Word → ξ × Word × Bool) := (hfused trap).fuses
  rw [heq] at hg ⊢
  exact mailbox_group hm hop hne (fun x hx => ⟨hkind x (List.mem_append_left _ hx), hpre x hx⟩) hg (by omega)

theorem runsAlike_iff (n : ℕ) (hs : StraightRest irs) (hn : irs.length ≤ n) (hshort : shortRuns irs = true)
    (hprev : ∀ ir ∈ irs.head?, paired prev ir.opcode = false) (rv : Rv ξ) (sh : Shared δ) (f : Frame) :
    RunsAlike P c irs (matchPattern n irs) rv sh f ↔ spoilsGroup P c prev irs rv sh f = false := by
  induction n generalizing irs prev rv sh f with
  | zero =>
    rw [List.length_eq_zero_iff.mp (Nat.le_zero.mp hn)]
    exact iff_of_true (fun _ => rfl) rfl
  | succ n ih =>
    cases irs with
    | nil => exact iff_of_true (fun _ => rfl) rfl
    | cons ir rest =>
      have hcases := fuseHead_cases P c ir rest
      have hlen : rest.length ≤ n := Nat.le_of_succ_le_succ hn
      rw [matchPattern]
      generalize fuseHead ir rest = r at hcases
      cases hcases with
      | alone hgroup =>
        have hplain : ∀ op, ir.impl = .dispatch op → op.fused = false := by
          obtain hnil | ⟨pc, hs⟩ := hs
          · cases hnil
          · exact hs.plain List.mem_cons_self
        have hnext : ∀ next ∈ rest.head?, paired ir.opcode next.opcode = false :=
          fun next h => (Bool.or_eq_false_iff.mp (hgroup next h)).2
        rw [runsAlike_alone hplain (matchPattern_sameEnd n rest), spoils_alone (hprev ir rfl) hnext]
        apply forall_congr'
        intro f'
        apply imp_congr_right
        intro _
        exact ih (hs.drop_cons 0) hlen (shortRuns_cons.mp hshort).2 hnext _ _ f'
      | @group kind access cause step run tail g hsplit hfused =>
        subst hsplit
        have h : Fused P c kind access cause step ir run tail g := hfused P.trap
        obtain ⟨hrun, htail⟩ := h.short.mp hshort
        have hdrop : (run ++ tail).drop (run.length % 256) = tail := by
          rw [Nat.mod_eq_of_lt hrun, List.drop_left]
        rw [hdrop]
        obtain hdispatch | ⟨pre, m, heq, rfl, hm, hop, hpre⟩ := group_handlers hs h
        · refine group_alike hfused hrun hdispatch fun rv sh f => ?_
          have hrest : StraightRest (ir :: run ++ tail) := hs
          refine ih hrest.drop ?_ htail ?_ rv sh f
          · rw [List.length_append] at hlen
            omega
          · intro next hnext
            have hlast : kind (lastOp prev (ir :: run)) = true :=
              lastOp_kind prev (List.cons_ne_nil _ _) (List.forall_mem_cons.mpr ⟨h.head, h.members⟩)
            rw [h.group.behind _ _ hlast, Bool.and_eq_false_imp]
            exact h.maximal next hnext
        · dsimp only
          rw [List.append_nil, matchPattern_nil]
          exact mailbox_alike hfused hrun heq hm hop hpre

end alike

section describes

variable {pc : Word}

def Ir.covers (ir : Ir) : List Word := (List.range ir.weight).map fun i => ir.pc + w32 (4 * i)

def Describes (irs' irs : List Ir) : Prop := irs'.flatMap Ir.covers = irs.map (·.pc)

theorem Straight.weight (hs : Straight pc irs) (hir : ir ∈ irs) : ir.weight = 1 := by
  have hplain := hs.plain hir
  unfold Ir.weight
  split
  case h_1 hi | h_2 hi | h_3 hi | h_4 hi | h_5 hi => cases hplain _ hi
  · rfl

theorem Straight.head_pc (hs : Straight pc (ir :: rest)) : ir.pc = pc := by
  cases hs with
  | last _ hpc => exact hpc
  | mailbox _ _ hpc => exact hpc
  | ttinsn => rfl
  | cons _ hpc _ _ => exact hpc

theorem StraightRest.covers (hs : StraightRest (ir :: rest)) : ir.covers = [ir.pc] := by
  obtain hnil | ⟨pc, hs⟩ := hs
  · cases hnil
  · rw [Ir.covers, hs.weight List.mem_cons_self, List.range_one, List.map_singleton]
    exact congrArg (fun pc => [pc]) (BitVec.add_zero _)

theorem Straight.addresses (hs : Straight pc irs) :
    irs.map (·.pc) = (List.range irs.length).map fun i => pc + w32 (4 * i) := by
  induction hs with
  | @last pc ir _ hpc =>
    rw [List.map_singleton, hpc]
    exact congrArg (fun pc => [pc]) (BitVec.add_zero _).symm
  | @mailbox pc ir _ _ hpc =>
    rw [List.map_singleton, hpc]
    exact congrArg (fun pc => [pc]) (BitVec.add_zero _).symm
  | @ttinsn pc => exact congrArg (fun pc => [pc]) (BitVec.add_zero pc).symm
  | @cons pc ir irs _ hpc _ _ ih =>
    have hfirst : pc + w32 (4 * 0) = pc := BitVec.add_zero pc
    have hrest (i : ℕ) : pc + 4 + w32 (4 * i) = pc + w32 (4 * (i + 1)) := by
      rw [Nat.mul_succ, w32_add, BitVec.add_assoc, BitVec.add_comm (w32 (4 * i))]
      rfl
    rw [List.map_cons, ih, List.length_cons, List.range_succ_eq_map, List.map_cons, List.map_map, hpc, hfirst]
    simp only [hrest]
    rfl

variable {kind : Opcode → Bool} {access : Bool} {cause : Word} {step : MemberStep δ ξ}

theorem Fused.covers (h : Fused P c kind access cause step ir run tail g)
    (hs : StraightRest (ir :: (run ++ tail))) :
    g.covers = (ir :: run).map (·.pc) := by
  obtain hnil | ⟨pc, hs⟩ := hs
  · cases hnil
  have hpc : ir.pc = pc := hs.head_pc
  have haddr := congrArg (List.take (run.length + 1)) hs.addresses
  rw [← List.map_take, ← List.map_take, List.take_range, List.length_cons, List.length_append,
    Nat.min_eq_left (by omega), List.take_succ_cons, List.take_left] at haddr
  rw [haddr, Ir.covers, h.weight, h.pc, hpc]

theorem length_le_covers (P : Platform δ ξ) (c : CoreConfig) (n : ℕ) (hs : StraightRest irs)
    (hn : irs.length ≤ n) :
    irs.length ≤ ((matchPattern n irs).flatMap Ir.covers).length := by
  induction n generalizing irs with
  | zero => exact hn.trans (Nat.zero_le _)
  | succ n ih =>
    cases irs with
    | nil => exact Nat.zero_le _
    | cons ir rest =>
      have hcases := fuseHead_cases P c ir rest
      have hlen : rest.length ≤ n := Nat.le_of_succ_le_succ hn
      rw [matchPattern]
      generalize fuseHead ir rest = r at hcases
      cases hcases with
      | alone hgroup =>
        have hle := ih (hs.drop_cons 0) hlen
        rw [List.flatMap_cons, hs.covers, List.singleton_append, List.length_cons, List.length_cons]
        exact Nat.succ_le_succ hle
      | @group kind access cause step run tail g hsplit hfused =>
        subst hsplit
        have h : Fused P c kind access cause step ir run tail g := hfused P.trap
        have hle := ih (hs.drop_cons (run.length % 256)) ((List.drop_sublist _ _).length_le.trans hlen)
        have hmod := Nat.mod_le run.length 256
        dsimp only
        rw [List.flatMap_cons, h.covers hs, List.length_append, List.length_map, List.length_cons,
          List.length_cons]
        rw [List.length_drop] at hle
        omega

theorem describes_iff (P : Platform δ ξ) (c : CoreConfig) (n : ℕ) (hs : StraightRest irs)
    (hn : irs.length ≤ n) :
    Describes (matchPattern n irs) irs ↔ shortRuns irs = true := by
  induction n generalizing irs with
  | zero =>
    rw [List.length_eq_zero_iff.mp (Nat.le_zero.mp hn)]
    exact iff_of_true rfl rfl
  | succ n ih =>
    cases irs with
    | nil => exact iff_of_true rfl rfl
    | cons ir rest =>
      have hcases := fuseHead_cases P c ir rest
      have hlen : rest.length ≤ n := Nat.le_of_succ_le_succ hn
      rw [matchPattern, Describes]
      generalize fuseHead ir rest = r at hcases
      cases hcases with
      | alone hgroup =>
        have hrest : StraightRest rest := hs.drop_cons 0
        have htake : rest.takeWhile (sameGroup ir.opcode ·.opcode) = [] := by
          cases rest with
          | nil => rfl
          | cons next rest => exact List.takeWhile_cons_of_neg (Bool.eq_false_iff.mp (hgroup next rfl))
        rw [List.flatMap_cons, hs.covers, List.map_cons, List.singleton_append, List.cons_inj_right,
          shortRuns_cons, htake, List.length_nil, and_iff_right (by decide), ← ih hrest hlen]
        rfl
      | @group kind access cause step run tail g hsplit hfused =>
        subst hsplit
        have h : Fused P c kind access cause step ir run tail g := hfused P.trap
        have hrest : StraightRest (ir :: run ++ tail) := hs
        dsimp only
        rw [List.flatMap_cons, h.covers hs, h.short]
        by_cases hrun : run.length < 256
        · rw [Nat.mod_eq_of_lt hrun, List.drop_left, ← List.cons_append, List.map_append,
            List.append_cancel_left_eq, and_iff_right hrun, ← ih hrest.drop]
          · rfl
          · rw [List.length_append] at hlen
            omega
        · refine iff_of_false (fun heq => ?_) fun hshort => hrun hshort.1
          have hle :=
            length_le_covers P c n (hs.drop_cons (run.length % 256))
              ((List.drop_sublist _ _).length_le.trans hlen)
          have hmod := Nat.mod_lt run.length (by decide : 0 < 256)
          have heq := congrArg List.length heq
          rw [List.length_append, List.length_map, List.length_map, List.length_cons, List.length_cons] at heq
          rw [List.length_drop, List.length_append] at hle
          rw [List.length_append] at heq
          omega

end describes

/-- Fusion keeps the meaning of a block, and its list, exactly if no more than 256 instructions of one kind
follow one another, and no load or store next to another is misaligned or reads an empty mailbox. -/
theorem fusion_keeps_meaning {pc : Word} (hs : Straight pc irs) (rv : Rv ξ) (sh : Shared δ) (f : Frame) :
    RunsAlike P c irs (matchPattern irs.length irs) rv sh f ∧ Describes (matchPattern irs.length irs) irs ↔
      shortRuns irs = true ∧ spoilsGroup P c .nop irs rv sh f = false := by
  have hrest : StraightRest irs := .inr ⟨pc, hs⟩
  have hprev : ∀ ir ∈ irs.head?, paired .nop ir.opcode = false := fun _ _ => rfl
  rw [describes_iff P c irs.length hrest (Nat.le_refl _), and_comm]
  apply and_congr_right
  intro hshort
  exact runsAlike_iff irs.length hrest (Nat.le_refl _) hshort hprev rv sh f

def alignedLoads : List Word := [0x00002503, 0x00402583, 0x0000006f]

theorem fusion_keeps_meaning_aligned :
    RunsAlike (romCore alignedLoads) briscConfig (romIrs alignedLoads)
      (matchPattern 3 (romIrs alignedLoads)) Rv.reset
        Shared.reset ⟨0, [], 0, 0⟩ ∧
      Describes (matchPattern 3 (romIrs alignedLoads)) (romIrs alignedLoads) := by
  have ht : translateLoop (romCore alignedLoads) briscConfig () (fun _ => 0) 64 0 (fun _ => 0) =
      some (romIrs alignedLoads) := rfl
  have hs : Straight 0 (romIrs alignedLoads) := translateLoop_straight () _ ht
  exact (fusion_keeps_meaning hs Rv.reset Shared.reset ⟨0, [], 0, 0⟩).mpr ⟨by decide, by decide⟩

def misalignedLoad : List Word := [0x00002503, 0x00102583, 0x0000006f]

theorem fusion_moves_trap :
    (romEffect misalignedLoad (romIrs misalignedLoad)).pc = 4 ∧
      (romEffect misalignedLoad (matchPattern 3 (romIrs misalignedLoad))).pc = 0 ∧
      ¬RunsAlike (romCore misalignedLoad) briscConfig (romIrs misalignedLoad)
        (matchPattern 3 (romIrs misalignedLoad))
        Rv.reset Shared.reset ⟨0, [], 0, 0⟩ := by
  have hpc : (romEffect misalignedLoad (romIrs misalignedLoad)).pc = 4 := rfl
  have hpc' : (romEffect misalignedLoad (matchPattern 3 (romIrs misalignedLoad))).pc = 0 := rfl
  refine ⟨hpc, hpc', fun h => ?_⟩
  have heq := congrArg Effect.pc (h (romCore misalignedLoad).trap)
  exact absurd (hpc.symm.trans (heq.trans hpc')) (by decide)

end Rv32Emu
