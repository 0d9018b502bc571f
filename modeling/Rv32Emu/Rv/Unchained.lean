import Rv32Emu.Rv.Chaining

namespace Rv32Emu

variable {δ ξ : Type} {P : Platform δ ξ} {E : ExtUnits δ ξ} {c : CoreConfig}

section handlers

structure Rv.Alike (rv rv' : Rv ξ) : Prop where
  x : rv'.x = rv.x
  ext : rv'.ext = rv.ext
  halt : rv'.halt = rv.halt

structure Frame.Alike (f f' : Frame) : Prop where
  irs : f'.irs = f.irs
  pc : f'.pc = f.pc

inductive Flow.Alike (rv rv' : Rv ξ) : Flow → Flow → Prop
  | next {f f' : Frame} : f.Alike f' → Flow.Alike rv rv' (.next f) (.next f')
  | ret {ok counted : Bool} : rv'.pc = rv.pc → Flow.Alike rv rv' (.ret ok counted) (.ret ok counted)

structure Executed.Alike (e e' : Executed δ ξ) : Prop where
  rv : e.rv.Alike e'.rv
  shared : e'.shared = e.shared
  count : e'.count = e.count
  flow : Flow.Alike e.rv e'.rv e.flow e'.flow

variable {rv rv' : Rv ξ} {sh : Shared δ} {f f' : Frame} {ir : Ir} {rest : List Ir} {count : ℕ} {pc : Word}
  {events : List TileEvent}

theorem Rv.Alike.refl (rv : Rv ξ) : rv.Alike rv := ⟨rfl, rfl, rfl⟩

theorem Rv.Alike.setX (h : rv.Alike rv') (rd : Reg) (v : Word) : (rv.setX rd v).Alike (rv'.setX rd v) :=
  ⟨by simp only [Rv.setX, h.x], h.ext, h.halt⟩

theorem Rv.Alike.withX (h : rv.Alike rv') (x : Reg → Word) : ({ rv with x } : Rv ξ).Alike { rv' with x } :=
  ⟨rfl, h.ext, h.halt⟩

theorem Rv.Alike.link (h : rv.Alike rv') (rd : Reg) (pc : Word) : (link rv rd pc).Alike (link rv' rd pc) := by
  unfold Rv32Emu.link
  split_ifs
  · exact h.setX rd _
  · exact h

theorem Rv.Alike.foldl {step : Rv ξ → OpcodeFuse → Rv ξ}
    (hstep : ∀ rv rv' g, rv.Alike rv' → (step rv g).Alike (step rv' g)) (gs : List OpcodeFuse)
    (h : rv.Alike rv') : (gs.foldl step rv).Alike (gs.foldl step rv') := by
  induction gs generalizing rv rv' with
  | nil => exact h
  | cons g gs ih => exact ih (hstep rv rv' g h)

theorem shiftFunc_alike (rv rv' : Rv ξ) (g : OpcodeFuse) (h : rv.Alike rv') :
    (shiftFunc rv g).Alike (shiftFunc rv' g) := by
  unfold shiftFunc
  split
  · rw [h.x]
    exact h.setX _ _
  · exact h

theorem endOp_alike (h : rv.Alike rv') :
    (endOp rv sh f rest count pc events).Alike (endOp rv' sh f' rest count pc events) := by
  cases rest with
  | nil => exact ⟨⟨h.x, h.ext, h.halt⟩, rfl, rfl, .ret rfl⟩
  | cons next rest => exact ⟨h, rfl, rfl, .next ⟨rfl, rfl⟩⟩

theorem trapOp_alike (h : rv.Alike rv') (hf : f.Alike f') {cause tval : Word} :
    (trapOp P rv sh f count cause tval events).Alike (trapOp P rv' sh f' count cause tval events) := by
  unfold trapOp
  rw [h.ext, h.halt, hf.pc]
  exact ⟨⟨h.x, rfl, rfl⟩, rfl, rfl, .ret rfl⟩

theorem doLoad_alike (h : rv.Alike rv') (hf : f.Alike f') {op : LoadOp} :
    (doLoad P c rv sh f ir rest op).Alike (doLoad P c rv' sh f' ir rest op) := by
  unfold doLoad
  rw [h.x, hf.pc]
  cases op with
  | lb | lbu => exact endOp_alike (h.setX _ _)
  | lh | lhu =>
    dsimp only
    split_ifs
    · exact trapOp_alike h hf
    · exact endOp_alike (h.setX _ _)

theorem doStore_alike (h : rv.Alike rv') (hf : f.Alike f') {op : StoreOp} :
    (doStore P c rv sh f ir rest op).Alike (doStore P c rv' sh f' ir rest op) := by
  unfold doStore
  rw [h.x, hf.pc]
  cases op with
  | sb => exact endOp_alike h
  | sh =>
    dsimp only
    split_ifs
    · exact trapOp_alike h hf
    · exact endOp_alike h

theorem doExt_alike (h : rv.Alike rv') (hf : f.Alike f') {e : ExtInsn} :
    (doExt (P.extend E) c rv sh f rest e).Alike (doExt (P.extend E) c rv' sh f' rest e) := by
  have hrun := (extRun_outcome (E := E) P.trap e rv.x rv.ext f.pc).run (P := P.extend E) (c := c) sh
  unfold doExt
  rw [h.x, h.ext, hf.pc]
  dsimp only [Platform.extend] at hrun ⊢
  generalize (extRun E P.trap e rv.x rv.ext f.pc).run (P.extend E) c sh = r at *
  obtain ⟨hnext, -⟩ | ⟨ok, pc', counted, hleave, -⟩ := hrun
  · rw [hnext]
    exact endOp_alike ⟨rfl, rfl, by rw [h.halt]⟩
  · rw [hleave]
    exact ⟨⟨rfl, rfl, by rw [h.halt]⟩, rfl, rfl, .ret rfl⟩

theorem doTtinsn_alike (h : rv.Alike rv') (hf : f.Alike f') :
    (doTtinsn P c rv sh f ir).Alike (doTtinsn P c rv' sh f' ir) := by
  unfold doTtinsn
  rw [hf.pc]
  exact ⟨⟨h.x, h.ext, h.halt⟩, rfl, rfl, .ret rfl⟩

theorem doLwMailbox_alike (h : rv.Alike rv') (hf : f.Alike f') :
    (doLwMailbox P c rv sh f ir).Alike (doLwMailbox P c rv' sh f' ir) := by
  unfold doLwMailbox
  rw [h.x, hf.pc]
  dsimp only
  split_ifs
  · have hx := (h.setX ir.rd (onMemReadW P c sh (rv.x ir.rs1 + ir.imm)).1).setX ir.rs1 (rv.x ir.rs1)
    exact ⟨⟨hx.x, hx.ext, hx.halt⟩, rfl, rfl, .ret rfl⟩
  · have hx := h.setX ir.rd (onMemReadW P c sh (rv.x ir.rs1 + ir.imm)).1
    exact ⟨⟨hx.x, hx.ext, hx.halt⟩, rfl, rfl, .ret rfl⟩

theorem dispatchOp_alike (h : rv.Alike rv') (hf : f.Alike f') {op : Opcode} (hjal : op ≠ .jal)
    (hjalr : op ≠ .jalr) :
    (dispatchOp (P.extend E) c rv sh f ir rest op).Alike
      (dispatchOp (P.extend E) c rv' sh f' ir rest op) := by
  cases op with
  | jal => exact absurd rfl hjal
  | jalr => exact absurd rfl hjalr
  | load op => exact doLoad_alike h hf
  | store op => exact doStore_alike h hf
  | ext e => exact doExt_alike h hf
  | ttinsn => exact doTtinsn_alike h hf
  | branch cond =>
    dsimp only [dispatchOp, doBranch]
    rw [h.x, hf.pc]
    exact endOp_alike h
  | lw =>
    dsimp only [dispatchOp, doLw]
    rw [h.x, hf.pc]
    split_ifs
    · exact trapOp_alike h hf
    · have hx := h.setX ir.rd (onMemReadW (P.extend E) c sh (rv.x ir.rs1 + ir.imm)).1
      rw [hx.x]
      exact endOp_alike hx
  | sw =>
    dsimp only [dispatchOp, doSw]
    rw [h.x, hf.pc]
    split_ifs
    · exact trapOp_alike h hf
    · exact endOp_alike h
  | fuse1 =>
    dsimp only [dispatchOp, doFuse1]
    rw [hf.pc]
    exact endOp_alike (h.foldl (fun _ _ g h => h.setX g.rd g.imm) _)
  | fuse2 =>
    dsimp only [dispatchOp, doFuse2]
    rw [hf.pc]
    have hx := h.setX ir.rd ir.imm
    rw [hx.x]
    exact endOp_alike (hx.setX _ _)
  | fuse3 =>
    dsimp only [dispatchOp, doFuse3]
    rw [h.x, hf.pc]
    split
    · exact trapOp_alike h hf
    · exact endOp_alike h
  | fuse4 =>
    dsimp only [dispatchOp, doFuse4]
    rw [h.x, hf.pc]
    split
    · exact trapOp_alike (h.withX _) hf
    · exact endOp_alike (h.withX _)
  | fuse5 =>
    dsimp only [dispatchOp, doFuse5]
    rw [hf.pc]
    exact endOp_alike (h.foldl shiftFunc_alike _)
  | nop =>
    dsimp only [dispatchOp]
    rw [hf.pc]
    exact endOp_alike (h.setX _ _)
  | lui | auipc =>
    dsimp only [dispatchOp]
    rw [hf.pc]
    exact endOp_alike (h.setX _ _)
  | imm op | alu op =>
    dsimp only [dispatchOp]
    rw [h.x, hf.pc]
    exact endOp_alike (h.setX _ _)

theorem execute_alike (h : rv.Alike rv') (hf : f.Alike f') (hirs : f.irs = ir :: rest)
    (hjal : ir.impl ≠ .dispatch .jal) (hjalr : ir.impl ≠ .dispatch .jalr) :
    (execute (P.extend E) c rv sh f).Alike (execute (P.extend E) c rv' sh f') := by
  unfold execute
  rw [hf.irs, hirs]
  dsimp only
  cases hi : ir.impl with
  | dispatch op =>
    rw [hi] at hjal hjalr
    exact dispatchOp_alike h hf (fun h => hjal (congrArg _ h)) fun h => hjalr (congrArg _ h)
  | lwMailbox => exact doLwMailbox_alike h hf
  | ttinsn => exact doTtinsn_alike h hf

theorem handler_alike (sh : Shared δ) (h : rv.Alike rv') (hf : f.Alike f') (hirs : f.irs = ir :: rest)
    (hjal : ir.impl ≠ .dispatch .jal) (hjalr : ir.impl ≠ .dispatch .jalr) (hc : ir.counter = none) :
    (handler P E c rv sh f).Alike (handler P E c rv' sh f') := by
  unfold handler
  rw [hf.irs, hirs]
  dsimp only
  rw [hc]
  exact execute_alike h hf hirs hjal hjalr

end handlers

section transition

variable {rv rv' : Rv ξ} {sh : Shared δ}

theorem lt_threshold (pc : Word) : decide (pc.toNat < tensixKernelAddrThreshold) = !inKernel pc := by
  unfold inKernel
  by_cases h : tensixKernelAddrThreshold ≤ pc.toNat
  · simp [h]
  · simp [h, Nat.lt_of_not_le h]

theorem clearsMap_plain (ht : c.tensix = false) :
    clearsMap c rv sh = (decide (c.coreId = 3) && (!inKernel rv.prePc && inKernel rv.pc) &&
      decide (sh.ncriscPrevKernelPc ≠ rv.pc)) := by
  unfold clearsMap
  dsimp only
  rw [ht, Bool.false_and, if_neg Bool.false_ne_true, lt_threshold]
  rfl

theorem kernelTransition_plain (ht : c.tensix = false) :
    (kernelTransition P c rv sh).2.1 =
      if c.coreId = 3 ∧ inKernel rv.prePc ≠ inKernel rv.pc then
        if inKernel rv.pc then { sh with ncriscPrevKernelPc := rv.pc }
        else { sh with dev := P.clearRta sh.dev c.coreId }
      else sh := by
  unfold kernelTransition
  dsimp only
  rw [ht, Bool.false_and, if_neg Bool.false_ne_true, lt_threshold, lt_threshold]
  change (if c.coreId = 3 then if (!inKernel rv.prePc && inKernel rv.pc) = true then _ else
    if (inKernel rv.prePc && !inKernel rv.pc) = true then _ else _
      else _ : Rv ξ × Shared δ × List TileEvent).2.1 = _
  by_cases h3 : c.coreId = 3
  · cases hpre : inKernel rv.prePc <;> cases hpc : inKernel rv.pc <;> simp [h3]
    split_ifs with hne
    · rw [← hne]
    · rfl
  · simp [h3]

theorem kernelTransition_stays (sh : Shared δ) (ht : c.tensix = false)
    (hk : c.coreId = 3 → inKernel rv.prePc = inKernel rv.pc) :
    clearsMap c rv sh = false ∧ (kernelTransition P c rv sh).2.1 = sh := by
  constructor
  · rw [clearsMap_plain ht]
    by_cases h3 : c.coreId = 3
    · rw [hk h3]
      cases inKernel rv.pc <;> simp
    · simp [h3]
  · rw [kernelTransition_plain ht, if_neg]
    rintro ⟨h3, hne⟩
    exact hne (hk h3)

theorem kernelTransition_alike (sh : Shared δ) (ht : c.tensix = false) (hpc : rv'.pc = rv.pc)
    (hk : c.coreId = 3 → inKernel rv'.prePc = inKernel rv.prePc) :
    clearsMap c rv' sh = clearsMap c rv sh ∧ (kernelTransition P c rv' sh).2.1 =
      (kernelTransition P c rv sh).2.1 := by
  rw [clearsMap_plain ht, clearsMap_plain ht, kernelTransition_plain ht, kernelTransition_plain ht, hpc]
  by_cases h3 : c.coreId = 3
  · rw [hk h3]
    exact ⟨rfl, rfl⟩
  · simp [h3]

theorem blockTranslate_alike {dev : δ} (hx : rv'.x = rv.x) (hpc : rv'.pc = rv.pc) :
    blockTranslate P c dev rv' = blockTranslate P c dev rv := by
  unfold blockTranslate
  rw [hx, hpc]

end transition

structure Arena.Same (a b : Arena) : Prop where
  map : b.map = a.map
  next : b.next = a.next
  size : b.size = a.size
  pool : ∀ p, (b.pool p).map (fun n => (n.pcStart, n.irs)) = (a.pool p).map fun n => (n.pcStart, n.irs)

namespace Arena.Same

variable {a b : Arena} {pc : Word} {p : BlockPtr} {n : Node}

theorem clear (h : a.Same b) : a.clear.Same b.clear := ⟨rfl, rfl, rfl, h.pool⟩

theorem insert (h : a.Same b) (pc : Word) (irs : List Ir) : (a.insert pc irs).Same (b.insert pc irs) := by
  refine ⟨?_, congrArg (· + 1) h.next, congrArg (· + 1) h.size, fun p => ?_⟩
  · simp only [Arena.insert, h.map, h.next]
  · dsimp only [Arena.insert]
    rw [h.next]
    by_cases hp : p = a.next
    · rw [hp, Function.update_self, Function.update_self]
    · rw [Function.update_of_ne hp, Function.update_of_ne hp]
      exact h.pool p

theorem set (h : a.Same b) {n' : Node} (hn : a.pool p = some n) (hstart : n'.pcStart = n.pcStart)
    (hirs : n'.irs = n.irs) :
    (a.set p n').Same b := by
  refine ⟨h.map, h.next, h.size, fun q => ?_⟩
  by_cases hq : q = p
  · subst hq
    rw [Arena.set_self, h.pool q, hn, Option.map_some, Option.map_some, hstart, hirs]
  · rw [Arena.set_ne hq]
    exact h.pool q

theorem at_ (h : a.Same b) (hn : a.At pc p n) :
    ∃ n', b.At pc p n' ∧ n'.pcStart = n.pcStart ∧ n'.irs = n.irs := by
  have hpool := h.pool p
  rw [hn.pool] at hpool
  obtain ⟨n', hn', heq⟩ := Option.map_eq_some_iff.mp hpool
  exact ⟨n', ⟨h.map ▸ hn.map, hn'⟩, congrArg Prod.fst heq, congrArg Prod.snd heq⟩

end Arena.Same

def Turn.write : Turn δ → Option (Shared δ)
  | .others sh => some sh
  | _ => none

namespace Chained

variable {s r : Chained δ ξ}

section tracks

def Rests (r : Chained δ ξ) : Prop := r.ctl = .idle ∨ ∃ target, r.ctl = .loop target

structure Tracks (c : CoreConfig) (s r : Chained δ ξ) : Prop where
  rv : s.rv.Alike r.rv
  shared : r.shared = s.shared
  arena : s.arena.Same r.arena
  count : r.count = s.count
  prePc : c.coreId = 3 → inKernel r.rv.prePc = inKernel s.rv.prePc

inductive InStep (c : CoreConfig) (s r : Chained δ ξ) : Prop
  | rest : s.Rests → r.Rests → r.rv.pc = s.rv.pc →
      (∀ target, s.ctl = .loop target → s.rv.csrCycle < target → 0 < c.cyclePerStep) → InStep c s r
  | exec {target target' : ℕ} {block block' current : BlockPtr} {f f' : Frame} {n : Node} :
      s.ctl = .exec target block current f → r.ctl = .exec target' block' current f' → f.Alike f' →
      s.arena.pool current = some n → (c.coreId = 3 → inKernel r.rv.prePc = inKernel n.pcStart) →
      0 < c.cyclePerStep → InStep c s r

variable {target target' : ℕ} {block block' current : BlockPtr} {f f' : Frame} {ir : Ir} {rest : List Ir}

theorem Tracks.after (h : s.Tracks c r) (target target' : ℕ) (block block' : BlockPtr) {e e' : Executed δ ξ}
    (he : e.Alike e') {n : Node}
    (hn : s.arena.pool current = some n) (hk : c.coreId = 3 → inKernel r.rv.prePc = inKernel n.pcStart)
    (hb : 0 < c.cyclePerStep) (hpre : e.rv.prePc = s.rv.prePc) (hpre' : e'.rv.prePc = r.rv.prePc) :
    Tracks c (s.after P c target block current e) (r.after P c target' block' current e') ∧
      InStep c (s.after P c target block current e) (r.after P c target' block' current e') := by
  have hpre'' (h3 : c.coreId = 3) : inKernel e'.rv.prePc = inKernel e.rv.prePc := by
    rw [hpre, hpre']
    exact h.prePc h3
  have hcount : r.count + e'.count = s.count + e.count := by rw [h.count, he.count]
  obtain ⟨hrv, hshared, -, hflow⟩ := he
  unfold Chained.after
  generalize hflow₁ : e.flow = flow at *
  generalize hflow₂ : e'.flow = flow' at *
  cases hflow with
  | next hf =>
    refine ⟨⟨hrv, hshared, h.arena, hcount, hpre''⟩, .exec rfl rfl hf hn (fun h3 => ?_) hb⟩
    rw [hpre']
    exact hk h3
  | @ret ok counted hpc =>
    cases ok with
    | true =>
      refine ⟨⟨hrv, ?_, h.arena, hcount, hpre''⟩, .rest (.inr ⟨_, rfl⟩) (.inr ⟨_, rfl⟩) hpc fun _ _ _ => hb⟩
      dsimp only
      rw [hshared]
    | false =>
      exact ⟨⟨hrv, hshared, h.arena, hcount, hpre''⟩, .rest (.inl rfl) (.inl rfl) hpc fun _ _ _ => hb⟩

theorem Rests.ready (hr : r.Rests) (hb : 0 < c.cyclePerStep) :
    ∃ us target, Run (fun r u r' => r' = r.turn P E c false u) r us { r with ctl := .loop target } ∧
      r.rv.csrCycle < target ∧ us.filterMap Turn.write = [] := by
  have hcall {r : Chained δ ξ} (hidle : r.ctl = .idle) :
      r.turn P E c false .call = { r with ctl := .loop (r.rv.csrCycle + c.cyclePerStep) } := by
    dsimp only [turn]
    rw [hidle]
  have hlt := Nat.lt_add_of_pos_right (n := r.rv.csrCycle) hb
  obtain hidle | ⟨target, hloop⟩ := hr
  · exact ⟨[.call], _, .cons (hcall hidle).symm (.nil _), hlt, rfl⟩
  · by_cases hgo : r.rv.csrCycle < target
    · refine ⟨[], target, ?_, hgo, rfl⟩
      have heq : { r with ctl := .loop target } = r := by rw [← hloop]
      rw [heq]
      exact .nil r
    · have hstep : { r with ctl := .idle } = r.turn P E c false .step := by
        dsimp only [turn, step]
        rw [hloop]
        exact (if_neg fun h => hgo h.1).symm
      exact ⟨[.step, .call], _, .cons hstep (.cons (hcall rfl).symm (.nil _)), hlt, rfl⟩

theorem dispatch_found {n : Node} {p : BlockPtr} (hn : r.arena.At r.rv.pc p n)
    (hclear : clearsMap c r.rv r.shared = false)
    (hshared : (kernelTransition (P.extend E) c r.rv r.shared).2.1 = r.shared) (target : ℕ) :
    r.dispatch P E c false target =
      { r with
        rv := { r.rv with prePc := r.rv.pc }, prev := r.updatePrev.prev, lastPc := r.rv.pc
        ctl := .exec target p p ⟨n.pcStart, n.irs, r.rv.csrCycle, r.rv.pc⟩ } := by
  have hrv : (kernelTransition (P.extend E) c r.rv r.shared).1 = r.rv := by
    rw [kernelTransition_rv, hclear]
    rfl
  have htrans : r.updatePrev.transition P E c =
      { r with rv := { r.rv with prePc := r.rv.pc }, prev := r.updatePrev.prev } := by
    rw [updatePrev_eq]
    dsimp only [transition]
    rw [hclear, hrv, hshared]
    rfl
  have hfound : (r.updatePrev.transition P E c).findOrTranslate P E c =
      (r.updatePrev.transition P E c, some p) := by
    unfold findOrTranslate
    rw [htrans]
    dsimp only
    rw [hn.map]
  unfold dispatch
  rw [hfound, htrans]
  exact enter_eq (s := { r with
    rv := { r.rv with prePc := r.rv.pc }, prev := r.updatePrev.prev, lastPc := r.rv.pc }) hn ..

theorem Rests.follow (hr : r.Rests) (ht : c.tensix = false) (hb : 0 < c.cyclePerStep)
    (hh : r.rv.halt = false) {n : Node} {p : BlockPtr} (hn : r.arena.At r.rv.pc p n)
    (hk : c.coreId = 3 → inKernel r.rv.prePc = inKernel r.rv.pc) :
    ∃ us target prev, Run (fun r u r' => r' = r.turn P E c false u) r us
      { r with
        rv := { r.rv with prePc := r.rv.pc }, prev, lastPc := r.rv.pc
        ctl := .exec target p p ⟨n.pcStart, n.irs, r.rv.csrCycle, r.rv.pc⟩ } ∧
      us.filterMap Turn.write = [] := by
  obtain ⟨us, target, hrun, hgo, hus⟩ := hr.ready (P := P) (E := E) hb
  obtain ⟨hclear, hshared⟩ := kernelTransition_stays (P := P.extend E) r.shared ht hk
  have hstep : ({ r with ctl := .loop target } : Chained δ ξ).turn P E c false .step =
      ({ r with ctl := .loop target } : Chained δ ξ).dispatch P E c false target := if_pos ⟨hgo, hh⟩
  rw [dispatch_found (r := { r with ctl := .loop target }) hn hclear hshared] at hstep
  refine ⟨us ++ [.step], target, _, hrun.append (.cons hstep.symm (.nil _)), ?_⟩
  rw [List.filterMap_append, hus]
  rfl

theorem after_shared (ht : c.tensix = false) (r : Chained δ ξ) (target : ℕ) (block current : BlockPtr)
    {rv : Rv ξ} {pc : Word} :
    (r.after P c target block current (endOp rv r.shared f [] 1 pc [])).shared = r.shared := by
  dsimp only [Chained.after, endOp]
  rw [ht]
  rfl

theorem Tracks.follow (h : s.Tracks c r) (ht : c.tensix = false) (hb : 0 < c.cyclePerStep)
    (hh : s.rv.halt = false) {n m : Node} {t : BlockPtr} {pc lastPc : Word} {a : Arena} {cycle : ℕ}
    (hk : c.coreId = 3 → inKernel r.rv.prePc = inKernel n.pcStart)
    (ha : a.Same r.arena) (hm : a.At pc t m) (hstart : m.pcStart = pc)
    (hcross : c.coreId = 3 → inKernel pc = inKernel n.pcStart)
    (hback : r.turn P E c false .step =
      r.after P c target' block' current (endOp (link r.rv ir.rd f.pc) r.shared f' [] 1 pc [])) :
    ∃ us r', Run (fun r u r' => r' = r.turn P E c false u) r us r' ∧
      Tracks c (({ s with rv := link s.rv ir.rd f.pc, arena := a, lastPc, count := s.count + 1 } :
        Chained δ ξ).enter
        target block t cycle pc) r' ∧
      InStep c (({ s with rv := link s.rv ir.rd f.pc, arena := a, lastPc, count := s.count + 1 } :
        Chained δ ξ).enter
        target block t cycle pc) r' ∧
      us.filterMap Turn.write = [] := by
  have hlink := h.rv.link ir.rd f.pc
  have hpre' : (link r.rv ir.rd f.pc).prePc = r.rv.prePc := (link_keeps r.rv ir.rd f.pc).prePc
  have hpre : (link s.rv ir.rd f.pc).prePc = s.rv.prePc := (link_keeps s.rv ir.rd f.pc).prePc
  have hhalt : (link s.rv ir.rd f.pc).halt = false := by
    unfold link
    split_ifs <;> exact hh
  obtain ⟨m', hm', hstart', hirs'⟩ := ha.at_ hm
  -- the state in which the core without chaining is back in `rv_step`
  obtain ⟨us, tgt, prev, hrun, hus⟩ := Rests.follow (P := P) (E := E) (c := c) (n := m') (p := t)
    (r := r.after P c target' block' current (endOp (link r.rv ir.rd f.pc) r.shared f' [] 1 pc []))
    (.inr ⟨target', rfl⟩) ht hb (hlink.halt.trans hhalt) hm' (fun h3 => by
      change inKernel (link r.rv ir.rd f.pc).prePc = inKernel pc
      rw [hpre', hk h3, hcross h3])
  refine ⟨.step :: us, _, .cons hback.symm hrun, ?_, ?_, hus⟩
  · rw [enter_eq hm]
    refine ⟨⟨hlink.x, hlink.ext, hlink.halt⟩, ?_, ha, ?_, fun h3 => ?_⟩
    · exact (after_shared ht r target' block' current).trans h.shared
    · exact congrArg (· + 1) h.count
    · change inKernel pc = inKernel (link s.rv ir.rd f.pc).prePc
      rw [hpre, ← h.prePc h3, hk h3, hcross h3]
  · rw [enter_eq hm]
    refine .exec rfl rfl ⟨hirs', rfl⟩ hm.pool (fun h3 => ?_) hb
    change inKernel pc = inKernel m.pcStart
    rw [hstart]

end tracks

section dispatch

theorem Tracks.transition (h : s.Tracks c r) (ht : c.tensix = false) (hpc : r.rv.pc = s.rv.pc) :
    Tracks c (s.updatePrev.transition P E c) (r.updatePrev.transition P E c) ∧
      (r.updatePrev.transition P E c).rv.pc = (s.updatePrev.transition P E c).rv.pc := by
  have hpc' : (r.updatePrev.transition P E c).rv.pc = (s.updatePrev.transition P E c).rv.pc := by
    rw [transition_pc, transition_pc, updatePrev_eq r, updatePrev_eq s]
    exact hpc
  refine ⟨?_, hpc'⟩
  obtain ⟨hclear, hshared⟩ := kernelTransition_alike (P := P.extend E) s.shared ht hpc h.prePc
  rw [updatePrev_eq r, updatePrev_eq s]
  dsimp only [Chained.transition]
  rw [h.shared, hshared, hclear, kernelTransition_rv, kernelTransition_rv, hclear]
  cases clearsMap c s.rv s.shared with
  | true => exact ⟨⟨h.rv.x, h.rv.ext, h.rv.halt⟩, rfl, h.arena.clear, h.count, fun _ => congrArg inKernel hpc⟩
  | false => exact ⟨⟨h.rv.x, h.rv.ext, h.rv.halt⟩, rfl, h.arena, h.count, fun _ => congrArg inKernel hpc⟩

theorem Tracks.findOrTranslate (h : s.Tracks c r) (hpc : r.rv.pc = s.rv.pc) :
    Tracks c (s.findOrTranslate P E c).1 (r.findOrTranslate P E c).1 ∧
      (r.findOrTranslate P E c).2 = (s.findOrTranslate P E c).2 ∧
        (r.findOrTranslate P E c).1.rv = r.rv ∧ (s.findOrTranslate P E c).1.rv = s.rv := by
  have hcleared : ∀ full : Bool, Tracks c (if full then s.clear else s) (if full then r.clear else r) ∧
      (if full then r.clear else r).rv = r.rv ∧ (if full then s.clear else s).rv = s.rv := by
    intro full
    cases full with
    | true => exact ⟨⟨h.rv, h.shared, h.arena.clear, h.count, h.prePc⟩, rfl, rfl⟩
    | false => exact ⟨h, rfl, rfl⟩
  unfold Chained.findOrTranslate
  rw [h.arena.map, hpc]
  cases hmap : s.arena.map s.rv.pc with
  | some p => exact ⟨h, rfl, rfl, rfl⟩
  | none =>
    dsimp only
    rw [h.arena.size]
    obtain ⟨hc, hrv', hrv⟩ := hcleared (decide (5 * s.arena.size > 4 * blockCapacity))
    simp only [decide_eq_true_eq] at hc hrv' hrv
    generalize (if 5 * s.arena.size > 4 * blockCapacity then s.clear else s) = s₁ at *
    generalize (if 5 * s.arena.size > 4 * blockCapacity then r.clear else r) = r₁ at *
    have hpc₁ : r₁.rv.pc = s₁.rv.pc := by rw [hrv', hrv, hpc]
    rw [hc.shared, blockTranslate_alike hc.rv.x hpc₁, hpc₁]
    cases blockTranslate (P.extend E) c s₁.shared.dev s₁.rv with
    | none => exact ⟨hc, rfl, hrv', hrv⟩
    | some b =>
      exact ⟨⟨hc.rv, rfl, hc.arena.insert _ _, hc.count, hc.prePc⟩, congrArg some hc.arena.next, hrv', hrv⟩

theorem Tracks.chain (h : s.Tracks c r) (p : BlockPtr) : Tracks c (s.chain p) r := by
  unfold Chained.chain
  split
  · exact h
  · split
    · exact h
    case h_2 n hn =>
      split_ifs
      · exact ⟨h.rv, h.shared, h.arena.set hn rfl rfl, h.count, h.prePc⟩
      · exact h

theorem Tracks.dispatch (h : s.Tracks c r) (hs : s.Inv) (hrest : s.Resting) (ht : c.tensix = false)
    (hpc : r.rv.pc = s.rv.pc) (hb : 0 < c.cyclePerStep) (target target' : ℕ) :
    Tracks c (s.dispatch P E c true target) (r.dispatch P E c false target') ∧
      InStep c (s.dispatch P E c true target) (r.dispatch P E c false target') := by
  obtain ⟨htr, htpc⟩ := h.transition (P := P) (E := E) ht hpc
  obtain ⟨hf, hsame, hrv', hrv⟩ := htr.findOrTranslate (P := P) (E := E) htpc
  have hpre : (s.updatePrev.transition P E c).rv.prePc = (s.updatePrev.transition P E c).rv.pc := rfl
  have hpre' : (r.updatePrev.transition P E c).rv.prePc = (r.updatePrev.transition P E c).rv.pc := rfl
  unfold Chained.dispatch
  cases heq : (s.updatePrev.transition P E c).findOrTranslate P E c with
  | mk s' p =>
    cases heq' : (r.updatePrev.transition P E c).findOrTranslate P E c with
    | mk r' p' =>
      rw [heq] at hf hsame hrv
      rw [heq'] at hf hsame hrv'
      dsimp only at hf hsame hrv hrv'
      subst hsame
      have hpc₁ : r'.rv.pc = s'.rv.pc := by rw [hrv, hrv', htpc]
      cases p' with
      | none =>
        exact ⟨⟨⟨hf.rv.x, hf.rv.ext, rfl⟩, hf.shared, hf.arena, hf.count, hf.prePc⟩,
          .rest (.inl rfl) (.inl rfl) hpc₁ nofun⟩
      | some p =>
        obtain ⟨-, -, -, hchain⟩ := hs.found hrest heq
        obtain ⟨hsound, hmap⟩ := hchain p rfl
        have hf' := hf.chain p
        have hrv₁ : (s'.chain p).rv = s'.rv := by rw [chain_eq]
        obtain ⟨-, n, hn, hstart⟩ := hsound.live _ p hmap
        obtain ⟨n', hn', -, hirs⟩ := hf'.arena.at_ hn
        dsimp only
        rw [if_pos rfl, if_neg Bool.false_ne_true,
          enter_eq (s := { s'.chain p with lastPc := (s'.chain p).rv.pc }) hn,
          enter_eq (s := { r' with lastPc := r'.rv.pc }) hn', hrv₁]
        refine ⟨⟨hrv₁ ▸ hf'.rv, hf'.shared, hf'.arena, hf'.count, hrv₁ ▸ hf'.prePc⟩,
          .exec rfl rfl ⟨hirs, hpc₁⟩ hn.pool (fun _ => ?_) hb⟩
        change inKernel r'.rv.prePc = inKernel n.pcStart
        rw [hstart, ← hpc₁, hrv', hpre']

end dispatch

section turn

variable {target : ℕ} {block current : BlockPtr} {f : Frame} {ir : Ir} {rest : List Ir}

def followed (s : Chained δ ξ) (current : BlockPtr) (f : Frame) (ir : Ir) : Option Word :=
  match ir.impl with
  | .dispatch .jal => ((s.arena.pool current).bind Node.branchTaken).map fun _ => f.pc + ir.imm
  | .dispatch .jalr =>
    let pc := (s.rv.x ir.rs1 + ir.imm) &&& ~~~1
    (s.arena.map pc).map fun _ => pc
  | _ => none

/-- The instruction is no access to the cycle count and, on NCRISC, no jump between firmware and a kernel that
does not go back to `rv_step`. -/
def Transparent (c : CoreConfig) (s : Chained δ ξ) : Prop :=
  ∀ target block current f ir rest, s.ctl = .exec target block current f → f.irs = ir :: rest →
    ir.counter = none ∧
      (c.coreId = 3 → ∀ pc n, s.followed current f ir = some pc → s.arena.pool current = some n →
        inKernel pc = inKernel n.pcStart)

theorem handler_plain {rv : Rv ξ} {sh : Shared δ} (hf : f.irs = ir :: rest) (hc : ir.counter = none) :
    handler P E c rv sh f = execute (P.extend E) c rv sh f := by
  unfold handler
  rw [hf]
  dsimp only
  rw [hc]

def Matched (P : Platform δ ξ) (E : ExtUnits δ ξ) (c : CoreConfig) (s' r : Chained δ ξ) : Prop :=
  ∃ us r', Run (fun r u r' => r' = r.turn P E c false u) r us r' ∧ Tracks c s' r' ∧ InStep c s' r' ∧
    us.filterMap Turn.write = []

section jumps

variable {target' : ℕ} {block' : BlockPtr} {f' : Frame} {n : Node}

theorem Tracks.back (h : s.Tracks c r) (hn : s.arena.pool current = some n)
    (hk : c.coreId = 3 → inKernel r.rv.prePc = inKernel n.pcStart) (hb : 0 < c.cyclePerStep) {pc : Word}
    (hstep : r.turn P E c false .step =
      r.after P c target' block' current (endOp (link r.rv ir.rd f.pc) r.shared f' [] 1 pc [])) :
    Matched P E c (s.after P c target block current (endOp (link s.rv ir.rd f.pc) s.shared f [] 1 pc []))
      r := by
  have halike : (endOp (link s.rv ir.rd f.pc) s.shared f [] 1 pc []).Alike
      (endOp (link r.rv ir.rd f.pc) s.shared f' [] 1 pc []) := endOp_alike (h.rv.link ir.rd f.pc)
  rw [← h.shared] at halike ⊢
  obtain ⟨h₁, h₂⟩ := h.after (P := P) target target' block block' halike hn hk hb
      (link_keeps s.rv ir.rd f.pc).prePc
    (link_keeps r.rv ir.rd f.pc).prePc
  exact ⟨[.step], _, .cons hstep.symm (.nil _), h₁, h₂, rfl⟩

theorem Tracks.jal (h : s.Tracks c r) (hs : s.Inv) (ht : c.tensix = false) (hr : s.Running block current f)
    (hf : f.irs = ir :: rest) (hi : ir.impl = .dispatch .jal) (hn : s.arena.pool current = some n)
    (hk : c.coreId = 3 → inKernel r.rv.prePc = inKernel n.pcStart) (hb : 0 < c.cyclePerStep)
    (hcross : c.coreId = 3 → ∀ pc, s.followed current f ir = some pc → inKernel pc = inKernel n.pcStart)
    (hstep : r.turn P E c false .step =
      r.after P c target' block' current (endOp (link r.rv ir.rd f.pc) r.shared f' [] 1 (f.pc + ir.imm) [])) :
    Matched P E c (s.jal P c true target block current f ir) r := by
  have hclosed := hr.closed hs.arena
  rw [hf] at hclosed
  have hrest := hclosed.branch_last hi rfl
  subst hrest
  obtain ⟨pc₀, n₀, -, hn₀, -⟩ := hr.place
  cases hn₀.pool.symm.trans hn
  dsimp only [Chained.jal]
  rw [if_pos rfl, hn₀.pool, Option.bind_some]
  cases ht' : n.branchTaken with
  | none => exact h.back hn hk hb hstep
  | some t =>
    obtain ⟨hclose, htarget⟩ := hr.closing hs.arena hf hn₀
    have hmap := hs.arena.taken _ current n hn₀ (hclose.mpr (hclosed.head.opcode_eq hi)) t ht'
    rw [htarget] at hmap
    obtain ⟨-, m, hm, hstart⟩ := hs.arena.live _ t hmap
    have hfollowed : s.followed current f ir = some (f.pc + ir.imm) := by
      unfold followed
      rw [hi, hn₀.pool, Option.bind_some, ht']
      rfl
    exact h.follow ht hb hr.halt hk h.arena hm hstart (fun h3 => hcross h3 _ hfollowed) hstep

theorem Tracks.jalr (h : s.Tracks c r) (hs : s.Inv) (ht : c.tensix = false) (hr : s.Running block current f)
    (hi : ir.impl = .dispatch .jalr) (hn : s.arena.pool current = some n)
    (hk : c.coreId = 3 → inKernel r.rv.prePc = inKernel n.pcStart) (hb : 0 < c.cyclePerStep)
    (hcross : c.coreId = 3 → ∀ pc, s.followed current f ir = some pc → inKernel pc = inKernel n.pcStart)
    (hstep : r.turn P E c false .step = r.after P c target' block' current
      (endOp (link r.rv ir.rd f.pc) r.shared f' [] 1 ((s.rv.x ir.rs1 + ir.imm) &&& ~~~1) [])) :
    Matched P E c (s.jalr P c true target block current f ir) r := by
  obtain ⟨pc₀, n₀, -, hn₀, -⟩ := hr.place
  cases hn₀.pool.symm.trans hn
  have heven := even_ne (s.rv.x ir.rs1 + ir.imm)
  have hrecords := hs.arena.table _ current n hn₀
  have hfollowed {t : BlockPtr} (hmap : s.arena.map ((s.rv.x ir.rs1 + ir.imm) &&& ~~~1) = some t) :
      s.followed current f ir = some ((s.rv.x ir.rs1 + ir.imm) &&& ~~~1) := by
    unfold followed
    rw [hi]
    dsimp only
    rw [hmap]
    rfl
  dsimp only [Chained.jalr]
  generalize (s.rv.x ir.rs1 + ir.imm) &&& ~~~1 = pc at *
  rw [if_pos rfl, hn₀.pool]
  dsimp only
  split
  case h_1 i hfound =>
    have hpc : n.branchTable.pcs i = pc := by simpa using List.find?_some hfound
    obtain ⟨-, hodd⟩ | ⟨t, ht', hmap⟩ := hrecords i
    · exact absurd (hpc.symm.trans hodd) heven
    · rw [hpc] at hmap
      rw [ht']
      obtain ⟨-, m, hm, hstart⟩ := hs.arena.live _ t hmap
      exact h.follow ht hb hr.halt hk h.arena hm hstart (fun h3 => hcross h3 _ (hfollowed hmap)) hstep
  · split
    case h_1 t hmap =>
      have hset : (s.arena.set current { n with branchTable := n.branchTable.record pc t }).Sound :=
        hs.arena.set hn₀ rfl rfl (records_record hrecords hmap) (hs.arena.taken _ current n hn₀)
      obtain ⟨-, m, hm, hstart⟩ := hset.live _ t hmap
      exact h.follow ht hb hr.halt hk (h.arena.set hn rfl rfl) hm hstart
        (fun h3 => hcross h3 _ (hfollowed hmap)) hstep
    · exact h.back hn hk hb hstep

end jumps

theorem Tracks.exec (h : s.Tracks c r) (hs : s.Inv) (ht : c.tensix = false) (htr : s.Transparent c)
    {target' : ℕ} {block' : BlockPtr} {f' : Frame} {n : Node} (hctl : s.ctl = .exec target block current f)
    (hctl' : r.ctl = .exec target' block' current f') (hf : f.Alike f') (hn : s.arena.pool current = some n)
    (hk : c.coreId = 3 → inKernel r.rv.prePc = inKernel n.pcStart) (hb : 0 < c.cyclePerStep) :
    Matched P E c (s.exec P E c true target block current f) r := by
  have hr := hs.running hctl
  have hstep : r.turn P E c false .step = r.exec P E c false target' block' current f' := by
    dsimp only [Chained.turn, step]
    rw [hctl']
  cases hirs : f.irs with
  | nil => exact absurd hirs hr.nonempty
  | cons ir rest =>
    obtain ⟨hcounter, hcross⟩ := htr _ _ _ _ _ _ hctl hirs
    have hirs' : f'.irs = ir :: rest := hf.irs.trans hirs
    by_cases hjal : ir.impl = .dispatch .jal
    · rw [exec_jal true hirs hjal]
      rw [exec_jal false hirs' hjal] at hstep
      dsimp only [Chained.jal] at hstep
      rw [if_neg Bool.false_ne_true, hf.pc] at hstep
      exact h.jal hs ht hr hirs hjal hn hk hb (fun h3 pc hpc => hcross h3 pc n hpc hn) hstep
    · by_cases hjalr : ir.impl = .dispatch .jalr
      · rw [exec_jalr true hirs hjalr]
        rw [exec_jalr false hirs' hjalr] at hstep
        dsimp only [Chained.jalr] at hstep
        rw [if_neg Bool.false_ne_true, hf.pc, h.rv.x] at hstep
        exact h.jalr hs ht hr hjalr hn hk hb (fun h3 pc hpc => hcross h3 pc n hpc hn) hstep
      · rw [exec_other true hirs hjal hjalr]
        rw [exec_other false hirs' hjal hjalr, h.shared] at hstep
        have halike := handler_alike (P := P) (E := E) (c := c) s.shared h.rv hf hirs hjal hjalr hcounter
        have hpre : (handler P E c s.rv s.shared f).rv.prePc = s.rv.prePc := by
          rw [handler_plain hirs hcounter]
          exact (execute_keeps s.rv s.shared f).rv.prePc
        have hpre' : (handler P E c r.rv s.shared f').rv.prePc = r.rv.prePc := by
          rw [handler_plain hirs' hcounter]
          exact (execute_keeps r.rv s.shared f').rv.prePc
        obtain ⟨h₁, h₂⟩ := h.after (P := P) target target' block block' halike hn hk hb hpre hpre'
        exact ⟨[.step], _, .cons hstep.symm (.nil _), h₁, h₂, rfl⟩

theorem Tracks.stays {s' : Chained δ ξ} (h : s'.Tracks c r) (hi : s'.InStep c r) : Matched P E c s' r :=
  ⟨[], r, .nil r, h, hi, rfl⟩

theorem Tracks.step (h : s.Tracks c r) (hi : s.InStep c r) (hs : s.Inv) (ht : c.tensix = false)
    (htr : s.Transparent c) :
    Matched P E c (s.step P E c true) r := by
  cases hi with
  | exec hctl hctl' hf hn hk hb =>
    dsimp only [Chained.step]
    rw [hctl]
    exact h.exec hs ht htr hctl hctl' hf hn hk hb
  | rest hrest hrest' hpc hb =>
    obtain hidle | ⟨target, hloop⟩ := hrest
    · dsimp only [Chained.step]
      rw [hidle]
      exact h.stays (.rest (.inl hidle) hrest' hpc hb)
    · dsimp only [Chained.step]
      rw [hloop]
      dsimp only
      split_ifs with hgo
      · have hb' := hb target hloop hgo.1
        have hresting := hs.placed
        rw [Placed, hloop] at hresting
        obtain ⟨us, target', hrun, hgo', hus⟩ := hrest'.ready (P := P) (E := E) hb'
        have hstep : ({ r with ctl := .loop target' } : Chained δ ξ).turn P E c false .step =
            ({ r with ctl := .loop target' } : Chained δ ξ).dispatch P E c false target' :=
          if_pos ⟨hgo', h.rv.halt.trans hgo.2⟩
        have h' : s.Tracks c { r with ctl := .loop target' } := ⟨h.rv, h.shared, h.arena, h.count, h.prePc⟩
        obtain ⟨h₁, h₂⟩ := h'.dispatch (P := P) (E := E) hs hresting ht hpc hb' target target'
        refine ⟨us ++ [.step], _, hrun.append (.cons hstep.symm (.nil _)), h₁, h₂, ?_⟩
        rw [List.filterMap_append, hus]
        rfl
      · exact Tracks.stays ⟨h.rv, h.shared, h.arena, h.count, h.prePc⟩
          (.rest (.inl rfl) hrest' hpc fun _ h => by cases h)

theorem Tracks.turn (h : s.Tracks c r) (hi : s.InStep c r) (hs : s.Inv) (ht : c.tensix = false)
    (htr : s.Transparent c) (t : Turn δ) :
    ∃ us r', Run (fun r u r' => r' = r.turn P E c false u) r us r' ∧
      (Tracks c (s.turn P E c true t) r' ∧ InStep c (s.turn P E c true t) r') ∧
        us.filterMap Turn.write = (Turn.write t).toList := by
  have hquiet {s' : Chained δ ξ} (hm : Matched P E c s' r) :
      ∃ us r', Run (fun r u r' => r' = r.turn P E c false u) r us r' ∧ (Tracks c s' r' ∧ InStep c s' r') ∧
        us.filterMap Turn.write = [] := by
    obtain ⟨us, r', hrun, h₁, h₂, hus⟩ := hm
    exact ⟨us, r', hrun, ⟨h₁, h₂⟩, hus⟩
  cases t with
  | others sh =>
    refine ⟨[.others sh], _, .cons rfl (.nil _), ⟨⟨h.rv, rfl, h.arena, h.count, h.prePc⟩, ?_⟩, rfl⟩
    cases hi with
    | rest hrest hrest' hpc hb => exact .rest hrest hrest' hpc hb
    | exec hctl hctl' hf hn hk hb => exact .exec hctl hctl' hf hn hk hb
  | call =>
    apply hquiet
    dsimp only [Chained.turn]
    split
    case h_1 hidle =>
      cases hi with
      | rest _ hrest' hpc _ =>
        refine Tracks.stays ⟨h.rv, h.shared, h.arena, h.count, h.prePc⟩ (.rest (.inr ⟨_, rfl⟩) hrest' hpc ?_)
        rintro _ ⟨⟩ hlt
        exact Nat.pos_of_lt_add_right hlt
      | exec hctl => cases hidle.symm.trans hctl
    · exact h.stays hi
  | step => exact hquiet (h.step hi hs ht htr)

end turn

section invisible

def pc (s : Chained δ ξ) : Word :=
  match s.ctl with
  | .exec _ _ _ f => f.pc
  | _ => s.rv.pc

theorem InStep.pc_eq (h : s.InStep c r) : r.pc = s.pc := by
  unfold pc
  cases h with
  | rest hrest hrest' hpc _ =>
    obtain hs | ⟨_, hs⟩ := hrest <;> obtain hr | ⟨_, hr⟩ := hrest' <;> rw [hs, hr] <;> exact hpc
  | exec hctl hctl' hf _ _ _ =>
    rw [hctl, hctl']
    exact hf.pc

theorem Fresh.tracks (h : s.Fresh) : s.Tracks c s ∧ s.InStep c s := by
  refine ⟨⟨.refl _, rfl, ⟨rfl, rfl, rfl, fun _ => rfl⟩, rfl, fun _ => rfl⟩,
    .rest (.inl h.ctl) (.inl h.ctl) rfl ?_⟩
  intro target hloop
  cases h.ctl.symm.trans hloop

/-- In a run without a WFI in front of a closing JAL every pointer is right. If also no instruction accesses
the cycle count, and none jumps between firmware and a kernel of NCRISC past `rv_step`, a core without the
coprocessor does what it does without chaining. -/
theorem chaining_invisible {s₀ : Chained δ ξ} (h₀ : s₀.Fresh) {ts : List (Turn δ)}
    (hrun : Run (fun s t s' => s' = s.turn P E c true t ∧ s.NoWfiBeforeJal) s₀ ts s) :
    (s.arena.LinksRight ∧ s.ctl ≠ .crashed) ∧
      (c.tensix = false →
        Run (fun s t s' => s' = s.turn P E c true t ∧ s.NoWfiBeforeJal ∧ s.Transparent c) s₀ ts s →
        ∃ us r, Run (fun r u r' => r' = r.turn P E c false u) s₀ us r ∧
          us.filterMap Turn.write = ts.filterMap Turn.write ∧
          r.count = s.count ∧ r.rv.x = s.rv.x ∧ r.shared = s.shared ∧ r.pc = s.pc) := by
  have hinv : s.Inv := by
    refine hrun.invariant (fun s t s' hs hstep => ?_) h₀.inv
    obtain ⟨rfl, hw⟩ := hstep
    exact hs.turn hw t
  refine ⟨⟨hinv.arena.linksRight, fun hcrash => ?_⟩, fun ht hrun' => ?_⟩
  · have hplaced := hinv.placed
    rw [Placed, hcrash] at hplaced
    exact hplaced
  · have hsim : ∀ (s : Chained δ ξ) (t : Turn δ) (s' r : Chained δ ξ), (s.Inv ∧ s.Tracks c r ∧ s.InStep c r) →
        (s' = s.turn P E c true t ∧ s.NoWfiBeforeJal ∧ s.Transparent c) →
        ∃ us r', Run (fun r u r' => r' = r.turn P E c false u) r us r' ∧
          (s'.Inv ∧ s'.Tracks c r' ∧ s'.InStep c r') ∧ us.filterMap Turn.write = (Turn.write t).toList := by
      rintro s t _ r ⟨hs, htracks, hstep⟩ ⟨rfl, hw, htr⟩
      obtain ⟨us, r', hrun, hr', hus⟩ := htracks.turn (P := P) (E := E) hstep hs ht htr t
      exact ⟨us, r', hrun, ⟨hs.turn hw t, hr'⟩, hus⟩
    obtain ⟨us, r, hruns, ⟨-, htracks, hstep⟩, hus⟩ := hrun'.weakSimulation hsim ⟨h₀.inv, h₀.tracks⟩
    exact ⟨us, r, hruns, hus, htracks.count, htracks.rv.x, htracks.shared, hstep.pc_eq⟩

end invisible

section waiting

def boot : Chained Unit Unit :=
  ⟨Rv.reset, Shared.reset, ⟨fun _ => none, 0, fun _ => none, 0⟩, none, 0, .idle, 0⟩

theorem boot_fresh : boot.Fresh := ⟨fun _ => rfl, rfl, rfl, rfl⟩

def waiting : List Word := [0x10500073, 0x0080006F, 0x0000006F, 0x0000006F]

def turns (P : Platform δ ξ) (E : ExtUnits δ ξ) (c : CoreConfig) :
    Chained δ ξ → List (Turn δ) → Chained δ ξ :=
  List.foldl fun s t => s.turn P E c true t

theorem turns_run (P : Platform δ ξ) (E : ExtUnits δ ξ) (c : CoreConfig) (s : Chained δ ξ)
    (ts : List (Turn δ)) :
    Run (fun s t s' => s' = s.turn P E c true t) s ts (s.turns P E c ts) := by
  induction ts generalizing s with
  | nil => exact .nil s
  | cons t ts ih => exact .cons rfl (ih _)

theorem wfi_links_wrong :
    ∃ s, boot.Fresh ∧
      Run (fun s t s' => s' = s.turn (romPlatform waiting) .none ncriscConfig true t) boot
        (.call :: List.replicate 3 .step) s ∧
      ¬s.arena.LinksRight := by
  refine ⟨_, boot_fresh, turns_run _ _ _ _ _, fun h => ?_⟩
  have hnode : ((boot.turns (romPlatform waiting) .none ncriscConfig
      (.call :: List.replicate 3 .step)).arena.pool 0).map
      (fun n => (n.closesWithJal, n.branchTaken, n.jumpTarget)) = some (true, some 1, 12) := by
    decide +kernel
  have hmap : (boot.turns (romPlatform waiting) .none ncriscConfig
      (.call :: List.replicate 3 .step)).arena.map 12 = none := by
    decide +kernel
  have hzero : (boot.turns (romPlatform waiting) .none ncriscConfig
      (.call :: List.replicate 3 .step)).arena.map 0 = some 0 := by
    decide +kernel
  obtain ⟨n, hn, heq⟩ := Option.map_eq_some_iff.mp hnode
  obtain ⟨hclose, hlink⟩ := Prod.mk.inj heq
  obtain ⟨htaken, htarget⟩ := Prod.mk.inj hlink
  obtain ⟨m, hm, -⟩ := h.jal 0 0 n ⟨hzero, hn⟩ hclose 1 htaken
  rw [htarget] at hm
  cases hmap.symm.trans hm.map

def loneConfig : CoreConfig := ⟨0, false, 100⟩

def spinning : List Word := [0x0000006F]

theorem chaining_invisible_spinning :
    boot.Fresh ∧ ∃ s : Chained Unit Unit, s.arena.LinksRight ∧
      (s.arena.pool 0).bind Node.branchTaken = some 0 ∧
      ∃ us r, Run (fun r u r' => r' = r.turn (romPlatform spinning) .none loneConfig false u) boot us r ∧
        r.count = s.count ∧ r.rv.x = s.rv.x ∧ r.pc = s.pc := by
  -- no state is in front of more than one instruction, and none of these accesses a counter
  have hquiet (s : Chained Unit Unit) (h : (match s.ctl with
      | .exec _ _ _ f => decide (f.irs.length ≤ 1) && f.irs.all fun ir => ir.counter.isNone
      | _ => true) = true) : s.NoWfiBeforeJal ∧ s.Transparent loneConfig := by
    refine ⟨fun target block current f ir rest n hctl hf hrest => ?_,
      fun target block current f ir rest hctl hf => ?_⟩
    · rw [hctl] at h
      simp only [hf, Bool.and_eq_true, decide_eq_true_eq, List.length_cons] at h
      exact absurd (List.length_eq_zero_iff.mp (by omega)) hrest
    · rw [hctl] at h
      simp only [hf, Bool.and_eq_true, List.all_cons, Option.isNone_iff_eq_none] at h
      exact ⟨h.2.1, fun h3 => absurd h3 (by decide)⟩
  have hrun : Run (fun s t s' => s' = s.turn (romPlatform spinning) .none loneConfig true t ∧
      s.NoWfiBeforeJal ∧
      s.Transparent loneConfig) boot [.call, .step, .step, .step, .step]
      (boot.turns (romPlatform spinning) .none loneConfig [.call, .step, .step, .step, .step]) :=
    .cons ⟨rfl, hquiet _ (by decide +kernel)⟩ (.cons ⟨rfl, hquiet _ (by decide +kernel)⟩
      (.cons ⟨rfl, hquiet _ (by decide +kernel)⟩ (.cons ⟨rfl, hquiet _ (by decide +kernel)⟩
        (.cons ⟨rfl, hquiet _ (by decide +kernel)⟩ (.nil _)))))
  obtain ⟨⟨hlinks, -⟩, hsim⟩ := chaining_invisible boot_fresh (hrun.imp fun _ _ _ _ h => ⟨h.1, h.2.1⟩)
  obtain ⟨us, r, hrun', -, hcount, hx, -, hpc⟩ := hsim rfl hrun
  exact ⟨boot_fresh, _, hlinks, by decide +kernel, us, r, hrun', hcount, hx, hpc⟩

end waiting

end Chained

end Rv32Emu
