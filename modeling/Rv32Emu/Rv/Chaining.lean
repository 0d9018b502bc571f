import Rv32Emu.Rv.Closing
import Rv32Emu.Rv.Freshness

/-!
Block chaining, with the pointers as they are: blocks stand in a pool that a cleared map hands out again, the
closing JAL of a block holds a pointer to the block it goes to, and a JALR the table of its last targets.
The pointer of a JAL is set one dispatch later, from what `rv_step` remembers of the block before.
-/

namespace Rv32Emu

variable {δ ξ : Type}

section counters

def counterHalf (csr : Word) : Option Bool :=
  match (csr &&& 0xFFF).toNat with
  | 0xC00 | 0xC02 => some false
  | 0xC80 | 0xC82 => some true
  | _ => none

def csrCounter (e : ExtInsn) : Option Bool :=
  match extOp e.insn with
  | some (.csr _) | some (.csri _) => counterHalf (decodeItypeImm e.insn)
  | _ => none

def csrOperand (e : ExtInsn) (x : Reg → Word) : CsrOp × Word :=
  match extOp e.insn with
  | some (.csr .csrrw) => (.csrrw, x e.rs1)
  | some (.csr op) => (op, if e.rs1 = 0 then 0 else x e.rs1)
  | some (.csri op) => (op, w32 e.rs1)
  | _ => (.csrrs, 0)

def csrWrite (op : CsrOp) (old v : Word) : Word :=
  match op with
  | .csrrw => v
  | .csrrs => old ||| v
  | .csrrc => old &&& ~~~v

def doCounter (rv : Rv ξ) (sh : Shared δ) (f : Frame) (rest : List Ir) (e : ExtInsn) (high : Bool) :
    Executed δ ξ :=
  let (op, v) := csrOperand e rv.x
  let cycle : BitVec 64 := BitVec.ofNat 64 rv.csrCycle
  let lo : Word := cycle.extractLsb' 0 32
  let hi : Word := cycle.extractLsb' 32 32
  let old := if high then hi else lo
  let cycle : BitVec 64 := if high then csrWrite op hi v ++ lo else hi ++ csrWrite op lo v
  let rv := if e.rd ≠ 0 then rv.setX e.rd old else rv
  endOp { rv with csrCycle := cycle.toNat } sh f rest 1 (f.pc + 4) []

def Ir.counter (ir : Ir) : Option (ExtInsn × Bool) :=
  match ir.impl with
  | .dispatch (.ext e) => (csrCounter e).map (e, ·)
  | _ => none

def handler (P : Platform δ ξ) (E : ExtUnits δ ξ) (c : CoreConfig) (rv : Rv ξ) (sh : Shared δ) (f : Frame) :
    Executed δ ξ :=
  match f.irs with
  | [] => execute (P.extend E) c rv sh f
  | ir :: rest =>
    match ir.counter with
    | some (e, high) => doCounter rv sh f rest e high
    | none => execute (P.extend E) c rv sh f

end counters

section pool

abbrev BlockPtr := ℕ

structure BranchTable where
  pcs : Fin 16 → Word
  targets : Fin 16 → Option BlockPtr
  idx : Fin 16

def BranchTable.fresh : BranchTable := ⟨fun _ => 0xFFFFFFFF, fun _ => none, 0⟩

def BranchTable.lookup (t : BranchTable) (pc : Word) : Option (Fin 16) :=
  (List.finRange 16).find? fun i => t.pcs i = pc

def BranchTable.record (t : BranchTable) (pc : Word) (p : BlockPtr) : BranchTable :=
  ⟨Function.update t.pcs t.idx pc, Function.update t.targets t.idx (some p), t.idx + 1⟩

/-- A block in memory. `branchTaken` is the pointer of its last instruction where that is a JAL, and
`branchTable` the table of its last instruction where that is a JALR. -/
structure Node where
  pcStart : Word
  irs : List Ir
  branchTaken : Option BlockPtr
  branchTable : BranchTable

def Node.closesWithJal (n : Node) : Bool := Rv32Emu.closesWithJal ⟨n.irs, none⟩

def weightOf (irs : List Ir) : ℕ := (irs.map Ir.weight).sum

def Node.jumpTarget (n : Node) : Word :=
  n.pcStart + w32 (4 * weightOf n.irs.dropLast) + (n.irs.getLast?.map fun ir => ir.imm).getD 0

structure Arena where
  pool : BlockPtr → Option Node
  next : BlockPtr
  map : Word → Option BlockPtr
  size : ℕ

def Arena.clear (a : Arena) : Arena := { a with next := 0, map := fun _ => none, size := 0 }

def Arena.insert (a : Arena) (pc : Word) (irs : List Ir) : Arena where
  pool := Function.update a.pool a.next (some ⟨pc, irs, none, .fresh⟩)
  next := a.next + 1
  map := Function.update a.map pc (some a.next)
  size := a.size + 1

def Arena.set (a : Arena) (p : BlockPtr) (n : Node) : Arena :=
  { a with pool := Function.update a.pool p (some n) }

end pool

/-- Where a core is: outside `rv_step`, before a dispatch, in the handlers of the block `current` that came
after the dispatch of `block`, or dead by a pointer to nothing. -/
inductive ChainCtl
  | idle
  | loop (target : ℕ)
  | exec (target : ℕ) (block current : BlockPtr) (f : Frame)
  | crashed

/-- A core with its pool. The map, `prev` and `last_pc` are here, and those of `rv` are not used; `count` is
the number of instructions executed. -/
structure Chained (δ ξ : Type) where
  rv : Rv ξ
  shared : Shared δ
  arena : Arena
  prev : Option BlockPtr
  lastPc : Word
  ctl : ChainCtl
  count : ℕ

namespace Chained

section machine

variable (P : Platform δ ξ) (E : ExtUnits δ ξ) (c : CoreConfig)

def clear (s : Chained δ ξ) : Chained δ ξ := { s with arena := s.arena.clear, prev := none }

def enter (s : Chained δ ξ) (target : ℕ) (block p : BlockPtr) (cycle : ℕ) (pc : Word) : Chained δ ξ :=
  match s.arena.pool p with
  | some n => { s with ctl := .exec target block p ⟨n.pcStart, n.irs, cycle, pc⟩ }
  | none => { s with ctl := .crashed }

def updatePrev (s : Chained δ ξ) : Chained δ ξ :=
  match s.prev with
  | some p =>
    if (s.arena.pool p).map Node.pcStart = some s.lastPc then s else { s with prev := s.arena.map s.lastPc }
  | none => s

def transition (s : Chained δ ξ) : Chained δ ξ :=
  let (rv, shared, _) := kernelTransition (P.extend E) c s.rv s.shared
  let s := if clearsMap c s.rv s.shared then s.clear else s
  { s with rv := { rv with prePc := rv.pc }, shared }

def findOrTranslate (s : Chained δ ξ) : Chained δ ξ × Option BlockPtr :=
  match s.arena.map s.rv.pc with
  | some p => (s, some p)
  | none =>
    let s := if 5 * s.arena.size > 4 * blockCapacity then s.clear else s
    match blockTranslate (P.extend E) c s.shared.dev s.rv with
    | none => (s, none)
    | some b => ({ s with arena := s.arena.insert s.rv.pc b.irs }, some s.arena.next)

def chain (s : Chained δ ξ) (p : BlockPtr) : Chained δ ξ :=
  match s.prev with
  | none => s
  | some q =>
    match s.arena.pool q with
    | none => s
    | some n =>
      if n.closesWithJal && n.branchTaken.isNone then
        { s with arena := s.arena.set q { n with branchTaken := some p } }
      else s

def after (s : Chained δ ξ) (target : ℕ) (block current : BlockPtr) (e : Executed δ ξ) : Chained δ ξ :=
  match e.flow with
  | .next f | .jump f =>
    { s with rv := e.rv, shared := e.shared, ctl := .exec target block current f, count := s.count + e.count }
  | .ret true _ =>
    let dev := if c.tensix && isTrisc c.coreId then P.tensixStep e.shared.dev c.coreId else e.shared.dev
    { s with
      rv := e.rv, shared := { e.shared with dev }, prev := some block, ctl := .loop target, count :=
        s.count + e.count }
  | .ret false _ =>
    { s with rv := e.rv, shared := e.shared, prev := none, ctl := .idle, count := s.count + e.count }

-- with `chaining` off no pointer is set or followed, and every jump goes back to `rv_step`
variable (chaining : Bool)

def jal (s : Chained δ ξ) (target : ℕ) (block current : BlockPtr) (f : Frame) (ir : Ir) : Chained δ ξ :=
  let pc := f.pc + ir.imm
  let rv := link s.rv ir.rd f.pc
  match if chaining then (s.arena.pool current).bind Node.branchTaken else none with
  | some t => { s with rv, lastPc := pc, count := s.count + 1 }.enter target block t (f.cycle + 1) pc
  | none => s.after P c target block current (endOp rv s.shared f [] 1 pc [])

def jalr (s : Chained δ ξ) (target : ℕ) (block current : BlockPtr) (f : Frame) (ir : Ir) : Chained δ ξ :=
  let pc := (s.rv.x ir.rs1 + ir.imm) &&& ~~~1
  let rv := link s.rv ir.rd f.pc
  let jumped := { s with rv, count := s.count + 1 }
  let back := s.after P c target block current (endOp rv s.shared f [] 1 pc [])
  if chaining then
    match s.arena.pool current with
    | none => { jumped with ctl := .crashed }
    | some n =>
      match n.branchTable.lookup pc with
      | some i =>
        match n.branchTable.targets i with
        | some t => jumped.enter target block t (f.cycle + 1) pc
        | none => { jumped with ctl := .crashed }
      | none =>
        match s.arena.map pc with
        | some t =>
          { jumped with
              arena := s.arena.set current { n with branchTable := n.branchTable.record pc t } }.enter
            target block t (f.cycle + 1) pc
        | none => back
  else back

def exec (s : Chained δ ξ) (target : ℕ) (block current : BlockPtr) (f : Frame) : Chained δ ξ :=
  match f.irs with
  | [] => { s with ctl := .crashed }
  | ir :: _ =>
    match ir.impl with
    | .dispatch .jal => s.jal P c chaining target block current f ir
    | .dispatch .jalr => s.jalr P c chaining target block current f ir
    | _ => s.after P c target block current (handler P E c s.rv s.shared f)

def dispatch (s : Chained δ ξ) (target : ℕ) : Chained δ ξ :=
  match (s.updatePrev.transition P E c).findOrTranslate P E c with
  | (s, none) => { s with rv := { s.rv with halt := true }, ctl := .idle }
  | (s, some p) =>
    let s := if chaining then s.chain p else s
    { s with lastPc := s.rv.pc }.enter target p p s.rv.csrCycle s.rv.pc

def step (s : Chained δ ξ) : Chained δ ξ :=
  match s.ctl with
  | .idle | .crashed => s
  | .loop target =>
    if s.rv.csrCycle < target ∧ s.rv.halt = false then s.dispatch P E c chaining target
      else { s with ctl := .idle }
  | .exec target block current f => s.exec P E c chaining target block current f

def turn (s : Chained δ ξ) : Turn δ → Chained δ ξ
  | .others sh => { s with shared := sh }
  | .call =>
    match s.ctl with
    | .idle => { s with ctl := .loop (s.rv.csrCycle + c.cyclePerStep) }
    | _ => s
  | .step => s.step P E c chaining

structure Fresh (s : Chained δ ξ) : Prop where
  map : ∀ pc, s.arena.map pc = none
  size : s.arena.size = 0
  prev : s.prev = none
  ctl : s.ctl = .idle

end machine

end Chained

section sound

namespace Arena

variable {a : Arena} {pc : Word} {p : BlockPtr} {n : Node}

structure At (a : Arena) (pc : Word) (p : BlockPtr) (n : Node) : Prop where
  map : a.map pc = some p
  pool : a.pool p = some n

/-- Every chained pointer of a JAL and every recorded target of a JALR is a pointer to the block that the map
has at the target. -/
structure LinksRight (a : Arena) : Prop where
  jal : ∀ pc p n, a.At pc p n → n.closesWithJal = true → ∀ t, n.branchTaken = some t →
    ∃ m, a.At n.jumpTarget t m ∧ m.pcStart = n.jumpTarget
  jalr : ∀ pc p n, a.At pc p n → ∀ i t, n.branchTable.targets i = some t →
    ∃ m, a.At (n.branchTable.pcs i) t m ∧ m.pcStart = n.branchTable.pcs i

def Records (a : Arena) (t : BranchTable) : Prop :=
  ∀ i, (t.targets i = none ∧ t.pcs i = 0xFFFFFFFF) ∨ ∃ q, t.targets i = some q ∧ a.map (t.pcs i) = some q

structure Sound (a : Arena) : Prop where
  live : ∀ pc p, a.map pc = some p → p < a.next ∧ ∃ n, a.At pc p n ∧ n.pcStart = pc
  closed : ∀ pc p n, a.At pc p n → Ir.Closed n.irs
  table : ∀ pc p n, a.At pc p n → a.Records n.branchTable
  taken : ∀ pc p n, a.At pc p n → n.closesWithJal = true → ∀ t, n.branchTaken = some t →
    a.map n.jumpTarget = some t

theorem At.start (h : a.At pc p n) (hs : a.Sound) : n.pcStart = pc := by
  obtain ⟨-, m, hm, hpc⟩ := hs.live pc p h.map
  cases h.pool.symm.trans hm.pool
  exact hpc

theorem At.unique {q : BlockPtr} {m : Node} (h : a.At pc p n) (h' : a.At pc q m) : p = q ∧ n = m := by
  cases h.map.symm.trans h'.map
  cases h.pool.symm.trans h'.pool
  exact ⟨rfl, rfl⟩

theorem Sound.linksRight (h : a.Sound) : a.LinksRight := by
  refine ⟨fun pc p n hn hjal t ht => ?_, fun pc p n hn i t ht => ?_⟩
  · obtain ⟨-, m, hm, hpc⟩ := h.live _ t (h.taken pc p n hn hjal t ht)
    exact ⟨m, hm, hpc⟩
  · obtain ⟨hnone, -⟩ | ⟨q, hq, hmap⟩ := h.table pc p n hn i
    · rw [hnone] at ht
      cases ht
    · cases hq.symm.trans ht
      obtain ⟨-, m, hm, hpc⟩ := h.live _ t hmap
      exact ⟨m, hm, hpc⟩

theorem clear_sound : a.clear.Sound := by
  have hat {pc : Word} {p : BlockPtr} {n : Node} : ¬a.clear.At pc p n := fun h => nomatch h.map
  exact ⟨nofun, fun _ _ _ h => absurd h hat, fun _ _ _ h => absurd h hat, fun _ _ _ h => absurd h hat⟩

theorem Records.mono {b : Arena} {t : BranchTable} (h : a.Records t)
    (hmap : ∀ pc p, a.map pc = some p → b.map pc = some p) : b.Records t := by
  intro i
  obtain hfree | ⟨q, hq, hpc⟩ := h i
  · exact .inl hfree
  · exact .inr ⟨q, hq, hmap _ _ hpc⟩

theorem fresh_records : a.Records .fresh := fun _ => .inl ⟨rfl, rfl⟩

section insert

variable {irs : List Ir}

theorem insert_map (h : a.map pc = none) {pc' : Word} {q : BlockPtr} (hq : a.map pc' = some q) :
    (a.insert pc irs).map pc' = some q := by
  have hne : pc' ≠ pc := by
    rintro rfl
    rw [h] at hq
    cases hq
  exact (Function.update_of_ne hne _ _).trans hq

theorem insert_at (pc : Word) (irs : List Ir) : (a.insert pc irs).At pc a.next ⟨pc, irs, none, .fresh⟩ :=
  ⟨Function.update_self .., Function.update_self ..⟩

theorem At.insert (h : a.At pc p n) (hs : a.Sound) {pc' : Word} (hpc : a.map pc' = none) :
    (a.insert pc' irs).At pc p n := by
  refine ⟨insert_map hpc h.map, ?_⟩
  have hne : p ≠ a.next := Nat.ne_of_lt (hs.live pc p h.map).1
  exact (Function.update_of_ne hne _ _).trans h.pool

theorem at_insert (hs : a.Sound) (hpc : a.map pc = none) {pc' : Word} (h : (a.insert pc irs).At pc' p n) :
    (pc' = pc ∧ p = a.next ∧ n = ⟨pc, irs, none, .fresh⟩) ∨ a.At pc' p n := by
  by_cases heq : pc' = pc
  · subst heq
    obtain ⟨rfl, rfl⟩ := h.unique (insert_at pc' irs)
    exact .inl ⟨rfl, rfl, rfl⟩
  · right
    have hmap : a.map pc' = some p := (Function.update_of_ne heq _ _).symm.trans h.map
    obtain ⟨-, m, hm, -⟩ := hs.live pc' p hmap
    rwa [(h.unique (hm.insert hs hpc)).2]

theorem Sound.insert (hs : a.Sound) (hpc : a.map pc = none) (hirs : Ir.Closed irs) :
    (a.insert pc irs).Sound := by
  refine ⟨fun pc' p hp => ?_, fun pc' p n hn => ?_, fun pc' p n hn => ?_, fun pc' p n hn hjal t ht => ?_⟩
  · by_cases heq : pc' = pc
    · subst heq
      cases (Function.update_self ..).symm.trans hp
      exact ⟨Nat.lt_succ_self _, _, insert_at pc' irs, rfl⟩
    · obtain ⟨hlt, n, hn, hstart⟩ := hs.live pc' p ((Function.update_of_ne heq _ _).symm.trans hp)
      exact ⟨Nat.lt_succ_of_lt hlt, n, hn.insert hs hpc, hstart⟩
  · obtain ⟨-, -, rfl⟩ | hold := at_insert hs hpc hn
    · exact hirs
    · exact hs.closed pc' p n hold
  · obtain ⟨-, -, rfl⟩ | hold := at_insert hs hpc hn
    · exact fresh_records
    · exact (hs.table pc' p n hold).mono fun _ _ => insert_map hpc
  · obtain ⟨-, -, rfl⟩ | hold := at_insert hs hpc hn
    · cases ht
    · exact insert_map hpc (hs.taken pc' p n hold hjal t ht)

end insert

section set

variable {n' : Node}

theorem set_self (a : Arena) (p : BlockPtr) (n : Node) : (a.set p n).pool p = some n :=
  Function.update_self ..

theorem set_ne {q : BlockPtr} (h : q ≠ p) (n : Node) : (a.set p n).pool q = a.pool q :=
  Function.update_of_ne h _ _

theorem at_set {q : BlockPtr} {m : Node} (h : (a.set p n).At pc q m) : (q = p ∧ m = n) ∨ a.At pc q m := by
  by_cases hq : q = p
  · subst hq
    left
    cases (set_self a q n).symm.trans h.pool
    exact ⟨rfl, rfl⟩
  · exact .inr ⟨h.map, (set_ne hq n).symm.trans h.pool⟩

theorem At.set {q : BlockPtr} {m : Node} (h : a.At pc q m) (p : BlockPtr) (n : Node) :
    ∃ m', (a.set p n).At pc q m' := by
  by_cases hq : q = p
  · subst hq
    exact ⟨n, h.map, set_self a q n⟩
  · exact ⟨m, h.map, (set_ne hq n).trans h.pool⟩

theorem Sound.set (hs : a.Sound) (h : a.At pc p n) (hstart : n'.pcStart = n.pcStart) (hirs : n'.irs = n.irs)
    (htable : a.Records n'.branchTable)
    (htaken : n'.closesWithJal = true → ∀ t, n'.branchTaken = some t → a.map n'.jumpTarget = some t) :
    (a.set p n').Sound := by
  refine ⟨fun pc' q hq => ?_, fun pc' q m hm => ?_, fun pc' q m hm => ?_, fun pc' q m hm hjal t ht => ?_⟩
  · obtain ⟨hlt, m, hm, hpc⟩ := hs.live pc' q hq
    by_cases heq : q = p
    · subst heq
      cases h.pool.symm.trans hm.pool
      exact ⟨hlt, n', ⟨hq, set_self a q n'⟩, hstart.trans hpc⟩
    · exact ⟨hlt, m, ⟨hq, (set_ne heq n').trans hm.pool⟩, hpc⟩
  · obtain ⟨-, rfl⟩ | hold := at_set hm
    · exact hirs ▸ hs.closed pc p n h
    · exact hs.closed pc' q m hold
  · obtain ⟨-, rfl⟩ | hold := at_set hm
    · exact htable
    · exact hs.table pc' q m hold
  · obtain ⟨-, rfl⟩ | hold := at_set hm
    · exact htaken hjal t ht
    · exact hs.taken pc' q m hold hjal t ht

end set

end Arena

end sound

section invariant

namespace Chained

variable {P : Platform δ ξ} {E : ExtUnits δ ξ} {c : CoreConfig} {s : Chained δ ξ}

/-- Between two blocks: a block that `rv_step` may take for the previous one, and that closes with a JAL, goes
to the PC. -/
def Resting (s : Chained δ ξ) : Prop :=
  ∀ p, s.prev = some p → ∀ q m, s.arena.At s.lastPc q m → m.closesWithJal = true → m.jumpTarget = s.rv.pc

/-- Inside a block: `last_pc` is its address, unless the core came by a JALR, which leaves `last_pc` as
it is. -/
structure Running (s : Chained δ ξ) (block current : BlockPtr) (f : Frame) : Prop where
  halt : s.rv.halt = false
  dispatched : ∃ pc m, s.arena.At pc block m
  place : ∃ pc n pre, s.arena.At pc current n ∧ n.irs = pre ++ f.irs ∧ f.pc = pc + w32 (4 * weightOf pre)
  nonempty : f.irs ≠ []
  last : ∀ q m, s.arena.At s.lastPc q m → q = current ∨ m.closesWithJal = false

def Placed (s : Chained δ ξ) : Prop :=
  match s.ctl with
  | .idle | .loop _ => s.Resting
  | .exec _ block current f => s.Running block current f
  | .crashed => False

structure Inv (s : Chained δ ξ) : Prop where
  arena : s.arena.Sound
  prev : ∀ p, s.prev = some p → ∃ pc m, s.arena.At pc p m
  placed : s.Placed

def NoWfiBeforeJal (s : Chained δ ξ) : Prop :=
  ∀ target block current f ir rest n, s.ctl = .exec target block current f → f.irs = ir :: rest → rest ≠ [] →
    isWfi ir = true → s.arena.pool current = some n → n.closesWithJal = false

theorem Fresh.inv (h : s.Fresh) : s.Inv := by
  have hat {pc : Word} {p : BlockPtr} {n : Node} : ¬s.arena.At pc p n := by
    intro hn
    cases (h.map pc).symm.trans hn.map
  refine ⟨⟨fun pc p hp => ?_, fun _ _ _ hn => absurd hn hat, fun _ _ _ hn => absurd hn hat,
    fun _ _ _ hn => absurd hn hat⟩, fun p hp => ?_, ?_⟩
  · cases (h.map pc).symm.trans hp
  · cases h.prev.symm.trans hp
  · unfold Placed
    rw [h.ctl]
    exact fun _ _ _ _ hm => absurd hm hat

section dispatch

def PrevOk (s : Chained δ ξ) : Prop :=
  ∀ q, s.prev = some q → ∃ m, s.arena.At s.lastPc q m ∧ (m.closesWithJal = true → m.jumpTarget = s.rv.pc)

theorem PrevOk.resting (h : s.PrevOk) : s.Resting := by
  intro p hp q m hm
  obtain ⟨m', hm', htarget⟩ := h p hp
  cases (hm'.unique hm).2
  exact htarget

theorem updatePrev_eq (s : Chained δ ξ) : s.updatePrev = { s with prev := s.updatePrev.prev } := by
  unfold updatePrev
  split
  · split_ifs <;> rfl
  · rfl

theorem Inv.updatePrev (h : s.Inv) (hrest : s.Resting) : s.updatePrev.PrevOk := by
  intro q hq
  unfold Chained.updatePrev at hq ⊢
  split at hq
  case h_1 p hp =>
    obtain ⟨pc, m, hm⟩ := h.prev p hp
    split_ifs at hq ⊢ with hstart
    · cases hp.symm.trans hq
      rw [hm.pool, Option.map_some, hm.start h.arena] at hstart
      cases hstart
      exact ⟨m, hm, hrest q hp q m hm⟩
    · obtain ⟨-, m, hm, -⟩ := h.arena.live _ q hq
      exact ⟨m, hm, hrest p hp q m hm⟩
  case h_2 hp =>
    rw [hp] at hq
    cases hq

theorem transition_pc (s : Chained δ ξ) : (s.transition P E c).rv.pc = s.rv.pc := by
  dsimp only [transition]
  rw [kernelTransition_rv]
  split_ifs <;> rfl

theorem transition_ok (hs : s.arena.Sound) (hp : s.PrevOk) :
    (s.transition P E c).arena.Sound ∧ (s.transition P E c).PrevOk := by
  have hpc := transition_pc (P := P) (E := E) (c := c) s
  unfold PrevOk
  rw [hpc]
  unfold transition
  dsimp only
  split_ifs
  · exact ⟨Arena.clear_sound, nofun⟩
  · exact ⟨hs, hp⟩

theorem findOrTranslate_ok (hs : s.arena.Sound) (hp : s.PrevOk) :
    (s.findOrTranslate P E c).1.arena.Sound ∧ (s.findOrTranslate P E c).1.PrevOk ∧
      (s.findOrTranslate P E c).1.rv = s.rv ∧
        ∀ p, (s.findOrTranslate P E c).2 = some p →
          (s.findOrTranslate P E c).1.arena.map s.rv.pc = some p := by
  unfold findOrTranslate
  split
  case h_1 p hmap =>
    refine ⟨hs, hp, rfl, ?_⟩
    rintro _ ⟨⟩
    exact hmap
  case h_2 hmap =>
    have hcleared : ∃ s' : Chained δ ξ, (if 5 * s.arena.size > 4 * blockCapacity then s.clear else s) = s' ∧
        s'.arena.Sound ∧ s'.PrevOk ∧ s'.rv = s.rv ∧ s'.arena.map s.rv.pc = none := by
      split_ifs
      · exact ⟨_, rfl, Arena.clear_sound, nofun, rfl, rfl⟩
      · exact ⟨_, rfl, hs, hp, rfl, hmap⟩
    obtain ⟨s', heq, hs', hp', hrv, hfree⟩ := hcleared
    dsimp only
    rw [heq]
    split
    · exact ⟨hs', hp', hrv, nofun⟩
    case h_2 b hb =>
      rw [← hrv] at hfree
      refine ⟨hs'.insert hfree (blockTranslate_closed hb), fun q hq => ?_, hrv, ?_⟩
      · obtain ⟨m, hm, htarget⟩ := hp' q hq
        exact ⟨m, hm.insert hs' hfree, htarget⟩
      · rintro _ ⟨⟩
        rw [← hrv]
        exact (Arena.insert_at _ _).map

theorem chain_ok (hs : s.arena.Sound) (hp : s.PrevOk) {p : BlockPtr} (hmap : s.arena.map s.rv.pc = some p) :
    (s.chain p).arena.Sound := by
  unfold chain
  split
  · exact hs
  case h_2 q hq =>
    obtain ⟨m, hm, htarget⟩ := hp q hq
    rw [hm.pool]
    dsimp only
    split_ifs with hjal
    · refine hs.set hm rfl rfl (hs.table _ q m hm) fun hclose t ht => ?_
      cases ht
      rw [← hmap]
      exact congrArg s.arena.map (htarget hclose)
    · exact hs

theorem chain_map (s : Chained δ ξ) (p : BlockPtr) : (s.chain p).arena.map = s.arena.map := by
  unfold chain
  split
  · rfl
  · split
    · rfl
    · split_ifs <;> rfl

theorem chain_eq (s : Chained δ ξ) (p : BlockPtr) : s.chain p = { s with arena := (s.chain p).arena } := by
  unfold chain
  split
  · rfl
  · split
    · rfl
    · split_ifs <;> rfl

theorem enter_eq {pc : Word} {p : BlockPtr} {n : Node} (h : s.arena.At pc p n) (target : ℕ) (block : BlockPtr)
    (cycle : ℕ) (pc' : Word) :
    s.enter target block p cycle pc' =
      { s with ctl := .exec target block p ⟨n.pcStart, n.irs, cycle, pc'⟩ } := by
  unfold enter
  rw [h.pool]

theorem enter_inv (hs : s.arena.Sound) (hprev : ∀ p, s.prev = some p → ∃ pc m, s.arena.At pc p m)
    (hh : s.rv.halt = false) {block p : BlockPtr} {pc : Word} (hblock : ∃ pc m, s.arena.At pc block m)
    (hp : s.arena.map pc = some p) (hlast : ∀ q m, s.arena.At s.lastPc q m → q = p ∨ m.closesWithJal = false)
    (target cycle : ℕ) : (s.enter target block p cycle pc).Inv := by
  obtain ⟨-, n, hn, -⟩ := hs.live pc p hp
  rw [enter_eq hn]
  refine ⟨hs, hprev, hh, hblock, ⟨pc, n, [], hn, rfl, ?_⟩, (hs.closed pc p n hn).ne_nil, hlast⟩
  exact (BitVec.add_zero pc).symm

theorem Inv.found (h : s.Inv) (hrest : s.Resting) {s' : Chained δ ξ} {p : Option BlockPtr}
    (heq : (s.updatePrev.transition P E c).findOrTranslate P E c = (s', p)) :
    s'.arena.Sound ∧ s'.PrevOk ∧ s'.rv = (s.updatePrev.transition P E c).rv ∧
      ∀ q, p = some q → (s'.chain q).arena.Sound ∧ (s'.chain q).arena.map s'.rv.pc = some q := by
  have hsound : s.updatePrev.arena.Sound := by
    rw [updatePrev_eq]
    exact h.arena
  obtain ⟨htsound, htprev⟩ := transition_ok (P := P) (E := E) (c := c) hsound (h.updatePrev hrest)
  obtain ⟨hfsound, hfprev, hrv, hmap⟩ := findOrTranslate_ok (P := P) (E := E) (c := c) htsound htprev
  rw [heq] at hfsound hfprev hrv hmap
  refine ⟨hfsound, hfprev, hrv, fun q hq => ?_⟩
  have hpc : s'.arena.map s'.rv.pc = some q := by
    rw [hrv]
    exact hmap q hq
  refine ⟨chain_ok hfsound hfprev hpc, ?_⟩
  rw [chain_map]
  exact hpc

theorem transition_halt (s : Chained δ ξ) : (s.updatePrev.transition P E c).rv.halt = s.rv.halt := by
  rw [updatePrev_eq]
  dsimp only [transition]
  rw [kernelTransition_rv]
  split_ifs <;> rfl

theorem Inv.dispatched (h : s.Inv) (hrest : s.Resting) (hh : s.rv.halt = false) (target : ℕ) :
    (s.dispatch P E c true target).Inv := by
  unfold dispatch
  cases heq : (s.updatePrev.transition P E c).findOrTranslate P E c with
  | mk s' p =>
    obtain ⟨hsound, hprev, hrv, hchain⟩ := h.found hrest heq
    cases p with
    | none =>
      refine ⟨hsound, fun q hq => ?_, hprev.resting⟩
      obtain ⟨m, hm, -⟩ := hprev q hq
      exact ⟨_, m, hm⟩
    | some p =>
      obtain ⟨hsound', hp⟩ := hchain p rfl
      have hpc : (s'.chain p).rv.pc = s'.rv.pc := by rw [chain_eq]
      rw [← hpc] at hp
      obtain ⟨-, n, hn, -⟩ := hsound'.live _ p hp
      refine enter_inv (s := { s'.chain p with lastPc := (s'.chain p).rv.pc }) hsound' (fun q hq => ?_) ?_
        ⟨_, n, hn⟩ hp
        (fun q m hm => .inl ?_) _ _
      · rw [chain_eq] at hq
        obtain ⟨m, hm, -⟩ := hprev q hq
        obtain ⟨-, m', hm', -⟩ := hsound'.live _ q ((congrFun (chain_map s' p) _).trans hm.map)
        exact ⟨_, m', hm'⟩
      · rw [chain_eq, hrv, transition_halt]
        exact hh
      · exact Option.some.inj (hm.map.symm.trans hp)

end dispatch

section handlers

variable {rv : Rv ξ} {sh : Shared δ} {f : Frame} {ir : Ir} {rest : List Ir}

theorem counter_weight {e : ExtInsn} {high : Bool} (h : ir.counter = some (e, high)) : ir.weight = 1 := by
  unfold Ir.counter at h
  split at h
  case h_1 hi => rw [Ir.weight, hi]
  · cases h

theorem doCounter_halt {e : ExtInsn} {high : Bool} :
    Executed.Ends rv ir rest (doCounter rv sh f rest e high) := by
  unfold doCounter
  apply endOp_ends
  dsimp only
  split_ifs <;> rfl

theorem handler_ends (rv : Rv ξ) (sh : Shared δ) (h : Ir.Closed (ir :: rest)) (hf : f.irs = ir :: rest)
    (hjal : ir.impl ≠ .dispatch .jal) (hjalr : ir.impl ≠ .dispatch .jalr) :
    Executed.Ends rv ir rest (handler P E c rv sh f) := by
  unfold handler
  rw [hf]
  dsimp only
  split
  · exact doCounter_halt
  · exact execute_ends h hf hjal hjalr

theorem handler_follows (rv : Rv ξ) (sh : Shared δ) (hf : f.irs = ir :: rest) :
    Follows rv f (handler P E c rv sh f).flow := by
  unfold handler
  rw [hf]
  dsimp only
  split
  case h_1 hc =>
    apply endOp_follows hf
    rw [counter_weight hc]
    rfl
  · exact execute_follows rv sh f

end handlers

section exec

variable {target : ℕ} {block current : BlockPtr} {f : Frame} {ir : Ir} {rest : List Ir} {pc : Word} {n : Node}

theorem weightOf_snoc (pre : List Ir) (ir : Ir) : weightOf (pre ++ [ir]) = weightOf pre + ir.weight := by
  simp [weightOf]

theorem Running.closed (hr : s.Running block current f) (hs : s.arena.Sound) : Ir.Closed f.irs := by
  obtain ⟨pc, n, pre, hn, hirs, -⟩ := hr.place
  exact (hs.closed pc current n hn).suffix ⟨pre, hirs.symm⟩ hr.nonempty

theorem Running.closing (hr : s.Running block current f) (hs : s.arena.Sound) (hf : f.irs = [ir])
    (hn : s.arena.At pc current n) :
    (n.closesWithJal = true ↔ ir.opcode = .jal) ∧ n.jumpTarget = f.pc + ir.imm := by
  obtain ⟨pc', n', pre, hn', hirs, hpc⟩ := hr.place
  cases hn.pool.symm.trans hn'.pool
  rw [hf] at hirs
  constructor
  · unfold Node.closesWithJal Rv32Emu.closesWithJal
    dsimp only
    rw [hirs, List.getLast?_concat]
    dsimp only
    cases ir.opcode <;> simp
  · unfold Node.jumpTarget
    rw [hirs, List.dropLast_concat, List.getLast?_concat, hpc, hn'.start hs]
    rfl

theorem Running.back (hr : s.Running block current f) (hs : s.arena.Sound) {e : Executed δ ξ} {counted : Bool}
    (hflow : e.flow = .ret true counted)
    (htarget : ∀ pc n, s.arena.At pc current n → n.closesWithJal = true → n.jumpTarget = e.rv.pc) :
    (s.after P c target block current e).Inv := by
  unfold after
  rw [hflow]
  refine ⟨hs, fun p hp => ?_, fun p hp q m hm hjal => ?_⟩
  · cases hp
    exact hr.dispatched
  · obtain rfl | hno := hr.last q m hm
    · exact htarget _ m hm hjal
    · rw [hjal] at hno
      cases hno

theorem Inv.handled (h : s.Inv) (hr : s.Running block current f) (hf : f.irs = ir :: rest)
    (hjal : ir.impl ≠ .dispatch .jal) (hjalr : ir.impl ≠ .dispatch .jalr)
    (hwfi : rest ≠ [] → isWfi ir = true → ∀ n, s.arena.pool current = some n → n.closesWithJal = false) :
    (s.after P c target block current (handler P E c s.rv s.shared f)).Inv := by
  have hclosed := hr.closed h.arena
  rw [hf] at hclosed
  have hfollows := handler_follows (P := P) (E := E) (c := c) s.rv s.shared hf
  cases handler_ends (P := P) (E := E) (c := c) s.rv s.shared hclosed hf hjal hjalr with
  | next hflow hhalt =>
    rw [hflow] at hfollows
    unfold after
    rw [hflow]
    obtain ⟨pc, n, pre, hn, hirs, hpc⟩ := hr.place
    cases hfollows with
    | @next f' ir' hcons hne _ hpc' =>
      rw [hcons] at hirs
      refine ⟨h.arena, h.prev, hhalt.trans hr.halt, hr.dispatched, ⟨pc, n, pre ++ [ir'], hn, ?_, ?_⟩, hne,
        hr.last⟩
      · rw [hirs, List.append_assoc, List.singleton_append]
      · rw [hpc', hpc, weightOf_snoc, Nat.mul_add, w32_add, BitVec.add_assoc]
  | back hflow hend =>
    refine hr.back h.arena hflow fun pc n hn hclose => ?_
    exfalso
    by_cases hrest : rest = []
    · -- the last instruction is no jump
      subst hrest
      have hop := (hr.closing h.arena hf hn).1.mp hclose
      cases hclosed.head with
      | dispatch himpl => exact hjal (hop ▸ himpl)
      | mailbox hlw _ =>
        rw [hop] at hlw
        cases hlw
      | ttinsn htt _ =>
        rw [hop] at htt
        cases htt
    · obtain hnil | hw := hend
      · exact hrest hnil
      · rw [hwfi hrest hw n hn.pool] at hclose
        cases hclose
  | trap hflow =>
    unfold after
    rw [hflow]
    exact ⟨h.arena, nofun, nofun⟩

theorem Inv.jal (h : s.Inv) (hr : s.Running block current f) (hf : f.irs = ir :: rest)
    (hi : ir.impl = .dispatch .jal) :
    (s.jal P c true target block current f ir).Inv := by
  have hclosed := hr.closed h.arena
  rw [hf] at hclosed
  have hrest := hclosed.branch_last hi rfl
  subst hrest
  unfold Chained.jal
  dsimp only
  rw [if_pos rfl]
  split
  case h_1 t ht =>
    obtain ⟨pc, n, -, hn, -⟩ := hr.place
    obtain ⟨hclose, htarget⟩ := hr.closing h.arena hf hn
    rw [hn.pool] at ht
    have hmap := h.arena.taken pc current n hn (hclose.mpr (hclosed.head.opcode_eq hi)) t ht
    rw [htarget] at hmap
    refine enter_inv
      (s := { s with rv := link s.rv ir.rd f.pc, lastPc := f.pc + ir.imm, count := s.count + 1 })
      h.arena h.prev ?_ hr.dispatched hmap (fun q m hm => .inl ?_) _ _
    · unfold Rv32Emu.link
      dsimp only
      split_ifs <;> exact hr.halt
    · exact Option.some.inj (hm.map.symm.trans hmap)
  · exact hr.back h.arena rfl fun pc n hn _ => (hr.closing h.arena hf hn).2

theorem even_ne (v : Word) : v &&& ~~~1 ≠ 0xFFFFFFFF := by
  intro h
  have hbit := congrArg (fun w : Word => w.getLsbD 0) h
  simp at hbit

theorem records_record {a : Arena} {t : BranchTable} (h : a.Records t) {p : BlockPtr}
    (hp : a.map pc = some p) :
    a.Records (t.record pc p) := by
  intro i
  by_cases hi : i = t.idx
  · right
    subst hi
    refine ⟨p, Function.update_self .., ?_⟩
    rw [← hp]
    exact congrArg a.map (Function.update_self ..)
  · have hpc : (t.record pc p).pcs i = t.pcs i := Function.update_of_ne hi _ _
    have htarget : (t.record pc p).targets i = t.targets i := Function.update_of_ne hi _ _
    rw [hpc, htarget]
    exact h i

theorem Inv.jalr (h : s.Inv) (hr : s.Running block current f) (hf : f.irs = ir :: rest)
    (hi : ir.impl = .dispatch .jalr) :
    (s.jalr P c true target block current f ir).Inv := by
  have hclosed := hr.closed h.arena
  rw [hf] at hclosed
  have hrest := hclosed.branch_last hi rfl
  subst hrest
  obtain ⟨pc, n, -, hn, -⟩ := hr.place
  have hno : n.closesWithJal = false := by
    by_contra hclose
    have hop := (hr.closing h.arena hf hn).1.mp (by simpa using hclose)
    rw [hclosed.head.opcode_eq hi] at hop
    cases hop
  -- the block at `last_pc` does not close with a JAL
  have hlast : ∀ q m, s.arena.At s.lastPc q m → m.closesWithJal = false := by
    intro q m hm
    obtain rfl | hfalse := hr.last q m hm
    · cases hn.pool.symm.trans hm.pool
      exact hno
    · exact hfalse
  have hhalt : (link s.rv ir.rd f.pc).halt = false := by
    unfold Rv32Emu.link
    split_ifs <;> exact hr.halt
  have hrecords := h.arena.table pc current n hn
  have heven := even_ne (s.rv.x ir.rs1 + ir.imm)
  unfold Chained.jalr
  dsimp only
  generalize (s.rv.x ir.rs1 + ir.imm) &&& ~~~1 = pc' at *
  rw [if_pos rfl, hn.pool]
  dsimp only
  split
  case h_1 i hfound =>
    have hpc : n.branchTable.pcs i = pc' := by simpa using List.find?_some hfound
    obtain ⟨-, hodd⟩ | ⟨t, ht, hmap⟩ := hrecords i
    · exact absurd (hpc.symm.trans hodd) heven
    · rw [ht]
      rw [hpc] at hmap
      exact enter_inv (s := { s with rv := link s.rv ir.rd f.pc, count := s.count + 1 }) h.arena h.prev hhalt
        hr.dispatched hmap (fun q m hm => .inr (hlast q m hm)) _ _
  · split
    case h_1 t hmap =>
      have hset : (s.arena.set current { n with branchTable := n.branchTable.record pc' t }).Sound :=
        h.arena.set hn rfl rfl (records_record hrecords hmap) (h.arena.taken pc current n hn)
      refine enter_inv (s := { s with
        rv := link s.rv ir.rd f.pc
        arena := s.arena.set current { n with branchTable := n.branchTable.record pc' t }
        count := s.count + 1 }) hset (fun p hp => ?_) hhalt ?_ hmap (fun q m hm => .inr ?_) _ _
      · obtain ⟨_, m, hm⟩ := h.prev p hp
        exact ⟨_, hm.set _ _⟩
      · obtain ⟨_, m, hm⟩ := hr.dispatched
        exact ⟨_, hm.set _ _⟩
      · obtain ⟨-, rfl⟩ | hold := Arena.at_set hm
        · exact hno
        · exact hlast q m hold
    · refine hr.back h.arena rfl fun _ m hm hclose => ?_
      cases hn.pool.symm.trans hm.pool
      rw [hclose] at hno
      cases hno

end exec

section turn

variable {target : ℕ} {block current : BlockPtr} {f : Frame} {ir : Ir} {rest : List Ir} (chaining : Bool)

theorem exec_jal (hf : f.irs = ir :: rest) (hi : ir.impl = .dispatch .jal) :
    s.exec P E c chaining target block current f = s.jal P c chaining target block current f ir := by
  simp only [exec, hf, hi]

theorem exec_jalr (hf : f.irs = ir :: rest) (hi : ir.impl = .dispatch .jalr) :
    s.exec P E c chaining target block current f = s.jalr P c chaining target block current f ir := by
  simp only [exec, hf, hi]

theorem exec_other (hf : f.irs = ir :: rest) (hjal : ir.impl ≠ .dispatch .jal)
    (hjalr : ir.impl ≠ .dispatch .jalr) :
    s.exec P E c chaining target block current f =
      s.after P c target block current (handler P E c s.rv s.shared f) := by
  unfold exec
  rw [hf]
  dsimp only
  split
  case h_1 hi => exact absurd hi hjal
  case h_2 hi => exact absurd hi hjalr
  · rfl

theorem Inv.running (h : s.Inv) (hctl : s.ctl = .exec target block current f) :
    s.Running block current f := by
  have hplaced := h.placed
  rw [Placed, hctl] at hplaced
  exact hplaced

theorem Inv.executed (h : s.Inv) (hctl : s.ctl = .exec target block current f) (hw : s.NoWfiBeforeJal) :
    (s.exec P E c true target block current f).Inv := by
  have hr := h.running hctl
  cases hf : f.irs with
  | nil => exact absurd hf hr.nonempty
  | cons ir rest =>
    by_cases hjal : ir.impl = .dispatch .jal
    · rw [exec_jal true hf hjal]
      exact h.jal hr hf hjal
    · by_cases hjalr : ir.impl = .dispatch .jalr
      · rw [exec_jalr true hf hjalr]
        exact h.jalr hr hf hjalr
      · rw [exec_other true hf hjal hjalr]
        exact h.handled hr hf hjal hjalr fun hrest hwfi n => hw _ _ _ _ _ _ n hctl hf hrest hwfi

theorem Inv.turn (h : s.Inv) (hw : s.NoWfiBeforeJal) (t : Turn δ) : (s.turn P E c true t).Inv := by
  have hplaced := h.placed
  cases t with
  | others sh =>
    refine ⟨h.arena, h.prev, ?_⟩
    unfold Placed at hplaced ⊢
    dsimp only [Chained.turn]
    cases hctl : s.ctl with
    | exec target block current f =>
      rw [hctl] at hplaced
      exact ⟨hplaced.halt, hplaced.dispatched, hplaced.place, hplaced.nonempty, hplaced.last⟩
    | idle | loop target =>
      rw [hctl] at hplaced
      exact hplaced
    | crashed =>
      rw [hctl] at hplaced
      exact hplaced
  | call =>
    dsimp only [Chained.turn]
    split
    case h_1 hctl =>
      rw [Placed, hctl] at hplaced
      exact ⟨h.arena, h.prev, hplaced⟩
    · exact h
  | step =>
    dsimp only [Chained.turn, step]
    split
    · exact h
    · exact h
    case h_3 target hctl =>
      rw [Placed, hctl] at hplaced
      split_ifs with hgo
      · exact h.dispatched hplaced hgo.2 target
      · exact ⟨h.arena, h.prev, hplaced⟩
    case h_4 hctl => exact h.executed hctl hw

end turn

end Chained

end invariant

end Rv32Emu
