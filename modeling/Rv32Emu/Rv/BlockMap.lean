import Rv32Emu.Lib.Probing
import Rv32Emu.Rv.Chaining

namespace Rv32Emu

def mapHash (val : Word) : Word := ((val * 0x61C88647) >>> 22) &&& 1023

structure BlockMap where
  map : Fin blockCapacity → Option BlockPtr
  size : ℕ
  pcStart : BlockPtr → Word

instance : NeZero blockCapacity := ⟨by decide⟩

/-- The index runs on over 32 bits, and its low bits are the slot. -/
def mapProbe : Probe Word blockCapacity where
  slot index := ⟨(index &&& 1023).toNat, by rw [and_mask_toNat index 10 rfl]; exact Nat.mod_lt _ (by decide)⟩
  next index := index + 1
  slot_next index := by
    apply Fin.ext
    simp only [and_mask_toNat _ 10 (rfl : (1023 : Word).toNat = 2 ^ 10 - 1), Fin.val_add, BitVec.toNat_add]
    have hone : ((1 : Fin blockCapacity) : ℕ) = 1 := rfl
    have hw : (1 : Word).toNat = 1 := rfl
    rw [hone, hw]
    simp only [blockCapacity]
    omega

inductive MapEvent
  | inserted (pc : Word) (p : BlockPtr)
  | cleared

namespace BlockMap

section source

def blockFind (m : BlockMap) (addr : Word) (fuel : ℕ) : Option (Option BlockPtr) :=
  loop (mapProbe.findTurn m.map fun p => m.pcStart p = addr) fuel (mapHash addr)

def blockInsert (m : BlockMap) (p : BlockPtr) (fuel : ℕ) : Option BlockMap :=
  (loop (mapProbe.placeTurn m.map) fuel (mapHash (m.pcStart p))).map fun slot =>
    { m with map := Function.update m.map slot (some p), size := m.size + 1 }

def clear (m : BlockMap) : BlockMap := { m with map := fun _ => none, size := 0 }

def full (m : BlockMap) : Bool := 5 * m.size > 4 * blockCapacity

def makeRoom (m : BlockMap) : BlockMap := if m.full then m.clear else m

/-- `alloc` is the block that the pool gives, if it gives one, and `translated` tells whether its translation
succeeds. -/
def findOrTranslate (m : BlockMap) (pc : Word) (alloc : Option BlockPtr) (translated : Bool) (fuel : ℕ) :
    Option (BlockMap × Option BlockPtr × List MapEvent) :=
  (m.blockFind pc fuel).bind fun found =>
    match found with
    | some p => some (m, some p, [])
    | none =>
      let cleared := if m.full then [.cleared] else []
      let m := m.makeRoom
      match alloc with
      | none => some (m, none, cleared)
      | some p =>
        let m := { m with pcStart := Function.update m.pcStart p pc }
        if translated then (m.blockInsert p fuel).map fun m => (m, some p, cleared ++ [.inserted pc p])
        else some (m, none, cleared)

def init (pcStart : BlockPtr → Word) : BlockMap := ⟨fun _ => none, 0, pcStart⟩

end source

def Fresh (m : BlockMap) (alloc : Option BlockPtr) : Prop := ∀ p, alloc = some p → ∀ slot, m.map slot ≠ some p

inductive Call : BlockMap → List MapEvent → BlockMap → Prop
  | findOrTranslate {m m' : BlockMap} {pc : Word} {alloc : Option BlockPtr} {translated : Bool} {fuel : ℕ}
      {r : Option BlockPtr} {events : List MapEvent} : m.makeRoom.Fresh alloc →
      m.findOrTranslate pc alloc translated fuel = some (m', r, events) → Call m events m'
  | clear (m : BlockMap) : Call m [.cleared] m.clear

def latestStep (found : Word → Option BlockPtr) : MapEvent → Word → Option BlockPtr
  | .inserted pc p => Function.update found pc (some p)
  | .cleared => fun _ => none

def latest (events : List MapEvent) : Word → Option BlockPtr := events.foldl latestStep fun _ => none

structure Holds (m : BlockMap) (found : Word → Option BlockPtr) : Prop where
  keyed : mapProbe.Keyed m.map mapHash m.pcStart
  size : m.size = Probe.occupied m.map
  room : 5 * m.size ≤ 4 * blockCapacity + 5
  found : ∀ addr p, found addr = some p ↔ ∃ slot, m.map slot = some p ∧ m.pcStart p = addr

namespace Holds

variable {m : BlockMap} {found : Word → Option BlockPtr} {pc : Word} {p : BlockPtr}

theorem clear (m : BlockMap) : m.clear.Holds fun _ => none where
  keyed := .empty mapHash m.pcStart
  size := Probe.occupied_empty.symm
  room := Nat.zero_le _
  found _ _ := ⟨nofun, fun ⟨_, hp, _⟩ => nomatch hp⟩

theorem init (pcStart : BlockPtr → Word) : (init pcStart).Holds fun _ => none := clear (.init pcStart)

theorem exists_empty (h : m.Holds found) : ∃ slot, m.map slot = none := by
  apply Probe.exists_empty
  have hroom := h.room
  rw [← h.size]
  simp only [blockCapacity] at hroom ⊢
  omega

theorem blockFind_eq (h : m.Holds found) {addr : Word} {fuel : ℕ} {r : Option BlockPtr}
    (hr : m.blockFind addr fuel = some r) : r = found addr := by
  ext p
  rw [h.keyed.find_iff hr p, h.found]

theorem blockFind_returns (h : m.Holds found) (addr : Word) :
    m.blockFind addr blockCapacity = some (found addr) := by
  obtain ⟨slot, hempty⟩ := h.exists_empty
  obtain ⟨r, hr⟩ := Probe.find_returns (P := mapProbe) hempty (fun p => m.pcStart p = addr) (mapHash addr)
  exact h.blockFind_eq hr ▸ hr

theorem blockInsert_returns (h : m.Holds found) (p : BlockPtr) :
    ∃ m', m.blockInsert p blockCapacity = some m' := by
  obtain ⟨slot, hempty⟩ := h.exists_empty
  obtain ⟨s, hs⟩ := Probe.place_returns (P := mapProbe) hempty (mapHash (m.pcStart p))
  exact ⟨_, congrArg (Option.map _) hs⟩

theorem makeRoom (h : m.Holds found) :
    m.makeRoom.Holds (if m.full then fun _ => none else found) ∧ 5 * m.makeRoom.size ≤ 4 * blockCapacity := by
  unfold BlockMap.makeRoom
  by_cases hf : m.full
  · rw [if_pos hf, if_pos hf]
    exact ⟨clear m, Nat.zero_le _⟩
  · rw [if_neg hf, if_neg hf]
    exact ⟨h, by simpa [full] using hf⟩

theorem translate (h : m.Holds found) (pc : Word) (hp : ∀ slot, m.map slot ≠ some p) :
    ({ m with pcStart := Function.update m.pcStart p pc } : BlockMap).Holds found := by
  have hkey : ∀ {slot q}, m.map slot = some q → Function.update m.pcStart p pc q = m.pcStart q :=
    fun {slot q} hq => Function.update_of_ne (fun heq : q = p => hp slot (heq ▸ hq)) _ _
  refine ⟨h.keyed.congr hkey, h.size, h.room, fun addr q => (h.found addr q).trans ?_⟩
  constructor
  · rintro ⟨slot, hq, ha⟩
    exact ⟨slot, hq, (hkey hq).trans ha⟩
  · rintro ⟨slot, hq, ha⟩
    exact ⟨slot, hq, (hkey hq).symm.trans ha⟩

theorem blockInsert (h : m.Holds found) (hroom : 5 * m.size ≤ 4 * blockCapacity) (hpc : m.pcStart p = pc)
    (hnew : found pc = none) {fuel : ℕ} {m' : BlockMap} (hm : m.blockInsert p fuel = some m') :
    m'.Holds (Function.update found pc (some p)) := by
  subst hpc
  obtain ⟨slot, hslot, rfl⟩ := Option.map_eq_some_iff.mp hm
  obtain ⟨hempty, -⟩ := Probe.place_some hslot
  have hother : ∀ {s q}, m.map s = some q → m.pcStart q ≠ m.pcStart p := by
    intro s q hq heq
    have hfound := (h.found (m.pcStart p) q).mpr ⟨s, hq, heq⟩
    cases hnew.symm.trans hfound
  refine ⟨h.keyed.insert hother hslot, ?_, ?_, fun addr q => ?_⟩
  · exact (congrArg (· + 1) h.size).trans (Probe.occupied_update hempty p).symm
  · simp only at hroom ⊢
    omega
  · by_cases ha : addr = m.pcStart p
    · subst ha
      rw [Function.update_self]
      constructor
      · rintro ⟨⟩
        exact ⟨slot, Function.update_self .., rfl⟩
      · rintro ⟨s, hq, heq⟩
        by_cases hs : s = slot
        · subst hs
          exact (Function.update_self s (some p) m.map).symm.trans hq
        · exact absurd heq (hother ((Function.update_of_ne hs (some p) m.map).symm.trans hq))
    · rw [Function.update_of_ne ha, h.found]
      constructor
      · rintro ⟨s, hq, heq⟩
        have hs : s ≠ slot := fun hs => by
          rw [hs, hempty] at hq
          cases hq
        exact ⟨s, (Function.update_of_ne hs (some p) m.map).trans hq, heq⟩
      · rintro ⟨s, hq, heq⟩
        by_cases hs : s = slot
        · subst hs
          cases (Function.update_self s (some p) m.map).symm.trans hq
          exact absurd heq.symm ha
        · exact ⟨s, (Function.update_of_ne hs (some p) m.map).symm.trans hq, heq⟩

variable {alloc : Option BlockPtr} {translated : Bool} {m' : BlockMap} {r : Option BlockPtr}
  {events : List MapEvent}

theorem findOrTranslate (h : m.Holds found) (hfresh : m.makeRoom.Fresh alloc) {fuel : ℕ}
    (hc : m.findOrTranslate pc alloc translated fuel = some (m', r, events)) :
    m'.Holds (events.foldl latestStep found) := by
  obtain ⟨hit, hfind, hc⟩ := Option.bind_eq_some_iff.mp hc
  cases hit with
  | some p =>
    cases hc
    exact h
  | none =>
    obtain ⟨hm, hroom⟩ := h.makeRoom
    have hcleared : (if m.full then [MapEvent.cleared] else []).foldl latestStep found =
        if m.full then fun _ => none else found := by
      by_cases hf : m.full <;> simp [hf, latestStep]
    cases alloc with
    | none =>
      cases hc
      rw [hcleared]
      exact hm
    | some p =>
      have ht := hm.translate pc (hfresh p rfl)
      cases translated with
      | false =>
        cases hc
        rw [hcleared]
        exact ht
      | true =>
        obtain ⟨m₁, hins, hout⟩ := Option.map_eq_some_iff.mp hc
        cases hout
        have hpc : Function.update m.makeRoom.pcStart p pc p = pc := Function.update_self ..
        have hnew : (if m.full then fun _ => none else found) pc = none := by
          by_cases hf : m.full
          · simp [hf]
          · rw [if_neg hf]
            exact (h.blockFind_eq hfind).symm
        rw [List.foldl_append, hcleared]
        exact ht.blockInsert hroom hpc hnew hins

theorem findOrTranslate_returns (h : m.Holds found) (pc : Word) (hfresh : m.makeRoom.Fresh alloc)
    (translated : Bool) :
    ∃ m' r events, m.findOrTranslate pc alloc translated blockCapacity = some (m', r, events) := by
  unfold BlockMap.findOrTranslate
  rw [h.blockFind_returns pc, Option.bind_some]
  cases found pc with
  | some p => exact ⟨_, _, _, rfl⟩
  | none =>
    cases alloc with
    | none => exact ⟨_, _, _, rfl⟩
    | some p =>
      cases translated with
      | false => exact ⟨_, _, _, rfl⟩
      | true =>
        have ht := h.makeRoom.1.translate pc (hfresh p rfl)
        obtain ⟨m', hm'⟩ := ht.blockInsert_returns p
        exact ⟨m', some p, _, congrArg (Option.map _) hm'⟩

theorem call (h : m.Holds found) (hc : Call m events m') : m'.Holds (events.foldl latestStep found) := by
  cases hc with
  | findOrTranslate hfresh hc => exact h.findOrTranslate hfresh hc
  | clear => exact clear m

theorem run {calls : List (List MapEvent)} (h : m.Holds found) (hr : Run Call m calls m') :
    m'.Holds (calls.flatten.foldl latestStep found) := by
  induction hr generalizing found with
  | nil => exact h
  | cons hc _ ih =>
    rw [List.flatten_cons, List.foldl_append]
    exact ih (h.call hc)

end Holds

/-- After any calls the map has an empty slot, lookups and calls return, a lookup finds the block inserted for
its address since the map was last cleared, and no two blocks of the map start at one address. -/
theorem blockMap_finds_latest {pcStart : BlockPtr → Word} {calls : List (List MapEvent)} {m : BlockMap}
    (h : Run Call (init pcStart) calls m) :
    (∃ slot, m.map slot = none) ∧
      (∀ addr, m.blockFind addr blockCapacity = some (latest calls.flatten addr)) ∧
      (∀ pc alloc translated, m.makeRoom.Fresh alloc → ∃ m' r events,
        m.findOrTranslate pc alloc translated blockCapacity = some (m', r, events)) ∧
      ∀ slot slot' p q, m.map slot = some p → m.map slot' = some q → m.pcStart p = m.pcStart q →
        slot = slot' := by
  have hm : m.Holds (latest calls.flatten) := (Holds.init pcStart).run h
  refine ⟨hm.exists_empty, hm.blockFind_returns, fun pc alloc translated hfresh => ?_, ?_⟩
  · exact hm.findOrTranslate_returns pc hfresh translated
  · intro slot slot' p q hp hq heq
    exact hm.keyed.unique hp hq heq

/-- The two addresses hash to one slot. -/
theorem blockMap_finds_latest_collision :
    mapHash 0x1A18 = mapHash 0x1000 ∧
      ∃ m, Run Call (init fun _ => 0) [[.inserted 0x1000 7], [.inserted 0x1A18 8], []] m ∧
        m.blockFind 0x1000 blockCapacity = some (some 7) ∧
          m.blockFind 0x1A18 blockCapacity = some (some 8) := by
  have first : Call (init fun _ => 0) [.inserted 0x1000 7] _ :=
    @Call.findOrTranslate _ _ 0x1000 (some 7) true 1 (some 7) _ (fun _ _ _ => nofun) rfl
  have fresh : (makeRoom ⟨Function.update (fun _ => none) 545 (some 7), 1,
      Function.update (fun _ => 0) 7 0x1000⟩).Fresh
      (some 8) := by
    rintro p ⟨⟩ slot hslot
    have hmap : Function.update (fun _ => none) (545 : Fin blockCapacity) (some 7) slot = some 8 := hslot
    by_cases heq : slot = 545
    · subst heq
      rw [Function.update_self] at hmap
      cases hmap
    · rw [Function.update_of_ne heq] at hmap
      cases hmap
  have second := @Call.findOrTranslate _ _ 0x1A18 (some 8) true 2 (some 8) _ fresh rfl
  have hrun := Run.cons first (.cons second
    (.cons (@Call.findOrTranslate _ _ 0x1000 none false 1 (some 7) _ nofun rfl) (.nil _)))
  have hfind := (blockMap_finds_latest hrun).2.1
  exact ⟨by decide, _, hrun, hfind 0x1000, hfind 0x1A18⟩

section chained

variable {δ ξ : Type} {P : Platform δ ξ} {E : ExtUnits δ ξ} {c : CoreConfig} {s : Chained δ ξ} {m : BlockMap}

structure TableOf (m : BlockMap) (a : Arena) : Prop where
  holds : m.Holds a.map
  size : m.size = a.size

theorem TableOf.full_eq {a : Arena} (h : m.TableOf a) : m.full = decide (5 * a.size > 4 * blockCapacity) := by
  rw [full, h.size]

/-- The core after it has made room in its map. -/
def roomy (s : Chained δ ξ) : Chained δ ξ := if 5 * s.arena.size > 4 * blockCapacity then s.clear else s

theorem findOrTranslate_of_none (h : s.arena.map s.rv.pc = none) :
    s.findOrTranslate P E c =
      match blockTranslate (P.extend E) c s.shared.dev s.rv with
      | none => (roomy s, none)
      | some b =>
        ({ roomy s with arena := (roomy s).arena.insert s.rv.pc b.irs }, some (roomy s).arena.next) := by
  have hroomy : (roomy s).rv = s.rv ∧ (roomy s).shared = s.shared := by
    unfold roomy
    split_ifs <;> exact ⟨rfl, rfl⟩
  simp only [Chained.findOrTranslate, h]
  rw [← hroomy.1, ← hroomy.2]
  rfl

theorem TableOf.makeRoom (h : m.TableOf s.arena) : m.makeRoom.TableOf (roomy s).arena := by
  have hm := h.holds.makeRoom.1
  simp only [BlockMap.makeRoom, roomy, h.full_eq, decide_eq_true_eq] at hm ⊢
  by_cases hf : 5 * s.arena.size > 4 * blockCapacity
  · simp only [if_pos hf] at hm ⊢
    exact ⟨hm, rfl⟩
  · simp only [if_neg hf] at hm ⊢
    exact ⟨hm, h.size⟩

theorem TableOf.fresh (h : m.TableOf s.arena) (hlive : ∀ pc p, s.arena.map pc = some p → p < s.arena.next) :
    m.makeRoom.Fresh (some (roomy s).arena.next) := by
  rintro p ⟨⟩ slot hslot
  have hfound := (h.makeRoom.holds.found _ _).mpr ⟨slot, hslot, rfl⟩
  simp only [roomy] at hfound
  by_cases hf : 5 * s.arena.size > 4 * blockCapacity
  · simp only [if_pos hf] at hfound
    cases hfound
  · simp only [if_neg hf] at hfound
    exact absurd (hlive _ _ hfound) (Nat.lt_irrefl _)

theorem TableOf.dispatches_like_map (h : m.TableOf s.arena)
    (hlive : ∀ pc p, s.arena.map pc = some p → p < s.arena.next) :
    ∃ m' events, m.findOrTranslate s.rv.pc (some (roomy s).arena.next)
        (blockTranslate (P.extend E) c s.shared.dev s.rv).isSome blockCapacity =
          some (m', (s.findOrTranslate P E c).2, events) ∧
      m'.TableOf (s.findOrTranslate P E c).1.arena := by
  have hfind := h.holds.blockFind_returns s.rv.pc
  cases hmap : s.arena.map s.rv.pc with
  | some p =>
    have hout : s.findOrTranslate P E c = (s, some p) := by simp only [Chained.findOrTranslate, hmap]
    refine ⟨m, [], ?_, by rw [hout]; exact h⟩
    rw [BlockMap.findOrTranslate, hfind, hmap, hout]
    rfl
  | none =>
    have hroom := h.makeRoom
    have ht := hroom.holds.translate s.rv.pc (h.fresh hlive _ rfl)
    rw [findOrTranslate_of_none hmap]
    simp only [BlockMap.findOrTranslate, hfind, hmap, Option.bind_some]
    cases blockTranslate (P.extend E) c s.shared.dev s.rv with
    | none => exact ⟨_, _, rfl, ht, hroom.size⟩
    | some b =>
      obtain ⟨m', hm'⟩ := ht.blockInsert_returns (roomy s).arena.next
      have hnew : (roomy s).arena.map s.rv.pc = none := by
        unfold roomy
        split_ifs
        · rfl
        · exact hmap
      have hholds := ht.blockInsert h.holds.makeRoom.2 (Function.update_self ..) hnew hm'
      refine ⟨m', _, congrArg (Option.map _) hm', hholds, ?_⟩
      obtain ⟨slot, -, rfl⟩ := Option.map_eq_some_iff.mp hm'
      exact congrArg (· + 1) hroom.size

def coldCore : Chained Unit Unit :=
  ⟨Rv.reset, Shared.reset, ⟨fun _ => none, 0, fun _ => none, 0⟩, none, 0, .idle, 0⟩

/-- A jump to itself at every address. -/
def jumpRom : Platform Unit Unit := { romPlatform [] with memIfetch := fun _ _ _ => 0x6F }

/-- The core has entered a block at 0 and is at an address that hashes to the same slot. -/
def collidingCore : Chained Unit Unit :=
  let s := (coldCore.findOrTranslate jumpRom .none ⟨-1, true, 1⟩).1
  { s with rv := { s.rv with pc := 0xA18 } }

theorem collidingCore_dispatches :
    mapHash 0xA18 = mapHash 0 ∧ collidingCore.arena.map 0 = some 0 ∧
      (collidingCore.findOrTranslate jumpRom .none ⟨-1, true, 1⟩).2 = some 1 ∧
      ∃ m : BlockMap, m.TableOf collidingCore.arena ∧ ∃ m' events,
        m.findOrTranslate 0xA18 (some (roomy collidingCore).arena.next)
          (blockTranslate (jumpRom.extend .none) ⟨-1, true, 1⟩ () collidingCore.rv).isSome blockCapacity =
            some (m', (collidingCore.findOrTranslate jumpRom .none ⟨-1, true, 1⟩).2, events) ∧
        m'.TableOf (collidingCore.findOrTranslate jumpRom .none ⟨-1, true, 1⟩).1.arena := by
  obtain ⟨m, -, -, hm⟩ := TableOf.dispatches_like_map (P := jumpRom) (E := .none) (c := ⟨-1, true, 1⟩)
      (s := coldCore)
    (m := init fun _ => 0) ⟨.init _, rfl⟩ fun _ _ h => by cases h
  have hlive (pc : Word) (p : BlockPtr) (h : collidingCore.arena.map pc = some p) : p <
      collidingCore.arena.next := by
    have hmap : Function.update (fun _ => none) (0 : Word) (some 0) pc = some p := h
    by_cases heq : pc = 0
    · subst heq
      rw [Function.update_self] at hmap
      cases hmap
      exact Nat.one_pos
    · rw [Function.update_of_ne heq] at hmap
      cases hmap
  exact ⟨by decide, rfl, rfl, m, hm, TableOf.dispatches_like_map (s := collidingCore) hm hlive⟩

end chained

end BlockMap

end Rv32Emu
