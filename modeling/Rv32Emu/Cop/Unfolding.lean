import Rv32Emu.Cop.Expansion

namespace Rv32Emu

def plain (ws : List Word) : List Word := ws.filter (Ordinary ·)

def replaced (buffer : ℕ → Word) (insn : Word) : List Word :=
  if tensixInsnOpcode insn = opcodeReplay then replayWindow buffer insn else [insn]

inductive Expands (cfg buffer : ℕ → Word) (zmask : Word) : Word → List Word → Prop
  | ordinary {insn : Word} : Ordinary insn → Expands cfg buffer zmask insn [insn]
  | replay {insn : Word} : tensixInsnOpcode insn = opcodeReplay → bit (tensixInsnParam insn) 0 = false →
      Expands cfg buffer zmask insn (replayWindow buffer insn)
  | mop {insn : Word} {ws : List Word} : tensixInsnOpcode insn = opcodeMop →
      Generates cfg (mopStart cfg zmask (tensixInsnParam insn)) ws →
      Expands cfg buffer zmask insn (ws.flatMap (replaced buffer))

inductive Unfolds (cfg buffer : ℕ → Word) : Word → List Word → List Word → Prop
  | nil (zmask : Word) : Unfolds cfg buffer zmask [] []
  | cons {zmask insn : Word} {insns e out : List Word} : Expands cfg buffer zmask insn e →
      Unfolds cfg buffer (e.foldl zmaskAfter zmask) insns out →
      Unfolds cfg buffer zmask (insn :: insns) (e ++ out)

@[simp] theorem plain_append (ws ws' : List Word) : plain (ws ++ ws') = plain ws ++ plain ws' :=
  List.filter_append ..

@[simp] theorem plain_nil : plain [] = [] := rfl

theorem plain_eq_self {ws : List Word} (h : ∀ w ∈ ws, Ordinary w) : plain ws = ws :=
  List.filter_eq_self.mpr fun w hw => decide_eq_true (h w hw)

theorem plain_of_not {insn : Word} (h : ¬Ordinary insn) : plain [insn] = [] := by simp [plain, h]

theorem foldl_plain (ws : List Word) (zmask : Word) :
    (plain ws).foldl zmaskAfter zmask = ws.foldl zmaskAfter zmask := by
  induction ws generalizing zmask with
  | nil => rfl
  | cons w ws ih =>
    by_cases hw : Ordinary w
    · have hcons : plain (w :: ws) = w :: plain ws := List.filter_cons_of_pos (by simpa using hw)
      rw [hcons]
      exact ih _
    · have hcons : plain (w :: ws) = plain ws := List.filter_cons_of_neg (by simpa using hw)
      have hc : tensixInsnOpcode w ≠ opcodeMopCfg := by
        intro hc
        exact hw ⟨by rw [hc]; decide, by rw [hc]; decide⟩
      rw [hcons, List.foldl_cons, zmaskAfter, if_neg hc]
      exact ih _

theorem foldl_zmaskAfter_self {ws : List Word} (h : ∀ w ∈ ws, tensixInsnOpcode w ≠ opcodeMopCfg)
    (zmask : Word) :
    ws.foldl zmaskAfter zmask = zmask := by
  induction ws with
  | nil => rfl
  | cons w ws ih =>
    rw [List.foldl_cons, zmaskAfter, if_neg (h w List.mem_cons_self)]
    exact ih fun w hw => h w (List.mem_cons_of_mem _ hw)

theorem Generates.unique {cfg : ℕ → Word} {st : MopExpandState} {ws us : List Word} (h : Generates cfg st ws)
    (k : Generates cfg st us) : ws = us := by
  induction h generalizing us with
  | done hn => exact (k.nil_of_none (Prod.ext hn rfl)).symm
  | next hn _ ih =>
    obtain ⟨us', rfl, hu⟩ := k.tail_of_some hn
    rw [ih hu]

section expands

variable {cfg buffer : ℕ → Word} {zmask insn : Word} {e e' : List Word}

theorem Expands.unique (h : Expands cfg buffer zmask insn e) (k : Expands cfg buffer zmask insn e') :
    e = e' := by
  cases h with
  | ordinary ho =>
    cases k with
    | ordinary => rfl
    | replay hr => exact absurd hr ho.2
    | mop hm => exact absurd hm ho.1
  | replay hr =>
    cases k with
    | ordinary ho => exact absurd hr ho.2
    | replay => rfl
    | mop hm => exact absurd (hm.symm.trans hr) (by decide)
  | mop hm hg =>
    cases k with
    | ordinary ho => exact absurd hm ho.1
    | replay hr => exact absurd (hm.symm.trans hr) (by decide)
    | mop _ hg' => rw [hg.unique hg']

def Expandable (insn : Word) : Prop :=
  tensixInsnOpcode insn = opcodeReplay → bit (tensixInsnParam insn) 0 = false
  deriving Decidable

theorem Expandable.expands (h : Expandable insn) (cfg buffer : ℕ → Word) (zmask : Word) :
    ∃ e, Expands cfg buffer zmask insn e := by
  by_cases hm : tensixInsnOpcode insn = opcodeMop
  · obtain ⟨ws, hg⟩ := generates_exists cfg (mopStart cfg zmask (tensixInsnParam insn))
    exact ⟨_, .mop hm hg⟩
  by_cases hr : tensixInsnOpcode insn = opcodeReplay
  · exact ⟨_, .replay hr (h hr)⟩
  · exact ⟨_, .ordinary ⟨hm, hr⟩⟩

end expands

namespace Unfolds

variable {cfg buffer : ℕ → Word} {zmask insn : Word} {ws us e out out' : List Word}

theorem append (h : Unfolds cfg buffer zmask ws out)
    (k : Unfolds cfg buffer (out.foldl zmaskAfter zmask) us out') :
    Unfolds cfg buffer zmask (ws ++ us) (out ++ out') := by
  induction h with
  | nil => exact k
  | cons he _ ih =>
    rw [List.append_assoc]
    refine .cons he (ih ?_)
    rwa [List.foldl_append] at k

theorem single (h : Expands cfg buffer zmask insn e) : Unfolds cfg buffer zmask [insn] e := by
  have := Unfolds.cons h (.nil _)
  rwa [List.append_nil] at this

theorem unique (h : Unfolds cfg buffer zmask ws out) (k : Unfolds cfg buffer zmask ws out') : out = out' := by
  induction h generalizing out' with
  | nil =>
    cases k
    rfl
  | cons he _ ih =>
    cases k with
    | cons he' hk =>
      obtain rfl := he.unique he'
      rw [ih hk]

end Unfolds

/-- No template and no entry of the replay buffer starts an expansion that the expander cannot nest. -/
structure Templates (cfg buffer : ℕ → Word) : Prop where
  words : ∀ w ∈ templateWords cfg, tensixInsnOpcode w ≠ opcodeMop ∧ Expandable w
  entries : ∀ i < 32, Ordinary (buffer i)

namespace Templates

variable {cfg buffer : ℕ → Word} {insn zmask param : Word} {ws : List Word}

theorem window (h : Templates cfg buffer) (insn : Word) : ∀ w ∈ replayWindow buffer insn, Ordinary w := by
  intro w hw
  obtain ⟨i, -, rfl⟩ := List.mem_map.mp hw
  exact h.entries _ (Nat.mod_lt _ (by decide))

theorem generated (h : Templates cfg buffer) (hg : Generates cfg (mopStart cfg zmask param) ws) :
    ∀ w ∈ ws, TemplateWord buffer w := by
  intro w hw
  obtain ⟨hm, hl⟩ := h.words w (hg.subset (mopStart_fromTemplate cfg zmask param) hw)
  exact ⟨hm, hl, fun _ => h.window w⟩

end Templates

theorem plain_withWindow {buffer : ℕ → Word} {insn : Word} (h : TemplateWord buffer insn) :
    plain (withWindow buffer insn) = replaced buffer insn := by
  by_cases hr : tensixInsnOpcode insn = opcodeReplay
  · have hno : ¬Ordinary insn := fun ho => ho.2 hr
    rw [withWindow, if_pos hr, replaced, if_pos hr, ← List.singleton_append, plain_append, plain_of_not hno,
      plain_eq_self (h.window hr), List.nil_append]
  · rw [withWindow, if_neg hr, replaced, if_neg hr]
    exact plain_eq_self (by simpa using ⟨h.notMop, hr⟩)

theorem plain_template {buffer : ℕ → Word} {ws : List Word} (h : ∀ w ∈ ws, TemplateWord buffer w) :
    plain (ws.flatMap (withWindow buffer)) = ws.flatMap (replaced buffer) := by
  induction ws with
  | nil => rfl
  | cons w ws ih =>
    rw [List.flatMap_cons, List.flatMap_cons, plain_append, plain_withWindow (h w List.mem_cons_self),
      ih fun w hw => h w (List.mem_cons_of_mem _ hw)]

end Rv32Emu
