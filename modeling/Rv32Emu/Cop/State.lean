import Rv32Emu.Lib.Ring
import Rv32Emu.Tensix.State

/-!
The coprocessor: per thread a FIFO, a wait gate, a slot for the instruction held back by a block,
the direct instruction and the MOP expander. All code that runs for one thread reads and writes
that thread's record, its replay state and the shared core, which is what `CopView` holds.
-/

namespace Rv32Emu

def tensixFifoSize : ℕ := 32

structure TensixFifo where
  buffer : ℕ → Word
  head : ℕ
  tail : ℕ
  count : ℕ

structure TensixWaitGate where
  active : Bool
  opcode : Word
  conditionMask : Word
  blockMask : Word
  semaphoreMask : Word
  targetValue : Word
  streamSelect : Word
  deriving DecidableEq

inductive ThreadState
  | idle
  | running
  | waiting
  | stalled
  deriving DecidableEq

inductive Tmpl1Phase
  | start
  | inner
  | end0
  | end1
  deriving DecidableEq

structure MopExpandState where
  active : Bool
  tmpl : Word
  tmpl0Mask : Word
  tmpl0I : ℕ
  tmpl0Count : ℕ
  tmpl0Sub : ℕ
  tmpl0SubInsns : List Word
  tmpl1J : ℕ
  tmpl1I : ℕ
  tmpl1Outer : ℕ
  tmpl1Inner : ℕ
  tmpl1Phase : Tmpl1Phase
  tmpl1LoopOp : Word
  tmpl1LoopOpFlip : Word
  deriving DecidableEq

inductive Origin
  | fifo
  | expander
  deriving DecidableEq

inductive Event
  | pushed (insn : Word)
  | ran (origin : Origin) (insn : Word)
  | issued (insn : Word)
  | recorded (insn : Word)
  deriving DecidableEq

/-- `log` and `currentOrigin` are history: the code writes them nowhere else and never reads them.
An instruction slot is `none` where the source's flag for it is false. -/
structure TensixThreadCop where
  insnFifo : TensixFifo
  state : ThreadState
  waitGate : TensixWaitGate
  currentInsn : Option Word
  directInsn : Option Word
  mopCfg : ℕ → Word
  zmaskHi16 : Word
  mopState : MopExpandState
  insnExecuted : ℕ
  cyclesIdle : ℕ
  cyclesWaiting : ℕ
  currentOrigin : Origin
  log : List Event

structure TensixCop where
  threads : Tid → TensixThreadCop
  replay : Tid → Replay
  core : Tensix
  halted : Bool

structure CopView where
  core : Tensix
  replay : Replay
  thread : TensixThreadCop
  halted : Bool

namespace TensixCop

def view (cop : TensixCop) (t : Tid) : CopView := ⟨cop.core, cop.replay t, cop.threads t, cop.halted⟩

def putView (cop : TensixCop) (t : Tid) (v : CopView) : TensixCop :=
  { cop with
    core := v.core
    replay := Function.update cop.replay t v.replay
    threads := Function.update cop.threads t v.thread }

end TensixCop

namespace TensixFifo

def isEmpty (f : TensixFifo) : Bool := f.count = 0

def isFull (f : TensixFifo) : Bool := tensixFifoSize ≤ f.count

def push (f : TensixFifo) (insn : Word) : Bool × TensixFifo :=
  if f.isFull then (false, f)
  else
    (true, { f with
      buffer := Function.update f.buffer f.tail insn
      tail := (f.tail + 1) % tensixFifoSize
      count := f.count + 1 })

def pop (f : TensixFifo) : Option (Word × TensixFifo) :=
  if f.isEmpty then none
  else some (f.buffer f.head, { f with head := (f.head + 1) % tensixFifoSize, count := f.count - 1 })

def contents (f : TensixFifo) : List Word := Ring.window tensixFifoSize f.buffer f.head f.count

structure WellFormed (f : TensixFifo) : Prop where
  head_lt : f.head < tensixFifoSize
  count_le : f.count ≤ tensixFifoSize
  tail_eq : f.tail = (f.head + f.count) % tensixFifoSize

theorem pop_eq_none {f : TensixFifo} (h : f.pop = none) : f.contents = [] := by
  simp only [pop, isEmpty, decide_eq_true_eq] at h
  split at h
  · simp [contents, *]
  · cases h

theorem pop_eq_some {f g : TensixFifo} {w : Word} (h : f.pop = some (w, g)) :
    0 < f.count ∧ w = f.buffer f.head ∧
      g = { f with head := (f.head + 1) % tensixFifoSize, count := f.count - 1 } := by
  simp only [pop, isEmpty, decide_eq_true_eq] at h
  split at h
  · cases h
  · cases h
    exact ⟨by omega, rfl, rfl⟩

namespace WellFormed

variable {f g : TensixFifo} {w : Word}

theorem push_contents (hf : f.WellFormed) (h : (f.push w).1 = true) :
    (f.push w).2.contents = f.contents ++ [w] := by
  simp only [push, isFull, decide_eq_true_eq] at h ⊢
  split at h
  · cases h
  · rw [if_neg (by assumption)]
    simp only [contents]
    rw [hf.tail_eq]
    exact Ring.window_push f.buffer f.head f.count w (by omega)

theorem push (hf : f.WellFormed) (w : Word) : (f.push w).2.WellFormed := by
  simp only [TensixFifo.push, isFull, decide_eq_true_eq]
  split
  · exact hf
  · refine ⟨hf.head_lt, by show f.count + 1 ≤ tensixFifoSize; omega, ?_⟩
    show (f.tail + 1) % tensixFifoSize = (f.head + (f.count + 1)) % tensixFifoSize
    rw [hf.tail_eq, Nat.mod_add_mod, Nat.add_assoc]

theorem pop_contents (hf : f.WellFormed) (h : f.pop = some (w, g)) : f.contents = w :: g.contents := by
  obtain ⟨hc, rfl, rfl⟩ := pop_eq_some h
  obtain ⟨n, hn⟩ : ∃ n, f.count = n + 1 := ⟨f.count - 1, by omega⟩
  simp only [contents, hn, Nat.add_sub_cancel]
  rw [Ring.window_cons, Nat.mod_eq_of_lt hf.head_lt]

theorem pop (hf : f.WellFormed) (h : f.pop = some (w, g)) : g.WellFormed := by
  obtain ⟨hc, rfl, rfl⟩ := pop_eq_some h
  refine ⟨Nat.mod_lt _ (by decide), by have := hf.count_le; show f.count - 1 ≤ _; omega, ?_⟩
  show f.tail = ((f.head + 1) % tensixFifoSize + (f.count - 1)) % tensixFifoSize
  rw [hf.tail_eq, Nat.mod_add_mod]
  congr 1
  omega

end WellFormed

end TensixFifo

end Rv32Emu
