import Rv32Emu.Cop.State
import Rv32Emu.Lib.Loop

namespace Rv32Emu

def mopIsNop (insn : Word) : Bool := tensixInsnOpcode insn = 0x02

def tmpl0Words (cfg : ℕ → Word) (skip : Bool) : List Word :=
  let hasB := bit (cfg 1) 0
  let hasA123 := bit (cfg 1) 1
  if skip then cfg 7 :: (if hasB then [cfg 8] else [])
  else cfg 3 :: (if hasA123 then [cfg 4, cfg 5, cfg 6] else []) ++ (if hasB then [cfg 2] else [])

def mopGenerateNextT0 (cfg : ℕ → Word) (st : MopExpandState) : Option Word × MopExpandState :=
  if st.tmpl0Sub < st.tmpl0SubInsns.length then
    (st.tmpl0SubInsns[st.tmpl0Sub]?, { st with tmpl0Sub := st.tmpl0Sub + 1 })
  else if st.tmpl0I ≥ st.tmpl0Count then (none, { st with active := false })
  else
    let subInsns := tmpl0Words cfg (bit st.tmpl0Mask 0)
    (subInsns[0]?, { st with
      tmpl0SubInsns := subInsns
      tmpl0Mask := st.tmpl0Mask >>> 1
      tmpl0I := st.tmpl0I + 1
      tmpl0Sub := 1 })

def tmpl1Turn (cfg : ℕ → Word) (st : MopExpandState) :
    Option (MopExpandState ⊕ (Option Word × MopExpandState)) :=
  if st.tmpl1J ≥ st.tmpl1Outer then some (.inr (none, { st with active := false }))
  else
    match st.tmpl1Phase with
    | .start =>
      let st := { st with tmpl1Phase := .inner, tmpl1I := 0 }
      if mopIsNop (cfg 2) then some (.inl st) else some (.inr (some (cfg 2), st))
    | .inner =>
      if st.tmpl1I < st.tmpl1Inner then
        let insn :=
          if st.tmpl1I ≠ st.tmpl1Inner - 1 then st.tmpl1LoopOp
          else if st.tmpl1J ≠ st.tmpl1Outer - 1 then cfg 8
          else cfg 7
        some (.inr (some insn, { st with
          tmpl1LoopOp := st.tmpl1LoopOp ^^^ st.tmpl1LoopOpFlip
          tmpl1I := st.tmpl1I + 1 }))
      else some (.inl { st with tmpl1Phase := .end0 })
    | .end0 =>
      let st := { st with tmpl1Phase := .end1 }
      if mopIsNop (cfg 3) then some (.inl st) else some (.inr (some (cfg 3), st))
    | .end1 =>
      let st := { st with tmpl1J := st.tmpl1J + 1, tmpl1Phase := .start }
      if mopIsNop (cfg 4) then some (.inl st) else some (.inr (some (cfg 4), st))

def Tmpl1Phase.rank : Tmpl1Phase → ℕ
  | .start => 3
  | .inner => 2
  | .end0 => 1
  | .end1 => 0

def tmpl1Silent (st : MopExpandState) : ℕ := 4 * (st.tmpl1Outer - st.tmpl1J) + st.tmpl1Phase.rank

def mopGenerateNextT1 (cfg : ℕ → Word) (st : MopExpandState) : Option Word × MopExpandState :=
  (loop (tmpl1Turn cfg) (tmpl1Silent st + 1) st).getD (none, st)

def mopGenerateNext (cfg : ℕ → Word) (st : MopExpandState) : Option Word × MopExpandState :=
  if !st.active then (none, st)
  else if st.tmpl = 0 then mopGenerateNextT0 cfg st
  else mopGenerateNextT1 cfg st

def MopExpandState.zero : MopExpandState where
  active := false
  tmpl := 0
  tmpl0Mask := 0
  tmpl0I := 0
  tmpl0Count := 0
  tmpl0Sub := 0
  tmpl0SubInsns := []
  tmpl1J := 0
  tmpl1I := 0
  tmpl1Outer := 0
  tmpl1Inner := 0
  tmpl1Phase := .start
  tmpl1LoopOp := 0
  tmpl1LoopOpFlip := 0

def mopStart (cfg : ℕ → Word) (zmaskHi16 param : Word) : MopExpandState :=
  let tmpl := bits param 23 0x1
  let st := { MopExpandState.zero with active := true, tmpl := tmpl }
  if tmpl = 0 then
    { st with
      tmpl0Mask := (zmaskHi16 <<< 16) ||| (param &&& 0xFFFF)
      tmpl0Count := (bits param 16 0x7F).toNat + 1 }
  else
    let inner := (cfg 1 &&& 127).toNat
    let outer := (cfg 0 &&& 127).toNat
    let nopLoop := mopIsNop (cfg 6)
    let inner := if nopLoop then inner else inner * 2
    let outer :=
      if outer = 1 ∧ mopIsNop (cfg 2) ∧ inner = 0 ∧ !mopIsNop (cfg 3) then outer + 128 else outer
    { st with
      tmpl1Outer := outer
      tmpl1Inner := inner
      tmpl1LoopOp := cfg 5
      tmpl1LoopOpFlip := if nopLoop then 0 else cfg 5 ^^^ cfg 6 }

def tensixCopMopExpand (thread : TensixThreadCop) (param : Word) : TensixThreadCop :=
  { thread with
    mopState := mopStart thread.mopCfg thread.zmaskHi16 param
    currentInsn := none }

inductive Generates (cfg : ℕ → Word) : MopExpandState → List Word → Prop
  | done {st : MopExpandState} : (mopGenerateNext cfg st).1 = none → Generates cfg st []
  | next {st st' : MopExpandState} {w : Word} {ws : List Word} :
      mopGenerateNext cfg st = (some w, st') → Generates cfg st' ws → Generates cfg st (w :: ws)

end Rv32Emu
