import Rv32Emu.Rv.Machine

namespace Rv32Emu

variable {δ ξ : Type}

/-- The address that the translator takes an LW to have: zero stands for a register with no known LUI. -/
def effAddr (luiConst x : Reg → Word) (ir : Ir) : Word :=
  (if luiConst ir.rs1 ≠ 0 then luiConst ir.rs1 else x ir.rs1) + ir.imm

def isLw : Opcode → Bool
  | .lw => true
  | _ => false

def isSw : Opcode → Bool
  | .sw => true
  | _ => false

def isLui : Opcode → Bool
  | .lui => true
  | _ => false

def isShift : Opcode → Bool
  | .imm .slli | .imm .srli | .imm .srai => true
  | _ => false

section kinds

variable {op : Opcode}

theorem isLui_iff : isLui op = true ↔ op = .lui := by
  cases op <;> simp [isLui]

theorem isSw_iff : isSw op = true ↔ op = .sw := by
  cases op <;> simp [isSw]

theorem isLw_iff : isLw op = true ↔ op = .lw := by
  cases op <;> simp [isLw]

theorem isShift_imm (h : isShift op = true) : ∃ i, op = .imm i := by
  cases op with
  | imm i => exact ⟨i, rfl⟩
  | _ => cases h

end kinds

/-- The decoding loop. It fails when the pool is exhausted, and on a zero word. -/
def translateLoop (P : Platform δ ξ) (c : CoreConfig) (dev : δ) (x : Reg → Word) :
    ℕ → Word → (Reg → Word) → Option (List Ir)
  | 0, _, _ => none
  | n + 1, pcEnd, luiConst =>
    let insn := P.memIfetch dev c.coreId pcEnd
    if insn = 0 then none
    else
      match rvDecode P.decode insn with
      | none => some [{ mkIr .ttinsn (rotr32 insn 2) 0 0 0 with impl := .ttinsn, pc := pcEnd }]
      | some ir =>
        let ir := { ir with pc := pcEnd }
        if c.tensix && isLw ir.opcode && inMailboxRange (effAddr luiConst x ir) then
          some [{ ir with impl := .lwMailbox }]
        else if insnIsBranch ir.opcode then some [ir]
        else
          let luiConst := Function.update luiConst ir.rd (if isLui ir.opcode then ir.imm else 0)
          (translateLoop P c dev x n (pcEnd + 4) luiConst).map (ir :: ·)

def ConstInfo.set (info : ConstInfo) (rd : Reg) (v : Word) : ConstInfo :=
  { isConstant := Function.update info.isConstant rd true, constVal := Function.update info.constVal rd v }

def ConstInfo.forget (info : ConstInfo) (rd : Reg) : ConstInfo :=
  { info with isConstant := Function.update info.isConstant rd false }

def Ir.toLui (ir : Ir) (imm : Word) : Ir := { ir with opcode := .lui, impl := .dispatch .lui, imm }

def constopt (P : Platform δ ξ) (ir : Ir) (info : ConstInfo) : Ir × ConstInfo :=
  match ir.opcode with
  | .lui => (ir, info.set ir.rd ir.imm)
  | .auipc => (ir.toLui (ir.imm + ir.pc), info.set ir.rd (ir.imm + ir.pc))
  | .jal | .jalr => (ir, if ir.rd ≠ 0 then info.set ir.rd (ir.pc + 4) else info)
  | .branch cond =>
    if info.isConstant ir.rs1 && info.isConstant ir.rs2 then
      let taken := branchTaken cond (info.constVal ir.rs1) (info.constVal ir.rs2)
      ({ ir with opcode := .jal, impl := .dispatch .jal, imm := if taken then ir.imm else 4 }, info)
    else (ir, info)
  | .load _ | .lw => (ir, info.forget ir.rd)
  | .imm op =>
    if info.isConstant ir.rs1 then
      let v := evalImm op (info.constVal ir.rs1) ir.imm
      (ir.toLui v, info.set ir.rd v)
    else (ir, info.forget ir.rd)
  | .alu op =>
    if info.isConstant ir.rs1 && info.isConstant ir.rs2 then
      let v := evalAlu op (info.constVal ir.rs1) (info.constVal ir.rs2)
      (ir.toLui v, info.set ir.rd v)
    else (ir, info.forget ir.rd)
  | .ext e =>
    match P.constopt e info with
    | (some v, info) => (ir.toLui v, info)
    | (none, info) => (ir, info)
  | _ => (ir, info)

def optimizeConstant (P : Platform δ ξ) : ConstInfo → List Ir → List Ir
  | _, [] => []
  | info, ir :: irs =>
    let (ir, info) := constopt P ir info
    ir :: optimizeConstant P info irs

def Ir.fuseWith (ir : Ir) (opcode : Opcode) (run : List Ir) : Ir :=
  { ir with opcode, impl := .dispatch opcode, fuse := ir.toOpcodeFuse :: run.map Ir.toOpcodeFuse }

/-- Fusion of an instruction with the longest run of its kind. The number of instructions to remove is
an 8-bit value. -/
def fuseRun (ir : Ir) (rest : List Ir) (kind : Opcode → Bool) (opcode : Opcode) : Ir × List Ir :=
  let run := rest.takeWhile (kind ·.opcode)
  if run.isEmpty then (ir, rest) else (ir.fuseWith opcode run, rest.drop (run.length % 256))

def fuseHead (ir : Ir) : List Ir → Ir × List Ir
  | [] => (ir, [])
  | next :: rest =>
    match ir.opcode with
    | .lui =>
      match next.opcode with
      | .alu .add =>
        if ir.rd = next.rs2 ∨ ir.rd = next.rs1 then
          ({ ir with
              opcode := .fuse2, impl := .dispatch .fuse2, rs2 := next.rd
              rs1 := if ir.rd = next.rs2 then next.rs1 else next.rs2 },
            rest)
        else (ir, next :: rest)
      | _ => fuseRun ir (next :: rest) isLui .fuse1
    | .sw => fuseRun ir (next :: rest) isSw .fuse3
    | .lw => fuseRun ir (next :: rest) isLw .fuse4
    | .imm .slli | .imm .srli | .imm .srai => fuseRun ir (next :: rest) isShift .fuse5
    | _ => (ir, next :: rest)

/-- The first argument bounds the number of instructions still to look at. -/
def matchPattern : ℕ → List Ir → List Ir
  | 0, irs => irs
  | _ + 1, [] => []
  | n + 1, ir :: irs =>
    let (ir, irs) := fuseHead ir irs
    ir :: matchPattern n irs

def blockTranslate (P : Platform δ ξ) (c : CoreConfig) (dev : δ) (rv : Rv ξ) : Option Block := do
  let irs ← translateLoop P c dev rv.x P.irPool rv.pc fun _ => 0
  if rv.x 0 ≠ 0 then none
  else
    let irs := optimizeConstant P ⟨fun r => r = 0, fun _ => 0⟩ irs
    some { irs := matchPattern irs.length irs, branchTaken := none }

end Rv32Emu
