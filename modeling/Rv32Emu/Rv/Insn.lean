import Rv32Emu.Tensix.Word

namespace Rv32Emu

abbrev Reg := Fin 32

instance neZeroThirtyTwo : @NeZero ℕ Zero.ofOfNat0 32 := ⟨by decide⟩

inductive BranchCond
  | beq | bne | blt | bge | bltu | bgeu

inductive LoadOp
  | lb | lh | lbu | lhu

inductive StoreOp
  | sb | sh

inductive ImmOp
  | addi | slti | sltiu | xori | ori | andi | slli | srli | srai

inductive AluOp
  | add | sub | sll | slt | sltu | xor | srl | sra | or | and

structure ExtInsn where
  insn : Word
  rd : Reg
  rs1 : Reg
  rs2 : Reg
  canBranch : Bool

inductive Opcode
  | nop | lui | auipc | jal | jalr
  | branch (cond : BranchCond)
  | load (op : LoadOp)
  | lw
  | store (op : StoreOp)
  | sw
  | imm (op : ImmOp)
  | alu (op : AluOp)
  | ext (e : ExtInsn)
  | ttinsn
  | fuse1 | fuse2 | fuse3 | fuse4 | fuse5

/-- The handler that an instruction points to: the one of its opcode, unless the translator set another. -/
inductive Impl
  | dispatch (op : Opcode)
  | lwMailbox
  | ttinsn

structure OpcodeFuse where
  opcode : Opcode
  imm : Word
  rd : Reg
  rs1 : Reg
  rs2 : Reg

structure Ir extends OpcodeFuse where
  impl : Impl
  pc : Word
  fuse : List OpcodeFuse

def evalImm (op : ImmOp) (x imm : Word) : Word :=
  match op with
  | .addi => x + imm
  | .slti => if x.toInt < imm.toInt then 1 else 0
  | .sltiu => if x.toNat < imm.toNat then 1 else 0
  | .xori => x ^^^ imm
  | .ori => x ||| imm
  | .andi => x &&& imm
  | .slli => x <<< (imm &&& 0x1f).toNat
  | .srli => x >>> (imm &&& 0x1f).toNat
  | .srai => x.sshiftRight (imm &&& 0x1f).toNat

def evalAlu (op : AluOp) (x y : Word) : Word :=
  match op with
  | .add => x + y
  | .sub => x - y
  | .sll => x <<< (y &&& 0x1f).toNat
  | .slt => if x.toInt < y.toInt then 1 else 0
  | .sltu => if x.toNat < y.toNat then 1 else 0
  | .xor => x ^^^ y
  | .srl => x >>> (y &&& 0x1f).toNat
  | .sra => x.sshiftRight (y &&& 0x1f).toNat
  | .or => x ||| y
  | .and => x &&& y

def branchTaken (cond : BranchCond) (x y : Word) : Bool :=
  match cond with
  | .beq => x = y
  | .bne => x ≠ y
  | .blt => x.toInt < y.toInt
  | .bge => y.toInt ≤ x.toInt
  | .bltu => x.toNat < y.toNat
  | .bgeu => y.toNat ≤ x.toNat

section decode

def decodeRd (insn : Word) : Reg := Fin.ofNat 32 (bits insn 7 0x1F).toNat

def decodeRs1 (insn : Word) : Reg := Fin.ofNat 32 (bits insn 15 0x1F).toNat

def decodeRs2 (insn : Word) : Reg := Fin.ofNat 32 (bits insn 20 0x1F).toNat

def decodeFunct3 (insn : Word) : ℕ := (bits insn 12 0x7).toNat

def decodeFunct7 (insn : Word) : ℕ := (bits insn 25 0x7F).toNat

def decodeUtypeImm (insn : Word) : Word := insn &&& 0xFFFFF000

def decodeItypeImm (insn : Word) : Word := (insn &&& 0xFFF00000).sshiftRight 20

def decodeStypeImm (insn : Word) : Word :=
  ((insn &&& 0xFE000000) ||| ((insn &&& 0xF80) <<< 13)).sshiftRight 20

def decodeBtypeImm (insn : Word) : Word :=
  ((insn &&& 0x80000000) ||| ((insn &&& 0x80) <<< 23) ||| ((insn &&& 0x7E000000) >>> 1) |||
    ((insn &&& 0xF00) <<< 12)).sshiftRight 19

def decodeJtypeImm (insn : Word) : Word :=
  ((insn &&& 0x80000000) ||| ((insn &&& 0xFF000) <<< 11) ||| ((insn &&& 0x100000) <<< 2) |||
    ((insn &&& 0x7FE00000) >>> 9)).sshiftRight 11

def mkIr (opcode : Opcode) (imm : Word) (rd rs1 rs2 : Reg) : Ir :=
  { opcode, imm, rd, rs1, rs2, impl := .dispatch opcode, pc := 0, fuse := [] }

def extIr (e : ExtInsn) : Ir := mkIr (.ext e) 0 e.rd e.rs1 e.rs2

def opLoad (insn : Word) : Option Ir :=
  let ir := fun op => some (mkIr op (decodeItypeImm insn) (decodeRd insn) (decodeRs1 insn) 0)
  match decodeFunct3 insn with
  | 0 => ir (.load .lb)
  | 1 => ir (.load .lh)
  | 2 => ir .lw
  | 4 => ir (.load .lbu)
  | 5 => ir (.load .lhu)
  | _ => none

def opStore (insn : Word) : Option Ir :=
  let ir := fun op => some (mkIr op (decodeStypeImm insn) 0 (decodeRs1 insn) (decodeRs2 insn))
  match decodeFunct3 insn with
  | 0 => ir (.store .sb)
  | 1 => ir (.store .sh)
  | 2 => ir .sw
  | _ => none

def opOpImm (ext : Word → Option ExtInsn) (insn : Word) : Option Ir :=
  let imm := decodeItypeImm insn
  let rd := decodeRd insn
  let ir := fun op => some (mkIr op imm rd (decodeRs1 insn) 0)
  if rd = 0 then ir .nop
  else
    match decodeFunct3 insn with
    | 0 => ir (.imm .addi)
    | 1 =>
      match ext insn with
      | some e => some (extIr e)
      | none => if bit imm 5 then none else ir (.imm .slli)
    | 2 => ir (.imm .slti)
    | 3 => ir (.imm .sltiu)
    | 4 => ir (.imm .xori)
    | 5 =>
      match ext insn with
      | some e => some (extIr e)
      | none => if bit imm 5 then none else if imm &&& ~~~0x1f = 0 then ir (.imm .srli) else ir (.imm .srai)
    | 6 => ir (.imm .ori)
    | _ => ir (.imm .andi)

def opOp (ext : Word → Option ExtInsn) (insn : Word) : Option Ir :=
  let rd := decodeRd insn
  let ir := fun op => some (mkIr op 0 rd (decodeRs1 insn) (decodeRs2 insn))
  if rd = 0 then ir .nop
  else
    match decodeFunct7 insn, decodeFunct3 insn with
    | 0, 0 => ir (.alu .add)
    | 0, 1 => ir (.alu .sll)
    | 0, 2 => ir (.alu .slt)
    | 0, 3 => ir (.alu .sltu)
    | 0, 4 => ir (.alu .xor)
    | 0, 5 => ir (.alu .srl)
    | 0, 6 => ir (.alu .or)
    | 0, 7 => ir (.alu .and)
    | 32, 0 => ir (.alu .sub)
    | 32, 5 => ir (.alu .sra)
    | _, _ => (ext insn).map extIr

def opBranch (insn : Word) : Option Ir :=
  let ir := fun c => some (mkIr (.branch c) (decodeBtypeImm insn) 0 (decodeRs1 insn) (decodeRs2 insn))
  match decodeFunct3 insn with
  | 0 => ir .beq
  | 1 => ir .bne
  | 4 => ir .blt
  | 5 => ir .bge
  | 6 => ir .bltu
  | 7 => ir .bgeu
  | _ => none

def opUtype (op : Opcode) (insn : Word) : Option Ir :=
  let rd := decodeRd insn
  some (mkIr (if rd = 0 then .nop else op) (decodeUtypeImm insn) rd 0 0)

def rvDecode (ext : Word → Option ExtInsn) (insn : Word) : Option Ir :=
  if insn &&& 3 ≠ 3 then none
  else
    match (bits insn 2 0x1F).toNat with
    | 0 => opLoad insn
    | 4 => opOpImm ext insn
    | 5 => opUtype .auipc insn
    | 8 => opStore insn
    | 12 => opOp ext insn
    | 13 => opUtype .lui insn
    | 24 => opBranch insn
    | 25 => some (mkIr .jalr (decodeItypeImm insn) (decodeRd insn) (decodeRs1 insn) 0)
    | 27 => some (mkIr .jal (decodeJtypeImm insn) (decodeRd insn) 0 0)
    -- LOAD-FP, MISC-MEM, STORE-FP, AMO, the multiply-adds, OP-FP and SYSTEM
    | 1 | 3 | 9 | 11 | 16 | 17 | 18 | 19 | 20 | 28 => (ext insn).map extIr
    | _ => none

end decode

def rotr32 (w : Word) (n : ℕ) : Word := (w >>> n) ||| (w <<< (32 - n))

def insnIsBranch : Opcode → Bool
  | .jal | .jalr | .branch _ => true
  | .ext e => e.canBranch
  | _ => false

end Rv32Emu
