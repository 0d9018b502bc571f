import Rv32Emu.Rv.Execute

namespace Rv32Emu

inductive MulOp
  | mul | mulh | mulhsu | mulhu | div | divu | rem | remu

inductive BitOp
  | sh1add | sh2add | sh3add
  | andn | orn | xnor | clz | ctz | cpop | max | maxu | min | minu | sextb | sexth | zexth
  | rol | ror | rori | orcb | rev8
  | clmul | clmulh | clmulr
  | bclr | bclri | bext | bexti | binv | binvi | bset | bseti

inductive AmoOp
  | swap | add | xor | and | or | min | max | minu | maxu

inductive CsrOp
  | csrrw | csrrs | csrrc

/-- `fpToX` are the instructions of the F extension that write an integer register, `fpToF` those that
compute into a floating-point register. -/
inductive ExtOp
  | nop
  | mul (op : MulOp)
  | bitOp (op : BitOp)
  | lrw | scw
  | amo (op : AmoOp)
  | csr (op : CsrOp)
  | csri (op : CsrOp)
  | flw | fsw | fpToX | fpToF
  | fence | fencei | ecall | ebreak | wfi | mret | sfencevma

section decode

def opOpImmExt (insn : Word) : Option BitOp :=
  let imm := decodeItypeImm insn
  match decodeFunct3 insn with
  | 1 =>
    if imm = 0x600 then some .clz
    else if imm = 0x601 then some .ctz
    else if imm = 0x602 then some .cpop
    else if imm = 0x604 then some .sextb
    else if imm = 0x605 then some .sexth
    else if imm.sshiftRight 5 = 0x24 then some .bclri
    else if imm.sshiftRight 5 = 0x34 then some .binvi
    else if imm.sshiftRight 5 = 0x14 then some .bseti
    else none
  | 5 =>
    if imm.sshiftRight 5 = 0x30 then some .rori
    else if imm = 0x287 then some .orcb
    else if imm = 0x698 then some .rev8
    else if imm.sshiftRight 5 = 0x24 then some .bexti
    else none
  | _ => none

def opOpExt (insn : Word) : Option ExtOp :=
  match decodeFunct7 insn, decodeFunct3 insn with
  | 1, 0 => some (.mul .mul)
  | 1, 1 => some (.mul .mulh)
  | 1, 2 => some (.mul .mulhsu)
  | 1, 3 => some (.mul .mulhu)
  | 1, 4 => some (.mul .div)
  | 1, 5 => some (.mul .divu)
  | 1, 6 => some (.mul .rem)
  | 1, 7 => some (.mul .remu)
  | 16, 2 => some (.bitOp .sh1add)
  | 16, 4 => some (.bitOp .sh2add)
  | 16, 6 => some (.bitOp .sh3add)
  | 5, 6 => some (.bitOp .max)
  | 5, 4 => some (.bitOp .min)
  | 5, 7 => some (.bitOp .maxu)
  | 5, 5 => some (.bitOp .minu)
  | 5, 1 => some (.bitOp .clmul)
  | 5, 3 => some (.bitOp .clmulh)
  | 5, 2 => some (.bitOp .clmulr)
  | 48, 1 => some (.bitOp .rol)
  | 48, 5 => some (.bitOp .ror)
  | 4, _ => if decodeRs2 insn = 0 then some (.bitOp .zexth) else none
  | 36, 1 => some (.bitOp .bclr)
  | 36, 5 => some (.bitOp .bext)
  | 52, 1 => some (.bitOp .binv)
  | 20, 1 => some (.bitOp .bset)
  | 32, 7 => some (.bitOp .andn)
  | 32, 6 => some (.bitOp .orn)
  | 32, 4 => some (.bitOp .xnor)
  | _, _ => none

def opAmo (insn : Word) : Option ExtOp :=
  match decodeFunct7 insn / 4 with
  | 2 => some .lrw
  | 3 => some .scw
  | 1 => some (.amo .swap)
  | 0 => some (.amo .add)
  | 4 => some (.amo .xor)
  | 12 => some (.amo .and)
  | 8 => some (.amo .or)
  | 16 => some (.amo .min)
  | 20 => some (.amo .max)
  | 24 => some (.amo .minu)
  | 28 => some (.amo .maxu)
  | _ => none

/-- A conversion to an integer with any other width is let through with the opcode left at zero, which
is that of a nop. -/
def opOpFp (insn : Word) : Option ExtOp :=
  let rm := decodeFunct3 insn
  match decodeFunct7 insn with
  | 0 | 4 | 8 | 12 | 44 => some .fpToF
  | 16 => if rm ≤ 2 then some .fpToF else none
  | 96 => if decodeRs2 insn = 0 ∨ decodeRs2 insn = 1 then some .fpToX else some .nop
  | 20 => if rm ≤ 1 then some .fpToF else none
  | 112 => if rm ≤ 1 then some .fpToX else none
  | 80 => if rm ≤ 2 then some .fpToX else none
  | 104 => if decodeRs2 insn = 0 ∨ decodeRs2 insn = 1 then some .fpToF else none
  | 120 => some .fpToF
  | _ => none

def csrIsWritable (csr : Word) : Bool := csr.toNat < 0xc00

def opSystem (insn : Word) : Option ExtOp :=
  let imm := decodeItypeImm insn
  let op :=
    match decodeFunct3 insn with
    | 0 =>
      if decodeFunct7 insn = 9 then some ExtOp.sfencevma
      else if imm = 0 then some .ecall
      else if imm = 1 then some .ebreak
      else if imm = 0x105 then some .wfi
      else if imm = 0x302 then some .mret
      else none
    | 1 => some (.csr .csrrw)
    | 2 => some (.csr .csrrs)
    | 3 => some (.csr .csrrc)
    | 5 => some (.csri .csrrw)
    | 6 => some (.csri .csrrs)
    | 7 => some (.csri .csrrc)
    | _ => none
  if csrIsWritable imm || decodeRs1 insn = 0 then op else none

def opMiscMem (insn : Word) : Option ExtOp :=
  match decodeFunct3 insn with
  | 0 => some .fence
  | 1 => some .fencei
  | _ => none

def extOp (insn : Word) : Option ExtOp :=
  match (bits insn 2 0x1F).toNat with
  | 1 => some .flw
  | 3 => opMiscMem insn
  | 4 => (opOpImmExt insn).map .bitOp
  | 9 => some .fsw
  | 11 => opAmo insn
  | 12 => opOpExt insn
  | 16 | 17 | 18 | 19 => some .fpToF
  | 20 => opOpFp insn
  | 28 => opSystem insn
  | _ => none

def ExtOp.canBranch : ExtOp → Bool
  | fence | fencei | ecall | ebreak | mret | sfencevma | csr .csrrw => true
  | _ => false

def extDecode (insn : Word) : Option ExtInsn :=
  (extOp insn).map fun op =>
    match op with
    | .fence | .fencei => ⟨insn, 0, 0, 0, op.canBranch⟩
    | .fsw => ⟨insn, 0, decodeRs1 insn, decodeRs2 insn, op.canBranch⟩
    | _ => ⟨insn, decodeRd insn, decodeRs1 insn, decodeRs2 insn, op.canBranch⟩

end decode

section eval

def evalMul (op : MulOp) (x y : Word) : Word :=
  match op with
  | .mul => (x.signExtend 64 * y.signExtend 64).setWidth 32
  | .mulh => ((x.signExtend 64 * y.signExtend 64) >>> 32).setWidth 32
  | .mulhsu => ((x.signExtend 64 * y.setWidth 64) >>> 32).setWidth 32
  | .mulhu => ((x.setWidth 64 * y.setWidth 64) >>> 32).setWidth 32
  | .div => if y = 0 then ~~~0 else if y = ~~~0 ∧ x = 0x80000000 then x else x.sdiv y
  | .divu => if y = 0 then ~~~0 else x / y
  | .rem => if y = 0 then x else if y = ~~~0 ∧ x = 0x80000000 then 0 else x.srem y
  | .remu => if y = 0 then x else x % y

/-- The product as the constant folder computes it. MULHU goes through a signed product. -/
def foldMul (op : MulOp) (x y : Word) : Word :=
  match op with
  | .mulhu => ((x.setWidth 64 * y.setWidth 64).sshiftRight 32).setWidth 32
  | op => evalMul op x y

def evalBit (op : BitOp) (x y imm : Word) : Word :=
  let shamt := (y &&& 0x1f).toNat
  let shamtImm := (imm &&& 0x1f).toNat
  let ror := fun n : ℕ => (x >>> n) ||| (x <<< (32 - n))
  let clmul := fun (part : ℕ → Word) =>
    forRange 32 0 fun out i => if bit y i then out ^^^ part i else out
  match op with
  | .sh1add => (x <<< 1) + y
  | .sh2add => (x <<< 2) + y
  | .sh3add => (x <<< 3) + y
  | .andn => x &&& ~~~y
  | .orn => x ||| ~~~y
  | .xnor => ~~~(x ^^^ y)
  | .clz => if x ≠ 0 then x.clz else 32
  | .ctz => if x ≠ 0 then x.ctz else 32
  | .cpop => x.cpop
  | .max => if y.toInt < x.toInt then x else y
  | .maxu => if y.toNat < x.toNat then x else y
  | .min => if x.toInt < y.toInt then x else y
  | .minu => if x.toNat < y.toNat then x else y
  | .sextb => (x &&& 0xff) ||| if bit x 7 then 0xffffff00 else 0
  | .sexth => (x &&& 0xffff) ||| if bit x 15 then 0xffff0000 else 0
  | .zexth => x &&& 0xffff
  | .rol => (x <<< shamt) ||| (x >>> (32 - shamt))
  | .ror => ror shamt
  | .rori => ror shamtImm
  | .orcb =>
    forRange 4 0 fun out i => if x &&& ((0xff : Word) <<< (i * 8)) ≠ 0 then out |||
      ((0xff : Word) <<< (i * 8)) else out
  | .rev8 =>
    ((x &&& 0xff) <<< 24) ||| ((x &&& 0xff00) <<< 8) ||| ((x &&& 0xff0000) >>> 8) |||
      ((x &&& 0xff000000) >>> 24)
  | .clmul => clmul fun i => x <<< i
  -- bit 0 contributes nothing to the high half
  | .clmulh => clmul fun i => if i = 0 then 0 else x >>> (32 - i)
  | .clmulr => clmul fun i => x >>> (32 - i - 1)
  | .bclr => x &&& ~~~((1 : Word) <<< shamt)
  | .bclri => x &&& ~~~((1 : Word) <<< shamtImm)
  | .bext => (x >>> shamt) &&& 1
  | .bexti => (x >>> shamtImm) &&& 1
  | .binv => x ^^^ ((1 : Word) <<< shamt)
  | .binvi => x ^^^ ((1 : Word) <<< shamtImm)
  | .bset => x ||| ((1 : Word) <<< shamt)
  | .bseti => x ||| ((1 : Word) <<< shamtImm)

def clmulCoeff (x y : Word) (n : ℕ) : Bool :=
  forRange 32 false fun b i => b ^^ (bit y i && (decide (i ≤ n) && bit x (n - i)))

theorem clmul_window {x y : Word} {part : ℕ → Word} {k o : ℕ}
    (h : ∀ i < 32, bit (part i) k = (decide (i ≤ k + o) && bit x (k + o - i))) :
    bit (forRange 32 0 fun out i => if bit y i then out ^^^ part i else out) k = clmulCoeff x y (k + o) := by
  have hcoeff : clmulCoeff x y (k + o) = forRange 32 false fun b i => b ^^ (bit y i && bit (part i) k) :=
    forRange_congr fun i hi b => by rw [h i hi]
  rw [hcoeff]
  refine forRange_rel (R := fun (out : Word) b => bit out k = b) 32 ?_ BitVec.getLsbD_zero
  rintro out _ i rfl
  cases bit y i with
  | false => exact (Bool.xor_false _).symm
  | true => exact BitVec.getLsbD_xor

theorem clmul_parts (x y imm : Word) (k : Fin 32) :
    bit (evalBit .clmul x y imm) k = clmulCoeff x y k ∧
      bit (evalBit .clmulr x y imm) k = clmulCoeff x y (k + 31) ∧
      bit (evalBit .clmulh x y imm) k = clmulCoeff x y (k + 32) := by
  have hright {i o : ℕ} (hi : i ≤ o) : bit (x >>> (o - i)) k = (decide (i ≤ k + o) && bit x (k + o - i)) := by
    have hidx : o - i + k = k + o - i := by omega
    rw [bit, BitVec.getLsbD_ushiftRight, hidx, decide_eq_true (by omega), Bool.true_and, bit]
  refine ⟨clmul_window (o := 0) fun i hi => ?_, clmul_window fun i hi => ?_, clmul_window fun i hi => ?_⟩
  · have hlt : (!decide ((k : ℕ) < i)) = decide (i ≤ k) := by grind
    simp only [bit, BitVec.getLsbD_shiftLeft, k.isLt, decide_true, Bool.true_and, Nat.add_zero, hlt]
  · rw [Nat.sub_right_comm]
    exact hright (by omega)
  · split
    · next h0 =>
      subst h0
      simp [bit]
    · exact hright (by omega)

def evalAmo (op : AmoOp) (a b : Word) : Word :=
  match op with
  | .swap => b
  | .add => a + b
  | .xor => a ^^^ b
  | .and => a &&& b
  | .or => a ||| b
  | .min => if a.toInt < b.toInt then a else b
  | .max => if b.toInt < a.toInt then a else b
  | .minu => if a.toNat < b.toNat then a else b
  | .maxu => if b.toNat < a.toNat then a else b

end eval

def extConstopt (e : ExtInsn) (info : ConstInfo) : Option Word × ConstInfo :=
  match extOp e.insn with
  | some (.mul op) =>
    if info.isConstant e.rs1 && info.isConstant e.rs2 then
      let v := foldMul op (info.constVal e.rs1) (info.constVal e.rs2)
      (some v, info.set e.rd v)
    else (none, info.forget e.rd)
  | some (.csr _) | some (.csri _) => (none, info.forget e.rd)
  | some (.bitOp _) | some .lrw | some (.amo _) | some .fpToX =>
    (none, if e.rd ≠ 0 then info.forget e.rd else info)
  -- SC.W is among the instructions that the folder takes to write no register
  | _ => (none, info)

/-- The parts of a core that the instructions use and this model leaves open. `csr` stands for the CSRs that
only instructions and traps change: the clocks and counters are none of them. -/
structure ExtUnits (δ ξ : Type) where
  csr : CsrOp → Word → Word → ξ → Word × ξ
  getF : ξ → Reg → Word
  setF : ξ → Reg → Word → ξ
  fpToX : Word → ξ → Word × ξ
  fpToF : Word → (Reg → Word) → ξ → ξ
  mret : ξ → ξ × Word
  syscall : (Reg → Word) → ξ → List (Reg × Word) × ξ × (δ → δ) × Bool

section run

variable {δ ξ : Type}

def rvSetReg (x : Reg → Word) (r : Reg) (v : Word) : Reg → Word := if r ≠ 0 then Function.update x r v else x

def extNext (x : Reg → Word) (ext : ξ) : ExtResult δ ξ := ⟨x, ext, id, false, .next⟩

def extLeave (x : Reg → Word) (ext : ξ) (pc : Word) : ExtResult δ ξ :=
  ⟨x, ext, id, false, .leave true (some pc) true⟩

def extTrap (trap : ξ → Word → Word → Word → ξ × Word × Bool) (x : Reg → Word) (ext : ξ)
    (cause tval pc : Word) :
    ExtResult δ ξ :=
  let (ext, pc, halt) := trap ext cause tval pc
  ⟨x, ext, id, halt, .leave false (some pc) true⟩

def breakpoint : Word := 3

def ecallM : Word := 11

def extRun (E : ExtUnits δ ξ) (trap : ξ → Word → Word → Word → ξ × Word × Bool) (e : ExtInsn) (x : Reg → Word)
    (ext : ξ) (pc : Word) : WordIo (ExtResult δ ξ) :=
  match extOp e.insn with
  | some (.mul op) => .done (extNext (Function.update x e.rd (evalMul op (x e.rs1) (x e.rs2))) ext)
  | some (.bitOp op) =>
    .done (extNext (Function.update x e.rd (evalBit op (x e.rs1) (x e.rs2) (decodeItypeImm e.insn))) ext)
  | some .lrw =>
    if misaligned (x e.rs1) 3 then .done (extTrap trap x ext loadMisaligned (x e.rs1) pc)
    else if e.rd ≠ 0 then .read (x e.rs1) fun v => .done (extNext (Function.update x e.rd v) ext)
    else .done (extNext x ext)
  | some .scw =>
    if misaligned (x e.rs1) 3 then .done (extTrap trap x ext storeMisaligned (x e.rs1) pc)
    else .write (x e.rs1) (x e.rs2) (.done (extNext (Function.update x e.rd 0) ext))
  | some (.amo op) =>
    if misaligned (x e.rs1) 3 then .done (extTrap trap x ext loadMisaligned (x e.rs1) pc)
    else
      .read (x e.rs1) fun v =>
        .write (x e.rs1) (evalAmo op v (x e.rs2))
          (.done (extNext (if e.rd ≠ 0 then Function.update x e.rd v else x) ext))
  | some (.csr op) =>
    -- x0 reads as zero in CSRRS and CSRRC, whatever it holds
    let v := match op with
      | .csrrw => x e.rs1
      | _ => if e.rs1 = 0 then 0 else x e.rs1
    let (old, ext) := E.csr op (decodeItypeImm e.insn) v ext
    .done (extNext (if e.rd ≠ 0 then Function.update x e.rd old else x) ext)
  | some (.csri op) =>
    let (old, ext) := E.csr op (decodeItypeImm e.insn) (w32 e.rs1) ext
    .done (extNext (if e.rd ≠ 0 then Function.update x e.rd old else x) ext)
  | some .flw =>
    let addr := x e.rs1 + decodeItypeImm e.insn
    if misaligned addr 3 then .done (extTrap trap x ext loadMisaligned addr pc)
    else .read addr fun v => .done (extNext x (E.setF ext e.rd v))
  | some .fsw =>
    let addr := x e.rs1 + decodeStypeImm e.insn
    if misaligned addr 3 then .done (extTrap trap x ext storeMisaligned addr pc)
    else .write addr (E.getF ext e.rs2) (.done (extNext x ext))
  | some .fpToX =>
    let (v, ext) := E.fpToX e.insn ext
    .done (extNext (if e.rd ≠ 0 then Function.update x e.rd v else x) ext)
  | some .fpToF => .done (extNext x (E.fpToF e.insn x ext))
  | some .fence | some .wfi | some .sfencevma | some .fencei => .done (extLeave x ext (pc + 4))
  | some .ecall =>
    let (ext, pc, halt) := trap ext ecallM 0 pc
    let (writes, ext, dev, halt') := E.syscall x ext
    .done ⟨writes.foldl (fun x w => rvSetReg x w.1 w.2) x, ext, dev, halt || halt',
      .leave true (some pc) true⟩
  | some .ebreak =>
    let (ext, pc', halt) := trap ext breakpoint pc pc
    .done ⟨x, ext, id, halt, .leave true (some pc') true⟩
  -- MRET stores the PC but not the cycle count
  | some .mret =>
    let (ext, pc) := E.mret ext
    .done ⟨x, ext, id, false, .leave true (some pc) false⟩
  | some .nop | none => .done (extNext (Function.update x 0 0) ext)

def Platform.extend (P : Platform δ ξ) (E : ExtUnits δ ξ) : Platform δ ξ :=
  { P with decode := extDecode, constopt := extConstopt, run := extRun E P.trap }

/-- No CSRs, no floating-point unit and no host. -/
def ExtUnits.none : ExtUnits Unit Unit where
  csr := fun _ _ _ _ => (0, ())
  getF := fun _ _ => 0
  setF := fun _ _ _ => ()
  fpToX := fun _ _ => (0, ())
  fpToF := fun _ _ _ => ()
  mret := fun _ => ((), 0)
  syscall := fun _ _ => ([], (), id, false)

def WordIo.All {α : Type} (p : α → Prop) : WordIo α → Prop
  | done a => p a
  | read _ next => ∀ v, (next v).All p
  | write _ _ next => next.All p

theorem WordIo.All.run {α : Type} {p : α → Prop} {P : Platform δ ξ} {c : CoreConfig} {io : WordIo α}
    (h : io.All p) (sh : Shared δ) : p (io.run P c sh).1 := by
  induction io generalizing sh with
  | done a => exact h
  | read addr next ih => exact ih _ (h _) _
  | write addr value next ih => exact ih h _

end run

end Rv32Emu
