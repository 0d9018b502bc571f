import Rv32Emu.Lib.Writes
import Rv32Emu.Tile.Widths

namespace Rv32Emu

def InBytes (a n off : ℕ) : Prop := a ≤ off ∧ off < a + n

section bytes

variable {S : ℕ → Prop}

theorem readsOnly_load {a n : ℕ} (h : ∀ off, InBytes a n off → S off) :
    ReadsOnly S fun m : Bytes => m.load a n := by
  intro m m' hagree
  apply Bytes.load_congr
  intro i hi
  exact hagree _ (h _ ⟨Nat.le_add_right .., Nat.add_lt_add_left hi _⟩)

theorem writesOnly_store {a n : ℕ} {w : Bytes → Word} (h : ∀ off, InBytes a n off → S off)
    (hw : ReadsOnly S w) :
    WritesOnly S fun m : Bytes => m.store a n (w m) := by
  refine ⟨fun m x hx => ?_, fun x hx m m' hagree => ?_⟩
  · have hout : ¬(a ≤ x ∧ x < a + n) := fun hin => hx (h x hin)
    rw [Bytes.store_apply, if_neg hout]
  · dsimp only
    rw [Bytes.store_apply, Bytes.store_apply, hw m m' hagree, hagree x hx]

end bytes

def StreamAddr : Type := {a : Word // 0xFFB40000 ≤ a.toNat ∧ a.toNat < 0xFFB80000}

structure CfgPort where
  addr : Word
  bytes : StoreWidth
  lower : 0xFFEF0000 ≤ addr.toNat
  upper : addr.toNat ≤ 0xFFEFFFFF
  aligned : addr.toNat % bytes.bytes = 0

inductive HighAccess
  | readCfg (regIdx : ℕ)
  | writeCfg (regIdx : ℕ) (value : Word)
  | rmwcib (imm : Word) (byteOffset : Fin 4)
  | storereg (imm : Word) (tid : Tid)
  | loadreg (imm : Word) (tid : Tid)
  | streamLoad (coreId : ℤ) (addr : StreamAddr)
  | streamStore (fuel : ℕ) (coreId : ℤ) (addr : StreamAddr) (data : Word)
  | cfgLoad (c : MemConfig) (port : CfgPort)
  | cfgStore (fuel : ℕ) (c : MemConfig) (port : CfgPort) (data : Word)
  | clear

namespace CoreMem

def onCore (d : CoreMem) (f : Tensix → Tensix) : CoreMem :=
  { d with tile := { d.tile with core := f d.tile.core } }

def withHigh (d : CoreMem) (m : Bytes) : CoreMem := d.setMem { d.tile.core.mem with highMem := some m }

end CoreMem

def CfgPort.load (c : MemConfig) (d : CoreMem) (p : CfgPort) : Word × CoreMem :=
  match p.bytes with
  | .sb => ((memoryReadB c d p.addr).setWidth 32, d)
  | .sh => ((memoryReadS c d p.addr).setWidth 32, d)
  | .sw => d.onMemReadW c p.addr

def HighAccess.exec (d : CoreMem) : HighAccess → Word × CoreMem
  | .readCfg regIdx => (d.tile.core.mem.tensixReadCfg regIdx, d)
  | .writeCfg regIdx value => (0, d.setMem (d.tile.core.mem.tensixWriteCfg regIdx value))
  | .rmwcib imm byteOffset => (0, d.onCore (rmwcibCommon · imm byteOffset))
  | .storereg imm tid => (0, d.onCore (ttstorereg · imm tid))
  | .loadreg imm tid => (0, d.onCore (ttloadreg · imm tid))
  | .streamLoad coreId addr =>
    let r := d.tile.tensixMmioRead coreId addr.1
    (r.1.getD 0, { d with tile := r.2 })
  | .streamStore fuel coreId addr data =>
    (0, { d with tile := ((d.tile.tensixMmioWrite fuel coreId addr.1 data).map Prod.snd).getD d.tile })
  | .cfgLoad c port => port.load c d
  | .cfgStore fuel c port data => (0, (StoreInsn.exec fuel c d ⟨port.bytes, port.addr, data⟩).getD d)
  | .clear => (0, { d with tile := d.tile.tensixClear })

def IsUpdate (a : ℕ) : Prop := 0x40000 ≤ a ∧ a < 0x80000 ∧ (a - 0x40000) % 0x1000 = 0x438

def StreamStored (a off : ℕ) : Prop := InBytes a 4 off ∨ IsUpdate a ∧ InBytes (a + 0x6C) 4 off

def IsCfg (off : ℕ) : Prop := InBytes tensixCfgOffsetInHighMem (cfgRegCount * 4) off

def HighAccess.Touches (off : ℕ) : HighAccess → Prop
  | .readCfg regIdx | .writeCfg regIdx _ =>
    regIdx < cfgRegCount ∧ InBytes (tensixCfgOffsetInHighMem + regIdx * 4) 4 off
  | .rmwcib imm byteOffset => off = tensixCfgOffsetInHighMem + (imm &&& 0xFF).toNat * 4 + byteOffset
  | .storereg imm _ => ∃ a, mmioOffset imm = some a ∧ StreamStored a off
  | .loadreg imm _ => ∃ a, mmioOffset imm = some a ∧ InBytes a 4 off
  | .streamLoad _ addr => InBytes (addr.1.toNat - highMemOffset) 4 off
  | .streamStore _ _ addr _ => StreamStored (addr.1.toNat - highMemOffset) off
  | .cfgLoad _ port | .cfgStore _ _ port _ => InBytes (port.addr.toNat - highMemOffset) port.bytes.bytes off
  | .clear => off < 0x600000 ∧ ¬IsCfg off

/-- What is done without high memory, the value that is read and what is put into high memory: the
value depends on the places `S` only, and only they are written. -/
def Confined (S : ℕ → Prop) (run : Bytes → Word × CoreMem) : Prop :=
  ∃ (g : Bytes → Word) (f : Bytes → Bytes) (rest : Word → Word × CoreMem),
    (∀ m, run m = ((rest (g m)).1, (rest (g m)).2.withHigh (f m))) ∧ ReadsOnly S g ∧ WritesOnly S f

def InWindow (x : ℕ) : Prop := 0xFFB40000 ≤ x ∧ x < 0xFFB80000 ∨ 0xFFEF0000 ≤ x ∧ x ≤ 0xFFEFFFFF

section windows

variable {addr : Word} (h : InWindow addr.toNat)

include h

theorem window_inMailboxRange : inMailboxRange addr = false := by
  have hbase : mailboxAddrBase.toNat = 0xFFEC0000 := rfl
  have hend : mailboxAddrEnd.toNat = 0xFFEC3FFF := rfl
  unfold InWindow at h
  simp only [inMailboxRange, hbase, hend, Bool.and_eq_false_iff, decide_eq_false_iff_not]
  omega

theorem window_perCore (coreId : ℤ) : perCore coreId addr.toNat = none := by
  unfold InWindow at h
  unfold perCore
  rw [if_neg]
  rw [isPerCoreAddr_iff]
  omega

theorem window_memoryPtr (c : MemConfig) : memoryPtr c addr.toNat = (.high, addr.toNat - highMemOffset) := by
  have hlocal := c.localSize_le
  have hhigh : highMemOffset = 0xFFB00000 := rfl
  unfold InWindow at h
  unfold memoryPtr
  rw [if_neg (by omega), if_neg (by omega)]

theorem window_mmioRead (tt : TensixTile) (coreId : ℤ) : tt.tensixMmioRead coreId addr =
    if addr.toNat < 0xFFB80000 then
      (tt.core.mem.highMem.map fun m => m.load (addr.toNat - highMemOffset) 4, tt)
    else (none, tt) := by
  have hhigh : highMemOffset = 0xFFB00000 := rfl
  have hmail := window_inMailboxRange h
  have hper : tt.readPerCore coreId addr.toNat = none := by
    rw [TensixTile.readPerCore, window_perCore h]
  unfold InWindow at h
  unfold TensixTile.tensixMmioRead
  dsimp only
  rw [hmail, if_neg Bool.false_ne_true, if_neg (by omega), hper]
  dsimp only
  rw [if_neg (by omega)]
  by_cases hs : addr.toNat < 0xFFB80000
  · rw [if_pos (by omega), if_pos hs]
    cases tt.core.mem.highMem with
    | none => rfl
    | some m =>
      dsimp only
      rw [if_pos (by omega)]
      rfl
  · rw [if_neg (by omega), if_neg hs, if_pos (by omega)]

theorem window_mmioWrite (tt : TensixTile) (fuel : ℕ) (coreId : ℤ) (data : Word) :
    tt.tensixMmioWrite fuel coreId addr data =
    if addr.toNat < 0xFFB80000 then some (true, tt.writeStream addr.toNat data)
    else some (false, tt.noteCfgWrite addr.toNat data) := by
  have hmail := window_inMailboxRange h
  have hper := window_perCore h coreId
  unfold InWindow at h
  unfold TensixTile.tensixMmioWrite
  dsimp only
  rw [hmail, if_neg Bool.false_ne_true, if_neg (by omega), hper]
  dsimp only
  rw [if_neg (by omega)]
  by_cases hs : addr.toNat < 0xFFB80000
  · rw [if_pos (by omega), if_pos hs]
  · rw [if_neg (by omega), if_neg hs, if_pos (by omega)]

theorem window_memoryRead (c : MemConfig) (d : CoreMem) (m : Bytes) (n : ℕ) :
    memoryRead c (d.withHigh m) addr n = m.load (addr.toNat - highMemOffset) n := by
  rw [memoryRead, window_memoryPtr h]
  rfl

theorem window_memoryWrite (c : MemConfig) (d : CoreMem) (m : Bytes) (n : ℕ) (w : Word) :
    memoryWrite c (d.withHigh m) addr n w = d.withHigh (m.store (addr.toNat - highMemOffset) n w) := by
  rw [memoryWrite, window_memoryPtr h]
  rfl

end windows

theorem StreamAddr.inWindow (addr : StreamAddr) : InWindow addr.1.toNat := Or.inl addr.2

theorem CfgPort.inWindow (p : CfgPort) : InWindow p.addr.toNat := Or.inr ⟨p.lower, p.upper⟩

def StoreWidth.narrow : StoreWidth → Word → Word
  | .sb, w => (w.setWidth 8).setWidth 32
  | .sh, w => (w.setWidth 16).setWidth 32
  | .sw, w => w

namespace CfgPort

variable (p : CfgPort) (c : MemConfig) (d : CoreMem)

theorem load_eq (m : Bytes) : p.load c (d.withHigh m) =
    (p.bytes.narrow (m.load (p.addr.toNat - highMemOffset) p.bytes.bytes), d.withHigh m) := by
  have hread := window_memoryRead p.inWindow c d m
  generalize p.addr.toNat - highMemOffset = off at hread ⊢
  unfold load
  cases p.bytes with
  | sb => exact congrArg (fun v => (StoreWidth.sb.narrow v, d.withHigh m)) (hread 1)
  | sh => exact congrArg (fun v => (StoreWidth.sh.narrow v, d.withHigh m)) (hread 2)
  | sw =>
    have hlower := p.lower
    have hnone : (d.withHigh m).tile.tensixMmioRead c.coreId p.addr = (none, (d.withHigh m).tile) := by
      rw [window_mmioRead p.inWindow, if_neg (by omega)]
    have hvalue := congrArg (fun v => (v, d.withHigh m)) (hread 4)
    dsimp only [CoreMem.onMemReadW]
    cases c.tensix with
    | false => exact hvalue
    | true =>
      rw [if_pos rfl, hnone]
      exact hvalue

theorem within_lt {off : ℕ} (h : InBytes (p.addr.toNat - highMemOffset) p.bytes.bytes off) :
    off < highMemSize := by
  have hsize : highMemSize = 0x400000 := rfl
  have hhigh : highMemOffset = 0xFFB00000 := rfl
  have hupper := p.upper
  have haligned := p.aligned
  unfold InBytes at h
  cases hbytes : p.bytes <;> rw [hbytes] at h haligned <;> dsimp only [StoreWidth.bytes] at h haligned <;>
    omega

def noted (data : Word) : CoreMem :=
  match p.bytes with
  | .sw => if c.tensix then { d with tile := d.tile.noteCfgWrite p.addr.toNat data } else d
  | _ => d

theorem noteRegister_withHigh (m : Bytes) (idx : ℕ) (data : Word) :
    ({ d.withHigh m with tile := (d.withHigh m).tile.noteRegister idx data } : CoreMem) =
      ({ d with tile := d.tile.noteRegister idx data } : CoreMem).withHigh m := rfl

theorem noteCfgWrite_withHigh (m : Bytes) (addr : ℕ) (data : Word) :
    ({ d.withHigh m with tile := (d.withHigh m).tile.noteCfgWrite addr data } : CoreMem) =
      ({ d with tile := d.tile.noteCfgWrite addr data } : CoreMem).withHigh m :=
  noteRegister_withHigh d m _ data

theorem store_eq (fuel : ℕ) (data : Word) (m : Bytes) :
    StoreInsn.exec fuel c (d.withHigh m) ⟨p.bytes, p.addr, data⟩ =
    some ((p.noted c d data).withHigh
      (m.store (p.addr.toNat - highMemOffset) p.bytes.bytes (p.bytes.narrow data))) := by
  have hwrite := window_memoryWrite p.inWindow c
  generalize p.addr.toNat - highMemOffset = off at hwrite ⊢
  unfold noted StoreInsn.exec
  dsimp only
  cases p.bytes with
  | sb => exact congrArg some (hwrite d m 1 _)
  | sh => exact congrArg some (hwrite d m 2 _)
  | sw =>
    have hlower := p.lower
    have hupper := p.upper
    have hnote : (d.withHigh m).tile.tensixMmioWrite fuel c.coreId p.addr data =
        some (false, (d.withHigh m).tile.noteCfgWrite p.addr.toNat data) := by
      rw [window_mmioWrite p.inWindow, if_neg (by omega)]
    dsimp only [CoreMem.onMemWriteW]
    cases c.tensix with
    | false => exact congrArg some (hwrite d m 4 data)
    | true =>
      have hstore := hwrite { d with tile := d.tile.noteCfgWrite p.addr.toNat data } m 4 data
      rw [← noteCfgWrite_withHigh] at hstore
      rw [if_pos rfl, if_pos rfl, hnote]
      exact congrArg some hstore

end CfgPort

theorem mmioOffset_lt {imm : Word} {a : ℕ} (h : mmioOffset imm = some a) : a < 0x100000 := by
  have hlow : ((imm &&& 0x3FFFF) <<< 2).toNat < 0x100000 := by
    have hand : (imm &&& 0x3FFFF).toNat < 2 ^ 18 := by
      rw [BitVec.toNat_and]
      exact Nat.and_lt_two_pow _ (by decide)
    rw [BitVec.toNat_shiftLeft, Nat.shiftLeft_eq]
    omega
  unfold mmioOffset at h
  dsimp only at h
  split_ifs at h
  cases h
  change ((0xFFB00000 : Word) + (imm &&& 0x3FFFF) <<< 2 - 0xFFB00000).toNat < 0x100000
  rwa [BitVec.add_comm, BitVec.add_sub_cancel]

theorem writesOnly_storeStream (a : ℕ) (value : Word) :
    WritesOnly (StreamStored a) fun m : Bytes => storeStream m a value := by
  unfold storeStream
  by_cases hupdate : 0x40000 ≤ a ∧ a < 0x80000 ∧ (a - 0x40000) % 0x1000 = 0x438
  · have hwithin : ∀ off, InBytes (a + 0x6C) 4 off → StreamStored a off :=
      fun off hoff => Or.inr ⟨hupdate, hoff⟩
    have hlt : a + 0x6C < highMemSize := by
      have hsize : highMemSize = 0x400000 := rfl
      omega
    simp only [if_pos hupdate, if_pos hlt]
    apply writesOnly_store hwithin
    intro m m' hagree
    have hload : Bytes.load m' (a + 0x6C) 4 = Bytes.load m (a + 0x6C) 4 := readsOnly_load hwithin m m' hagree
    dsimp only
    rw [hload]
  · simp only [if_neg hupdate]
    exact WritesOnly.id

def rmwByte (imm : Word) (a : ℕ) (m : Bytes) : Bytes :=
  m.set a (((bits imm 8 0xFF).setWidth 8 &&& (bits imm 16 0xFF).setWidth 8) |||
    (m a &&& ~~~(bits imm 16 0xFF).setWidth 8))

theorem writesOnly_rmwByte (imm : Word) (a : ℕ) : WritesOnly (· = a) (rmwByte imm a) := by
  refine ⟨fun m x hx => Function.update_of_ne hx .., ?_⟩
  rintro x rfl m m' hagree
  have hsame : m' x = m x := hagree x rfl
  simp only [rmwByte, Bytes.set, Function.update_self, hsame]

namespace HighAccess

theorem confined_writeCfg (regIdx : ℕ) (value : Word) (d : CoreMem) :
    Confined ((writeCfg regIdx value).Touches ·) fun m => (writeCfg regIdx value).exec (d.withHigh m) := by
  by_cases hidx : regIdx < cfgRegCount
  · refine ⟨fun _ => 0, fun m => m.store (tensixCfgOffsetInHighMem + regIdx * 4) 4 value, fun _ => (0, d), ?_,
      ReadsOnly.const _, writesOnly_store (fun off hoff => ⟨hidx, hoff⟩) (ReadsOnly.const _)⟩
    intro m
    have hwrite : (d.withHigh m).tile.core.mem.tensixWriteCfg regIdx value =
        { d.tile.core.mem with highMem := some (m.store (tensixCfgOffsetInHighMem + regIdx * 4) 4
          value) } := if_pos hidx
    exact congrArg (fun mem => (0, (d.withHigh m).setMem mem)) hwrite
  · refine ⟨fun _ => 0, fun m => m, fun _ => (0, d), ?_, ReadsOnly.const _, WritesOnly.id⟩
    intro m
    have hwrite : (d.withHigh m).tile.core.mem.tensixWriteCfg regIdx value = (d.withHigh m).tile.core.mem :=
      if_neg hidx
    exact congrArg (fun mem => (0, (d.withHigh m).setMem mem)) hwrite

theorem confined_readCfg (regIdx : ℕ) (d : CoreMem) :
    Confined ((readCfg regIdx).Touches ·) fun m => (readCfg regIdx).exec (d.withHigh m) := by
  refine ⟨fun m => (d.withHigh m).tile.core.mem.tensixReadCfg regIdx, fun m => m, fun v => (v, d),
    fun m => rfl, ?_, WritesOnly.id⟩
  by_cases hidx : regIdx < cfgRegCount
  · have hread : ∀ m, (d.withHigh m).tile.core.mem.tensixReadCfg regIdx =
        m.load (tensixCfgOffsetInHighMem + regIdx * 4) 4 := fun m => if_pos hidx
    simp only [hread]
    exact readsOnly_load fun off hoff => ⟨hidx, hoff⟩
  · have hread : ∀ m, (d.withHigh m).tile.core.mem.tensixReadCfg regIdx = 0 := fun m => if_neg hidx
    simp only [hread]
    exact ReadsOnly.const _

theorem confined_rmwcib (imm : Word) (byteOffset : Fin 4) (d : CoreMem) :
    Confined ((rmwcib imm byteOffset).Touches ·) fun m => (rmwcib imm byteOffset).exec (d.withHigh m) := by
  have hidx : ¬(imm &&& 0xFF).toNat ≥ cfgRegCount := by
    have hand : (imm &&& 0xFF).toNat < 2 ^ 8 := by
      rw [BitVec.toNat_and]
      exact Nat.and_lt_two_pow _ (by decide)
    have hcount : cfgRegCount = 448 := rfl
    omega
  refine ⟨fun _ => 0, rmwByte imm (tensixCfgOffsetInHighMem + (imm &&& 0xFF).toNat * 4 + byteOffset),
    fun _ => (0, d.onCore fun tt => { tt with
      packL1WriteOffset := if (imm &&& 0xFF).toNat = 69 then 0 else tt.packL1WriteOffset }),
    ?_, ReadsOnly.const _, writesOnly_rmwByte _ _⟩
  intro m
  have hwrite : rmwcibCommon (d.withHigh m).tile.core imm byteOffset = _ := if_neg hidx
  exact congrArg (fun core => (0, (d.withHigh m).onCore fun _ => core)) hwrite

theorem confined_storereg (imm : Word) (tid : Tid) (d : CoreMem) :
    Confined ((storereg imm tid).Touches ·) fun m => (storereg imm tid).exec (d.withHigh m) := by
  cases hoff : mmioOffset imm with
  | none =>
    refine ⟨fun _ => 0, fun m => m, fun _ => (0, d), ?_, ReadsOnly.const _, WritesOnly.id⟩
    intro m
    have hwrite : ttstorereg (d.withHigh m).tile.core imm tid = (d.withHigh m).tile.core := by
      rw [ttstorereg, hoff]
    exact congrArg (fun core => (0, (d.withHigh m).onCore fun _ => core)) hwrite
  | some a =>
    have hlt : a < highMemSize := Nat.lt_trans (mmioOffset_lt hoff) (by decide)
    have hstored : ∀ off, StreamStored a off → (storereg imm tid).Touches off := fun off h => ⟨a, hoff, h⟩
    let value := d.tile.core.dmaReg tid (bits imm 18 0x3F).toNat
    have hreg : WritesOnly (StreamStored a) fun m : Bytes => m.store a 4 value :=
      writesOnly_store (fun off h => Or.inl h) (ReadsOnly.const _)
    refine ⟨fun _ => 0, fun m => storeStream (m.store a 4 value) a value, fun _ => (0, d), ?_,
      ReadsOnly.const _, (hreg.comp (writesOnly_storeStream a value)).mono hstored⟩
    intro m
    have hwrite : ttstorereg (d.withHigh m).tile.core imm tid =
        (d.withHigh (storeStream (m.store a 4 value) a value)).tile.core := by
      rw [ttstorereg, hoff]
      exact if_pos hlt
    exact congrArg (fun core => (0, (d.withHigh m).onCore fun _ => core)) hwrite

theorem confined_loadreg (imm : Word) (tid : Tid) (d : CoreMem) :
    Confined ((loadreg imm tid).Touches ·) fun m => (loadreg imm tid).exec (d.withHigh m) := by
  cases hoff : mmioOffset imm with
  | none =>
    refine ⟨fun _ => 0, fun m => m, fun _ => (0, d), ?_, ReadsOnly.const _, WritesOnly.id⟩
    intro m
    have hread : ttloadreg (d.withHigh m).tile.core imm tid = (d.withHigh m).tile.core := by
      rw [ttloadreg, hoff]
    exact congrArg (fun core => (0, (d.withHigh m).onCore fun _ => core)) hread
  | some a =>
    have hlt : a < highMemSize := Nat.lt_trans (mmioOffset_lt hoff) (by decide)
    refine ⟨fun m => m.load a 4, fun m => m, fun v => (0, d.onCore fun tt =>
      if (bits imm 18 0x3F).toNat < dmaRegCount then tt.setDmaReg tid (bits imm 18 0x3F).toNat v else tt), ?_,
      readsOnly_load fun off h => ⟨a, hoff, h⟩, WritesOnly.id⟩
    intro m
    have hread : ttloadreg (d.withHigh m).tile.core imm tid = ((d.onCore fun tt =>
        if (bits imm 18 0x3F).toNat < dmaRegCount then tt.setDmaReg tid (bits imm 18 0x3F).toNat
          (m.load a 4) else tt).withHigh
          m).tile.core := by
      rw [ttloadreg, hoff]
      have hvalue : (if a < highMemSize then m.load a 4 else 0) = m.load a 4 := if_pos hlt
      dsimp only [CoreMem.withHigh, CoreMem.setMem, CoreMem.onCore]
      rw [hvalue]
      split_ifs <;> rfl
    exact congrArg (fun core => (0, (d.withHigh m).onCore fun _ => core)) hread

theorem confined_streamLoad (coreId : ℤ) (addr : StreamAddr) (d : CoreMem) :
    Confined ((streamLoad coreId addr).Touches ·) fun m => (streamLoad coreId addr).exec (d.withHigh m) := by
  refine ⟨fun m => m.load (addr.1.toNat - highMemOffset) 4, fun m => m, fun v => (v, d), ?_,
    readsOnly_load fun off h => h, WritesOnly.id⟩
  intro m
  have hread := window_mmioRead addr.inWindow (d.withHigh m).tile coreId
  rw [if_pos addr.2.2] at hread
  exact congrArg (fun r => (r.1.getD 0, { d.withHigh m with tile := r.2 })) hread

theorem confined_streamStore (fuel : ℕ) (coreId : ℤ) (addr : StreamAddr) (data : Word) (d : CoreMem) :
    Confined ((streamStore fuel coreId addr data).Touches ·) fun m =>
      (streamStore fuel coreId addr data).exec (d.withHigh m) := by
  have hhigh : highMemOffset = 0xFFB00000 := rfl
  have hrange := addr.2
  have hreg : WritesOnly (StreamStored (addr.1.toNat - highMemOffset)) fun m : Bytes =>
      m.store (addr.1.toNat - highMemOffset) 4 data :=
    writesOnly_store (fun off h => Or.inl h) (ReadsOnly.const _)
  have hboth := (writesOnly_storeStream (addr.1.toNat - highMemOffset) data).comp hreg
  refine ⟨fun _ => 0, _, fun _ => (0, d), ?_, ReadsOnly.const _, hboth.mono fun off h => h⟩
  intro m
  have hwrite := window_mmioWrite addr.inWindow (d.withHigh m).tile fuel coreId data
  rw [if_pos addr.2.2] at hwrite
  have hstream : (d.withHigh m).tile.writeStream addr.1.toNat data = (d.withHigh
      ((storeStream m (addr.1.toNat - highMemOffset) data).store (addr.1.toNat - highMemOffset) 4
        data)).tile := by
    have hlt : addr.1.toNat - highMemOffset < 0x400000 := by omega
    unfold TensixTile.writeStream
    generalize addr.1.toNat - highMemOffset = off at hlt ⊢
    dsimp only [CoreMem.withHigh, CoreMem.setMem, Option.map_some]
    rw [if_pos hlt]
  rw [hstream] at hwrite
  generalize addr.1.toNat - highMemOffset = off at hwrite ⊢
  exact congrArg
    (fun r => ((0 : Word), { d.withHigh m with tile := (r.map Prod.snd).getD (d.withHigh m).tile })) hwrite

theorem confined_cfgLoad (c : MemConfig) (port : CfgPort) (d : CoreMem) :
    Confined ((cfgLoad c port).Touches ·) fun m => (cfgLoad c port).exec (d.withHigh m) :=
  ⟨fun m => m.load (port.addr.toNat - highMemOffset) port.bytes.bytes, fun m => m,
    fun v => (port.bytes.narrow v, d), port.load_eq c d, readsOnly_load fun _ h => h, WritesOnly.id⟩

theorem confined_cfgStore (fuel : ℕ) (c : MemConfig) (port : CfgPort) (data : Word) (d : CoreMem) :
    Confined ((cfgStore fuel c port data).Touches ·) fun m =>
      (cfgStore fuel c port data).exec (d.withHigh m) := by
  refine ⟨fun _ => 0, fun m => m.store (port.addr.toNat - highMemOffset) port.bytes.bytes
    (port.bytes.narrow data), fun _ => (0, port.noted c d data), ?_, ReadsOnly.const _,
      writesOnly_store (fun off h => h) (ReadsOnly.const _)⟩
  intro m
  exact congrArg (fun r => ((0 : Word), r.getD (d.withHigh m))) (port.store_eq c d fuel data m)

theorem confined_clear (d : CoreMem) : Confined (clear.Touches ·) fun m => clear.exec (d.withHigh m) := by
  refine ⟨fun _ => 0, clearHighMem, fun _ => (0, { d with tile := d.tile.tensixClear }), fun m => rfl,
    ReadsOnly.const _, ?_⟩
  have hcfg : tensixCfgOffsetInHighMem + cfgRegCount * 4 ≤ 0x600000 := by decide
  refine ⟨fun m off hoff => ?_, fun off hoff m m' _ => ?_⟩
  · have hout : ¬(off < 0x600000 ∧ ¬IsCfg off) := hoff
    unfold IsCfg InBytes at hout
    unfold clearHighMem
    rw [if_neg (by omega), if_neg (by omega)]
  · obtain ⟨hlt, hne⟩ := hoff
    unfold IsCfg InBytes at hne
    unfold clearHighMem
    by_cases hlow : off < tensixCfgOffsetInHighMem
    · simp only [if_pos hlow]
    · have hhigh : tensixCfgOffsetInHighMem + cfgRegCount * 4 ≤ off ∧ off < 0x600000 := by omega
      simp only [if_neg hlow, if_pos hhigh]

theorem confined (a : HighAccess) (d : CoreMem) : Confined (a.Touches ·) fun m => a.exec (d.withHigh m) := by
  cases a with
  | readCfg regIdx => exact confined_readCfg regIdx d
  | writeCfg regIdx value => exact confined_writeCfg regIdx value d
  | rmwcib imm byteOffset => exact confined_rmwcib imm byteOffset d
  | storereg imm tid => exact confined_storereg imm tid d
  | loadreg imm tid => exact confined_loadreg imm tid d
  | streamLoad coreId addr => exact confined_streamLoad coreId addr d
  | streamStore fuel coreId addr data => exact confined_streamStore fuel coreId addr data d
  | cfgLoad c port => exact confined_cfgLoad c port d
  | cfgStore fuel c port data => exact confined_cfgStore fuel c port data d
  | clear => exact confined_clear d

theorem touches_lt {a : HighAccess} {off : ℕ} (ha : a ≠ clear) (h : a.Touches off) : off < highMemSize := by
  have hsize : highMemSize = 0x400000 := rfl
  have hcfg : tensixCfgOffsetInHighMem = 0x3F0000 := rfl
  have hcount : cfgRegCount = 448 := rfl
  have hhigh : highMemOffset = 0xFFB00000 := rfl
  cases a with
  | readCfg regIdx =>
    obtain ⟨hidx, hwithin⟩ := h
    unfold InBytes at hwithin
    omega
  | writeCfg regIdx value =>
    obtain ⟨hidx, hwithin⟩ := h
    unfold InBytes at hwithin
    omega
  | rmwcib imm byteOffset =>
    have hand : (imm &&& 0xFF).toNat < 2 ^ 8 := by
      rw [BitVec.toNat_and]
      exact Nat.and_lt_two_pow _ (by decide)
    have hbyte := byteOffset.isLt
    unfold Touches at h
    omega
  | storereg imm tid =>
    obtain ⟨a, hoff, hstored⟩ := h
    have hlt := mmioOffset_lt hoff
    unfold StreamStored IsUpdate InBytes at hstored
    omega
  | loadreg imm tid =>
    obtain ⟨a, hoff, hwithin⟩ := h
    have hlt := mmioOffset_lt hoff
    unfold InBytes at hwithin
    omega
  | streamLoad coreId addr =>
    have hrange := addr.2
    unfold Touches InBytes at h
    omega
  | streamStore fuel coreId addr data =>
    have hrange := addr.2
    unfold Touches StreamStored IsUpdate InBytes at h
    omega
  | cfgLoad c port => exact port.within_lt h
  | cfgStore fuel c port data => exact port.within_lt h
  | clear => exact absurd rfl ha

/-- An access stays in the 4 MB region, and a clear zeroes exactly what is no configuration register
there. -/
structure StaysInRegion (a : HighAccess) (d : CoreMem) : Prop where
  inside : d.tile.core.mem.highMem.isSome = true → ∀ off, a.Touches off → off < highMemSize
  clears : a = clear → ∀ m, d.tile.core.mem.highMem = some m →
    ∃ m', (a.exec d).2.tile.core.mem.highMem = some m' ∧
    ∀ off, (off < highMemSize ∧ ¬IsCfg off → m' off = 0) ∧
      (¬(off < highMemSize ∧ ¬IsCfg off) → m' off = m off)

theorem staysInRegion_iff (a : HighAccess) (d : CoreMem) :
    a.StaysInRegion d ↔ (a = clear → d.tile.core.mem.highMem = none) := by
  constructor
  · rintro h rfl
    cases hhigh : d.tile.core.mem.highMem with
    | none => rfl
    | some m =>
      have hbeyond : clear.Touches highMemSize := by
        unfold Touches IsCfg InBytes
        decide
      exact absurd (h.inside (by rw [hhigh]; rfl) _ hbeyond) (Nat.lt_irrefl _)
  · intro h
    refine ⟨fun hsome off htouch => ?_, fun ha m hm => ?_⟩
    · by_cases ha : a = clear
      · rw [h ha] at hsome
        cases hsome
      · exact touches_lt ha htouch
    · rw [h ha] at hm
      cases hm

end HighAccess

theorem high_accesses_in_region_iff (a : HighAccess) (d : CoreMem) :
    Confined (a.Touches ·) (fun m => a.exec (d.withHigh m)) ∧
      (a.StaysInRegion d ↔ (a = .clear → d.tile.core.mem.highMem = none)) :=
  ⟨a.confined d, a.staysInRegion_iff d⟩

theorem clear_beyond_region :
    ((HighAccess.clear.exec (CoreMem.blank.withHigh fun _ => 0xFF)).2.tile.core.mem.highMem.map fun m =>
      m 0x400000) = some 0 ∧
      ¬HighAccess.clear.StaysInRegion (CoreMem.blank.withHigh fun _ => 0xFF) := by
  refine ⟨by decide, fun h => ?_⟩
  have htouch : HighAccess.clear.Touches 0x400000 := by
    unfold HighAccess.Touches IsCfg InBytes
    decide
  exact absurd (h.inside rfl _ htouch) (by decide)

end Rv32Emu
