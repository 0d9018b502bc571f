import Rv32Emu.Cop.Mop
import Rv32Emu.Tensix.Scalar
import Rv32Emu.Tensix.Sfpu
import Rv32Emu.Tensix.Sync

namespace Rv32Emu

inductive InsnImpl
  | unimp | ttmop | ttnop | ttmopCfg | ttreplay | ttresourcedecl | ttmovd2a | ttmovdbga2d
  | ttmovd2b | ttmovb2a | ttmovdbgb2d | ttzeroacc | ttzerosrc | ttmova2d | ttmovb2d | tttrnspsrca
  | ttrareb | tttrnspsrcb | ttshiftxa | ttshiftxb | ttsetashrmh0 | ttsetashrmh1 | ttsetashrmv
  | ttsetpkedgof | ttsetashrmh | ttclrexphist | ttconv3s1 | ttconv3s2 | ttmpool3s1 | ttapool3s1
  | ttmvmul | ttelwmul | ttelwadd | ttdotpv | ttelwsub | ttmpool3s2 | ttapool3s2 | ttgmpool
  | ttgapool | ttgatesrcrst | ttcleardvalid | ttsetrwc | ttincrwc | ttsetibrwc | ttmfconv3s1
  | ttxmov | ttpacr | ttunpacr | ttunpacrNop | ttrstdma | ttsetdmareg | ttflushdma | ttreg2flop
  | ttloadind | ttpacrSetreg | tttbufcmd | ttsetadc | ttsetadcxy | ttincadcxy | ttaddrcrxy
  | ttsetadczw | ttincadczw | ttaddrcrzw | ttsetdvalid | ttadddmareg | ttsubdmareg | ttmuldmareg
  | ttbitwopdmareg | ttshiftdmareg | ttcmpdmareg | ttsetadcxx | ttdmanop | ttatincget
  | ttatincgetptr | ttatswap | ttatcas | ttstoreind | ttstorereg | ttloadreg | sfpload | sfploadi
  | sfpstore | sfplut | sfpmuli | sfpaddi | sfpdivp2 | sfpexexp | sfpexman | sfpiadd | sfpshft
  | sfpsetcc | sfpmov | sfpabs | sfpand | sfpor | sfpnot | sfplz | sfpsetexp | sfpsetman | sfpmad
  | sfpadd | sfpmul | sfppushc | sfppopc | sfpsetsgn | sfpencc | sfpcompc | sfptransp | sfpxor
  | sfpstochrnd | sfpnop | sfpcast | sfpconfig | sfpswap | sfploadMacro | sfpshft2 | sfplutfp32
  | sfple | sfpgt | sfpmul24 | sfparecip | ttatgetm | ttatrelm | ttstallwait | ttseminit
  | ttsempost | ttsemget | ttsemwait | ttstreamwait | ttwrcfg | ttrdcfg | ttsetc16 | ttrmwcib0
  | ttrmwcib1 | ttrmwcib2 | ttrmwcib3 | ttstreamwrcfg | ttcfgshiftmask
  deriving DecidableEq

def ttJumpTable : List InsnImpl := [
  -- 0x00
  .unimp, .ttmop, .ttnop, .ttmopCfg, .ttreplay, .ttresourcedecl, .unimp, .unimp, .ttmovd2a,
  .ttmovdbga2d, .ttmovd2b, .ttmovb2a, .ttmovdbgb2d, .unimp, .unimp, .unimp,
  -- 0x10
  .ttzeroacc, .ttzerosrc, .ttmova2d, .ttmovb2d, .tttrnspsrca, .ttrareb, .tttrnspsrcb, .ttshiftxa,
  .ttshiftxb, .unimp, .ttsetashrmh0, .ttsetashrmh1, .ttsetashrmv, .ttsetpkedgof, .ttsetashrmh, .unimp,
  -- 0x20
  .unimp, .ttclrexphist, .ttconv3s1, .ttconv3s2, .ttmpool3s1, .ttapool3s1, .ttmvmul, .ttelwmul,
  .ttelwadd, .ttdotpv, .unimp, .unimp, .unimp, .unimp, .unimp, .unimp,
  -- 0x30
  .ttelwsub, .ttmpool3s2, .ttapool3s2, .ttgmpool, .ttgapool, .ttgatesrcrst, .ttcleardvalid, .ttsetrwc,
  .ttincrwc, .ttsetibrwc, .ttmfconv3s1, .unimp, .unimp, .unimp, .unimp, .unimp,
  -- 0x40
  .ttxmov, .ttpacr, .ttunpacr, .ttunpacrNop, .ttrstdma, .ttsetdmareg, .ttflushdma, .unimp, .ttreg2flop,
  .ttloadind, .ttpacrSetreg, .tttbufcmd, .unimp, .unimp, .unimp, .unimp,
  -- 0x50
  .ttsetadc, .ttsetadcxy, .ttincadcxy, .ttaddrcrxy, .ttsetadczw, .ttincadczw, .ttaddrcrzw, .ttsetdvalid,
  .ttadddmareg, .ttsubdmareg, .ttmuldmareg, .ttbitwopdmareg, .ttshiftdmareg, .ttcmpdmareg, .ttsetadcxx,
  .unimp,
  -- 0x60
  .ttdmanop, .ttatincget, .ttatincgetptr, .ttatswap, .ttatcas, .unimp, .ttstoreind, .ttstorereg,
  .ttloadreg, .unimp, .unimp, .unimp, .unimp, .unimp, .unimp, .unimp,
  -- 0x70
  .sfpload, .sfploadi, .sfpstore, .sfplut, .sfpmuli, .sfpaddi, .sfpdivp2, .sfpexexp, .sfpexman,
  .sfpiadd, .sfpshft, .sfpsetcc, .sfpmov, .sfpabs, .sfpand, .sfpor,
  -- 0x80
  .sfpnot, .sfplz, .sfpsetexp, .sfpsetman, .sfpmad, .sfpadd, .sfpmul, .sfppushc, .sfppopc, .sfpsetsgn,
  .sfpencc, .sfpcompc, .sfptransp, .sfpxor, .sfpstochrnd, .sfpnop,
  -- 0x90
  .sfpcast, .sfpconfig, .sfpswap, .sfploadMacro, .sfpshft2, .sfplutfp32, .sfple, .sfpgt, .sfpmul24,
  .sfparecip, .unimp, .unimp, .unimp, .unimp, .unimp, .unimp,
  -- 0xa0
  .ttatgetm, .ttatrelm, .ttstallwait, .ttseminit, .ttsempost, .ttsemget, .ttsemwait, .ttstreamwait,
  .unimp, .unimp, .unimp, .unimp, .unimp, .unimp, .unimp, .unimp,
  -- 0xb0
  .ttwrcfg, .ttrdcfg, .ttsetc16, .ttrmwcib0, .ttrmwcib1, .ttrmwcib2, .ttrmwcib3, .ttstreamwrcfg,
  .ttcfgshiftmask, .unimp, .unimp, .unimp, .unimp, .unimp, .unimp, .unimp] ++ List.replicate 64 .unimp

def ttmopCfg (thread : TensixThreadCop) (imm : Word) : TensixThreadCop :=
  let cfgIdx := (bits imm 20 0xF).toNat
  let cfgValue := imm &&& 0xFFFFF
  if cfgIdx < 9 then { thread with mopCfg := Function.update thread.mopCfg cfgIdx cfgValue }
  else if cfgIdx = 9 then { thread with zmaskHi16 := cfgValue &&& 0xFFFF }
  else thread

def replayCount (imm : Word) : ℕ :=
  let count := (bits imm 4 0x3FF).toNat
  if count = 0 then 64 else count

def replayStart (imm : Word) : ℕ := (bits imm 14 0x1F).toNat

def ttreplay (r : Replay) (imm : Word) : Replay :=
  if bit imm 0 then
    { r with
      index := replayStart imm
      left := replayCount imm
      executeWhileLoading := bit imm 1
      recording := true }
  else
    { r with
      expanding := true
      expandStart := replayStart imm
      expandCount := replayCount imm
      expandCurrent := 0 }

def runCoreImpl (impl : InsnImpl) (tt : Tensix) (mopCfg : ℕ → Word) (imm : Word) (tid : Tid) :
    Bool × Tensix :=
  match impl with
  | .ttmvmul => ttmvmul tt mopCfg imm tid
  | .ttmova2d => ttmova2d tt imm tid
  | .ttelwmul => ttelwmul tt imm tid
  | .ttelwadd => ttelwadd tt imm tid
  | .ttelwsub => ttelwsub tt imm tid
  | .ttgmpool => ttgmpool tt imm tid
  | .ttgapool => ttgapool tt imm tid
  | .ttsetrwc => ttsetrwc tt imm tid
  | .ttunpacr => ttunpacr tt imm tid
  | .ttunpacrNop => ttunpacrNop tt imm
  | .ttmovd2a => (true, ttmovd2a tt imm tid)
  | .ttmovd2b => (true, ttmovd2b tt imm tid)
  | .ttmovb2a => (true, ttmovb2a tt imm tid)
  | .ttzeroacc => (true, ttzeroacc tt imm tid)
  | .ttzerosrc => (true, ttzerosrc tt imm)
  | .ttmovb2d => (true, ttmovb2d tt imm tid)
  | .tttrnspsrcb => (true, tttrnspsrcb tt)
  | .ttcleardvalid => (true, ttcleardvalid tt imm)
  | .ttincrwc => (true, ttincrwc tt imm tid)
  | .ttpacr => (true, ttpacr tt imm tid)
  | .ttsetdmareg => (true, ttsetdmareg tt imm tid)
  | .ttsetadc => (true, ttsetadc tt imm)
  | .ttsetadcxy => (true, ttsetadcxy tt imm)
  | .ttincadcxy => (true, ttincadcxy tt imm)
  | .ttaddrcrxy => (true, ttaddrcrxy tt imm)
  | .ttsetadczw => (true, ttsetadczw tt imm)
  | .ttincadczw => (true, ttincadczw tt imm)
  | .ttaddrcrzw => (true, ttaddrcrzw tt imm)
  | .ttsetdvalid => (true, ttsetdvalid tt imm)
  | .ttadddmareg => (true, ttadddmareg tt imm tid)
  | .ttsubdmareg => (true, ttsubdmareg tt imm tid)
  | .ttmuldmareg => (true, ttmuldmareg tt imm tid)
  | .ttbitwopdmareg => (true, ttbitwopdmareg tt imm tid)
  | .ttshiftdmareg => (true, ttshiftdmareg tt imm tid)
  | .ttcmpdmareg => (true, ttcmpdmareg tt imm tid)
  | .ttsetadcxx => (true, ttsetadcxx tt imm)
  | .ttstorereg => (true, ttstorereg tt imm tid)
  | .ttloadreg => (true, ttloadreg tt imm tid)
  | .sfpload => (true, sfpload tt imm tid)
  | .sfpstore => (true, sfpstore tt imm tid)
  | .ttatgetm => (true, ttatgetm tt imm tid)
  | .ttatrelm => (true, ttatrelm tt imm tid)
  | .ttseminit => (true, ttseminit tt imm)
  | .ttsempost => (true, ttsempost tt imm tid)
  | .ttsemget => (true, ttsemget tt imm)
  | .ttwrcfg => (true, ttwrcfg tt imm tid)
  | .ttrdcfg => (true, ttrdcfg tt imm tid)
  | .ttsetc16 => (true, ttsetc16 tt imm tid)
  | .ttrmwcib0 => (true, ttrmwcib0 tt imm)
  | .ttrmwcib1 => (true, ttrmwcib1 tt imm)
  | .ttrmwcib2 => (true, ttrmwcib2 tt imm)
  | .ttrmwcib3 => (true, ttrmwcib3 tt imm)
  | .ttcfgshiftmask => (true, ttcfgshiftmask tt imm tid)
  | .sfploadi => (true, tt.setSfpu (sfploadi tt.sfpu imm))
  | .sfpmuli => (true, tt.setSfpu (sfpmuli tt.sfpu imm))
  | .sfpaddi => (true, tt.setSfpu (sfpaddi tt.sfpu imm))
  | .sfpexexp => (true, tt.setSfpu (sfpexexp tt.sfpu imm))
  | .sfpexman => (true, tt.setSfpu (sfpexman tt.sfpu imm))
  | .sfpiadd => (true, tt.setSfpu (sfpiadd tt.sfpu imm))
  | .sfpshft => (true, tt.setSfpu (sfpshft tt.sfpu imm))
  | .sfpsetcc => (true, tt.setSfpu (sfpsetcc tt.sfpu imm))
  | .sfpmov => (true, tt.setSfpu (sfpmov tt.sfpu imm))
  | .sfpabs => (true, tt.setSfpu (sfpabs tt.sfpu imm))
  | .sfpand => (true, tt.setSfpu (sfpand tt.sfpu imm))
  | .sfpor => (true, tt.setSfpu (sfpor tt.sfpu imm))
  | .sfpnot => (true, tt.setSfpu (sfpnot tt.sfpu imm))
  | .sfpsetexp => (true, tt.setSfpu (sfpsetexp tt.sfpu imm))
  | .sfpmad => (true, tt.setSfpu (sfpMadCommon tt.sfpu imm))
  | .sfpadd => (true, tt.setSfpu (sfpMadCommon tt.sfpu imm))
  | .sfpmul => (true, tt.setSfpu (sfpMadCommon tt.sfpu imm))
  | .sfppushc => (true, tt.setSfpu (sfppushc tt.sfpu imm))
  | .sfppopc => (true, tt.setSfpu (sfppopc tt.sfpu imm))
  | .sfpsetsgn => (true, tt.setSfpu (sfpsetsgn tt.sfpu imm))
  | .sfpencc => (true, tt.setSfpu (sfpencc tt.sfpu imm))
  | .sfpcompc => (true, tt.setSfpu (sfpcompc tt.sfpu imm))
  | .sfptransp => (true, tt.setSfpu (sfptransp tt.sfpu imm))
  | .sfpxor => (true, tt.setSfpu (sfpxor tt.sfpu imm))
  | .sfpstochrnd => (true, tt.setSfpu (sfpstochrnd tt.sfpu imm))
  | .sfpcast => (true, tt.setSfpu (sfpcast tt.sfpu imm))
  | .sfpconfig => (true, tt.setSfpu (sfpconfig tt.sfpu imm))
  | .sfpswap => (true, tt.setSfpu (sfpswap tt.sfpu imm))
  | .sfplutfp32 => (true, tt.setSfpu (sfplutfp32 tt.sfpu imm))
  | .sfparecip => (true, tt.setSfpu (sfparecip tt.sfpu imm))
  -- no-operations, and handlers that only report that they are not implemented
  | _ => (true, tt)

namespace CopView

def setCore (v : CopView) (tt : Tensix) : CopView := { v with core := tt }

def setThread (v : CopView) (thread : TensixThreadCop) : CopView := { v with thread := thread }

def setReplay (v : CopView) (r : Replay) : CopView := { v with replay := r }

end CopView

def runImpl (impl : InsnImpl) (v : CopView) (imm : Word) (tid : Tid) : Bool × CopView :=
  match impl with
  | .ttmop => (true, v.setThread (tensixCopMopExpand v.thread imm))
  | .ttmopCfg => (true, v.setThread (ttmopCfg v.thread imm))
  | .ttreplay => (true, v.setReplay (ttreplay v.replay imm))
  | impl =>
    let (ok, tt) := runCoreImpl impl v.core v.thread.mopCfg imm tid
    (ok, v.setCore tt)

def insnImpl (insn : Word) : InsnImpl := ttJumpTable.getD (tensixInsnOpcode insn).toNat .unimp

def tensixExecuteInsn (v : CopView) (insn : Word) (tid : Tid) : Bool × CopView :=
  runImpl (insnImpl insn) v (tensixInsnParam insn) tid

end Rv32Emu
