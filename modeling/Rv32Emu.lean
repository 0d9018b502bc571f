import Rv32Emu.Tensix.Scalar
import Rv32Emu.Tensix.Sfpu
import Rv32Emu.Tensix.Sync
import Rv32Emu.Cop.PathAgreement
import Rv32Emu.Cop.PackPipeline
import Rv32Emu.Cop.Recording
import Rv32Emu.Cop.EffectOrder
import Rv32Emu.Cop.Isolation
import Rv32Emu.Cop.Mutexes
import Rv32Emu.Cop.BankHandoff
import Rv32Emu.Cop.AutoWait
import Rv32Emu.Lib.BlockFloat
import Rv32Emu.Tile.Mailbox
import Rv32Emu.Tensix.Bfp8
import Rv32Emu.Tensix.Tile
import Rv32Emu.Tensix.TileRoundTrip
import Rv32Emu.Rv.Insn
import Rv32Emu.Rv.Machine
import Rv32Emu.Rv.Translate
import Rv32Emu.Rv.Execute
import Rv32Emu.Rv.MailTrace
import Rv32Emu.Rv.Messages
import Rv32Emu.Rv.BlockingLoad
import Rv32Emu.Rv.Blocks
import Rv32Emu.Rv.Budget
import Rv32Emu.Rv.Frames
import Rv32Emu.Rv.Occupancy
import Rv32Emu.Cop.Termination
import Rv32Emu.Rv.Cached
import Rv32Emu.Rv.Extensions
import Rv32Emu.Rv.WellFormed
import Rv32Emu.Rv.Zero
import Rv32Emu.Rv.BlockRun
import Rv32Emu.Rv.Folding
import Rv32Emu.Rv.Groups
import Rv32Emu.Rv.Fusion
import Rv32Emu.Rv.MatchPattern
import Rv32Emu.Cop.IssueState
import Rv32Emu.Cop.Reset
import Rv32Emu.Tile.Clear
import Rv32Emu.Lib.RoutedMemory
import Rv32Emu.Tile.Mmio
import Rv32Emu.Tile.Widths
import Rv32Emu.Lib.Lanes
import Rv32Emu.Tensix.Lanes
import Rv32Emu.Tile.HostMap
import Rv32Emu.Cop.Predication
import Rv32Emu.Cop.FlagFrames
import Rv32Emu.Cop.Conditionals
import Rv32Emu.Lib.Counters
import Rv32Emu.Tile.Semaphores
import Rv32Emu.Tile.CfgWrites
import Rv32Emu.Lib.Writes
import Rv32Emu.Tensix.PackWrites
import Rv32Emu.Tensix.PackRange
import Rv32Emu.Tensix.Tileize
import Rv32Emu.Tile.KernelSwitch
import Rv32Emu.Tile.L1Bounds
import Rv32Emu.Tile.HighRegion
import Rv32Emu.Rv.Encoding
import Rv32Emu.Rv.InsnDispatch
import Rv32Emu.Rv.Freshness
import Rv32Emu.Rv.Closing
import Rv32Emu.Rv.Chaining
import Rv32Emu.Rv.Unchained
import Rv32Emu.Cop.Eager
import Rv32Emu.Lib.Probing
import Rv32Emu.Rv.BlockMap
import Rv32Emu.Lib.Links
import Rv32Emu.Rv.Mpool
import Rv32Emu.Tile.StreamCredits
import Rv32Emu.Tile.Windows
import Rv32Emu.Tile.InstrnBuf
import Rv32Emu.Lib.FloatFormat
import Rv32Emu.Tensix.Half
import Rv32Emu.Tensix.HalfRoundTrip
import Rv32Emu.Tensix.StochasticRounding
import Rv32Emu.Cop.VectorRegisters
import Rv32Emu.Tile.VectorConstants
import Rv32Emu.Rv.Reference
import Rv32Emu.Cop.ArrayBounds
import Rv32Emu.Tile.Safety
import Rv32Emu.Rv.Devices
import Rv32Emu.Tile.Machine
import Rv32Emu.Lib.Lfsr
import Rv32Emu.Tensix.Prng
