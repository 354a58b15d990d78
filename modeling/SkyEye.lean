import SkyEye.Arm.Banking
import SkyEye.Arm.Exception
import SkyEye.Arm.AbortModel
import SkyEye.Mmu.Translation
import SkyEye.Mmu.Arm7100
import SkyEye.Lib.Memo
import SkyEye.Mmu.FaultingStore
import SkyEye.Mmu.CacheWords
import SkyEye.Mmu.Layers
import SkyEye.Mmu.Wb
import SkyEye.Mmu.Transparent
import SkyEye.Mmu.Faults
import SkyEye.Mmu.ReadBuffer
import SkyEye.Mmu.FlushSweep
import SkyEye.Mmu.Buffered
import SkyEye.Mmu.Cp15ReadBack
import SkyEye.Arm.Events
import SkyEye.Gdb.Frames
import SkyEye.Gdb.Replay
import SkyEye.Gdb.Overrun
import SkyEye.Memory.Load
import SkyEye.Memory.MemMap
import SkyEye.Sparc.Precise
import SkyEye.Sparc.TrapReturn
import SkyEye.Arm.LoadAbort
import SkyEye.Arm.Double
import SkyEye.Mmu.Icache
import SkyEye.ColdFire.Nesting
import SkyEye.Mips.Isolation
import SkyEye.Mips.LlSc
import SkyEye.Mips.MulDiv
import SkyEye.Mips.Shifts
import SkyEye.Mips.Unaligned
import SkyEye.Ppc.Storage
import SkyEye.Sparc.Decoder
import SkyEye.Thumb.Fetch
import SkyEye.Thumb.HighRegs
import SkyEye.Thumb.Accepts
import SkyEye.Thumb.Blocks
import SkyEye.Arm.Dsp
import SkyEye.Arm.Msr
import SkyEye.Arm.RegScan
import SkyEye.Arm.Swap
import SkyEye.Arm.UserChecks
import SkyEye.Arm.ModeRegs
import SkyEye.Arm.LongMultiply
import SkyEye.Ppc.Rfi
import SkyEye.Ppc.Reservation
import SkyEye.Flash.Redispatch
import SkyEye.Flash.Protection
import SkyEye.Nand.Runs
import SkyEye.Net.ReceiveRing
import SkyEye.Ppc.Delivery
import SkyEye.Lib.SlotSet
import SkyEye.Lib.FirstAnswer
import SkyEye.Gdb.Breakpoints
import SkyEye.Memory.Io
import SkyEye.Config.ReadConfig
import SkyEye.Config.ParseLine
import SkyEye.Gdb.TracePacket
import SkyEye.Gdb.Qtdp
import SkyEye.Gdb.TracepointTable
import SkyEye.Gdb.Counting
import SkyEye.Profile.CodeCov
import SkyEye.Sparc.CondCodes
import SkyEye.Sparc.MulStep
import SkyEye.Sparc.MulDiv
import SkyEye.Sparc.Shifts
import SkyEye.Sparc.Branches
import SkyEye.Memory.ReadBack
import SkyEye.Sparc.LoadStore
import SkyEye.Sparc.Leon2Timer
import SkyEye.Ppc.Carry
import SkyEye.ColdFire.Addressing
import SkyEye.ColdFire.Arith
import SkyEye.ColdFire.Branch
import SkyEye.ColdFire.Shift
import SkyEye.ColdFire.Divide
import SkyEye.Mips.TlbInstr
import SkyEye.Mips.Refill
import SkyEye.Mips.DelaySlot
import SkyEye.Ppc.TlbInstr
import SkyEye.Ppc.TlbSearch
import SkyEye.Gdb.HexText
import SkyEye.Mmu.WbRing
import SkyEye.Ppc.Rotate
import SkyEye.Ppc.CompareBranch
import SkyEye.Ppc.Pages
import SkyEye.Ppc.Strings
import SkyEye.Uart.Telnet
import SkyEye.Uart.TelnetInput
import SkyEye.Net.RemoteDma
import SkyEye.Net.DmaTransfer
import SkyEye.Gdb.ActionHeap
import SkyEye.Gdb.ActionWalk
import SkyEye.Gdb.ActionRuns
import SkyEye.Flash.Sectors
import SkyEye.Flash.Jedec
import SkyEye.Flash.JedecRuns
import SkyEye.Ppc.FpuRuns
import SkyEye.Bfin.Defs
import SkyEye.Bfin.Divide
import SkyEye.Bfin.Mac
