import HaiirOS.Proofs.FrameRuns
import HaiirOS.Proofs.Refinement
import HaiirOS.Proofs.FrameEffect
import HaiirOS.Proofs.Rights
import HaiirOS.Proofs.SoftwareWalk
import HaiirOS.Proofs.PmmFree
import HaiirOS.Proofs.AllOrNothing
import HaiirOS.Proofs.MmapEffects
import HaiirOS.Proofs.EventRing
import HaiirOS.Proofs.CmdRing
import HaiirOS.Proofs.InitStores
import HaiirOS.Proofs.FrameBalance
import HaiirOS.Proofs.PciWalk
import HaiirOS.Proofs.Capabilities
import HaiirOS.Proofs.Bar
import HaiirOS.Proofs.UserFrames
import HaiirOS.Proofs.AhciPrdt
import HaiirOS.Proofs.IrqLines
import HaiirOS.Proofs.IrqRouting
import HaiirOS.Proofs.IrqTables
import HaiirOS.Proofs.IrqAlloc
import HaiirOS.Proofs.AcpiMapping
import HaiirOS.Proofs.SyscallGuard
import HaiirOS.Proofs.BounceBuffer
import HaiirOS.Proofs.Redirection
import HaiirOS.Proofs.TaskAllOrNothing
import HaiirOS.Proofs.FrameIntervals
import HaiirOS.Proofs.BiosHandoff
import HaiirOS.Proofs.Format
import HaiirOS.Proofs.Cursor
import HaiirOS.Proofs.FrameMap
import HaiirOS.Proofs.TwinMaps
import HaiirOS.Proofs.FreshMemory
import HaiirOS.Proofs.TlbCoherence
import HaiirOS.Proofs.BitmapPlacement
import HaiirOS.Proofs.Erase
import HaiirOS.Proofs.TaskEntry
import HaiirOS.Proofs.Pins
import HaiirOS.Proofs.Pic
import HaiirOS.Proofs.LocalApic
import HaiirOS.Proofs.AhciData
import HaiirOS.Proofs.InitMemory
import HaiirOS.Proofs.DriverMemory
import HaiirOS.Proofs.Completions
