import XenAet.Library.Run
import XenAet.Library.Loops
import XenAet.Library.Buckets
import XenAet.AetControl
import XenAet.AetHistogram
import XenAet.AetTrack
import XenAet.AetTable
import XenAet.AetMass
import XenAet.AetProcess
import XenAet.AetReuse
import XenAet.AetCurve
import XenAet.Library.Bits
import XenAet.Library.Counting
import XenAet.PageEntry
import XenAet.Propagate
import XenAet.ShadowEntry
import XenAet.AetMark
import XenAet.EntryRefs
import XenAet.L4Track
import XenAet.ShadowPool
import XenAet.PendingMarks
import XenAet.PageFault
import XenAet.MmioEntry
import XenAet.AetBounds
import XenAet.PendingFlush
import XenAet.PendingTlb
import XenAet.SharedMemory
import XenAet.ShadowRefs
import XenAet.ShadowHash
import XenAet.OutOfSync
import XenAet.OosRuns
import XenAet.Library.Intervals
import XenAet.PageHeap
import XenAet.HeapSearch
import XenAet.LowMemVirq
import XenAet.BootMem
import XenAet.RangeSet
import XenAet.RangeQuery
import XenAet.RangeRemove
import XenAet.RangeAdd
import XenAet.HeapFound
import XenAet.NodeSearch
import XenAet.Library.LinkedLists
import XenAet.EventFifo
import XenAet.FifoQueues
import XenAet.FifoPending
import XenAet.FifoLink
import XenAet.GrantTable
import XenAet.GrantCopy
import XenAet.CopyBounds
import XenAet.GrantTransfer
import XenAet.Pdx
import XenAet.Vmap
import XenAet.VmapSearch
import XenAet.VmapRuns
import XenAet.Library.ByteRegion
import XenAet.HvmSave
import XenAet.HvmFraming
import XenAet.HvmRecords
import XenAet.CreditSched
import XenAet.CreditSort
import XenAet.CreditTotals
import XenAet.VirtualPic
import XenAet.PicOutput
import XenAet.IrqLines
import XenAet.IrqCounts
import XenAet.IrqRebuild
import XenAet.Library.RingBuffer
import XenAet.Vchan
import XenAet.VchanCopies
import XenAet.VchanStream
import XenAet.VchanWake
import XenAet.Library.Paths
import XenAet.XenstoreNode
import XenAet.XenstoreSilence
import XenAet.XenstoreWrite
import XenAet.XenstoreTree
import XenAet.XenstoreRemove
import XenAet.XenstoreServer
import XenAet.XenstoreRuns
import XenAet.XenstoreFailures
import XenAet.XenstoreCommit
import XenAet.XenstoreAsserts
import XenAet.Library.Zones
import XenAet.MemoryExchange
import XenAet.ExchangePages
import XenAet.ExchangeRuns
import XenAet.ExchangeSafety
import XenAet.PodCache
import XenAet.PodOps
import XenAet.PodAccounts
import XenAet.PodReclaim
import XenAet.PodRuns
import XenAet.VirtualApic
import XenAet.LapicService
import XenAet.LapicRestore
import XenAet.PlatformTimer
import XenAet.VirtualHpet
import XenAet.VirtualIoapic
import XenAet.LevelInterrupts
import XenAet.DeltaCoder
import XenAet.Library.Slots
import XenAet.Arinc653
import XenAet.Arinc653Frames
import XenAet.TraceInfo
import XenAet.PlatformTicks
import XenAet.PlatformTickSteps
import XenAet.PlatformTickRuns
import XenAet.CreditBurn
import XenAet.HvmSaveOne
import XenAet.ExchangeHolds
import XenAet.PodResize
import XenAet.PodTarget
import XenAet.PodZero
import XenAet.CreditExact
import XenAet.CpuPick
import XenAet.PicRequests
import XenAet.IrqSave
import XenAet.VchanPeer
