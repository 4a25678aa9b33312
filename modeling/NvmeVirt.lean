import NvmeVirt.Core.Transition
import NvmeVirt.Core.Replies
import NvmeVirt.Core.Latest
import NvmeVirt.Core.Counting
import NvmeVirt.Core.BinaryHeap
import NvmeVirt.Core.MixedRadix
import NvmeVirt.Core.LinkedArray
import NvmeVirt.Core.ChunkWalk
import NvmeVirt.Core.Segments
import NvmeVirt.Core.InFlight
import NvmeVirt.Core.WriteLog
import NvmeVirt.Core.Tiling
import NvmeVirt.Core.Walk
import NvmeVirt.Core.ByteMap
import NvmeVirt.Core.Probing
import NvmeVirt.Core.Ring
import NvmeVirt.Core.PhaseRing
import NvmeVirt.Core.Greedy
import NvmeVirt.Core.DueOrder
import NvmeVirt.Core.Scatter
import NvmeVirt.Core.Batches
import NvmeVirt.Device.IoUnits
import NvmeVirt.Device.Kernel
import NvmeVirt.Device.Layout
import NvmeVirt.Device.Bandwidth
import NvmeVirt.Device.CreditTable
import NvmeVirt.Device.CreditRing
import NvmeVirt.Device.CreditOrder
import NvmeVirt.Device.BandwidthRange
import NvmeVirt.Device.Timing
import NvmeVirt.Conv.VictimQueue
import NvmeVirt.Conv.PriorityQueue
import NvmeVirt.Conv.Superblock
import NvmeVirt.Conv.Bookkeeping
import NvmeVirt.Conv.GarbageCollection
import NvmeVirt.Conv.DieRoom
import NvmeVirt.Conv.GcConsistency
import NvmeVirt.Conv.Startup
import NvmeVirt.Conv.HandOut
import NvmeVirt.Conv.LineTable
import NvmeVirt.Conv.Write
import NvmeVirt.Conv.WriteBuffer
import NvmeVirt.Conv.Partitions
import NvmeVirt.Conv.ReadMerge
import NvmeVirt.Conv.WriteRange
import NvmeVirt.Io.ProcTable
import NvmeVirt.Io.Lists
import NvmeVirt.Io.Worker
import NvmeVirt.Io.IoOrder
import NvmeVirt.Io.Posting
import NvmeVirt.Io.Drain
import NvmeVirt.Io.Results
import NvmeVirt.Io.Dispatch
import NvmeVirt.Io.Doorbells
import NvmeVirt.Io.EndToEnd
import NvmeVirt.Io.Transfers
import NvmeVirt.Admin.Requests
import NvmeVirt.Io.CompletionRing
import NvmeVirt.Io.Interrupts
import NvmeVirt.Io.CompletionDoorbells
import NvmeVirt.Admin.Completions
import NvmeVirt.Admin.Registers
import NvmeVirt.Zns.Zones
import NvmeVirt.Zns.MgmtSend
import NvmeVirt.Zns.ReadWrite
import NvmeVirt.Zns.ZoneMoves
import NvmeVirt.Zns.WriteCases
import NvmeVirt.Zns.Commands
import NvmeVirt.Zns.MgmtRecv
import NvmeVirt.Zns.Resources
import NvmeVirt.Zns.FailedWrites
import NvmeVirt.Zns.WriteStatus
import NvmeVirt.Zns.ZrwaWindow
import NvmeVirt.Zns.Resets
import NvmeVirt.Zns.Reservations
import NvmeVirt.Zns.WritePointers
import NvmeVirt.Zns.ZoneLog
import NvmeVirt.Zns.OneshotPages
import NvmeVirt.Zns.ZoneAddresses
import NvmeVirt.Zns.Stripes
import NvmeVirt.Zns.Reads
import NvmeVirt.Zns.Flush
import NvmeVirt.Zns.Filling
import NvmeVirt.Zns.Buffers
import NvmeVirt.Hybrid.Config
import NvmeVirt.Hybrid.DieTimes
import NvmeVirt.Hybrid.IdleTime
import NvmeVirt.Conv.Flush
import NvmeVirt.Hybrid.Mapping
import NvmeVirt.Hybrid.Startup
import NvmeVirt.Hybrid.Odometer
import NvmeVirt.Hybrid.DieWrites
import NvmeVirt.Hybrid.Migration
import NvmeVirt.Hybrid.Tiers
import NvmeVirt.Hybrid.Hotness
import NvmeVirt.Hybrid.TierTags
import NvmeVirt.Hybrid.TierCounts
import NvmeVirt.Hybrid.GarbageCollection
import NvmeVirt.Hybrid.TwoTables
import NvmeVirt.Hybrid.DieLines
import NvmeVirt.Hybrid.MigrationFrame
import NvmeVirt.Hybrid.InitParams
import NvmeVirt.Hybrid.Shapes
import NvmeVirt.Hybrid.DerivedCounts
import NvmeVirt.Hybrid.PageNumbers
import NvmeVirt.Hybrid.GcGeometry
import NvmeVirt.Hybrid.AdvertisedSize
import NvmeVirt.Io.Namespaces
import NvmeVirt.Hybrid.Classifier
import NvmeVirt.Kv.Mapping
import NvmeVirt.Kv.Lookup
import NvmeVirt.Kv.TableChanges
import NvmeVirt.Kv.Chains
import NvmeVirt.Kv.Owners
import NvmeVirt.Kv.Allocators
import NvmeVirt.Kv.BitmapRuns
import NvmeVirt.Kv.Commands
import NvmeVirt.Kv.Stores
import NvmeVirt.Kv.Extents
import NvmeVirt.Kv.ReadBack
import NvmeVirt.Kv.FiniteMap
import NvmeVirt.Kv.Clients
import NvmeVirt.Kv.Payload
import NvmeVirt.Kv.Iterators
import NvmeVirt.Kv.Batches
