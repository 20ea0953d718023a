import UioLinuxSample.Lib.Run
import UioLinuxSample.Lib.Arena
import UioLinuxSample.Kernel
import UioLinuxSample.Lib.ShiftLoop
import UioLinuxSample.Lib.Words
import UioLinuxSample.Noschedule.Model
import UioLinuxSample.Noschedule.Pending
import UioLinuxSample.Noschedule.Duration
import UioLinuxSample.Noschedule.Enable
import UioLinuxSample.Irqoff.Model
import UioLinuxSample.Irqoff.Counting
import UioLinuxSample.Irqoff.Delayed
import UioLinuxSample.Irqoff.Configuration
import UioLinuxSample.Lib.PathTree
import UioLinuxSample.Irqoff.Init
import UioLinuxSample.Histogram
import UioLinuxSample.StackRecords
import UioLinuxSample.Runqlat.Model
import UioLinuxSample.Runqlat.Layout
import UioLinuxSample.Runqlat.Effects
import UioLinuxSample.Runqlat.Scheduler
import UioLinuxSample.Runqlat.Latency
import UioLinuxSample.Runqlat.Distribution
import UioLinuxSample.Runqlat.Disabled
import UioLinuxSample.Runqlat.Concurrent
import UioLinuxSample.Runqlat.Conserve
import UioLinuxSample.Runqlat.Blame
import UioLinuxSample.Pagemap
import UioLinuxSample.Lib.CircularList
import UioLinuxSample.Lib.LockTrace
import UioLinuxSample.Lib.Ranking
import UioLinuxSample.PgcacheScan.Model
import UioLinuxSample.PgcacheScan.OrderedList
import UioLinuxSample.PgcacheScan.Scans
import UioLinuxSample.PgcacheScan.Locks
import UioLinuxSample.PgcacheScan.Leaks
import UioLinuxSample.Lib.Loop
import UioLinuxSample.Rdma.Socket
import UioLinuxSample.Rdma.ConData
import UioLinuxSample.Rdma.Connect
import UioLinuxSample.Lib.Chain
import UioLinuxSample.ShowPci
import UioLinuxSample.TgidAvglat
import UioLinuxSample.Lib.Pattern
import UioLinuxSample.StructGraph.Model
import UioLinuxSample.Lib.Resolve
import UioLinuxSample.StructGraph.Lines
import UioLinuxSample.StructGraph.Refines
import UioLinuxSample.StructGraph.Edges
import UioLinuxSample.Lib.SortedInsert
import UioLinuxSample.Dichotomy
import UioLinuxSample.Lib.Buffer
import UioLinuxSample.HistogramDraw
import UioLinuxSample.Runqlat.Buckets
import UioLinuxSample.Lib.Tiling
import UioLinuxSample.Lib.Hex
import UioLinuxSample.Maps
import UioLinuxSample.Lib.Nesting
import UioLinuxSample.StructGraph.Blocks
import UioLinuxSample.StructGraph.Nested
import UioLinuxSample.Rdma.Session
import UioLinuxSample.Rdma.Barriers
import UioLinuxSample.Rdma.Messages
import UioLinuxSample.Lib.Ownership
import UioLinuxSample.Rdma.Resources
import UioLinuxSample.Lib.WeakMemory
import UioLinuxSample.SharedRecords
import UioLinuxSample.ConcurrentShow
import UioLinuxSample.Lib.Tally
import UioLinuxSample.ConcurrentCounts
import UioLinuxSample.Loading
import UioLinuxSample.Lib.GracePeriod
import UioLinuxSample.Unloading
import UioLinuxSample.Userns
import UioLinuxSample.Wakeup
import UioLinuxSample.Lib.DeadBand
import UioLinuxSample.Lib.Rounding
import UioLinuxSample.Autoballoon
import UioLinuxSample.Lib.Runs
import UioLinuxSample.PageOwnerSort
import UioLinuxSample.Lib.CriticalSection
import UioLinuxSample.PgcacheScan.Concurrent
