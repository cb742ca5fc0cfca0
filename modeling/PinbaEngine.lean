import PinbaEngine.Accounting
import PinbaEngine.ActiveReports
import PinbaEngine.Admission
import PinbaEngine.BatchEnds
import PinbaEngine.CollectorSections
import PinbaEngine.CommentParser
import PinbaEngine.Daemon
import PinbaEngine.DeleteAll
import PinbaEngine.Dictionary
import PinbaEngine.ExactReads
import PinbaEngine.ExpiryPass
import PinbaEngine.FailedRegistration
import PinbaEngine.HandlerLocks
import PinbaEngine.Handover
import PinbaEngine.HandoverRuns
import PinbaEngine.Histogram
import PinbaEngine.IndexScan
import PinbaEngine.IndexValue
import PinbaEngine.KernelDrops
import PinbaEngine.KeyInjectivity
import PinbaEngine.Keys
import PinbaEngine.LaunchSchedule
import PinbaEngine.Lib.Accumulator
import PinbaEngine.Lib.Block
import PinbaEngine.Lib.BlockMemory
import PinbaEngine.Lib.CBuffer
import PinbaEngine.Lib.Calls
import PinbaEngine.Lib.Checked
import PinbaEngine.Lib.Circular
import PinbaEngine.Lib.Compaction
import PinbaEngine.Lib.CountedHeap
import PinbaEngine.Lib.Cumulative
import PinbaEngine.Lib.Delimited
import PinbaEngine.Lib.HeapBlock
import PinbaEngine.Lib.Intrusive
import PinbaEngine.Lib.KeyedStore
import PinbaEngine.Lib.KeyedSum
import PinbaEngine.Lib.LockScope
import PinbaEngine.Lib.OwnedHeap
import PinbaEngine.Lib.PieceLoop
import PinbaEngine.Lib.SavedCursor
import PinbaEngine.Lib.SerialNumber
import PinbaEngine.Lib.SlotTable
import PinbaEngine.Lib.StripeFold
import PinbaEngine.Lib.TableRenaming
import PinbaEngine.Lib.Threads
import PinbaEngine.Lib.Turns
import PinbaEngine.LockedFetch
import PinbaEngine.LookupKeys
import PinbaEngine.MapMemory
import PinbaEngine.NaryReports
import PinbaEngine.NestedScan
import PinbaEngine.Ownership
import PinbaEngine.Percentiles
import PinbaEngine.Pipeline
import PinbaEngine.PooledAccounting
import PinbaEngine.PooledDaemon
import PinbaEngine.PooledDelete
import PinbaEngine.PooledRuns
import PinbaEngine.RawScans
import PinbaEngine.RawTables
import PinbaEngine.ReportIdentity
import PinbaEngine.ReportMemory
import PinbaEngine.ReportScan
import PinbaEngine.Reports.Base
import PinbaEngine.Reports.Common
import PinbaEngine.Reports.Exact
import PinbaEngine.Reports.Family
import PinbaEngine.Reports.Lockstep
import PinbaEngine.Reports.Rtag
import PinbaEngine.Reports.Tag
import PinbaEngine.RequestStorage
import PinbaEngine.RequestValidation
import PinbaEngine.RingGrowth
import PinbaEngine.RowMemory
import PinbaEngine.RowRuns
import PinbaEngine.RowTrees
import PinbaEngine.ScratchKeys
import PinbaEngine.ScriptReads
import PinbaEngine.StagingPools
import PinbaEngine.StagingRuns
import PinbaEngine.TableComment
import PinbaEngine.TableRegistry
import PinbaEngine.TagLifetime
import PinbaEngine.TagMatching
import PinbaEngine.TagRegistry
import PinbaEngine.TagScan
import PinbaEngine.TagValues
import PinbaEngine.ThreadPool
import PinbaEngine.TimerPool
import PinbaEngine.TimerTiling
import PinbaEngine.Types
import PinbaEngine.WakeUpRuns
import PinbaEngine.WakeUps
import PinbaEngine.XXHash
