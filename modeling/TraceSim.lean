import TraceSim.SimConfig
import TraceSim.Trace
import TraceSim.Profiler
import TraceSim.Lib.Scan
import TraceSim.Lib.AddressSplit
import TraceSim.Lib.Table
import TraceSim.Lib.Lists
import TraceSim.Lib.Ring
import TraceSim.Lib.BitFields
import TraceSim.Lib.Options
import TraceSim.Lib.Bytes
import TraceSim.Lib.BitPolynomial
import TraceSim.Lib.Rotation
import TraceSim.Lib.Strides
import TraceSim.Lib.SignedRange
import TraceSim.Lib.Slots
import TraceSim.Lib.ByteReader
import TraceSim.Lib.Patterns
import TraceSim.Lib.Numbering
import TraceSim.Lib.Progress
import TraceSim.Mem.ReplacementPolicy
import TraceSim.Mem.Prefetcher
import TraceSim.Mem.Cache
import TraceSim.Mem.MemSubsystem
import TraceSim.Mem.CacheTables
import TraceSim.Mem.Consistency
import TraceSim.Mem.CacheRuns
import TraceSim.Mem.Accesses
import TraceSim.Mem.Runs
import TraceSim.Mem.Returns
import TraceSim.Mem.Residency
import TraceSim.Mem.Mshrs
import TraceSim.Mem.Owners
import TraceSim.Mem.Blocked
import TraceSim.Mem.Ledger
import TraceSim.Mem.Late
import TraceSim.Mem.PrefetchQueues
import TraceSim.Mem.Latency
import TraceSim.Mem.LatencyBounds
import TraceSim.Mem.Demands
import TraceSim.Mem.StrideRuns
import TraceSim.Mem.StrideOverflow
import TraceSim.Mem.Awaited
import TraceSim.Mem.SingleMiss
import TraceSim.Mem.Views
import TraceSim.Mem.Replacement
import TraceSim.Mem.ReturnOrder
import TraceSim.Frontend.BranchPredictor
import TraceSim.Core.Sim
import TraceSim.Mem.LoadStoreUnit
import TraceSim.Frontend.Frontend
import TraceSim.Frontend.FetchSteps
import TraceSim.Frontend.FetchLog
import TraceSim.Frontend.GShareLearning
import TraceSim.Core.Stages
import TraceSim.Core.Attempts
import TraceSim.Core.Steps
import TraceSim.Core.Representation
import TraceSim.Core.Conservation
import TraceSim.Core.IssueQueues
import TraceSim.Core.StoreQueue
import TraceSim.Core.StoreDependency
import TraceSim.Core.Dependences
import TraceSim.Core.FalseDependences
import TraceSim.Core.Attribution
import TraceSim.Core.Memory
import TraceSim.Core.Accounting
import TraceSim.Core.Drain
import TraceSim.Core.Observation
import TraceSim.Core.FetchGroups
import TraceSim.Core.LoadProfile
import TraceSim.Core.LoadLatency
import TraceSim.Core.LoadLedger
import TraceSim.Core.IcacheMisses
import TraceSim.Core.Deadlines
import TraceSim.Core.Backlog
import TraceSim.Core.HeadIssue
import TraceSim.Core.Progress
import TraceSim.Core.Starvation
import TraceSim.Core.Completion
import TraceSim.Core.Erasure
import TraceSim.Core.Timeline
import TraceSim.Report.Print
import TraceSim.Report.ParseLog
import TraceSim.Report.Mismatch
import TraceSim.Ref.Decode
import TraceSim.Ref.Csr
import TraceSim.Ref.Cpu
import TraceSim.Ref.Translate
import TraceSim.Ref.Exception
import TraceSim.Ref.Alu
import TraceSim.Ref.Instructions
import TraceSim.Ref.Step
import TraceSim.Ref.Memory
import TraceSim.Ref.Sv32
import TraceSim.Ref.CarryLess
import TraceSim.Ref.MulDiv
import TraceSim.Ref.Rotates
import TraceSim.Ref.Restore
import TraceSim.Ref.Exec
import TraceSim.Ref.Flows
import TraceSim.Ref.Agreement
import TraceSim.Ref.Paths
import TraceSim.Ref.Frames
import TraceSim.Ref.Leftovers
import TraceSim.Ref.Registers
import TraceSim.Ref.TrapFlag
import TraceSim.Ref.Precise
import TraceSim.Ref.Causes
import TraceSim.Ref.Shadows
import TraceSim.Ref.TrapReturn
import TraceSim.Ref.Delegation
import TraceSim.Ref.Privilege
import TraceSim.Ref.Reservation
import TraceSim.Ref.CsrAccess
import TraceSim.Ref.Ram
import TraceSim.Ref.Amo
import TraceSim.Ref.EffectivePrivilege
import TraceSim.Ref.Bookkeeping
import TraceSim.Core.Jumps
import TraceSim.Ref.Intervals
import TraceSim.Ref.Checkpoints
import TraceSim.Ref.BasicBlocks
import TraceSim.Ref.BranchProgram
import TraceSim.Ref.BlockOverflow
import TraceSim.Ref.Records
import TraceSim.Ref.Twins
import TraceSim.System.Program
import TraceSim.System.Confinement
import TraceSim.System.Modes
