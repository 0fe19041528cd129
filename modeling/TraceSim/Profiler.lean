/-
TraceSim/Profiler.lean

Top-down attribution (`trace_sim/Profiler.cpp`).
-/
import Mathlib.Tactic.Common

namespace TraceSim

/-- Why the front end waits; `none` stands for a front end that does not. -/
inductive FetchStallReason
  | none
  | icacheMiss
  | fetchRedirect
  | branchMispredict
  | lineBoundary
  deriving DecidableEq, Repr

/-- What bounded the fetch stage; the stage leaves it as a hint. -/
inductive BoundReason
  | none
  | icacheMiss
  | fetchRedirect
  | lineBoundary
  | traceSupply
  | other
  deriving DecidableEq, Repr

/-- Why the back end stalls: a structure that is full, a trap that waits for the pipeline
to drain, or a head of the reorder buffer that is not done. -/
inductive BackendStallReason
  | none
  | robFull
  | aluIqFull
  | lduIqFull
  | staIqFull
  | stdIqFull
  | bruIqFull
  | trapSerialize
  | memoryWait
  | execWait
  deriving DecidableEq, Repr

/-- Where a cycle is charged to.  The two back-end buckets are of the second level. -/
inductive TopDownBucket
  | retiring
  | frontendBound
  | backendMemoryBound
  | backendCoreBound
  | badSpeculation
  | other
  deriving DecidableEq, Repr

/-- Counts of events, beside the buckets. -/
structure ProfilerStats where
  totalBranches : ℕ := 0
  correctBranches : ℕ := 0
  stlfHits : ℕ := 0
  memDepStalls : ℕ := 0
  deriving DecidableEq, Repr

/-- The counters, and the values two of them had at the last reset: the report prints the
differences. -/
structure Profiler where
  totalCycles : ℕ := 0
  retiredInsts : ℕ := 0
  stats : ProfilerStats := {}
  topdownCounters : TopDownBucket → ℕ := fun _ => 0
  totalCyclesBaseline : ℕ := 0
  retiredInstsBaseline : ℕ := 0

namespace Profiler

/-- The end of the warm-up.  The clock and the count of retired instructions run on, behind
a new baseline. -/
def reset (p : Profiler) : Profiler :=
  { p with
    totalCyclesBaseline := p.totalCycles
    retiredInstsBaseline := p.retiredInsts
    stats := {}
    topdownCounters := fun _ => 0 }

/-- Called at the end of an iteration in which ops have retired, with their number. -/
def incRetiredInsts (p : Profiler) (count : ℕ) : Profiler :=
  { p with retiredInsts := p.retiredInsts + count }

/-- A load is served by an older store. -/
def incStlfHits (p : Profiler) : Profiler :=
  { p with stats := { p.stats with stlfHits := p.stats.stlfHits + 1 } }

/-- A load waits for an older store. -/
def incMemDepStalls (p : Profiler) : Profiler :=
  { p with stats := { p.stats with memDepStalls := p.stats.memDepStalls + 1 } }

/-- A branch is predicted. -/
def incTotalBranches (p : Profiler) : Profiler :=
  { p with stats := { p.stats with totalBranches := p.stats.totalBranches + 1 } }

/-- A branch is predicted as it goes. -/
def incCorrectBranches (p : Profiler) : Profiler :=
  { p with stats := { p.stats with correctBranches := p.stats.correctBranches + 1 } }

/-- The bucket `mark_cycle` charges a cycle to. -/
def bucketOf (retired : Bool) (feReason : FetchStallReason) (feActive : Bool)
    (beReason : BackendStallReason) : TopDownBucket :=
  if retired then .retiring
  else if beReason ≠ .none then
    if beReason = .memoryWait then .backendMemoryBound else .backendCoreBound
  else if feActive then
    if feReason = .branchMispredict then .badSpeculation else .frontendBound
  else .other

/-- Charge the cycle to one bucket, and take over the clock. -/
def markCycle (p : Profiler) (curCycle : ℕ) (retired : Bool)
    (feReason : FetchStallReason) (feActive : Bool)
    (beReason : BackendStallReason) : Profiler :=
  let bucket := bucketOf retired feReason feActive beReason
  { p with
    totalCycles := curCycle
    topdownCounters :=
      fun b => if b = bucket then p.topdownCounters b + 1 else p.topdownCounters b }

end Profiler

end TraceSim
