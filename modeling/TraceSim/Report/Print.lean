/-
TraceSim/Report/Print.lean

The text `TraceSim::run` prints: the banner, the statistics of the warm-up phase and
of the whole run, and the lines about the end of the trace and the time limit.

* A text is the list of its characters; `std::endl` is the character `'\n'`.
* `fixed p num scale den` is the text `std::fixed << std::setprecision(p)` gives the
  double `num * scale / den`.  Floating point is left open: a `FloatFormat` is any way
  to write these numbers with digits and points.
* What the guest program writes to its console is no part of the text.
-/
import TraceSim.Core.Steps

namespace TraceSim

/-! ### Texts -/

abbrev Text := List Char

/-- The characters of a literal. -/
abbrev str (s : String) : Text := s.toList

/-- An unsigned number as `operator<<` writes it. -/
def dec (n : ℕ) : Text := Nat.toDigits 10 n

/-- A number after `std::hex`. -/
def hex (n : ℕ) : Text := Nat.toDigits 16 n

/-- Subtraction of `uint64_t` counters: it wraps around below zero. -/
def u64Sub (a b : ℕ) : ℕ := if b ≤ a then a - b else 2 ^ 64 + a - b

structure FloatFormat where
  fixed : (precision num scale den : ℕ) → Text
  chars : ∀ precision num scale den, 0 < den →
    ∀ c ∈ fixed precision num scale den, c.isDigit ∨ c = '.'

/-! ### Profiler -/

namespace Profiler

def bucketToString : TopDownBucket → Text
  | .retiring => str "Retiring"
  | .frontendBound => str "Frontend Bound"
  | .backendMemoryBound => str "Memory Bound"
  | .backendCoreBound => str "Core Bound"
  | .badSpeculation => str "Bad Speculation"
  | .other => str "Other/Bubbles"

def printOrder : List TopDownBucket :=
  [.retiring, .badSpeculation, .frontendBound, .backendMemoryBound, .backendCoreBound, .other]

/-- One line of the attribution matrix. -/
def bucketLine (fmt : FloatFormat) (bucket : TopDownBucket) (count relCycles : ℕ) : Text :=
  [str "  [", (bucketToString bucket).rightpad 20 ' ', str "]: ",
    (fmt.fixed 1 count 100 relCycles).leftpad 6 ' ', str "% ", str "(", dec count,
    str " cycles)\n"].flatten

def printSummary (fmt : FloatFormat) (p : Profiler) : Text :=
  let relInst := u64Sub p.retiredInsts p.retiredInstsBaseline
  let relCycles := u64Sub p.totalCycles p.totalCyclesBaseline
  [str "\n==============================================\n",
    str "          SIMULATION PROFILER REPORT          \n",
    str "==============================================\n",
    str "Execution Metrics:\n",
    str "  Retired Instructions: ", dec relInst, str "\n",
    str "  Total Cycles:         ", dec relCycles, str "\n",
    if 0 < relCycles then
      [str "  Overall IPC:          ", fmt.fixed 2 relInst 1 relCycles, str "\n"].flatten
    else [],
    str "\nTop-Down Attribution Matrix:\n",
    if 0 < relCycles then
      (printOrder.map fun bucket =>
        bucketLine fmt bucket (p.topdownCounters bucket) relCycles).flatten
    else [],
    str "\nBranch Prediction:\n",
    if 0 < p.stats.totalBranches then
      [str "  Total Branches:       ", dec p.stats.totalBranches, str "\n",
        str "  Accuracy:             ",
        fmt.fixed 2 p.stats.correctBranches 100 p.stats.totalBranches, str "%\n"].flatten
    else [],
    str "\nMemory Statistics:\n",
    str "  STLF Hits:            ", dec p.stats.stlfHits, str "\n",
    str "  Memory Dep Stalls:    ", dec p.stats.memDepStalls, str "\n",
    str "==============================================\n\n"].flatten

end Profiler

/-! ### Memory subsystem -/

/-- The access count `print_cache_stats` prints. -/
def accessCount (cur base : CacheCounters) : ℕ := u64Sub cur.access base.access

def printCacheStats (name : Text) (cur base : CacheCounters) : Text :=
  [str "  ", name, str ": hit/access=", dec (u64Sub cur.hit base.hit), str "/",
    dec (accessCount cur base),
    str ", miss_new=", dec (u64Sub cur.missNew base.missNew),
    str ", miss_merged=", dec (u64Sub cur.missMerged base.missMerged),
    str ", miss_blocked=", dec (u64Sub cur.missBlocked base.missBlocked), str "\n",
    str "    prefetch: issued=", dec (u64Sub cur.prefetch base.prefetch),
    str ", filtered_inflight=",
    dec (u64Sub cur.prefetchFilteredInflight base.prefetchFilteredInflight),
    str ", hit=", dec (u64Sub cur.prefetchHit base.prefetchHit),
    str ", dropped=", dec (u64Sub cur.prefetchDropped base.prefetchDropped),
    str ", fills=", dec (u64Sub cur.prefetchFill base.prefetchFill),
    str ", useful=", dec (u64Sub cur.usefulPrefetch base.usefulPrefetch),
    str ", useless=", dec (u64Sub cur.uselessPrefetch base.uselessPrefetch),
    str ", merged_with_prefetch=",
    dec (u64Sub cur.demandMergedWithPrefetch base.demandMergedWithPrefetch),
    str ", late=", dec (u64Sub cur.latePrefetch base.latePrefetch), str "\n"].flatten

/-- The line of a prefetch queue. -/
def printQueueStats (name : Text) (cur base : QueueCounterSnapshot) : Text :=
  [str "  ", name, str ": filtered_hit=", dec (u64Sub cur.filteredHit base.filteredHit),
    str ", queue_dup=", dec (u64Sub cur.duplicate base.duplicate),
    str ", queue_drop=", dec (u64Sub cur.drop base.drop), str "\n"].flatten

def MemSubsystem.printStats {P : Type} (m : MemSubsystem P) : Text :=
  [str "Raw Cache Stats:\n",
    printCacheStats (str "I-Cache") m.icache.counters m.baselines.icache,
    printCacheStats (str "D-Cache") m.dcache.counters m.baselines.dcache,
    printCacheStats (str "LLC") m.llc.counters m.baselines.llc,
    str "Prefetch Queue Stats:\n",
    printQueueStats (str "I-Cache") m.icachePrefetch.stats m.baselines.icacheQueue,
    printQueueStats (str "D-Cache") m.dcachePrefetch.stats m.baselines.dcacheQueue].flatten

/-! ### The run -/

namespace Sim

variable {P B : Type}

/-- The load profile, the last part of `print_stats`. -/
def printLoadProfile (fmt : FloatFormat) (s : Sim P B) : Text :=
  let cur := s.loadProfileStats
  let base := s.loadProfileBaseline
  let total := u64Sub cur.total base.total
  [str "Load Profile:\n",
    str "  total=", dec total, str ", dependent=", dec (u64Sub cur.dependent base.dependent),
    str ", stlf=", dec (u64Sub cur.stlf base.stlf),
    str ", l1_hit=", dec (u64Sub cur.l1Hit base.l1Hit),
    str ", l2_hit=", dec (u64Sub cur.l2Hit base.l2Hit),
    str ", dram=", dec (u64Sub cur.dram base.dram),
    if 0 < total then
      [str ", avg_latency=",
        fmt.fixed 2 (u64Sub cur.totalLatency base.totalLatency) 1 total].flatten
    else [],
    str "\n"].flatten

def printStats (cfg : Config P B) (fmt : FloatFormat) (s : Sim P B) : Text :=
  [s.profiler.printSummary fmt, s.mem.printStats,
    if cfg.enableDependentLoadProfiling then s.printLoadProfile fmt else []].flatten

/-- What `run()` prints before the loop. -/
def banner (cfg : Config P B) : Text :=
  [str "Starting Out-of-Order Trace-based Simulation...\n",
    str "Config: FetchWidth=", dec cfg.fetchBandwidth,
    str ", DispatchWidth=", dec cfg.dispatchWidth,
    str ", CommitWidth=", dec cfg.commitWidth, str "\n",
    str "Resources: ROB=", dec cfg.robSize,
    str ", ALU_IQ=", dec cfg.aluIqSize, str ", LDU_IQ=", dec cfg.lduIqSize,
    str ", STA_IQ=", dec cfg.staIqSize, str ", STD_IQ=", dec cfg.stdIqSize,
    str ", BRU_IQ=", dec cfg.bruIqSize, str "\n"].flatten

/-- What `advance_cycle` prints: the statistics of a warm-up phase that ends. -/
def printWarmup (cfg : Config P B) (fmt : FloatFormat) (s : Sim P B) : Text :=
  if s.inWarmup ∧ s.instructionsRetired ≥ cfg.warmupInstructions then
    [str "\n--- WARMUP PHASE STATISTICS ---\n", s.printStats cfg fmt].flatten
  else []

/-- What `frontend_acquire_trace_inst` prints about a record it took from the
reference CPU. -/
def printEncounter (inst : TraceInst) : Text :=
  if inst.isWfi || inst.isEbreak then
    [if inst.isWfi then str "WFI" else str "EBREAK", str " encountered at PC: 0x",
      hex inst.pc.toNat, str "\n"].flatten
  else []

section Run

variable [CachePrefetcher P] [BranchPredictor B]

/-- What one iteration of the loop prints.  Only its fetch stage takes records. -/
def printCycle (cfg : Config P B) (env : Env) (fmt : FloatFormat) (s : Sim P B) : Text :=
  let taken :=
    List.range' s.refCpu.steps ((s.cycle cfg env).refCpu.steps - s.refCpu.steps)
  [(s.upTo cfg env .advance).printWarmup cfg fmt,
    (taken.map fun k => printEncounter (env.stream k)).flatten].flatten

/-- What `run()` prints after the loop has ended in state `s`. -/
def printEnd (cfg : Config P B) (fmt : FloatFormat) (s : Sim P B) : Text :=
  [if s.totalCycles > maxSimTime then str "Simulation timeout reached!\n" else [],
    s.printStats cfg fmt].flatten

/-- The states of a run at the test of its loop, with the text printed so far. -/
inductive Printed (cfg : Config P B) (env : Env) (fmt : FloatFormat) : Sim P B → Text → Prop
  | start : Printed cfg env fmt (Sim.new cfg) (banner cfg)
  | cycle {s t} : Printed cfg env fmt s t → s.running →
      Printed cfg env fmt (s.cycle cfg env) (t ++ s.printCycle cfg env fmt)

/-- A run that ends in state `s` and has printed `t`. -/
inductive Reported (cfg : Config P B) (env : Env) (fmt : FloatFormat) :
    Sim P B → Text → Prop
  | done {s t} : Printed cfg env fmt s t → ¬ s.running →
      Reported cfg env fmt s (t ++ s.printEnd cfg fmt)

end Run

end Sim

end TraceSim
