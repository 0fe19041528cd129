/-
TraceSim/Core/Sim.lean

The state of the timing model (`trace_sim/TraceSim.h`) and its small methods.

The reference CPU is seen through `Ref_cpu::step` alone: the records its calls
return form a stream, and `RefCpu` counts the calls.  A call that ends the
process ends the run, which is then one of the finite runs of the stream.

* `rob` maps a slot to the entry stored there; the registers index functions.
* `instsBefore`, `commitStall` and `backendStall` are the locals of `run()`.
* `hist` holds history variables.  They are written beside the operation they
  record and no operation reads them.
-/
import TraceSim.Trace
import TraceSim.Profiler
import TraceSim.Frontend.BranchPredictor
import TraceSim.Mem.MemSubsystem

namespace TraceSim

/-! ### Configuration and environment -/

/-- The constructor arguments of `TraceSim` and the constants of `SimConfig.h`
it uses, with the shipped values. -/
structure Config (P B : Type) where
  mem : MemConfig P
  bp : B
  mode : SimMode := .trace
  fetchBandwidth : ℕ := 8
  dispatchWidth : ℕ := 6
  commitWidth : ℕ := 6
  robSize : ℕ := 256
  aluIqSize : ℕ := 64
  lduIqSize : ℕ := 48
  staIqSize : ℕ := 32
  stdIqSize : ℕ := 32
  bruIqSize : ℕ := 32
  instBufferSize : ℕ := 64
  maxInstructions : ℕ := 0
  enableDependentLoadProfiling : Bool := true
  aluCount : ℕ := 4
  lduCount : ℕ := 2
  staCount : ℕ := 2
  stdCount : ℕ := 2
  bruCount : ℕ := 2
  bpType : BpType := .gshare
  bpTargetAccuracy : ℕ := 95
  memDepModel : MemDepModel := .oracleStlf
  enableStlf : Bool := true
  warmupInstructions : ℕ := 1000000
  sampleInstructions : ℕ := 10000000

def shippedConfig : Config BuiltinPrefetcher BuiltinPredictor where
  mem := shippedMemConfig
  bp := makeBranchPredictor .gshare

/-- What the simulator does not decide: the records the reference CPU returns,
the iteration orders of the three hash tables at each cycle, and the values of
`rand()`. -/
structure Env where
  stream : ℕ → TraceInst
  itable : ℕ → TableOrder := fun _ => default
  dtable : ℕ → TableOrder := fun _ => default
  ltable : ℕ → TableOrder := fun _ => default
  random : ℕ → ℕ := fun _ => 0

/-! ### State -/

/-- The reference CPU: how often `step` was called, and the flag `sim_end`. -/
structure RefCpu where
  steps : ℕ := 0
  simEnd : Bool := false
  deriving DecidableEq, Repr

structure RegWriterInfo where
  valid : Bool := false
  entryId : ℕ := 0
  isLoad : Bool := false
  pc : BitVec 32 := 0
  deriving DecidableEq, Repr

structure LoadProfileSnapshot where
  total : ℕ := 0
  dependent : ℕ := 0
  stlf : ℕ := 0
  l1Hit : ℕ := 0
  l2Hit : ℕ := 0
  dram : ℕ := 0
  totalLatency : ℕ := 0
  deriving DecidableEq, Repr

/-- History variables. -/
structure History where
  /-- the retired entries, oldest first -/
  retired : List OpEntry := []
  /-- calls of `Ref_cpu::step` made while `sim_end` was set -/
  stepsAfterEnd : ℕ := 0
  /-- records `frontend_requeue_trace_inst` threw away -/
  droppedRequeues : ℕ := 0
  /-- for each register, the entry id of the op that last wrote its ready time -/
  lastMark : Fin 32 → Option ℕ := fun _ => none

structure Sim (P B : Type) where
  refCpu : RefCpu := {}
  bp : B
  randomCalls : ℕ := 0
  profiler : Profiler := {}
  mem : MemSubsystem P
  totalCycles : ℕ := 0
  instructionsRetired : ℕ := 0
  nextEntryId : ℕ := 0
  regReadyTime : Fin 32 → ℕ := fun _ => 0
  rob : ℕ → OpEntry := fun _ => {}
  robHead : ℕ := 0
  robTail : ℕ := 0
  robCount : ℕ := 0
  aluIq : List ℕ := []
  lduIq : List ℕ := []
  staIq : List ℕ := []
  stdIq : List ℕ := []
  bruIq : List ℕ := []
  storeIndices : List ℕ := []
  instBuffer : List OpEntry := []
  preFetchBuffer : List TraceInst := []
  fetchQueue : List OpEntry := []
  fetchStallUntil : ℕ := 0
  fetchStallReason : FetchStallReason := .none
  frontendBoundHint : BoundReason := .none
  inWarmup : Bool := false
  regLastWriter : Fin 32 → RegWriterInfo := fun _ => {}
  regLastCommittedWriter : Fin 32 → RegWriterInfo := fun _ => {}
  instRetiredBaseline : ℕ := 0
  totalCyclesBaseline : ℕ := 0
  loadProfileBaseline : LoadProfileSnapshot := {}
  loadProfileStats : LoadProfileSnapshot := {}
  instsBefore : ℕ := 0
  commitStall : BackendStallReason := .none
  backendStall : BackendStallReason := .none
  hist : History := {}

namespace Sim

variable {P B : Type}

/-- The constructor. -/
def new (cfg : Config P B) : Sim P B where
  bp := cfg.bp
  mem := MemSubsystem.new cfg.mem
  inWarmup := decide (cfg.mode = .restore) && decide (cfg.warmupInstructions > 0)

/-! ### Front-end methods -/

def setFetchStall (s : Sim P B) (until_ : ℕ) (reason : FetchStallReason) : Sim P B :=
  if until_ > s.fetchStallUntil then
    { s with fetchStallUntil := until_, fetchStallReason := reason }
  else s

def frontendStallActive (s : Sim P B) : Bool := decide (s.totalCycles < s.fetchStallUntil)

def frontendCanFetch (cfg : Config P B) (s : Sim P B) : Bool :=
  !s.frontendStallActive && decide (s.instBuffer.length < cfg.instBufferSize)

def frontendTraceExhausted (s : Sim P B) : Bool :=
  s.refCpu.simEnd && s.preFetchBuffer.isEmpty

/-- The method `Ref_cpu::step`: the next record of the stream.  An ebreak sets
`sim_end`. -/
def refCpuStep (env : Env) (s : Sim P B) : TraceInst × Sim P B :=
  let inst := env.stream s.refCpu.steps
  (inst,
   { s with
     refCpu :=
       { steps := s.refCpu.steps + 1, simEnd := s.refCpu.simEnd || inst.isEbreak }
     hist :=
       { s.hist with
         stepsAfterEnd :=
           if s.refCpu.simEnd then s.hist.stepsAfterEnd + 1
           else s.hist.stepsAfterEnd } })

/-- The method `frontend_acquire_trace_inst`; no record stands for its result
`false`. -/
def frontendAcquireTraceInst (env : Env) (s : Sim P B) : Option TraceInst × Sim P B :=
  match s.preFetchBuffer with
  | inst :: rest => (some inst, { s with preFetchBuffer := rest })
  | [] =>
      let (inst, s) := s.refCpuStep env
      if inst.isWfi || inst.isEbreak then
        (none, { s with refCpu := { s.refCpu with simEnd := true } })
      else (some inst, s)

def frontendRequeueTraceInst (s : Sim P B) (inst : TraceInst) : Sim P B :=
  if s.preFetchBuffer.isEmpty then
    { s with preFetchBuffer := s.preFetchBuffer ++ [inst] }
  else
    { s with
      hist := { s.hist with droppedRequeues := s.hist.droppedRequeues + 1 } }

def pushInstBuffer (s : Sim P B) (op : OpEntry) : Sim P B :=
  { s with instBuffer := s.instBuffer ++ [op] }

def setFrontendBoundHint (s : Sim P B) (reason : BoundReason) : Sim P B :=
  { s with frontendBoundHint := reason }

/-! ### Back-end methods -/

def setMem (s : Sim P B) (mem : MemSubsystem P) : Sim P B := { s with mem := mem }

def setProfiler (s : Sim P B) (profiler : Profiler) : Sim P B :=
  { s with profiler := profiler }

/-- Overwrite a slot of the reorder buffer. -/
def setOp (s : Sim P B) (robIdx : ℕ) (op : OpEntry) : Sim P B :=
  { s with rob := Function.update s.rob robIdx op }

def isRegisterReady (s : Sim P B) (reg : Fin 32) : Bool :=
  decide (s.regReadyTime reg ≤ s.totalCycles)

/-- The method `mark_register_ready` for the destination register of `op`. -/
def markRegisterReady (s : Sim P B) (op : OpEntry) (readyCycle : ℕ) : Sim P B :=
  if op.inst.rd ≠ 0 then
    { s with
      regReadyTime := Function.update s.regReadyTime op.inst.rd readyCycle
      hist :=
        { s.hist with
          lastMark := Function.update s.hist.lastMark op.inst.rd (some op.entryId) } }
  else s

/-- The methods `clear_load_memory_flags` and `classify_load_if_needed`. -/
def classifyLoad (cfg : Config P B) (op : OpEntry) : OpEntry :=
  let op := { op with waitingOnMemory := false, waitingOnMemDep := false }
  if cfg.enableDependentLoadProfiling && !op.loadClassified then
    { op with
      isDependentLoad := op.baseWriterValid && op.baseWriterIsLoad
      loadClassified := true }
  else op

/-- The method `mark_load_executed` on the entry in slot `robIdx`. -/
def markLoadExecuted (s : Sim P B) (robIdx readyCycle : ℕ) : Sim P B :=
  let op := s.rob robIdx
  (s.setOp robIdx
    { op with
      issueCycle := s.totalCycles, executeCycle := readyCycle, executed := true }
  ).markRegisterReady op readyCycle

def recordLoadEvent (s : Sim P B) (dep stlf : Bool) (lat : ℕ) (l1h l2h dram : Bool) :
    Sim P B :=
  let p := s.loadProfileStats
  { s with
    loadProfileStats :=
      { total := p.total + 1
        totalLatency := p.totalLatency + lat
        dependent := if dep then p.dependent + 1 else p.dependent
        stlf := if stlf then p.stlf + 1 else p.stlf
        l1Hit := if l1h then p.l1Hit + 1 else p.l1Hit
        l2Hit := if !l1h && l2h then p.l2Hit + 1 else p.l2Hit
        dram := if !l1h && !l2h && dram then p.dram + 1 else p.dram } }

end Sim

end TraceSim
