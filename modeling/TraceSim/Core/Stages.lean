/-
TraceSim/Core/Stages.lean

The pipeline stages of the back end and the main loop
(`trace_sim/TraceSim.cpp`).

The body of the loop of `run()` is cut at the boundaries between its stages:
`stage b` runs from boundary `b` to the next one, and `Reach` says which states
occur at which boundary of a run.
-/
import TraceSim.Mem.LoadStoreUnit
import TraceSim.Frontend.Frontend

namespace TraceSim

namespace Sim

variable {P B : Type}

/-! ### Warm-up and limits -/

def resetStats (s : Sim P B) : Sim P B :=
  { s with
    instRetiredBaseline := s.instructionsRetired
    totalCyclesBaseline := s.totalCycles
    mem := s.mem.resetBaselines
    loadProfileBaseline := s.loadProfileStats
    profiler := s.profiler.reset }

def advanceCycle (cfg : Config P B) (s : Sim P B) : Sim P B :=
  if s.inWarmup then
    -- the profiled region starts: statistics are taken relative to this point
    if s.instructionsRetired ≥ cfg.warmupInstructions then
      { s.resetStats with inWarmup := false }
    else s
  -- `sim_end` stops the front end; the loop goes on until the pipeline is empty
  else if cfg.mode = .restore then
    if cfg.sampleInstructions > 0 ∧
        s.instructionsRetired - s.instRetiredBaseline ≥ cfg.sampleInstructions then
      { s with refCpu := { s.refCpu with simEnd := true } }
    else s
  else if cfg.maxInstructions > 0 ∧ s.instructionsRetired ≥ cfg.maxInstructions then
    { s with refCpu := { s.refCpu with simEnd := true } }
  else s

/-! ### Commit -/

/-- The test of the commit loop: there is a head and it has completed. -/
def headDone (s : Sim P B) : Bool :=
  decide (s.robCount > 0) && (s.rob s.robHead).executed &&
    decide ((s.rob s.robHead).executeCycle ≤ s.totalCycles)

/-- The record a writer leaves in a last-writer table. -/
def writerInfo (op : OpEntry) : RegWriterInfo :=
  ⟨true, op.entryId, op.inst.isLoad, op.inst.pc⟩

/-- One turn of the commit loop, on a completed head. -/
def commitOne (cfg : Config P B) (s : Sim P B) : Sim P B :=
  let headOp := s.rob s.robHead
  { s with
    regLastCommittedWriter :=
      if cfg.enableDependentLoadProfiling && decide (headOp.inst.rd ≠ 0) then
        Function.update s.regLastCommittedWriter headOp.inst.rd (writerInfo headOp)
      else s.regLastCommittedWriter
    -- the flag alone decides: the front is popped also for a store that dispatch
    -- did not put there
    storeIndices := if headOp.inst.isStore then s.storeIndices.tail else s.storeIndices
    robHead := (s.robHead + 1) % cfg.robSize
    robCount := s.robCount - 1
    instructionsRetired := s.instructionsRetired + 1
    hist := { s.hist with retired := s.hist.retired ++ [headOp] } }

def commitLoop (cfg : Config P B) : ℕ → Sim P B → Sim P B
  | 0, s => s
  | n + 1, s => if s.headDone then commitLoop cfg n (s.commitOne cfg) else s

def commitStage (cfg : Config P B) (s : Sim P B) : Sim P B :=
  commitLoop cfg cfg.commitWidth s

/-- The state before turn `k` of the commit loop, in the commit stage from `s`. -/
def commitTurn (cfg : Config P B) (s : Sim P B) (k : ℕ) : Sim P B :=
  commitLoop cfg k { s with instsBefore := s.instructionsRetired }

def classifyCommitStall (s : Sim P B) (retiredThisCycle : Bool) : BackendStallReason :=
  if retiredThisCycle || s.robCount == 0 then .none
  else
    let head := s.rob s.robHead
    if head.executed && decide (head.executeCycle ≤ s.totalCycles) then .none
    else if head.inst.isLoad && head.waitingOnMemory then .memoryWait
    else .execWait

/-! ### Issue -/

/-- One turn of the ALU or the BRU loop: it sets the members that
`mark_load_executed` sets. -/
def execAttempt (latency : ℕ) (s : Sim P B) (robIdx : ℕ) : Sim P B × Bool :=
  let op := s.rob robIdx
  if s.isRegisterReady op.inst.rs1 && s.isRegisterReady op.inst.rs2 then
    (s.markLoadExecuted robIdx (s.totalCycles + latency), true)
  else (s, false)

def aluAttempt (s : Sim P B) (robIdx : ℕ) : Sim P B × Bool :=
  execAttempt aluLatency s robIdx

def bruAttempt (s : Sim P B) (robIdx : ℕ) : Sim P B × Bool :=
  execAttempt bruLatency s robIdx

/-- The end of a store half: a store with both halves done has executed. -/
def finishStore (op : OpEntry) (otherHalfDone : Bool) : OpEntry :=
  if otherHalfDone then
    { op with executeCycle := max op.staCycle op.stdCycle, executed := true }
  else op

/-- One turn of the STA loop. -/
def staAttempt (s : Sim P B) (robIdx : ℕ) : Sim P B × Bool :=
  let op := s.rob robIdx
  if s.isRegisterReady op.inst.rs1 then
    let op :=
      { op with staCycle := s.totalCycles + staLatency, staDone := true, aguDone := true }
    (s.setOp robIdx (finishStore op op.stdDone), true)
  else (s, false)

/-- One turn of the STD loop. -/
def stdAttempt (s : Sim P B) (robIdx : ℕ) : Sim P B × Bool :=
  let op := s.rob robIdx
  if s.isRegisterReady op.inst.rs2 then
    let op := { op with stdCycle := s.totalCycles + stdLatency, stdDone := true }
    (s.setOp robIdx (finishStore op op.staDone), true)
  else (s, false)

def issueAlu (cfg : Config P B) (s : Sim P B) : Sim P B :=
  let r := scan aluAttempt cfg.aluCount s.aluIq s
  { r.1 with aluIq := r.2 }

/-- The method `LoadStoreUnit::issue_stage`. -/
def issueLdu [CachePrefetcher P] (cfg : Config P B) (s : Sim P B) : Sim P B :=
  let r := scan (lduAttempt cfg) cfg.lduCount s.lduIq s
  { r.1 with lduIq := r.2 }

def issueSta (cfg : Config P B) (s : Sim P B) : Sim P B :=
  let r := scan staAttempt cfg.staCount s.staIq s
  { r.1 with staIq := r.2 }

def issueStd (cfg : Config P B) (s : Sim P B) : Sim P B :=
  let r := scan stdAttempt cfg.stdCount s.stdIq s
  { r.1 with stdIq := r.2 }

def issueBru (cfg : Config P B) (s : Sim P B) : Sim P B :=
  let r := scan bruAttempt cfg.bruCount s.bruIq s
  { r.1 with bruIq := r.2 }

def issueStage [CachePrefetcher P] (cfg : Config P B) (s : Sim P B) : Sim P B :=
  ((((s.issueAlu cfg).issueLdu cfg).issueSta cfg).issueStd cfg).issueBru cfg

/-! ### Dispatch and decode -/

/-- Why the op at the front of the fetch queue cannot be dispatched. -/
def dispatchBlock (cfg : Config P B) (s : Sim P B) (op : OpEntry) : BackendStallReason :=
  if s.robCount ≥ cfg.robSize then .robFull
  else if op.inst.isTrap && decide (s.robCount > 0) then .trapSerialize
  else if op.fuType = .alu ∧ s.aluIq.length ≥ cfg.aluIqSize then .aluIqFull
  else if op.fuType = .bru ∧ s.bruIq.length ≥ cfg.bruIqSize then .bruIqFull
  else if op.fuType = .lsu then
    if op.inst.isLoad ∧ s.lduIq.length ≥ cfg.lduIqSize then .lduIqFull
    else if op.inst.isStore ∧
        (s.staIq.length ≥ cfg.staIqSize ∨ s.stdIq.length ≥ cfg.stdIqSize) then
      if s.staIq.length ≥ cfg.staIqSize then .staIqFull else .stdIqFull
    -- an LSU op that is no memory access is put on the ALU queue
    else if op.inst.isLoad = false ∧ op.inst.isStore = false ∧
        s.aluIq.length ≥ cfg.aluIqSize then .aluIqFull
    else .none
  else .none

/-- Where dispatch puts an op. -/
inductive IqTarget
  | alu
  | bru
  | ldu
  | store
  | aluReclassified
  deriving DecidableEq, Repr

def iqTarget (op : OpEntry) : IqTarget :=
  -- the trap test comes first: a trap goes to the ALU whatever its unit
  if op.inst.isTrap ∨ op.fuType = .alu then .alu
  else if op.fuType = .bru then .bru
  else if op.inst.isLoad then .ldu
  else if op.inst.isStore then .store
  else .aluReclassified

/-- Push a slot on the queues of its target. -/
def pushIq (s : Sim P B) (robIdx : ℕ) : IqTarget → Sim P B
  | .alu => { s with aluIq := s.aluIq ++ [robIdx] }
  | .bru => { s with bruIq := s.bruIq ++ [robIdx] }
  | .ldu => { s with lduIq := s.lduIq ++ [robIdx] }
  | .store =>
      { s with
        staIq := s.staIq ++ [robIdx], stdIq := s.stdIq ++ [robIdx]
        storeIndices := s.storeIndices ++ [robIdx] }
  | .aluReclassified =>
      { s.setOp robIdx { s.rob robIdx with fuType := .alu } with
        aluIq := s.aluIq ++ [robIdx] }

/-- One turn of the dispatch loop for the op at the front of the fetch queue.
The source goes on reading `op` after `pop_front()`; the entry is the one that
was popped. -/
def dispatchOne (cfg : Config P B) (s : Sim P B) (op : OpEntry) : Sim P B :=
  let robIdx := s.robTail
  let s := s.setOp robIdx { op with dispatchCycle := s.totalCycles, executed := false }
  let s :=
    { s with
      regLastWriter :=
        if cfg.enableDependentLoadProfiling && decide (op.inst.rd ≠ 0) then
          Function.update s.regLastWriter op.inst.rd (writerInfo op)
        else s.regLastWriter
      robTail := (s.robTail + 1) % cfg.robSize
      robCount := s.robCount + 1
      fetchQueue := s.fetchQueue.tail }
  s.pushIq robIdx (iqTarget op)

def dispatchLoop (cfg : Config P B) : ℕ → Sim P B → BackendStallReason × Sim P B
  | 0, s => (.none, s)
  | n + 1, s =>
      match s.fetchQueue with
      | [] => (.none, s)
      | op :: _ =>
          if s.dispatchBlock cfg op = .none then
            dispatchLoop cfg n (s.dispatchOne cfg op)
          else (s.dispatchBlock cfg op, s)

def dispatchStage (cfg : Config P B) (s : Sim P B) : BackendStallReason × Sim P B :=
  dispatchLoop cfg cfg.dispatchWidth s

/-- The loop of `decode_stage`: `width` is `dispatch_width * 2`. -/
def decodeLoop (width : ℕ) : List OpEntry → List OpEntry → List OpEntry × List OpEntry
  | [], queue => ([], queue)
  | op :: buffer, queue =>
      if queue.length < width then decodeLoop width buffer (queue ++ [op])
      else (op :: buffer, queue)

def decodeStage (cfg : Config P B) (s : Sim P B) : Sim P B :=
  let r := decodeLoop (cfg.dispatchWidth * 2) s.instBuffer s.fetchQueue
  { s with instBuffer := r.1, fetchQueue := r.2 }

/-! ### The main loop -/

/-- The condition of the loop of `run()`. -/
def loopCondition (s : Sim P B) : Bool :=
  !s.refCpu.simEnd || decide (s.robCount > 0) || !s.fetchQueue.isEmpty ||
    !s.instBuffer.isEmpty || s.mem.hasPendingWork

/-- The loop goes on: its condition holds and the time limit did not break it. -/
def running (s : Sim P B) : Bool :=
  s.loopCondition && decide (s.totalCycles ≤ maxSimTime)

/-- The boundaries between the stages of one iteration, each named for the stage
that comes next. -/
inductive Boundary
  | returns
  | advance
  | commit
  | issue
  | dispatch
  | decode
  | fetch
  | service
  | account
  deriving DecidableEq, Repr

def Boundary.next : Boundary → Boundary
  | .returns => .advance
  | .advance => .commit
  | .commit => .issue
  | .issue => .dispatch
  | .dispatch => .decode
  | .decode => .fetch
  | .fetch => .service
  | .service => .account
  | .account => .returns

/-- The end of the loop body: retirement count, clock and attribution. -/
def account (s : Sim P B) : Sim P B :=
  let retired := decide (s.instructionsRetired > s.instsBefore)
  let profiler :=
    if retired then s.profiler.incRetiredInsts (s.instructionsRetired - s.instsBefore)
    else s.profiler
  let totalCycles := s.totalCycles + 1
  let frontendStalled := decide (totalCycles < s.fetchStallUntil)
  { s with
    totalCycles := totalCycles
    profiler :=
      profiler.markCycle totalCycles retired s.fetchStallReason frontendStalled
        s.backendStall }

/-- From one boundary to the next. -/
def stage [CachePrefetcher P] [BranchPredictor B] (cfg : Config P B) (env : Env) :
    Boundary → Sim P B → Sim P B
  | .returns, s =>
      { s with
        mem := s.mem.processReturns s.totalCycles (env.itable s.totalCycles)
          (env.dtable s.totalCycles) (env.ltable s.totalCycles) }
  | .advance, s => s.advanceCycle cfg
  | .commit, s =>
      let s := { s with instsBefore := s.instructionsRetired }
      let s := s.commitStage cfg
      { s with
        commitStall :=
          s.classifyCommitStall (decide (s.instructionsRetired > s.instsBefore)) }
  | .issue, s => s.issueStage cfg
  | .dispatch, s =>
      let r := s.dispatchStage cfg
      { r.2 with
        -- a full queue hides what the commit stage found
        backendStall := if r.1 = .none then r.2.commitStall else r.1 }
  | .decode, s => s.decodeStage cfg
  | .fetch, s => s.fetchStage cfg env
  | .service, s => { s with mem := s.mem.servicePrefetchQueues cfg.mem s.totalCycles }
  | .account, s => s.account

/-- The boundaries in the order of the loop body. -/
def iteration : List Boundary :=
  [.returns, .advance, .commit, .issue, .dispatch, .decode, .fetch, .service, .account]

/-- A whole iteration of the loop. -/
def cycle [CachePrefetcher P] [BranchPredictor B] (cfg : Config P B) (env : Env)
    (s : Sim P B) : Sim P B :=
  iteration.foldl (fun s b => stage cfg env b s) s

/-- The states of a run of `run()`, with the boundary they occur at. -/
inductive Reach [CachePrefetcher P] [BranchPredictor B] (cfg : Config P B) (env : Env) :
    Boundary → Sim P B → Prop
  | start : Reach cfg env .returns (Sim.new cfg)
  | step {b s} : Reach cfg env b s → (b = .returns → s.running) →
      Reach cfg env b.next (stage cfg env b s)

end Sim

end TraceSim
