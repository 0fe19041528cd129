/-
TraceSim/Frontend/Frontend.lean

The fetch stage (`trace_sim/frontend/Frontend.cpp`).

The loop of `fetch_stage` is `fetchLoop`; its arguments are the turns left and
the locals `current_line_addr`, `first_in_group` and
`next_frontend_bound_hint`.  Its body is cut in two: `admitInst` checks the line of
an acquired instruction, `deliverInst` follows once it has passed.
-/
import TraceSim.Core.Sim

namespace TraceSim

namespace Sim

variable {P B : Type} [BranchPredictor B]

/-- What a delivered instruction tells the loop: whether to stop, and why. -/
structure FetchStop where
  stopFetch : Bool := false
  reason : BoundReason := .none
  deriving DecidableEq, Repr

/-- The prediction for a branch, from the oracle or from the predictor, which is
trained at once. -/
def predictBranch (cfg : Config P B) (env : Env) (s : Sim P B) (inst : TraceInst) :
    Bool × Sim P B :=
  if branchPredictorUsesOracle cfg.bpType then
    (oracleBranchPrediction cfg.bpType cfg.bpTargetAccuracy inst.branchTaken
       (env.random s.randomCalls),
     { s with
       randomCalls :=
         if cfg.bpType = .probabilistic then s.randomCalls + 1 else s.randomCalls })
  else
    let (pred, bp) := BranchPredictor.predict s.bp inst.pc
    (pred.taken,
     { s with bp := BranchPredictor.update bp inst.pc inst.branchTaken pred.metadata })

/-- The stall of a redirected fetch stream. -/
def redirectFetch (s : Sim P B) : Sim P B :=
  if fetchRedirectLatency > 0 then
    s.setFetchStall (s.totalCycles + fetchRedirectLatency) .fetchRedirect
  else s

/-- The block `if (inst.is_branch)`. -/
def fetchBranch (cfg : Config P B) (env : Env) (s : Sim P B) (inst : TraceInst)
    (stop : FetchStop) : FetchStop × Sim P B :=
  let pred := (s.setProfiler s.profiler.incTotalBranches).predictBranch cfg env inst
  -- the trace gives the outcome, so a wrong prediction is known at once
  if pred.1 ≠ inst.branchTaken then
    ({ stop with stopFetch := true },
     pred.2.setFetchStall (pred.2.totalCycles + branchMispredictPenalty) .branchMispredict)
  else
    let s := pred.2.setProfiler pred.2.profiler.incCorrectBranches
    if inst.branchTaken then
      ({ stopFetch := true, reason := .fetchRedirect }, s.redirectFetch)
    else (stop, s)

/-- The entry the front end makes of a record. -/
def fetchedOp (s : Sim P B) (inst : TraceInst) : OpEntry :=
  { inst := inst, entryId := s.nextEntryId, fetchCycle := s.totalCycles,
    executed := false, fuType := getFuType inst.opcode }

/-- What control flow does to the fetch stream: the blocks for branches and for
jumps. -/
def fetchControl (cfg : Config P B) (env : Env) (s : Sim P B) (inst : TraceInst) :
    FetchStop × Sim P B :=
  let stop : FetchStop := { stopFetch := inst.isTrap }
  let branch := if inst.isBranch then s.fetchBranch cfg env inst stop else (stop, s)
  -- `jal` and `jalr` always redirect
  if inst.opcode = 0b1101111 ∨ inst.opcode = 0b1100111 then
    ({ stopFetch := true, reason := .fetchRedirect }, branch.2.redirectFetch)
  else branch

/-- The body of the loop once the I-cache has the line. -/
def deliverInst (cfg : Config P B) (env : Env) (s : Sim P B) (inst : TraceInst) :
    FetchStop × Sim P B :=
  let op := s.fetchedOp inst
  let control := { s with nextEntryId := s.nextEntryId + 1 }.fetchControl cfg env inst
  (control.1, control.2.pushInstBuffer op)

/-- The I-cache check of the first instruction of a group.  The flag is true
when the instruction can be delivered; otherwise it has been put back. -/
def checkIcache [CachePrefetcher P] (cfg : Config P B) (s : Sim P B)
    (inst : TraceInst) (hint : BoundReason) : Bool × Sim P B × BoundReason :=
  let icRes := s.mem.accessIcache inst.pc s.totalCycles
  let s := s.setMem icRes.2
  if icRes.1.blocked then (false, s.frontendRequeueTraceInst inst, .icacheMiss)
  -- the line is on its way: fetch stalls until it is there
  else if !icRes.1.l1Hit then
    (false,
     (s.setFetchStall icRes.1.readyCycle .icacheMiss).frontendRequeueTraceInst inst, hint)
  else
    -- the prefetcher sees hits only, with the pc as the address
    (true, s.setMem (s.mem.enqueuePrefetch cfg.mem false inst.pc inst.pc true), hint)

/-- The checks an acquired instruction has to pass before it is delivered; the
flag is that of `checkIcache`. -/
def admitInst [CachePrefetcher P] (cfg : Config P B) (s : Sim P B) (inst : TraceInst)
    (currentLineAddr : BitVec 32) (firstInGroup : Bool) (hint : BoundReason) :
    Bool × Sim P B × BoundReason :=
  if firstInGroup then s.checkIcache cfg inst hint
  else if lineAddr inst.pc s.mem.icacheLineSize ≠ currentLineAddr then
    -- the line boundary ends the group
    (false,
     (s.setFetchStall (s.totalCycles + 1) .lineBoundary).frontendRequeueTraceInst inst,
     .lineBoundary)
  else (true, s, hint)

def fetchLoop [CachePrefetcher P] (cfg : Config P B) (env : Env) :
    ℕ → Sim P B → BitVec 32 → Bool → BoundReason → Sim P B × BoundReason
  | 0, s, _, _, hint => (s, hint)
  | n + 1, s, currentLineAddr, firstInGroup, hint =>
      if !s.frontendCanFetch cfg then (s, hint)
      else if s.frontendTraceExhausted then (s, hint)
      else
        match s.frontendAcquireTraceInst env with
        | (none, s) => (s, hint)
        | (some inst, s) =>
            let admitted := s.admitInst cfg inst currentLineAddr firstInGroup hint
            if !admitted.1 then (admitted.2.1, admitted.2.2)
            else
              let deliver := admitted.2.1.deliverInst cfg env inst
              if deliver.1.stopFetch then
                (deliver.2,
                 if deliver.1.reason ≠ .none then deliver.1.reason else admitted.2.2)
              else
                let instLine := lineAddr inst.pc s.mem.icacheLineSize
                fetchLoop cfg env n deliver.2
                  (if firstInGroup then instLine else currentLineAddr) false admitted.2.2

def fetchStage [CachePrefetcher P] (cfg : Config P B) (env : Env) (s : Sim P B) :
    Sim P B :=
  if s.frontendCanFetch cfg then
    let r := fetchLoop cfg env cfg.fetchBandwidth s 0 true .none
    r.1.setFrontendBoundHint r.2
  else s.setFrontendBoundHint .none

end Sim

end TraceSim
