/-
TraceSim/Mem/LoadStoreUnit.lean

The load/store unit (`trace_sim/mem/LoadStoreUnit.cpp`): the store-dependence
scan, store-to-load forwarding and the data-cache access of a load.
-/
import TraceSim.Core.Sim
import TraceSim.Lib.Scan

namespace TraceSim

inductive LoadIssueResult
  | issued
  | stlfHit
  | stalledByDep
  | stalledByMshr
  | notReady
  deriving DecidableEq, Repr

/-- The results that take a load out of its queue. -/
def LoadIssueResult.issues (res : LoadIssueResult) : Bool :=
  decide (res = .issued) || decide (res = .stlfHit)

inductive StoreDepResult
  | noDep
  | stlfReady
  | stalled
  deriving DecidableEq, Repr

namespace Sim

variable {P B : Type}

def finalizeLoadProfile (cfg : Config P B) (s : Sim P B) (op : OpEntry) (latency : ℕ)
    (l1Hit l2Hit dramMiss isStlfHit : Bool) : Sim P B :=
  if cfg.enableDependentLoadProfiling then
    s.recordLoadEvent op.isDependentLoad isStlfHit latency l1Hit l2Hit dramMiss
  else s

/-- The loop of `check_store_dependency` over `store_indices`.  The result is
the flag `stall` and the slot of `stlf_src`, starting from the candidate
`src`. -/
def scanStores (model : MemDepModel) (rob : ℕ → OpEntry) (op : OpEntry) :
    List ℕ → Option ℕ → Bool × Option ℕ
  | [], src => (false, src)
  | stIdx :: rest, src =>
      let stOp := rob stIdx
      if stOp.entryId ≥ op.entryId then (false, src)
      else
        -- the scan goes on: the youngest older store to the address wins
        let src' := if stOp.inst.memAddr = op.inst.memAddr then some stIdx else src
        match model with
        | .conservativeStaVisible =>
            -- an address not yet visible may be the load's
            if !stOp.staDone then (true, src)
            else scanStores model rob op rest src'
        | .oracleStlf => scanStores model rob op rest src'

/-- What `check_store_dependency` does to the load and the profiler when it
answers `Stalled`. -/
def stallOnStore (s : Sim P B) (robIdx : ℕ) : Sim P B :=
  (s.setOp robIdx { s.rob robIdx with waitingOnMemDep := true }).setProfiler
    s.profiler.incMemDepStalls

def checkStoreDependency (cfg : Config P B) (s : Sim P B) (robIdx : ℕ) :
    StoreDepResult × Sim P B :=
  match scanStores cfg.memDepModel s.rob (s.rob robIdx) s.storeIndices none with
  | (true, _) => (.stalled, s.stallOnStore robIdx)
  | (false, some src) =>
      if cfg.enableStlf && (s.rob src).stdDone &&
          decide (s.totalCycles ≥ (s.rob src).stdCycle) then (.stlfReady, s)
      else (.stalled, s.stallOnStore robIdx)
  | (false, none) => (.noDep, s)

/-- The end of `execute_load_memory_access`, after an access that was not
blocked. -/
def finishLoadAccess [CachePrefetcher P] (cfg : Config P B) (s : Sim P B) (robIdx : ℕ)
    (memRes : HierarchyAccessResult) : Sim P B :=
  let op := { s.rob robIdx with waitingOnMemory := !memRes.l1Hit }
  -- the cast to `uint32_t`
  let latency := (memRes.readyCycle - s.totalCycles) % 2 ^ 32
  (((s.setOp robIdx op).markLoadExecuted robIdx memRes.readyCycle).finalizeLoadProfile
    cfg op latency memRes.l1Hit memRes.llcHit memRes.dramMiss false).setMem
      (s.mem.enqueuePrefetch cfg.mem true op.inst.pc op.inst.memAddr memRes.l1Hit)

def executeLoadMemoryAccess [CachePrefetcher P] (cfg : Config P B) (s : Sim P B)
    (robIdx : ℕ) : LoadIssueResult × Sim P B :=
  let op := s.rob robIdx
  let access := s.mem.accessDcacheLoad op.inst.memAddr s.totalCycles
  -- a blocked load stays in its queue and tries again
  if access.1.blocked then
    (.stalledByMshr,
     (s.setMem access.2).setOp robIdx { op with waitingOnMemory := true })
  else (.issued, (s.setMem access.2).finishLoadAccess cfg robIdx access.1)

/-- A load whose data an older store forwards. -/
def forwardLoad (cfg : Config P B) (s : Sim P B) (robIdx : ℕ) : Sim P B :=
  ((s.setProfiler s.profiler.incStlfHits).markLoadExecuted robIdx
    (s.totalCycles + 1)).finalizeLoadProfile cfg (s.rob robIdx) 1 false false false true

def tryIssueLoad [CachePrefetcher P] (cfg : Config P B) (s : Sim P B) (robIdx : ℕ) :
    LoadIssueResult × Sim P B :=
  if !s.isRegisterReady (s.rob robIdx).inst.rs1 then (.notReady, s)
  else
    let dep :=
      (s.setOp robIdx (classifyLoad cfg (s.rob robIdx))).checkStoreDependency cfg robIdx
    match dep.1 with
    | .stalled => (.stalledByDep, dep.2)
    | .stlfReady => (.stlfHit, dep.2.forwardLoad cfg robIdx)
    | .noDep => dep.2.executeLoadMemoryAccess cfg robIdx

/-- One turn of the loop of `LoadStoreUnit::issue_stage`. -/
def lduAttempt [CachePrefetcher P] (cfg : Config P B) (s : Sim P B) (robIdx : ℕ) :
    Sim P B × Bool :=
  let r := s.tryIssueLoad cfg robIdx
  (r.2, r.1.issues)

end Sim

end TraceSim
