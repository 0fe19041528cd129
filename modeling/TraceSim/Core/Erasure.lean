/-
TraceSim/Core/Erasure.lean

Load profiling does not touch what it observes.

`erase` forgets what only the profile of the loads reads: the last-writer tables, the
counters of the profile, and the members of an op that classify it as a load.  Every stage
commutes with it once profiling is switched off (`erase_stage`), so the runs with and
without profiling go in lockstep (`profiling_erased`): they take the same cycles, retire the
same ops and leave the same caches.
-/
import TraceSim.Core.Steps

namespace TraceSim

/-- The op without its classification. -/
def OpEntry.erase (op : OpEntry) : OpEntry :=
  { op with
    loadClassified := false, isDependentLoad := false, baseWriterValid := false
    baseWriterIsLoad := false }

variable {P B : Type}

/-- The configuration with load profiling switched off. -/
def Config.unprofiled (cfg : Config P B) : Config P B :=
  { cfg with enableDependentLoadProfiling := false }

namespace Sim

/-- The state without the profile of the loads. -/
def erase (s : Sim P B) : Sim P B :=
  { s with
    rob := fun i => (s.rob i).erase
    instBuffer := s.instBuffer.map OpEntry.erase
    fetchQueue := s.fetchQueue.map OpEntry.erase
    regLastWriter := fun _ => {}
    regLastCommittedWriter := fun _ => {}
    loadProfileBaseline := {}
    loadProfileStats := {}
    hist := { s.hist with retired := s.hist.retired.map OpEntry.erase } }

variable (cfg : Config P B) (env : Env) (s : Sim P B)

/-! ### Small methods -/

/-- Erasing every slot of the reorder buffer, of which one has been written. -/
theorem erase_update (rob : ℕ → OpEntry) (i : ℕ) (op : OpEntry) :
    (fun j => (Function.update rob i op j).erase)
      = Function.update (fun j => (rob j).erase) i op.erase := by
  funext j
  rcases eq_or_ne j i with rfl | hne
  · rw [Function.update_self, Function.update_self]
  · rw [Function.update_of_ne hne, Function.update_of_ne hne]

/-- The slot is written with the erased op. -/
theorem erase_setOp (i : ℕ) (op : OpEntry) : (s.setOp i op).erase = s.erase.setOp i op.erase := by
  rw [erase, erase, setOp, setOp, ← erase_update]

/-- Ready times are kept: the profile does not read them. -/
theorem erase_markRegisterReady (op : OpEntry) (t : ℕ) :
    (s.markRegisterReady op t).erase = s.erase.markRegisterReady op.erase t :=
  apply_ite erase _ _ _

/-- A load that executes leaves no trace but in its op and its ready time. -/
theorem erase_markLoadExecuted (i t : ℕ) :
    (s.markLoadExecuted i t).erase = s.erase.markLoadExecuted i t := by
  unfold markLoadExecuted
  rw [erase_markRegisterReady, erase_setOp]
  rfl

/-- The caches are no part of the profile. -/
theorem erase_setMem (m : MemSubsystem P) : (s.setMem m).erase = s.erase.setMem m := rfl

/-- Nor is the front end's stall. -/
theorem erase_setFetchStall (until_ : ℕ) (reason : FetchStallReason) :
    (s.setFetchStall until_ reason).erase = s.erase.setFetchStall until_ reason :=
  apply_ite erase _ _ _

/-- Nor is the record that the front end puts back. -/
theorem erase_frontendRequeueTraceInst (inst : TraceInst) :
    (s.frontendRequeueTraceInst inst).erase = s.erase.frontendRequeueTraceInst inst :=
  apply_ite erase _ _ _

/-- The op enters the buffer, and its erased form the erased buffer. -/
theorem erase_pushInstBuffer (op : OpEntry) :
    (s.pushInstBuffer op).erase = s.erase.pushInstBuffer op.erase := by
  unfold pushInstBuffer erase
  rw [List.map_append]
  rfl

/-- What `classify_load` writes is erased, and without profiling it writes nothing. -/
theorem erase_classifyLoad (op : OpEntry) :
    (classifyLoad cfg op).erase = classifyLoad cfg.unprofiled op.erase :=
  (apply_ite OpEntry.erase _ _ _).trans (ite_self _)

/-- The profile of an access is all erased, whatever the access was. -/
theorem erase_finalizeLoadProfile (op : OpEntry) (latency : ℕ) (l1 l2 dram stlf : Bool) :
    (s.finalizeLoadProfile cfg op latency l1 l2 dram stlf).erase
      = s.erase.finalizeLoadProfile cfg.unprofiled op.erase latency l1 l2 dram stlf :=
  (apply_ite erase _ _ _).trans (ite_self _)

/-! ### The load/store unit -/

/-- The search for an older store reads addresses, ids and the done flags of the stores,
and no classification. -/
theorem erase_scanStores (model : MemDepModel) (rob : ℕ → OpEntry) (op : OpEntry) (l : List ℕ)
    (src : Option ℕ) :
    scanStores model (fun i => (rob i).erase) op.erase l src = scanStores model rob op l src := by
  induction l generalizing src with
  | nil => rfl
  | cons i l ih =>
    unfold scanStores
    cases model with
    | conservativeStaVisible =>
      dsimp only
      rw [ih]
      rfl
    | oracleStlf =>
      dsimp only
      rw [ih]
      rfl

/-- A load that waits for a store sets a flag that is kept. -/
theorem erase_stallOnStore (i : ℕ) : (s.stallOnStore i).erase = s.erase.stallOnStore i :=
  congrArg (fun t => t.setProfiler s.profiler.incMemDepStalls)
    (erase_setOp s i { s.rob i with waitingOnMemDep := true })

/-- The answer of `check_store_dependency` is the same, and so is what it leaves. -/
theorem erase_checkStoreDependency (i : ℕ) :
    s.erase.checkStoreDependency cfg.unprofiled i
      = Prod.map id erase (s.checkStoreDependency cfg i) := by
  have hscan : scanStores cfg.unprofiled.memDepModel s.erase.rob (s.erase.rob i)
      s.erase.storeIndices none = scanStores cfg.memDepModel s.rob (s.rob i) s.storeIndices none :=
    erase_scanStores _ _ _ _ _
  unfold checkStoreDependency
  rw [hscan, ← erase_stallOnStore]
  rcases scanStores cfg.memDepModel s.rob (s.rob i) s.storeIndices none with ⟨- | -, - | src⟩
  · rfl
  · dsimp only
    rw [apply_ite (Prod.map id erase)]
    rfl
  · rfl
  · rfl

/-- A forwarded load is counted by the profiler, which is kept. -/
theorem erase_forwardLoad (i : ℕ) :
    (s.forwardLoad cfg i).erase = s.erase.forwardLoad cfg.unprofiled i := by
  unfold forwardLoad
  rw [erase_finalizeLoadProfile, erase_markLoadExecuted]
  rfl

section

variable [CachePrefetcher P]

/-- The load takes its completion from the access, and nothing from the profile. -/
theorem erase_finishLoadAccess (i : ℕ) (r : HierarchyAccessResult) :
    (s.finishLoadAccess cfg i r).erase = s.erase.finishLoadAccess cfg.unprofiled i r := by
  have hop (op : OpEntry) : ((s.setOp i op).markLoadExecuted i r.readyCycle).erase
      = (s.erase.setOp i op.erase).markLoadExecuted i r.readyCycle := by
    rw [erase_markLoadExecuted, erase_setOp]
  unfold finishLoadAccess
  dsimp only
  rw [erase_setMem, erase_finalizeLoadProfile, hop]
  rfl

/-- The access goes to the same caches in the same cycle, so it is blocked in both runs or
in none. -/
theorem erase_executeLoadMemoryAccess (i : ℕ) :
    s.erase.executeLoadMemoryAccess cfg.unprofiled i
      = Prod.map id erase (s.executeLoadMemoryAccess cfg i) := by
  have hblocked (m : MemSubsystem P) (op : OpEntry) : ((s.setMem m).setOp i op).erase
      = (s.erase.setMem m).setOp i op.erase := erase_setOp _ _ _
  have hfinish (m : MemSubsystem P) (r : HierarchyAccessResult) :
      ((s.setMem m).finishLoadAccess cfg i r).erase
        = (s.erase.setMem m).finishLoadAccess cfg.unprofiled i r := erase_finishLoadAccess _ _ _ _
  unfold executeLoadMemoryAccess
  dsimp only
  rw [apply_ite (Prod.map id erase), Prod.map_apply, Prod.map_apply, hblocked, hfinish]
  rfl

/-- The load issues in both runs or in none. -/
theorem erase_tryIssueLoad (i : ℕ) :
    s.erase.tryIssueLoad cfg.unprofiled i = Prod.map id erase (s.tryIssueLoad cfg i) := by
  have hclassified : (s.setOp i (classifyLoad cfg (s.rob i))).erase
      = s.erase.setOp i (classifyLoad cfg.unprofiled (s.erase.rob i)) := by
    rw [erase_setOp, erase_classifyLoad]
    rfl
  unfold tryIssueLoad
  dsimp only
  rw [← hclassified, erase_checkStoreDependency, apply_ite (Prod.map id erase)]
  refine ite_congr rfl (fun _ => rfl) fun _ => ?_
  rcases (s.setOp i (classifyLoad cfg (s.rob i))).checkStoreDependency cfg i with ⟨- | - | -, t⟩
  · exact erase_executeLoadMemoryAccess cfg t i
  · exact Prod.ext rfl (erase_forwardLoad cfg t i).symm
  · rfl

/-- The attempt as the issue stage sees it. -/
theorem erase_lduAttempt (i : ℕ) :
    s.erase.lduAttempt cfg.unprofiled i = Prod.map erase id (s.lduAttempt cfg i) := by
  unfold lduAttempt
  rw [erase_tryIssueLoad]
  rfl

end

/-! ### Commit and issue -/

/-- So does the commit stage, with the other table. -/
theorem erase_commitOne : (s.commitOne cfg).erase = s.erase.commitOne cfg.unprofiled := by
  unfold commitOne erase
  dsimp only
  rw [List.map_append]
  rfl

/-- By induction on the width: the head is done in both runs or in neither. -/
theorem erase_commitLoop (n : ℕ) :
    (commitLoop cfg n s).erase = commitLoop cfg.unprofiled n s.erase := by
  induction n generalizing s with
  | zero => rfl
  | succ n ih =>
    unfold commitLoop
    rw [apply_ite erase, ih, erase_commitOne]
    rfl

/-- Whether an op of the ALU or the branch queue issues depends on ready times only. -/
theorem erase_execAttempt (latency i : ℕ) :
    s.erase.execAttempt latency i = Prod.map erase id (s.execAttempt latency i) := by
  unfold execAttempt
  dsimp only
  rw [apply_ite (Prod.map erase id), Prod.map_apply, Prod.map_apply, erase_markLoadExecuted]
  rfl

/-- A store is done when both parts are, whatever its classification. -/
theorem erase_finishStore (op : OpEntry) (done : Bool) :
    (finishStore op done).erase = finishStore op.erase done :=
  apply_ite OpEntry.erase _ _ _

/-- The address part reads one ready time. -/
theorem erase_staAttempt (i : ℕ) :
    s.erase.staAttempt i = Prod.map erase id (s.staAttempt i) := by
  unfold staAttempt
  dsimp only
  rw [apply_ite (Prod.map erase id), Prod.map_apply, Prod.map_apply, erase_setOp,
    erase_finishStore]
  rfl

/-- So does the data part. -/
theorem erase_stdAttempt (i : ℕ) :
    s.erase.stdAttempt i = Prod.map erase id (s.stdAttempt i) := by
  unfold stdAttempt
  dsimp only
  rw [apply_ite (Prod.map erase id), Prod.map_apply, Prod.map_apply, erase_setOp,
    erase_finishStore]
  rfl

/-- Five loops over five queues; for each of them the attempts commute. -/
theorem erase_issueStage [CachePrefetcher P] :
    (s.issueStage cfg).erase = s.erase.issueStage cfg.unprofiled := by
  have halu (s : Sim P B) : s.erase.issueAlu cfg.unprofiled = (s.issueAlu cfg).erase := by
    have hscan := scan_map erase (fun s i => erase_execAttempt s aluLatency i) cfg.aluCount
      s.aluIq s
    exact congrArg (fun r : Sim P B × List ℕ => { r.1 with aluIq := r.2 }) hscan
  have hbru (s : Sim P B) : s.erase.issueBru cfg.unprofiled = (s.issueBru cfg).erase := by
    have hscan := scan_map erase (fun s i => erase_execAttempt s bruLatency i) cfg.bruCount
      s.bruIq s
    exact congrArg (fun r : Sim P B × List ℕ => { r.1 with bruIq := r.2 }) hscan
  have hldu (s : Sim P B) : s.erase.issueLdu cfg.unprofiled = (s.issueLdu cfg).erase := by
    have hscan := scan_map erase (fun s i => erase_lduAttempt cfg s i) cfg.lduCount s.lduIq s
    exact congrArg (fun r : Sim P B × List ℕ => { r.1 with lduIq := r.2 }) hscan
  have hsta (s : Sim P B) : s.erase.issueSta cfg.unprofiled = (s.issueSta cfg).erase := by
    have hscan := scan_map erase erase_staAttempt cfg.staCount s.staIq s
    exact congrArg (fun r : Sim P B × List ℕ => { r.1 with staIq := r.2 }) hscan
  have hstd (s : Sim P B) : s.erase.issueStd cfg.unprofiled = (s.issueStd cfg).erase := by
    have hscan := scan_map erase erase_stdAttempt cfg.stdCount s.stdIq s
    exact congrArg (fun r : Sim P B × List ℕ => { r.1 with stdIq := r.2 }) hscan
  rw [issueStage, issueStage, halu, hldu, hsta, hstd, hbru]

/-! ### Dispatch and decode -/

/-- The queue that an op enters is chosen by its unit. -/
theorem erase_pushIq (i : ℕ) (t : IqTarget) : (s.pushIq i t).erase = s.erase.pushIq i t := by
  cases t with
  | aluReclassified =>
    exact congrArg (fun t => { t with aluIq := s.aluIq ++ [i] })
      (erase_setOp s i { s.rob i with fuType := .alu })
  | _ => rfl

/-- Dispatch writes a last-writer table in the one run and not in the other; the erased
states are the same. -/
theorem erase_dispatchOne (op : OpEntry) :
    (s.dispatchOne cfg op).erase = s.erase.dispatchOne cfg.unprofiled op.erase := by
  unfold dispatchOne
  dsimp only
  rw [erase_pushIq]
  refine congrArg (fun t : Sim P B => t.pushIq s.robTail (iqTarget op)) ?_
  unfold erase setOp
  dsimp only
  rw [erase_update, List.map_tail]
  rfl

/-- The loop stops for the same reason: it reads occupancies and the trap flag. -/
theorem erase_dispatchLoop (n : ℕ) :
    dispatchLoop cfg.unprofiled n s.erase = Prod.map id erase (dispatchLoop cfg n s) := by
  induction n generalizing s with
  | zero => rfl
  | succ n ih =>
    have hqueue : s.erase.fetchQueue = s.fetchQueue.map OpEntry.erase := rfl
    unfold dispatchLoop
    rw [hqueue]
    rcases s.fetchQueue with - | ⟨op, rest⟩
    · rfl
    · dsimp only [List.map_cons]
      rw [apply_ite (Prod.map id erase), ← ih, erase_dispatchOne]
      rfl

/-- Decoding moves ops from the buffer to the queue and changes none of them. -/
theorem erase_decodeLoop (width : ℕ) (buffer queue : List OpEntry) :
    decodeLoop width (buffer.map OpEntry.erase) (queue.map OpEntry.erase)
      = Prod.map (List.map OpEntry.erase) (List.map OpEntry.erase)
          (decodeLoop width buffer queue) := by
  induction buffer generalizing queue with
  | nil => rfl
  | cons op buffer ih =>
    have hpush : queue.map OpEntry.erase ++ [op.erase] = (queue ++ [op]).map OpEntry.erase := by
      rw [List.map_append]
      rfl
    rw [List.map_cons, decodeLoop, decodeLoop, apply_ite (Prod.map _ _), ← ih, hpush,
      List.length_map]
    rfl

/-! ### The front end -/

/-- A redirect writes the front end only. -/
theorem erase_redirectFetch : s.redirectFetch.erase = s.erase.redirectFetch := by
  unfold redirectFetch
  rw [apply_ite erase, erase_setFetchStall]
  rfl

section

variable [BranchPredictor B]

/-- The predictor is kept, and answers the same. -/
theorem erase_predictBranch (inst : TraceInst) :
    s.erase.predictBranch cfg.unprofiled env inst
      = Prod.map id erase (s.predictBranch cfg env inst) := by
  unfold predictBranch
  rw [apply_ite (Prod.map id erase)]
  rfl

/-- A fetched branch changes predictor, stall and counters in the same way. -/
theorem erase_fetchBranch (inst : TraceInst) (stop : FetchStop) :
    s.erase.fetchBranch cfg.unprofiled env inst stop
      = Prod.map id erase (s.fetchBranch cfg env inst stop) := by
  have hpredict : (s.erase.setProfiler s.erase.profiler.incTotalBranches).predictBranch
      cfg.unprofiled env inst = Prod.map id erase
        ((s.setProfiler s.profiler.incTotalBranches).predictBranch cfg env inst) :=
    erase_predictBranch cfg env (s.setProfiler s.profiler.incTotalBranches) inst
  unfold fetchBranch
  dsimp only
  rw [hpredict, apply_ite (Prod.map id erase), apply_ite (Prod.map id erase), Prod.map_apply,
    Prod.map_apply, Prod.map_apply, erase_setFetchStall, erase_redirectFetch]
  rfl

/-- What ends a fetch group is found from the record alone. -/
theorem erase_fetchControl (inst : TraceInst) :
    s.erase.fetchControl cfg.unprofiled env inst
      = Prod.map id erase (s.fetchControl cfg env inst) := by
  have hbranch (stop : FetchStop) :
      (if inst.isBranch then s.erase.fetchBranch cfg.unprofiled env inst stop else (stop, s.erase))
        = Prod.map id erase (if inst.isBranch then s.fetchBranch cfg env inst stop
          else (stop, s)) := by
    rw [apply_ite (Prod.map id erase), erase_fetchBranch]
    rfl
  unfold fetchControl
  dsimp only
  rw [hbranch]
  generalize (if inst.isBranch then s.fetchBranch cfg env inst _ else _) = r
  rw [apply_ite (Prod.map id erase)]
  dsimp only [Prod.map_apply, id_eq]
  rw [erase_redirectFetch]
  rfl

/-- An op enters the instruction buffer unclassified. -/
theorem erase_deliverInst (inst : TraceInst) :
    s.erase.deliverInst cfg.unprofiled env inst
      = Prod.map id erase (s.deliverInst cfg env inst) := by
  have hcontrol := erase_fetchControl cfg env { s with nextEntryId := s.nextEntryId + 1 } inst
  unfold deliverInst
  dsimp only
  rw [Prod.map_apply, erase_pushInstBuffer]
  exact congrArg (fun r : FetchStop × Sim P B => (r.1, r.2.pushInstBuffer (s.fetchedOp inst)))
    hcontrol

end

/-- The test reads the stall and the occupancy of the buffer. -/
theorem erase_frontendCanFetch :
    s.erase.frontendCanFetch cfg.unprofiled = s.frontendCanFetch cfg := by
  have hlen : s.erase.instBuffer.length = s.instBuffer.length := List.length_map _
  rw [frontendCanFetch, hlen]
  rfl

/-- Both runs ask the reference CPU for the same record. -/
theorem erase_frontendAcquireTraceInst :
    s.erase.frontendAcquireTraceInst env
      = Prod.map id erase (s.frontendAcquireTraceInst env) := by
  have hbuffer : s.erase.preFetchBuffer = s.preFetchBuffer := rfl
  unfold frontendAcquireTraceInst
  rw [hbuffer]
  rcases s.preFetchBuffer with - | ⟨inst, rest⟩
  · dsimp only
    rw [apply_ite (Prod.map id erase)]
    rfl
  · rfl

/-- The I-cache is kept. -/
theorem erase_checkIcache [CachePrefetcher P] (inst : TraceInst) (hint : BoundReason) :
    s.erase.checkIcache cfg.unprofiled inst hint
      = Prod.map id (Prod.map erase id) (s.checkIcache cfg inst hint) := by
  unfold checkIcache
  dsimp only
  rw [apply_ite (Prod.map id (Prod.map erase id)), apply_ite (Prod.map id (Prod.map erase id))]
  simp only [Prod.map_apply, erase_frontendRequeueTraceInst, erase_setFetchStall, erase_setMem]
  rfl

/-- The group ends at the same line. -/
theorem erase_admitInst [CachePrefetcher P] (inst : TraceInst) (line : BitVec 32) (first : Bool)
    (hint : BoundReason) :
    s.erase.admitInst cfg.unprofiled inst line first hint
      = Prod.map id (Prod.map erase id) (s.admitInst cfg inst line first hint) := by
  unfold admitInst
  rw [apply_ite (Prod.map id (Prod.map erase id)), apply_ite (Prod.map id (Prod.map erase id)),
    ← erase_checkIcache]
  simp only [Prod.map_apply, erase_frontendRequeueTraceInst, erase_setFetchStall]
  rfl

section

variable [CachePrefetcher P] [BranchPredictor B]

/-- By induction on the width of the group. -/
theorem erase_fetchLoop (n : ℕ) (line : BitVec 32) (first : Bool) (hint : BoundReason) :
    fetchLoop cfg.unprofiled env n s.erase line first hint
      = Prod.map erase id (fetchLoop cfg env n s line first hint) := by
  induction n generalizing s line first hint with
  | zero => rfl
  | succ n ih =>
    unfold fetchLoop
    rw [apply_ite (Prod.map erase id), apply_ite (Prod.map erase id),
      erase_frontendAcquireTraceInst, erase_frontendCanFetch]
    refine ite_congr rfl (fun _ => rfl) fun _ => ite_congr rfl (fun _ => rfl) fun _ => ?_
    rcases s.frontendAcquireTraceInst env with ⟨- | inst, t⟩
    · rfl
    · dsimp only [Prod.map_apply, id_eq]
      rw [erase_admitInst]
      rcases t.admitInst cfg inst line first hint with ⟨admitted, t', hint'⟩
      dsimp only [Prod.map_apply, id_eq]
      have hdeliver := erase_deliverInst cfg env t' inst
      simp only [apply_ite (Prod.map erase id), hdeliver, ← ih]
      rfl

/-- The fetch stage, with its stall and its charge. -/
theorem erase_fetchStage :
    (s.fetchStage cfg env).erase = s.erase.fetchStage cfg.unprofiled env := by
  unfold fetchStage
  rw [erase_frontendCanFetch, apply_ite erase]
  refine ite_congr rfl (fun _ => ?_) fun _ => rfl
  exact congrArg (fun r : Sim P B × BoundReason => r.1.setFrontendBoundHint r.2)
    (erase_fetchLoop cfg env s cfg.fetchBandwidth 0 true .none).symm

end

/-! ### Runs -/

/-- The end of the warm-up takes new baselines, of which one is the profile's. -/
theorem erase_advanceCycle : (s.advanceCycle cfg).erase = s.erase.advanceCycle cfg.unprofiled := by
  unfold advanceCycle
  simp only [apply_ite erase]
  rfl

/-- The loop condition reads nothing that is erased. -/
theorem erase_running : s.erase.running = s.running := by
  have hloop : s.erase.loopCondition = s.loopCondition := by
    have hqueue : s.erase.fetchQueue.isEmpty = s.fetchQueue.isEmpty := List.isEmpty_map
    have hbuffer : s.erase.instBuffer.isEmpty = s.instBuffer.isEmpty := List.isEmpty_map
    unfold loopCondition
    rw [hqueue, hbuffer]
    rfl
  rw [running, hloop]
  rfl

section

variable [CachePrefetcher P] [BranchPredictor B]

/-- **Every stage** does with profiling what it does without. -/
theorem erase_stage (b : Boundary) :
    (stage cfg env b s).erase = stage cfg.unprofiled env b s.erase := by
  cases b with
  | advance => exact erase_advanceCycle cfg s
  | commit =>
    have hloop := erase_commitLoop cfg { s with instsBefore := s.instructionsRetired }
      cfg.commitWidth
    exact congrArg (fun t : Sim P B => { t with
      commitStall :=
        t.classifyCommitStall (decide (t.instructionsRetired > t.instsBefore)) }) hloop
  | issue => exact erase_issueStage cfg s
  | dispatch =>
    have hloop := erase_dispatchLoop cfg s cfg.dispatchWidth
    exact congrArg (fun r : BackendStallReason × Sim P B => { r.2 with
      backendStall := if r.1 = BackendStallReason.none then r.2.commitStall else r.1 }) hloop.symm
  | decode =>
    have hloop := erase_decodeLoop (cfg.dispatchWidth * 2) s.instBuffer s.fetchQueue
    exact congrArg (fun r : List OpEntry × List OpEntry => { s.erase with
      instBuffer := r.1, fetchQueue := r.2 }) hloop.symm
  | fetch => exact erase_fetchStage cfg env s
  | _ => rfl

/-- One iteration of the main loop. -/
theorem erase_cycle : (s.cycle cfg env).erase = s.erase.cycle cfg.unprofiled env := by
  have hfold (l : List Boundary) (s : Sim P B) :
      (l.foldl (fun s b => stage cfg env b s) s).erase
        = l.foldl (fun s b => stage cfg.unprofiled env b s) s.erase := by
    induction l generalizing s with
    | nil => rfl
    | cons b l ih => rw [List.foldl_cons, List.foldl_cons, ih, erase_stage]
  exact hfold iteration s

/-- By induction on the number of iterations: both runs end in the same one. -/
theorem erase_runFor (n : ℕ) :
    (runFor cfg env n s).map erase = runFor cfg.unprofiled env n s.erase := by
  induction n generalizing s with
  | zero => rfl
  | succ n ih =>
    rw [runFor, runFor, erase_running, apply_ite (Option.map erase), ih, erase_cycle]
    rfl

/-- **Load profiling is invisible.**  For every stream, predictor, prefetcher and hash-table
order, the runs with and without profiling go in lockstep: after any number of iterations
both have ended, or both go on in states that differ in the profile of the loads only. -/
theorem profiling_erased (n : ℕ) :
    (runFor cfg env n (Sim.new cfg)).map erase
      = runFor cfg.unprofiled env n (Sim.new cfg.unprofiled) :=
  erase_runFor cfg env (Sim.new cfg) n

end

end Sim

end TraceSim
