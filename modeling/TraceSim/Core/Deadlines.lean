/-
TraceSim/Core/Deadlines.lean

No cycle that the pipeline waits for is further away than the longest latency.

That is the latency of a load that misses in both levels.  The ready times of the
registers, the cycles at which the ops of the reorder buffer complete and the end of the
fetch stall are all set from the current cycle, and what the memory subsystem answers is
bounded by its own invariant (`Timely`).
-/
import TraceSim.Core.Memory
import TraceSim.Core.Representation
import TraceSim.Mem.LatencyBounds

namespace TraceSim

/-- The latency of a load that misses in both levels. -/
def longestLatency : ℕ := lduLatency + llcHitLatency + memoryMissPenalty

/-- An access of either first level is served within the longest latency. -/
theorem L1.hitLatency_le (x : L1) (t : ℕ) :
    t + x.hitLatency + llcHitLatency + memoryMissPenalty ≤ t + longestLatency := by
  cases x <;> simp only [L1.hitLatency, longestLatency, icacheHitLatency] <;> omega

/-- The cycles an op has been given are no later than `n`. -/
structure OpEntry.InTime (op : OpEntry) (n : ℕ) : Prop where
  execute : op.executeCycle ≤ n
  sta : op.staCycle ≤ n
  std : op.stdCycle ≤ n

/-- A later deadline is kept too. -/
theorem OpEntry.InTime.mono {op : OpEntry} {n m : ℕ} (h : op.InTime n) (hle : n ≤ m) :
    op.InTime m :=
  ⟨h.execute.trans hle, h.sta.trans hle, h.std.trans hle⟩

/-- An op that has not issued has no time to keep. -/
theorem FreshOp.inTime {op : OpEntry} (h : FreshOp op) (n : ℕ) : op.InTime n := by
  rw [h.fetched]
  exact ⟨Nat.zero_le n, Nat.zero_le n, Nat.zero_le n⟩

namespace Sim

variable {P B : Type} {cfg : Config P B} {env : Env} {s s' : Sim P B}

/-- What the pipeline waits for happens within the longest latency. -/
structure InTime (s : Sim P B) : Prop where
  registers : ∀ r, s.regReadyTime r ≤ s.totalCycles + longestLatency
  ops : ∀ i, (s.rob i).InTime (s.totalCycles + longestLatency)
  stall : s.fetchStallUntil ≤ s.totalCycles + longestLatency

/-- There are no ops at the start. -/
theorem inTime_new (cfg : Config P B) : InTime (Sim.new cfg) where
  registers _ := Nat.zero_le _
  ops _ := ⟨Nat.zero_le _, Nat.zero_le _, Nat.zero_le _⟩
  stall := Nat.zero_le _

/-- Nothing new is waited for, and time goes on. -/
theorem InTime.of_same (h : InTime s) (hregs : s'.regReadyTime = s.regReadyTime)
    (hrob : s'.rob = s.rob) (hstall : s'.fetchStallUntil = s.fetchStallUntil)
    (hle : s.totalCycles ≤ s'.totalCycles) : InTime s' := by
  have hlater : s.totalCycles + longestLatency ≤ s'.totalCycles + longestLatency :=
    Nat.add_le_add_right hle _
  refine ⟨fun r => ?_, fun i => ?_, ?_⟩
  · rw [hregs]
    exact (h.registers r).trans hlater
  · rw [hrob]
    exact (h.ops i).mono hlater
  · rw [hstall]
    exact h.stall.trans hlater

/-- One entry is replaced. -/
theorem InTime.update (h : InTime s) {i : ℕ} {op' : OpEntry}
    (hop : op'.InTime (s.totalCycles + longestLatency))
    (hrob : s'.rob = Function.update s.rob i op')
    (hregs : ∀ r, s'.regReadyTime r ≤ s.totalCycles + longestLatency)
    (hstall : s'.fetchStallUntil = s.fetchStallUntil)
    (htime : s'.totalCycles = s.totalCycles) : InTime s' := by
  refine ⟨fun r => ?_, fun j => ?_, ?_⟩
  · rw [htime]
    exact hregs r
  · rw [htime, hrob]
    by_cases hj : j = i
    · rw [hj, Function.update_self]
      exact hop
    · rw [Function.update_of_ne hj]
      exact h.ops j
  · rw [htime, hstall]
    exact h.stall

/-- A destination is ready when its op is, which is in time. -/
theorem InTime.markedTimes (h : InTime s) (op : OpEntry) {t : ℕ}
    (ht : t ≤ s.totalCycles + longestLatency) (r : Fin 32) :
    s.markedTimes op t r ≤ s.totalCycles + longestLatency := by
  unfold Sim.markedTimes
  split
  · by_cases hr : r = op.inst.rd
    · rw [hr, Function.update_self]
      exact ht
    · rw [Function.update_of_ne hr]
      exact h.registers r
  · exact h.registers r

/-! ### Issue -/

/-- An op that executes within the longest latency. -/
theorem InTime.markLoadExecuted (h : InTime s) (i : ℕ) {t : ℕ}
    (ht : t ≤ s.totalCycles + longestLatency) : InTime (s.markLoadExecuted i t) := by
  have hop : (s.executedOp i t).InTime (s.totalCycles + longestLatency) :=
    ⟨ht, (h.ops i).sta, (h.ops i).std⟩
  rw [markLoadExecuted_eq]
  exact h.update hop rfl (h.markedTimes _ ht) rfl rfl

/-- An op of the ALU or the branch queue takes its latency. -/
theorem InTime.execAttempt (h : InTime s) {latency : ℕ} (hle : latency ≤ longestLatency)
    (i : ℕ) : InTime (execAttempt latency s i).1 := by
  unfold Sim.execAttempt
  dsimp only
  split
  · exact h.markLoadExecuted i (Nat.add_le_add_left hle _)
  · exact h

/-- A store is done when its later part is. -/
theorem OpEntry.InTime.finishStore {op : OpEntry} {n : ℕ} (h : op.InTime n) (b : Bool) :
    (finishStore op b).InTime n := by
  unfold Sim.finishStore
  split
  · exact ⟨max_le h.sta h.std, h.sta, h.std⟩
  · exact h

/-- The address part takes its latency. -/
theorem InTime.staAttempt (h : InTime s) (i : ℕ) : InTime (staAttempt s i).1 := by
  have hcycle : s.totalCycles + staLatency ≤ s.totalCycles + longestLatency :=
    Nat.add_le_add_left (by decide) _
  unfold Sim.staAttempt
  dsimp only
  split
  · refine h.update (OpEntry.InTime.finishStore ?_ _) rfl h.registers rfl rfl
    exact ⟨(h.ops i).execute, hcycle, (h.ops i).std⟩
  · exact h

/-- The data part as well. -/
theorem InTime.stdAttempt (h : InTime s) (i : ℕ) : InTime (stdAttempt s i).1 := by
  have hcycle : s.totalCycles + stdLatency ≤ s.totalCycles + longestLatency :=
    Nat.add_le_add_left (by decide) _
  unfold Sim.stdAttempt
  dsimp only
  split
  · refine h.update (OpEntry.InTime.finishStore ?_ _) rfl h.registers rfl rfl
    exact ⟨(h.ops i).execute, (h.ops i).sta, hcycle⟩
  · exact h

/-- The same op, completing at the given cycle. -/
theorem InTime.same_op (h : InTime s) {i : ℕ} {op' : OpEntry} (same : SameOp (s.rob i) op')
    (hcycle : op'.executeCycle ≤ s.totalCycles + longestLatency) :
    op'.InTime (s.totalCycles + longestLatency) := by
  refine ⟨hcycle, ?_, ?_⟩
  · rw [same.staCycle]
    exact (h.ops i).sta
  · rw [same.stdCycle]
    exact (h.ops i).std

variable [CachePrefetcher P]

/-- A load takes as long as its access, which the caches bound, or forwards in one
cycle. -/
theorem InTime.lduAttempt (h : InTime s) (hm : s.mem.Timely (some s.totalCycles)) (i : ℕ) :
    InTime (lduAttempt cfg s i).1 := by
  have hout := lduAttempt_outcome cfg s i
  generalize (Sim.lduAttempt cfg s i).1 = s', (Sim.lduAttempt cfg s i).2 = ok at hout
  cases hout with
  | notReady sources => exact h
  | stalled op' same executed cycle dep =>
    exact h.update (h.same_op same (cycle ▸ (h.ops i).execute)) rfl h.registers rfl rfl
  | forwarded sources src dep stlf data time op' same executed cycle stats =>
    have hcycle : op'.executeCycle ≤ s.totalCycles + longestLatency := by
      rw [cycle]
      exact Nat.add_le_add_left (by decide) _
    exact h.update (h.same_op same hcycle) rfl (h.markedTimes op' hcycle) rfl rfl
  | refused dep r mem access blocked op' same executed cycle =>
    exact h.update (h.same_op same (cycle ▸ (h.ops i).execute)) rfl h.registers rfl rfl
  | accessed sources dep r mem access served op' same executed cycle stats =>
    -- the data cache answers in time
    have hcycle : op'.executeCycle ≤ s.totalCycles + longestLatency := by
      have hr : (s.mem.access .dcache (s.rob i).inst.memAddr s.totalCycles).1 = r :=
        congrArg Prod.fst access
      have hbounds := hm.readyCycle_bounds .dcache (s.rob i).inst.memAddr (hr ▸ served)
      rw [hr] at hbounds
      rw [cycle]
      exact hbounds.2.trans (L1.hitLatency_le .dcache _)
    exact h.update (h.same_op same hcycle) rfl (h.markedTimes op' hcycle) rfl rfl

/-- Whatever the queue is. -/
theorem InTime.attempt (h : InTime s) (hm : s.mem.Timely (some s.totalCycles)) (q : Iq)
    (i : ℕ) : InTime (attempt cfg q s i).1 := by
  cases q with
  | alu => exact h.execAttempt (show aluLatency ≤ longestLatency by decide) i
  | ldu => exact h.lduAttempt hm i
  | sta => exact h.staAttempt i
  | std => exact h.stdAttempt i
  | bru => exact h.execAttempt (show bruLatency ≤ longestLatency by decide) i

/-- All attempts of a cycle. -/
theorem InTime.issueStage (h : InTime s) (hm : s.mem.Timely (some s.totalCycles)) :
    InTime (s.issueStage cfg) := by
  suffices hboth : InTime (s.issueStage cfg) ∧
      (s.issueStage cfg).mem.Timely (some (s.issueStage cfg).totalCycles) from hboth.1
  refine issueStage_attempts (I := fun s => InTime s ∧ s.mem.Timely (some s.totalCycles))
    (fun {s} q i hs => ?_) (fun {s} q l hs => ?_) ⟨h, hm⟩
  · obtain ⟨op', ht, -⟩ := (attempt_outcome cfg q s i).touched
    exact ⟨hs.1.attempt hs.2 q i,
      ht.memDuring.memoryAt MemSubsystem.timely_runInvariant hs.2⟩
  · cases q <;> exact ⟨hs.1.of_same rfl rfl rfl le_rfl, hs.2⟩

/-! ### Dispatch -/

omit [CachePrefetcher P] in
/-- Dispatched ops have not issued. -/
theorem InTime.dispatchLoop (h : InTime s) (hr : Represents cfg s) (n : ℕ) :
    InTime (s.dispatchLoop cfg n).2 := by
  suffices hboth : InTime (s.dispatchLoop cfg n).2 ∧ Represents cfg (s.dispatchLoop cfg n).2
    from hboth.1
  refine dispatchLoop_rule (I := fun s => InTime s ∧ Represents cfg s)
    (fun {s op rest} hs hqueue hfree => ?_) n ⟨h, hr⟩
  · refine ⟨?_, hs.2.dispatches hqueue hfree⟩
    have hfresh : FreshOp op :=
      hs.2.fresh op (List.mem_append_left _ (hqueue ▸ List.mem_cons_self))
    have hop : (s.dispatchedOp op).InTime (s.totalCycles + longestLatency) :=
      ⟨(hfresh.inTime _).execute, (hfresh.inTime _).sta, (hfresh.inTime _).std⟩
    refine hs.1.update hop (dispatchOne_rob cfg s op) (fun r => ?_) ?_
      (dispatchOne_totalCycles cfg s op)
    · rw [dispatchOne_regReadyTime]
      exact hs.1.registers r
    · unfold dispatchOne
      cases iqTarget op <;> rfl

/-! ### Fetch -/

/-- Fetch stalls no later than `n`, in cycle `t`. -/
structure StalledBy (t n : ℕ) (s : Sim P B) : Prop where
  totalCycles : s.totalCycles = t
  stall : s.fetchStallUntil ≤ n

variable {t n : ℕ}

omit [CachePrefetcher P] in
/-- A stall that ends in time, beside one that does. -/
theorem StalledBy.setFetchStall (h : StalledBy t n s) {stallUntil : ℕ} (hle : stallUntil ≤ n)
    (reason : FetchStallReason) : StalledBy t n (s.setFetchStall stallUntil reason) := by
  unfold Sim.setFetchStall
  split
  · exact ⟨h.totalCycles, hle⟩
  · exact h

omit [CachePrefetcher P] in
/-- The redirect stall. -/
theorem StalledBy.redirectFetch (h : StalledBy t n s) (hn : t + longestLatency ≤ n) :
    StalledBy t n s.redirectFetch := by
  unfold Sim.redirectFetch
  split
  · refine h.setFetchStall ?_ _
    rw [h.totalCycles]
    exact (Nat.add_le_add_left (by decide) t).trans hn
  · exact h

variable [BranchPredictor B]

omit [CachePrefetcher P] in
/-- The predictor stalls nothing. -/
theorem StalledBy.predictBranch (h : StalledBy t n s) (inst : TraceInst) :
    StalledBy t n (s.predictBranch cfg env inst).2 := by
  unfold Sim.predictBranch
  split <;> exact ⟨h.totalCycles, h.stall⟩

omit [CachePrefetcher P] in
/-- A branch stalls for the redirect or for the penalty. -/
theorem StalledBy.fetchBranch (h : StalledBy t n s) (hn : t + longestLatency ≤ n)
    (inst : TraceInst) (stop : FetchStop) :
    StalledBy t n (s.fetchBranch cfg env inst stop).2 := by
  have hcounted : StalledBy t n (s.setProfiler s.profiler.incTotalBranches) :=
    ⟨h.totalCycles, h.stall⟩
  have hpred : StalledBy t n
      ((s.setProfiler s.profiler.incTotalBranches).predictBranch cfg env inst).2 :=
    hcounted.predictBranch inst
  unfold Sim.fetchBranch
  generalize (s.setProfiler s.profiler.incTotalBranches).predictBranch cfg env inst = pred
    at hpred ⊢
  have hcorrect : StalledBy t n (pred.2.setProfiler pred.2.profiler.incCorrectBranches) :=
    ⟨hpred.totalCycles, hpred.stall⟩
  dsimp only
  split
  · refine hpred.setFetchStall ?_ _
    rw [hpred.totalCycles]
    exact (Nat.add_le_add_left (by decide) t).trans hn
  · split
    · exact hcorrect.redirectFetch hn
    · exact hcorrect

omit [CachePrefetcher P] in
/-- An instruction that is delivered may stall behind itself. -/
theorem StalledBy.deliverInst (h : StalledBy t n s) (hn : t + longestLatency ≤ n)
    (inst : TraceInst) : StalledBy t n (s.deliverInst cfg env inst).2 := by
  have hnext : StalledBy t n { s with nextEntryId := s.nextEntryId + 1 } :=
    ⟨h.totalCycles, h.stall⟩
  have hbranch : StalledBy t n (if inst.isBranch then
      { s with nextEntryId := s.nextEntryId + 1 }.fetchBranch cfg env inst
        { stopFetch := inst.isTrap }
      else ({ stopFetch := inst.isTrap }, { s with nextEntryId := s.nextEntryId + 1 })).2 := by
    split
    · exact hnext.fetchBranch hn inst _
    · exact hnext
  have hcontrol : StalledBy t n
      ({ s with nextEntryId := s.nextEntryId + 1 }.fetchControl cfg env inst).2 := by
    unfold Sim.fetchControl
    dsimp only
    split
    · exact hbranch.redirectFetch hn
    · exact hbranch
  exact ⟨hcontrol.totalCycles, hcontrol.stall⟩

omit [BranchPredictor B] in
/-- One that is not admitted stalls for its line. -/
theorem StalledBy.admitInst (h : StalledBy t n s) (hn : t + longestLatency ≤ n)
    (hm : s.mem.Timely (some t)) (inst : TraceInst) (line : BitVec 32) (first : Bool)
    (hint : BoundReason) : StalledBy t n (s.admitInst cfg inst line first hint).2.1 := by
  have hrequeue {s : Sim P B} (hs : StalledBy t n s) :
      StalledBy t n (s.frontendRequeueTraceInst inst) := by
    unfold frontendRequeueTraceInst
    split <;> exact ⟨hs.totalCycles, hs.stall⟩
  have hmem (mem : MemSubsystem P) : StalledBy t n (s.setMem mem) := ⟨h.totalCycles, h.stall⟩
  have hbounds := hm.readyCycle_bounds .icache inst.pc
  unfold Sim.admitInst checkIcache
  rw [h.totalCycles]
  dsimp only
  split_ifs with _ hblocked
  · exact hrequeue (hmem _)
  -- the line is there within the longest latency
  · refine hrequeue ((hmem _).setFetchStall ?_ _)
    have hserved : (s.mem.access .icache inst.pc t).1.blocked = false :=
      Bool.eq_false_iff.mpr hblocked
    exact ((hbounds hserved).2.trans (L1.hitLatency_le .icache t)).trans hn
  · exact ⟨h.totalCycles, h.stall⟩
  · refine hrequeue (h.setFetchStall ?_ _)
    exact (Nat.add_le_add_left (by decide) t).trans hn
  · exact h

/-- The stall of a cycle ends within the longest latency. -/
theorem StalledBy.fetchStage (h : StalledBy t n s) (hn : t + longestLatency ≤ n)
    (hm : s.mem.Timely (some t)) : StalledBy t n (s.fetchStage cfg env) := by
  unfold Sim.fetchStage
  split
  swap
  · exact ⟨h.totalCycles, h.stall⟩
  have hboth := fetchLoop_rule cfg env
    (I := fun s => StalledBy t n s ∧ s.mem.Timely (some t)) (fun {s} hs => ?_)
    (fun {s} inst line first hint hs => ?_) (fun {s} inst hs => ?_) cfg.fetchBandwidth 0 true
    .none ⟨h, hm⟩
  · exact ⟨hboth.1.totalCycles, hboth.1.stall⟩
  · unfold frontendAcquireTraceInst
    split
    · exact ⟨⟨hs.1.totalCycles, hs.1.stall⟩, hs.2⟩
    · dsimp only
      split <;> exact ⟨⟨hs.1.totalCycles, hs.1.stall⟩, hs.2⟩
  · refine ⟨hs.1.admitInst hn hs.2 inst line first hint, ?_⟩
    have hduring := (admitInst_memDuring cfg s inst line first hint).memoryAt
      MemSubsystem.timely_runInvariant (hs.1.totalCycles.symm ▸ hs.2)
    rwa [(hs.1.admitInst hn hs.2 inst line first hint).totalCycles] at hduring
  · refine ⟨hs.1.deliverInst hn inst, ?_⟩
    obtain ⟨profiler, bp, rc, u, r, -, heq⟩ := deliverInst_eq cfg env s inst
    rw [heq]
    exact hs.2

/-- The fetch stage leaves the back end alone. -/
theorem fetchStage_same (cfg : Config P B) (env : Env) (s : Sim P B) :
    (s.fetchStage cfg env).regReadyTime = s.regReadyTime ∧
      (s.fetchStage cfg env).rob = s.rob ∧
      (s.fetchStage cfg env).totalCycles = s.totalCycles := by
  refine fetchStage_rule (I := fun s' => s'.regReadyTime = s.regReadyTime ∧ s'.rob = s.rob ∧
    s'.totalCycles = s.totalCycles) (fun h hturn => ?_) (fun _ h => h) ⟨rfl, rfl, rfl⟩
  cases hturn.frame
  exact h

/-! ### Every run -/

/-- **What the pipeline waits for happens within the longest latency**, at every boundary
of every run. -/
theorem Reach.inTime {b : Boundary} (h : Reach cfg env b s) : InTime s := by
  induction h with
  | start => exact inTime_new cfg
  | @step b s hs _ ih =>
    have hr := hs.invariant (represents_invariant cfg env _) (commitsIn_true cfg env)
    have hm := hs.memory MemSubsystem.timely_runInvariant (MemSubsystem.timely_new cfg.mem)
    -- new times are set by the issue and the fetch stage, within the longest latency of now
    cases b with
    | returns => exact ih.of_same rfl rfl rfl le_rfl
    | advance =>
      show InTime (s.advanceCycle cfg)
      unfold advanceCycle
      split_ifs <;> exact ih.of_same rfl rfl rfl le_rfl
    | commit =>
      have hloop : InTime ({ s with instsBefore := s.instructionsRetired }.commitLoop cfg
          cfg.commitWidth) :=
        commitLoop_rule (fun hs _ => hs.of_same rfl rfl rfl le_rfl) _
          (ih.of_same rfl rfl rfl le_rfl)
      exact hloop.of_same rfl rfl rfl le_rfl
    | issue => exact ih.issueStage hm
    | dispatch =>
      have hloop := ih.dispatchLoop hr cfg.dispatchWidth
      exact hloop.of_same rfl rfl rfl le_rfl
    | decode => exact ih.of_same rfl rfl rfl le_rfl
    | fetch =>
      obtain ⟨hregs, hrob, htime⟩ := fetchStage_same cfg env s
      have hstall : StalledBy s.totalCycles (s.totalCycles + longestLatency)
          (s.fetchStage cfg env) :=
        StalledBy.fetchStage ⟨rfl, ih.stall⟩ le_rfl hm
      refine ⟨fun r => ?_, fun i => ?_, ?_⟩
      · show (s.fetchStage cfg env).regReadyTime r ≤ (s.fetchStage cfg env).totalCycles + _
        rw [hregs, htime]
        exact ih.registers r
      · show ((s.fetchStage cfg env).rob i).InTime ((s.fetchStage cfg env).totalCycles + _)
        rw [hrob, htime]
        exact ih.ops i
      · show (s.fetchStage cfg env).fetchStallUntil ≤ (s.fetchStage cfg env).totalCycles + _
        rw [htime]
        exact hstall.stall
    | service => exact ih.of_same rfl rfl rfl le_rfl
    | account => exact ih.of_same rfl rfl rfl (Nat.le_succ _)

end Sim

end TraceSim
