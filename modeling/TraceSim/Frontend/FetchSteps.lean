/-
TraceSim/Frontend/FetchSteps.lean

What one turn of the fetch loop can do.

A turn acquires a record, from the one-entry buffer or from the reference CPU
(`Acquired`).  It ends the trace, puts the record back, or delivers it to the
instruction buffer (`FetchStep`); the whole stage is a sequence of such turns
(`fetchStage_steps`).
-/
import TraceSim.Frontend.Frontend
import TraceSim.Mem.Runs
import Mathlib.Logic.Relation

namespace TraceSim

/-- What the prediction of an instruction does to the profiler: nothing, if it is no
branch; otherwise the branch is counted, and once more if it was foreseen. -/
inductive Profiler.Predicted (p : Profiler) : Profiler → Prop
  | none : Predicted p p
  | wrong : Predicted p p.incTotalBranches
  | right : Predicted p p.incTotalBranches.incCorrectBranches

namespace Sim

variable {P B : Type}

/-! ### Redirections -/

/-- The state `s'` differs from `s` in the branch predictor, the fetch stall and
the counts of the profiler. -/
inductive Redirected (s : Sim P B) : Sim P B → Prop
  | intro (profiler) (counters : profiler.topdownCounters = s.profiler.topdownCounters)
      (bp randomCalls stallUntil stallReason) :
      Redirected s
        { s with
          profiler := profiler, bp := bp, randomCalls := randomCalls
          fetchStallUntil := stallUntil, fetchStallReason := stallReason }

/-- Nothing happens to the front end. -/
theorem Redirected.refl (s : Sim P B) : Redirected s s :=
  .intro s.profiler rfl s.bp s.randomCalls s.fetchStallUntil s.fetchStallReason

/-- One part after the other. -/
theorem Redirected.trans {s s' s'' : Sim P B} (h : Redirected s s')
    (h' : Redirected s' s'') : Redirected s s'' := by
  cases h with
  | intro profiler counters bp randomCalls stallUntil stallReason =>
    cases h' with
    | intro profiler' counters' bp' randomCalls' stallUntil' stallReason' =>
      exact .intro profiler' (counters'.trans counters) bp' randomCalls' stallUntil'
        stallReason'

/-- Branch counters are no top-down counters. -/
theorem setProfiler_redirected (s : Sim P B) (p : Profiler)
    (h : p.topdownCounters = s.profiler.topdownCounters) :
    Redirected s (s.setProfiler p) :=
  .intro p h s.bp s.randomCalls s.fetchStallUntil s.fetchStallReason

/-- A stall is set, or the one that ends later kept. -/
theorem setFetchStall_eq (s : Sim P B) (stallUntil : ℕ) (reason : FetchStallReason) :
    ∃ u r, s.setFetchStall stallUntil reason
      = { s with fetchStallUntil := u, fetchStallReason := r } := by
  unfold setFetchStall
  split <;> exact ⟨_, _, rfl⟩

/-- A stall changes the front end only. -/
theorem setFetchStall_redirected (s : Sim P B) (stallUntil : ℕ) (reason : FetchStallReason) :
    Redirected s (s.setFetchStall stallUntil reason) := by
  obtain ⟨u, r, heq⟩ := setFetchStall_eq s stallUntil reason
  rw [heq]
  exact .intro s.profiler rfl s.bp s.randomCalls u r

/-- Nor does a redirect change more. -/
theorem redirectFetch_redirected (s : Sim P B) : Redirected s s.redirectFetch := by
  unfold redirectFetch
  split
  · exact setFetchStall_redirected s _ _
  · exact .refl s

section

variable [BranchPredictor B] (cfg : Config P B) (env : Env)

/-- A prediction changes the predictor, and the number of random calls. -/
theorem predictBranch_redirected (s : Sim P B) (inst : TraceInst) :
    Redirected s (s.predictBranch cfg env inst).2 := by
  unfold predictBranch
  split
  · exact .intro s.profiler rfl s.bp _ s.fetchStallUntil s.fetchStallReason
  · exact .intro s.profiler rfl _ s.randomCalls s.fetchStallUntil s.fetchStallReason

/-- A branch: prediction, counters and stall. -/
theorem fetchBranch_redirected (s : Sim P B) (inst : TraceInst) (stop : FetchStop) :
    Redirected s (s.fetchBranch cfg env inst stop).2 := by
  have hpredict := (setProfiler_redirected s s.profiler.incTotalBranches rfl).trans
    (predictBranch_redirected cfg env _ inst)
  unfold fetchBranch
  generalize (s.setProfiler s.profiler.incTotalBranches).predictBranch cfg env inst = pred
    at hpredict ⊢
  have hcorrect := hpredict.trans
    (setProfiler_redirected pred.2 pred.2.profiler.incCorrectBranches rfl)
  dsimp only
  split
  · exact hpredict.trans (setFetchStall_redirected _ _ _)
  · split
    · exact hcorrect.trans (redirectFetch_redirected _)
    · exact hcorrect

/-- What is done behind a fetched instruction. -/
theorem fetchControl_redirected (s : Sim P B) (inst : TraceInst) :
    Redirected s (s.fetchControl cfg env inst).2 := by
  have hbranch : Redirected s (if inst.isBranch then
      s.fetchBranch cfg env inst { stopFetch := inst.isTrap }
      else ({ stopFetch := inst.isTrap }, s)).2 := by
    split
    · exact fetchBranch_redirected cfg env s inst _
    · exact .refl s
  unfold fetchControl
  dsimp only
  split
  · exact hbranch.trans (redirectFetch_redirected _)
  · exact hbranch

end

/-! ### The branch counters -/

/-- Stalls are not counted here. -/
theorem setFetchStall_profiler (s : Sim P B) (stallUntil : ℕ) (reason : FetchStallReason) :
    (s.setFetchStall stallUntil reason).profiler = s.profiler := by
  unfold setFetchStall
  split <;> rfl

/-- Nor are redirects. -/
theorem redirectFetch_profiler (s : Sim P B) : s.redirectFetch.profiler = s.profiler := by
  unfold redirectFetch
  split
  · exact setFetchStall_profiler s _ _
  · rfl

section

variable [BranchPredictor B] (cfg : Config P B) (env : Env)

/-- Nor predictions, before their outcome. -/
theorem predictBranch_profiler (s : Sim P B) (inst : TraceInst) :
    (s.predictBranch cfg env inst).2.profiler = s.profiler := by
  unfold predictBranch
  split <;> rfl

/-- One branch is counted, and its outcome. -/
theorem fetchBranch_predicted (s : Sim P B) (inst : TraceInst) (stop : FetchStop) :
    s.profiler.Predicted (s.fetchBranch cfg env inst stop).2.profiler := by
  have hpredict := predictBranch_profiler cfg env
    (s.setProfiler s.profiler.incTotalBranches) inst
  unfold fetchBranch
  generalize (s.setProfiler s.profiler.incTotalBranches).predictBranch cfg env inst = pred
    at hpredict ⊢
  have hcorrect : (pred.2.setProfiler pred.2.profiler.incCorrectBranches).profiler
      = s.profiler.incTotalBranches.incCorrectBranches :=
    congrArg Profiler.incCorrectBranches hpredict
  dsimp only
  split
  · rw [setFetchStall_profiler, hpredict]
    exact .wrong
  · split
    · rw [redirectFetch_profiler, hcorrect]
      exact .right
    · rw [hcorrect]
      exact .right

/-- Only branches are counted. -/
theorem fetchControl_predicted (s : Sim P B) (inst : TraceInst) :
    s.profiler.Predicted (s.fetchControl cfg env inst).2.profiler := by
  have hbranch : s.profiler.Predicted (if inst.isBranch then
      s.fetchBranch cfg env inst { stopFetch := inst.isTrap }
      else ({ stopFetch := inst.isTrap }, s)).2.profiler := by
    split
    · exact fetchBranch_predicted cfg env s inst _
    · exact .none
  unfold fetchControl
  dsimp only
  split
  · rwa [redirectFetch_profiler]
  · exact hbranch

/-- With the delivery. -/
theorem deliverInst_predicted (s : Sim P B) (inst : TraceInst) :
    s.profiler.Predicted (s.deliverInst cfg env inst).2.profiler :=
  fetchControl_predicted cfg env { s with nextEntryId := s.nextEntryId + 1 } inst

end

/-! ### Turns -/

/-- Acquiring the record `inst` takes `s` to the given state. -/
inductive Acquired (env : Env) (s : Sim P B) : TraceInst → Sim P B → Prop
  | buffered (inst rest) (front : s.preFetchBuffer = inst :: rest) :
      Acquired env s inst { s with preFetchBuffer := rest }
  | stepped (empty : s.preFetchBuffer = []) (running : s.refCpu.simEnd = false)
      (goes : (env.stream s.refCpu.steps).isTerminator = false) :
      Acquired env s (env.stream s.refCpu.steps)
        { s with refCpu := { steps := s.refCpu.steps + 1, simEnd := false } }

/-- One turn of the fetch loop. -/
inductive FetchStep [CachePrefetcher P] (cfg : Config P B) (env : Env) :
    Sim P B → Sim P B → Prop
  | ended (s) (empty : s.preFetchBuffer = []) (running : s.refCpu.simEnd = false)
      (last : (env.stream s.refCpu.steps).isTerminator = true) :
      FetchStep cfg env s
        { s with refCpu := { steps := s.refCpu.steps + 1, simEnd := true } }
  | requeued (s inst s') (acquired : Acquired env s inst s')
      (mem) (during : MemSubsystem.During cfg.mem s.totalCycles s.mem mem)
      (stallUntil stallReason) :
      FetchStep cfg env s
        (frontendRequeueTraceInst
          { s' with
            mem := mem, fetchStallUntil := stallUntil, fetchStallReason := stallReason }
          inst)
  | delivered (s inst s') (acquired : Acquired env s inst s')
      (room : s.instBuffer.length < cfg.instBufferSize)
      (mem) (during : MemSubsystem.During cfg.mem s.totalCycles s.mem mem)
      (profiler) (counters : profiler.topdownCounters = s.profiler.topdownCounters)
      (bp randomCalls stallUntil stallReason) :
      FetchStep cfg env s
        { s' with
          instBuffer := s.instBuffer ++ [s.fetchedOp inst]
          nextEntryId := s.nextEntryId + 1
          mem := mem, profiler := profiler, bp := bp, randomCalls := randomCalls
          fetchStallUntil := stallUntil, fetchStallReason := stallReason }

/-- To take a record changes the buffer in front of the CPU, or the CPU. -/
theorem Acquired.frame {env : Env} {s s' : Sim P B} {inst : TraceInst}
    (h : Acquired env s inst s') :
    ∃ buffer cpu, s' = { s with preFetchBuffer := buffer, refCpu := cpu } := by
  cases h with
  | buffered rest front => exact ⟨_, _, rfl⟩
  | stepped empty running goes => exact ⟨_, _, rfl⟩

/-- The frame of a turn: what it can change. -/
inductive FetchFrame [CachePrefetcher P] (cfg : Config P B) (s : Sim P B) : Sim P B → Prop
  | intro (refCpu preFetchBuffer instBuffer nextEntryId)
      (mem) (during : MemSubsystem.During cfg.mem s.totalCycles s.mem mem)
      (profiler bp randomCalls stallUntil stallReason droppedRequeues) :
      FetchFrame cfg s
        { s with
          refCpu := refCpu, preFetchBuffer := preFetchBuffer, instBuffer := instBuffer
          nextEntryId := nextEntryId, mem := mem, profiler := profiler, bp := bp
          randomCalls := randomCalls, fetchStallUntil := stallUntil
          fetchStallReason := stallReason
          hist := { s.hist with droppedRequeues := droppedRequeues } }

/-- What a step of the fetch loop leaves alone. -/
theorem FetchStep.frame [CachePrefetcher P] {cfg : Config P B} {env : Env} {s s' : Sim P B}
    (h : FetchStep cfg env s s') : FetchFrame cfg s s' := by
  cases h with
  | ended empty running last =>
    exact .intro _ s.preFetchBuffer s.instBuffer s.nextEntryId s.mem
      (MemSubsystem.During.refl _ _ _) s.profiler s.bp s.randomCalls s.fetchStallUntil
      s.fetchStallReason s.hist.droppedRequeues
  | requeued inst s₁ acquired mem during stallUntil stallReason =>
    obtain ⟨buffer, cpu, rfl⟩ := acquired.frame
    unfold frontendRequeueTraceInst
    -- the record goes back to an empty buffer, or is dropped
    split
    · exact .intro cpu _ s.instBuffer s.nextEntryId mem during s.profiler s.bp s.randomCalls
        stallUntil stallReason s.hist.droppedRequeues
    · exact .intro cpu buffer s.instBuffer s.nextEntryId mem during s.profiler s.bp
        s.randomCalls stallUntil stallReason _
  | delivered inst s₁ acquired room mem during profiler counters bp rc stallUntil reason =>
    obtain ⟨buffer, cpu, rfl⟩ := acquired.frame
    exact .intro cpu buffer _ _ mem during profiler bp rc stallUntil reason
      s.hist.droppedRequeues

/-- A turn leaves the instruction buffer alone, or there is room in it and it gets
one entry. -/
theorem FetchStep.instBuffer_cases [CachePrefetcher P] {cfg : Config P B} {env : Env}
    {s s' : Sim P B} (h : FetchStep cfg env s s') :
    s'.instBuffer = s.instBuffer ∨ s.instBuffer.length < cfg.instBufferSize ∧
      ∃ inst, s'.instBuffer = s.instBuffer ++ [s.fetchedOp inst] := by
  cases h with
  | ended empty running last => exact Or.inl rfl
  | requeued inst s₁ acquired mem during stallUntil stallReason =>
    obtain ⟨buffer, cpu, rfl⟩ := acquired.frame
    unfold frontendRequeueTraceInst
    split <;> exact Or.inl rfl
  | delivered inst s₁ acquired room mem during profiler counters bp rc stallUntil reason =>
    obtain ⟨buffer, cpu, rfl⟩ := acquired.frame
    exact Or.inr ⟨room, inst, rfl⟩

/-- What `frontend_acquire_trace_inst` does before the end of the trace. -/
theorem frontendAcquireTraceInst_cases (env : Env) (s : Sim P B)
    (h : s.frontendTraceExhausted = false) :
    (∃ inst s', s.frontendAcquireTraceInst env = (some inst, s') ∧ Acquired env s inst s') ∨
      (s.preFetchBuffer = [] ∧ s.refCpu.simEnd = false ∧
        (env.stream s.refCpu.steps).isTerminator = true ∧
        s.frontendAcquireTraceInst env
          = (none,
            { s with refCpu := { steps := s.refCpu.steps + 1, simEnd := true } })) := by
  rcases e : s.preFetchBuffer with - | ⟨inst, rest⟩
  -- nothing is buffered, so the reference CPU is asked for a record
  · have hrun : s.refCpu.simEnd = false := by
      simpa [frontendTraceExhausted, e] using h
    rcases et : (env.stream s.refCpu.steps).isTerminator with - | -
    · have hgoes := et
      rw [TraceInst.isTerminator, Bool.or_eq_false_iff] at et
      refine Or.inl ⟨env.stream s.refCpu.steps, _, ?_, .stepped e hrun hgoes⟩
      simp [frontendAcquireTraceInst, refCpuStep, e, et.1, et.2, hrun]
    · refine Or.inr ⟨rfl, hrun, rfl, ?_⟩
      rw [TraceInst.isTerminator, Bool.or_eq_true] at et
      simp [frontendAcquireTraceInst, refCpuStep, e, et, hrun]
  · refine Or.inl ⟨inst, _, ?_, .buffered inst rest e⟩
    simp [frontendAcquireTraceInst, e]

section Turns

variable [CachePrefetcher P] (cfg : Config P B)

/-- An instruction that is not admitted has been put back. -/
theorem admitInst_refused {s : Sim P B} {inst : TraceInst} {line : BitVec 32}
    {first : Bool} {hint : BoundReason}
    (h : (s.admitInst cfg inst line first hint).1 = false) :
    ∃ mem stallUntil stallReason, MemSubsystem.During cfg.mem s.totalCycles s.mem mem ∧
      (s.admitInst cfg inst line first hint).2.1
        = frontendRequeueTraceInst
            { s with
              mem := mem, fetchStallUntil := stallUntil, fetchStallReason := stallReason }
            inst := by
  have haccess := MemSubsystem.during_access cfg.mem s.totalCycles s.mem .icache inst.pc
  unfold admitInst checkIcache at h ⊢
  dsimp only at h ⊢
  split_ifs at h ⊢
  · exact ⟨_, s.fetchStallUntil, s.fetchStallReason, haccess, rfl⟩
  · obtain ⟨u, r, heq⟩ := setFetchStall_eq
      (s.setMem (s.mem.accessIcache inst.pc s.totalCycles).2)
      (s.mem.accessIcache inst.pc s.totalCycles).1.readyCycle .icacheMiss
    rw [heq]
    exact ⟨_, u, r, haccess, rfl⟩
  · obtain ⟨u, r, heq⟩ := setFetchStall_eq s (s.totalCycles + 1) .lineBoundary
    rw [heq]
    exact ⟨s.mem, u, r, MemSubsystem.During.refl _ _ _, rfl⟩

/-- The first instruction of a group is admitted exactly if the I-cache holds its
line. -/
theorem checkIcache_admits (s : Sim P B) (inst : TraceInst) (hint : BoundReason) :
    (s.checkIcache cfg inst hint).1 = s.mem.icache.contains inst.pc := by
  obtain ⟨r, l1', llc', haccess, hspec⟩ :=
    MemSubsystem.accessIcache_spec s.mem inst.pc s.totalCycles
  have hhit := hspec.l1Hit_iff
  unfold checkIcache
  rw [haccess]
  dsimp only
  rcases e : s.mem.icache.contains inst.pc with - | -
  · rw [e] at hhit
    have hmiss : r.l1Hit = false := Bool.eq_false_iff.mpr fun h => nomatch hhit.mp h
    rw [hmiss, Bool.not_false, if_pos rfl]
    split <;> rfl
  · have hit : r.l1Hit = true := hhit.mpr e
    rw [hit, hspec.served_of_hit hit]
    rfl

/-- Admitting an instruction changes at most the memory subsystem. -/
theorem admitInst_admitted {s : Sim P B} {inst : TraceInst} {line : BitVec 32}
    {first : Bool} {hint : BoundReason}
    (h : (s.admitInst cfg inst line first hint).1 = true) :
    ∃ mem, MemSubsystem.During cfg.mem s.totalCycles s.mem mem ∧
      (s.admitInst cfg inst line first hint).2.1 = s.setMem mem := by
  have haccess := MemSubsystem.during_access cfg.mem s.totalCycles s.mem .icache inst.pc
  unfold admitInst checkIcache at h ⊢
  dsimp only at h ⊢
  split_ifs at h ⊢
  · exact ⟨_, haccess.trans (MemSubsystem.during_enqueuePrefetch _ _ _ false inst.pc
      inst.pc true), rfl⟩
  · exact ⟨s.mem, MemSubsystem.During.refl _ _ _, rfl⟩

variable [BranchPredictor B] (env : Env)

omit [CachePrefetcher P] in
/-- A delivery in one statement: the op in the buffer, and the front end redirected. -/
theorem deliverInst_eq (s : Sim P B) (inst : TraceInst) :
    ∃ profiler bp randomCalls stallUntil stallReason,
      profiler.topdownCounters = s.profiler.topdownCounters ∧
      (s.deliverInst cfg env inst).2
        = { s with
            instBuffer := s.instBuffer ++ [s.fetchedOp inst]
            nextEntryId := s.nextEntryId + 1
            profiler := profiler, bp := bp, randomCalls := randomCalls
            fetchStallUntil := stallUntil, fetchStallReason := stallReason } := by
  have hcontrol := fetchControl_redirected cfg env
    { s with nextEntryId := s.nextEntryId + 1 } inst
  unfold deliverInst
  generalize fetchControl cfg env { s with nextEntryId := s.nextEntryId + 1 } inst = control
    at hcontrol ⊢
  -- the entry is made before control flow is looked at, so it is that of `s`
  obtain ⟨stop, s'⟩ := control
  cases hcontrol with
  | intro profiler counters bp randomCalls stallUntil stallReason =>
    exact ⟨profiler, bp, randomCalls, stallUntil, stallReason, counters, rfl⟩

/-- What the parts of a turn preserve, the fetch loop preserves. -/
theorem fetchLoop_rule {I : Sim P B → Prop}
    (hacquire : ∀ {s}, I s → I (s.frontendAcquireTraceInst env).2)
    (hadmits : ∀ {s} (inst line first hint), I s → I (s.admitInst cfg inst line first hint).2.1)
    (hdeliver : ∀ {s} (inst), I s → I (s.deliverInst cfg env inst).2)
    (n : ℕ) {s : Sim P B} (line : BitVec 32) (first : Bool) (hint : BoundReason) (h : I s) :
    I (fetchLoop cfg env n s line first hint).1 := by
  -- along the loop, through the parts of each turn
  induction n generalizing s line first hint with
  | zero => exact h
  | succ n ih =>
    have hacq := hacquire h
    rw [fetchLoop]
    generalize s.frontendAcquireTraceInst env = acquired at hacq ⊢
    obtain ⟨- | inst, s'⟩ := acquired
    · dsimp only
      split
      · exact h
      · split
        · exact h
        · exact hacq
    · have hadmitted := hadmits inst line first hint hacq
      have hdelivered := hdeliver inst hadmitted
      have hnext := ih (if first then lineAddr inst.pc s'.mem.icacheLineSize else line) false
        (s'.admitInst cfg inst line first hint).2.2 hdelivered
      dsimp only
      split
      · exact h
      · split
        · exact h
        · split
          · exact hadmitted
          · split
            · exact hdelivered
            · exact hnext

/-- **The fetch loop** is a sequence of turns. -/
theorem fetchLoop_steps (n : ℕ) (s : Sim P B) (line : BitVec 32) (first : Bool)
    (hint : BoundReason) :
    Relation.ReflTransGen (FetchStep cfg env) s
      (fetchLoop cfg env n s line first hint).1 := by
  induction n generalizing s line first hint with
  | zero => exact .refl
  | succ n ih =>
    unfold fetchLoop
    rcases hfetch : s.frontendCanFetch cfg with - | -
    · exact .refl
    -- the loop stops, or a record is acquired, or the trace ends here
    rcases hexhausted : s.frontendTraceExhausted with - | -
    swap
    · exact .refl
    rw [Bool.not_true, if_neg Bool.false_ne_true, if_neg Bool.false_ne_true]
    have hroom : s.instBuffer.length < cfg.instBufferSize := by
      simp only [frontendCanFetch, Bool.and_eq_true, decide_eq_true_eq] at hfetch
      exact hfetch.2
    rcases frontendAcquireTraceInst_cases env s hexhausted with
      ⟨inst, s', hacq, hacquired⟩ | ⟨hempty, hrun, hlast, hacq⟩
    · rw [hacq]
      dsimp only
      obtain ⟨buffer, cpu, hframe⟩ := hacquired.frame
      rcases e : (s'.admitInst cfg inst line first hint).1 with - | -
      · obtain ⟨mem, u, r, hduring, heq⟩ := admitInst_refused cfg e
        rw [Bool.not_false, if_pos rfl, heq]
        refine .single (.requeued s inst s' hacquired mem ?_ u r)
        rwa [hframe] at hduring
      · obtain ⟨mem, hduring, heq⟩ := admitInst_admitted cfg e
        rw [Bool.not_true, if_neg Bool.false_ne_true, heq]
        obtain ⟨profiler, bp, rc, u, r, hcounters, hdeliver⟩ :=
          deliverInst_eq cfg env (s'.setMem mem) inst
        have hstep : FetchStep cfg env s ((s'.setMem mem).deliverInst cfg env inst).2 := by
          rw [hdeliver]
          subst hframe
          exact .delivered s inst _ hacquired hroom mem hduring profiler hcounters bp rc u r
        rcases hstop : ((s'.setMem mem).deliverInst cfg env inst).1.stopFetch with - | -
        · rw [if_neg Bool.false_ne_true]
          exact .head hstep (ih _ _ _ _)
        · exact .single hstep
    · rw [hacq]
      exact .single (.ended s hempty hrun hlast)

/-- **The fetch stage** is a sequence of turns, and then sets the hint. -/
theorem fetchStage_steps (s : Sim P B) :
    ∃ s' hint, Relation.ReflTransGen (FetchStep cfg env) s s' ∧
      s.fetchStage cfg env = s'.setFrontendBoundHint hint := by
  unfold fetchStage
  split_ifs
  · exact ⟨_, _, fetchLoop_steps cfg env _ _ _ _ _, rfl⟩
  · exact ⟨s, .none, .refl, rfl⟩

end Turns

end Sim

end TraceSim
