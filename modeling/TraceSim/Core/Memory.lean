/-
TraceSim/Core/Memory.lean

The memory subsystem inside the simulator.

The results on the memory subsystem are about runs under a discipline: the returns
of a cycle come first, and every access of the cycle is made after them.  The loop of
`run()` keeps it (`Reach.memory`): whatever every disciplined run of the subsystem
preserves holds of the subsystem at every boundary of every run of the simulator.
-/
import TraceSim.Core.Steps
import TraceSim.Mem.Owners
import TraceSim.Mem.PrefetchQueues

namespace TraceSim

namespace Sim

variable {P B : Type} [CachePrefetcher P] {cfg : Config P B} {env : Env} {s s' : Sim P B}

/-- Going from `s` to `s'` calls the memory subsystem as the discipline allows in
one cycle. -/
structure MemDuring (cfg : Config P B) (s s' : Sim P B) : Prop where
  totalCycles : s'.totalCycles = s.totalCycles
  during : MemSubsystem.During cfg.mem s.totalCycles s.mem s'.mem

/-- Nothing happens to the caches. -/
theorem MemDuring.of_same (hmem : s'.mem = s.mem) (ht : s'.totalCycles = s.totalCycles) :
    MemDuring cfg s s' :=
  ⟨ht, hmem ▸ MemSubsystem.During.refl _ _ _⟩

/-- No step at all. -/
theorem MemDuring.refl (cfg : Config P B) (s : Sim P B) : MemDuring cfg s s :=
  .of_same rfl rfl

/-- Accesses of one cycle, one after the other. -/
theorem MemDuring.trans {s s' s'' : Sim P B} (h : MemDuring cfg s s')
    (h' : MemDuring cfg s' s'') : MemDuring cfg s s'' where
  totalCycles := h'.totalCycles.trans h.totalCycles
  during := h.during.trans (h.totalCycles ▸ h'.during)

/-! ### Stages -/

/-- Retirement does not access memory, also for stores. -/
theorem commitLoop_memDuring (cfg : Config P B) (n : ℕ) (s : Sim P B) :
    MemDuring cfg s (s.commitLoop cfg n) := by
  refine commitLoop_rule (fun h _ => h.trans ?_) n (.refl cfg s)
  exact .of_same rfl rfl

/-- An attempt does what its outcome says. -/
theorem Touched.memDuring {i : ℕ} {op' : OpEntry} (h : Touched cfg s i op' s') :
    MemDuring cfg s s' := by
  cases h with
  | intro mem during profiler stats times marks counters => exact ⟨rfl, during⟩

/-- The attempts of several queues. -/
theorem issueIqs_memDuring (cfg : Config P B) (s : Sim P B) (qs : List Iq) :
    MemDuring cfg s (qs.foldl (issueIq cfg) s) := by
  refine issueIqs_attempts (fun {s'} q i h => ?_) (fun q l h => h.trans ?_) qs (.refl cfg s)
  · obtain ⟨op', ht, -⟩ := (attempt_outcome cfg q s' i).touched
    exact h.trans ht.memDuring
  · exact .of_same (setIq_mem _ q l) (setIq_totalCycles _ q l)

/-- The issue stage. -/
theorem issueStage_memDuring (cfg : Config P B) (s : Sim P B) :
    MemDuring cfg s (s.issueStage cfg) := by
  rw [issueStage_eq]
  exact issueIqs_memDuring cfg s _

/-- Dispatch accesses nothing. -/
theorem dispatchLoop_memDuring (cfg : Config P B) (n : ℕ) (s : Sim P B) :
    MemDuring cfg s (s.dispatchLoop cfg n).2 := by
  refine dispatchLoop_rule (fun {s₁ op rest} h _ _ => h.trans ?_) n (.refl cfg s)
  unfold dispatchOne
  cases iqTarget op <;> exact .of_same rfl rfl

/-- A fetch may ask the I-cache. -/
theorem FetchStep.memDuring (h : FetchStep cfg env s s') : MemDuring cfg s s' := by
  cases h.frame with
  | intro refCpu preFetchBuffer instBuffer nextEntryId mem during => exact ⟨rfl, during⟩

/-- A group of them. -/
theorem fetchTurns_memDuring (h : Relation.ReflTransGen (FetchStep cfg env) s s') :
    MemDuring cfg s s' := by
  induction h with
  | refl => exact .refl cfg s
  | tail _ hturn ih => exact ih.trans hturn.memDuring

/-- Checking an acquired instruction accesses the I-cache at most. -/
theorem admitInst_memDuring (cfg : Config P B) (s : Sim P B) (inst : TraceInst)
    (line : BitVec 32) (first : Bool) (hint : BoundReason) :
    MemDuring cfg s (s.admitInst cfg inst line first hint).2.1 := by
  rcases e : (s.admitInst cfg inst line first hint).1 with - | -
  · obtain ⟨mem, u, r, during, heq⟩ := admitInst_refused cfg e
    rw [heq]
    unfold frontendRequeueTraceInst
    split <;> exact ⟨rfl, during⟩
  · obtain ⟨mem, during, heq⟩ := admitInst_admitted cfg e
    rw [heq]
    exact ⟨rfl, during⟩

variable [BranchPredictor B]

/-- The whole fetch stage. -/
theorem fetchStage_memDuring (cfg : Config P B) (env : Env) (s : Sim P B) :
    MemDuring cfg s (s.fetchStage cfg env) :=
  fetchStage_rule (fun h hturn => h.trans hturn.memDuring)
    (fun _ h => h.trans (.of_same rfl rfl)) (.refl cfg s)

omit [CachePrefetcher P] [BranchPredictor B] in
/-- The end of the warm-up takes baselines and touches no cache. -/
theorem advanceCycle_same (cfg : Config P B) (s : Sim P B) :
    s.mem.SameCaches (s.advanceCycle cfg).mem ∧
      (s.advanceCycle cfg).totalCycles = s.totalCycles := by
  have hsame : ∀ x, ∃ p, s.mem.l1 x = { s.mem.l1 x with prefetcher := p } :=
    fun x => ⟨_, rfl⟩
  unfold advanceCycle
  split_ifs
  -- resetting the baselines touches no cache
  · exact ⟨⟨fun x => by cases x <;> exact ⟨_, rfl⟩, rfl⟩, rfl⟩
  all_goals exact ⟨⟨hsame, rfl⟩, rfl⟩

/-- The clock moves on at the end of the loop body only. -/
theorem stage_totalCycles (cfg : Config P B) (env : Env) {b : Boundary} (hb : b ≠ .account)
    (s : Sim P B) : (stage cfg env b s).totalCycles = s.totalCycles := by
  cases b with
  | account => exact absurd rfl hb
  | advance => exact (advanceCycle_same cfg s).2
  | commit =>
    exact (commitLoop_memDuring cfg cfg.commitWidth
      { s with instsBefore := s.instructionsRetired }).totalCycles
  | issue => exact (issueStage_memDuring cfg s).totalCycles
  | dispatch => exact (dispatchLoop_memDuring cfg cfg.dispatchWidth s).totalCycles
  | fetch => exact (fetchStage_memDuring cfg env s).totalCycles
  | _ => rfl

/-! ### Runs -/

/-- What holds of the subsystem at a boundary: the latest returns are those of this
cycle, or of an earlier one before they are due. -/
def MemoryAt (Inv : Option ℕ → MemSubsystem P → Prop) : Boundary → Sim P B → Prop
  | .returns, s => ∃ last, (∀ p ∈ last, p ≤ s.totalCycles) ∧ Inv last s.mem
  | _, s => Inv (some s.totalCycles) s.mem

omit [BranchPredictor B] in
/-- What the calls of the caches keep is kept. -/
theorem MemDuring.memoryAt {Inv : Option ℕ → MemSubsystem P → Prop}
    (hinv : RunInvariant Inv) (h : MemDuring cfg s s')
    (hs : Inv (some s.totalCycles) s.mem) : Inv (some s'.totalCycles) s'.mem := by
  obtain ⟨ops, hops, hlast, hexecs⟩ := h.during
  have hrun := hinv.execs cfg.mem hops hs
  rw [hlast, hexecs] at hrun
  rwa [h.totalCycles]

/-- A stage keeps an invariant of disciplined runs. -/
theorem MemoryAt.stage {Inv : Option ℕ → MemSubsystem P → Prop} {b : Boundary}
    (h : MemoryAt Inv b s) (hinv : RunInvariant Inv) (cfg : Config P B) (env : Env) :
    MemoryAt Inv b.next (Sim.stage cfg env b s) := by
  cases b with
  | returns =>
    obtain ⟨last, hle, hm⟩ := h
    exact hinv.returns s.totalCycles _ _ _ hle hm
  | advance =>
    obtain ⟨hsame, hcycles⟩ := advanceCycle_same cfg s
    have hm := hinv.quiet hsame h
    rw [← hcycles] at hm
    exact hm
  | commit =>
    -- the class of the stall is set after the loop and is not memory
    have hloop := commitLoop_memDuring cfg cfg.commitWidth
      { s with instsBefore := s.instructionsRetired }
    have hm := hloop.memoryAt hinv h
    exact hm
  | issue => exact (issueStage_memDuring cfg s).memoryAt hinv h
  | dispatch =>
    have hm := (dispatchLoop_memDuring cfg cfg.dispatchWidth s).memoryAt hinv h
    exact hm
  | decode => exact h
  | fetch => exact (fetchStage_memDuring cfg env s).memoryAt hinv h
  | service => exact hinv.servicePrefetchQueues cfg.mem h
  | account =>
    -- the clock moves on, and the returns of the next cycle are still to come
    refine ⟨some s.totalCycles, fun p hp => ?_, h⟩
    rw [Option.mem_some_iff] at hp
    exact hp ▸ Nat.le_succ s.totalCycles

/-- **The simulator keeps the discipline** of the memory subsystem: an invariant of
disciplined runs holds of the subsystem at every boundary. -/
theorem Reach.memory {Inv : Option ℕ → MemSubsystem P → Prop}
    (hinv : RunInvariant Inv) (hnew : Inv none (MemSubsystem.new cfg.mem))
    {b : Boundary} (h : Reach cfg env b s) : MemoryAt Inv b s := by
  induction h with
  | start => exact ⟨none, fun p hp => absurd hp (Option.not_mem_none p), hnew⟩
  | step _ _ ih => exact ih.stage hinv cfg env

/-- What holds of the subsystem when a cycle starts: its returns are still to come. -/
def MemoryBefore (Inv : Option ℕ → MemSubsystem P → Prop) (s : Sim P B) : Prop :=
  ∃ last, (∀ p ∈ last, p < s.totalCycles) ∧ Inv last s.mem

/-- A whole cycle keeps an invariant of disciplined runs. -/
theorem MemoryBefore.cycle {Inv : Option ℕ → MemSubsystem P → Prop}
    (hinv : RunInvariant Inv) (h : MemoryBefore Inv s) (cfg : Config P B) (env : Env) :
    MemoryBefore Inv (s.cycle cfg env) := by
  obtain ⟨last, hlt, hm⟩ := h
  have hreturns : MemoryAt Inv .returns s := ⟨last, fun p hp => (hlt p hp).le, hm⟩
  have hadvance := hreturns.stage hinv cfg env
  have hcommit := hadvance.stage hinv cfg env
  have hissue := hcommit.stage hinv cfg env
  have hdispatch := hissue.stage hinv cfg env
  have hdecode := hdispatch.stage hinv cfg env
  have hfetch := hdecode.stage hinv cfg env
  have hservice := hfetch.stage hinv cfg env
  have haccount := hservice.stage hinv cfg env
  refine ⟨some (s.upTo cfg env .account).totalCycles, fun p hp => ?_, haccount⟩
  rw [Option.mem_some_iff] at hp
  exact hp ▸ Nat.lt_succ_self _

/-- So it holds at the start of every iteration. -/
theorem Reach.memoryBefore {Inv : Option ℕ → MemSubsystem P → Prop}
    (hinv : RunInvariant Inv) (hnew : Inv none (MemSubsystem.new cfg.mem))
    (h : Reach cfg env .returns s) : MemoryBefore Inv s := by
  generalize hb : Boundary.returns = b at h
  cases h with
  | start => exact ⟨none, fun p hp => absurd hp (Option.not_mem_none p), hnew⟩
  | @step b s h _ =>
    -- the stage before is the end of the loop body
    cases b with
    | account =>
      have hm := h.memory hinv hnew
      refine ⟨some s.totalCycles, fun p hp => ?_, hm⟩
      rw [Option.mem_some_iff] at hp
      exact hp ▸ Nat.lt_succ_self s.totalCycles
    | _ => cases hb

/-- What a stage does to the memory subsystem are calls of its methods. -/
theorem stage_calls (cfg : Config P B) (env : Env) (b : Boundary) (s : Sim P B) :
    ∃ cs, (stage cfg env b s).mem = s.mem.calls cfg.mem cs := by
  cases b with
  | returns =>
    exact ⟨[.op (.processReturns s.totalCycles (env.itable s.totalCycles)
      (env.dtable s.totalCycles) (env.ltable s.totalCycles))], rfl⟩
  | advance =>
    show ∃ cs, (s.advanceCycle cfg).mem = s.mem.calls cfg.mem cs
    unfold advanceCycle
    split_ifs
    · exact ⟨[.resetBaselines], rfl⟩
    all_goals exact ⟨[], rfl⟩
  | commit =>
    exact (commitLoop_memDuring cfg cfg.commitWidth
      { s with instsBefore := s.instructionsRetired }).during.calls
  | issue => exact (issueStage_memDuring cfg s).during.calls
  | dispatch => exact (dispatchLoop_memDuring cfg cfg.dispatchWidth s).during.calls
  | decode => exact ⟨[], rfl⟩
  | fetch => exact (fetchStage_memDuring cfg env s).during.calls
  | service => exact ⟨[.op (.servicePrefetchQueues s.totalCycles)], rfl⟩
  | account => exact ⟨[], rfl⟩

/-- The memory subsystem of a running simulator is what calls of its methods make of a new
one. -/
theorem Reach.calls {b : Boundary} (h : Reach cfg env b s) :
    ∃ cs, s.mem = (MemSubsystem.new cfg.mem).calls cfg.mem cs := by
  induction h with
  | start => exact ⟨[], rfl⟩
  | @step b s _ _ ih =>
    obtain ⟨cs, hcs⟩ := ih
    obtain ⟨cs', hcs'⟩ := stage_calls cfg env b s
    refine ⟨cs ++ cs', ?_⟩
    rw [hcs', hcs, MemSubsystem.calls, MemSubsystem.calls, MemSubsystem.calls,
      List.foldl_append]

/-- A prefetch queue of a running simulator is within its limit. -/
theorem Reach.queue_le {b : Boundary} (h : Reach cfg env b s) (x : L1) :
    (s.mem.prefetchQueue x).queue.length ≤ cfg.mem.queueLimit x := by
  obtain ⟨cs, hcs⟩ := h.calls
  rw [hcs]
  exact ((MemSubsystem.accounted_new cfg.mem x).calls cs).bound

/-- With enough MSHRs, the last level of a running simulator refuses nothing. -/
theorem Reach.roomy (hample : cfg.mem.Ample) {b : Boundary} (h : Reach cfg env b s) :
    MemoryAt (fun last m => m.Roomy last) b s :=
  h.memory MemSubsystem.roomy_runInvariant (MemSubsystem.roomy_new hample)

/-- The caches of a running simulator are consistent. -/
theorem Reach.mem_consistent (hcfg : cfg.mem.PowerOfTwo) {b : Boundary}
    (h : Reach cfg env b s) : ∃ last, s.mem.Consistent last := by
  have hmem := h.memory MemSubsystem.consistent_runInvariant
    (MemSubsystem.consistent_new hcfg)
  cases b with
  | returns => exact hmem.imp fun _ => And.right
  | _ => exact ⟨_, hmem⟩

end Sim

end TraceSim
