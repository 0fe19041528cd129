/-
TraceSim/Core/LoadProfile.lean

The load profile.

A load is recorded in the attempt in which it leaves its queue, and in no other,
whatever is retried (`LoadCounted`).

Whether the load is counted as dependent is read from two fields of its entry that
nothing sets, so no load is (`dependent_iff`).
-/
import TraceSim.Core.Dependences
import TraceSim.Core.Memory
import TraceSim.Core.Observation
import TraceSim.Mem.Demands

namespace TraceSim

open Relation

namespace Sim

variable {P B : Type} {cfg : Config P B} {env : Env} {s s' : Sim P B} {i : ℕ}

/-! ### What an attempt to issue a load counts -/

/-- The snapshot `p'` has one more load than `p`. -/
structure Recorded (p p' : LoadProfileSnapshot) (dep stlf l1Hit : Bool) : Prop where
  total : p'.total = p.total + 1
  dependent : p'.dependent = p.dependent + if dep then 1 else 0
  stlf : p'.stlf = p.stlf + if stlf then 1 else 0
  l1Hit : p'.l1Hit = p.l1Hit + if l1Hit then 1 else 0

/-- One load is recorded, with its kind. -/
theorem recordLoadEvent_recorded (s : Sim P B) (dep stlf : Bool) (lat : ℕ)
    (l1h l2h dram : Bool) :
    Recorded s.loadProfileStats
      (s.recordLoadEvent dep stlf lat l1h l2h dram).loadProfileStats dep stlf l1h := by
  refine ⟨rfl, ?_, ?_, ?_⟩
  · cases dep <;> rfl
  · cases stlf <;> rfl
  · cases l1h <;> rfl

/-- With profiling on, that is what happens. -/
theorem finalizeLoadProfile_recorded (hprofile : cfg.enableDependentLoadProfiling = true)
    (s : Sim P B) (op : OpEntry) (lat : ℕ) (l1h l2h dram stlf : Bool) :
    Recorded s.loadProfileStats
        (s.finalizeLoadProfile cfg op lat l1h l2h dram stlf).loadProfileStats
        op.isDependentLoad stlf l1h ∧
      (s.finalizeLoadProfile cfg op lat l1h l2h dram stlf).profiler = s.profiler ∧
      (s.finalizeLoadProfile cfg op lat l1h l2h dram stlf).mem = s.mem := by
  unfold finalizeLoadProfile
  rw [if_pos hprofile]
  exact ⟨recordLoadEvent_recorded s _ _ _ _ _ _, rfl, rfl⟩

/-- Execution itself is not counted. -/
theorem markLoadExecuted_stats (s : Sim P B) (i t : ℕ) :
    (s.markLoadExecuted i t).loadProfileStats = s.loadProfileStats ∧
      (s.markLoadExecuted i t).profiler = s.profiler ∧
      (s.markLoadExecuted i t).mem = s.mem := by
  rw [markLoadExecuted_eq]
  exact ⟨rfl, rfl, rfl⟩

/-- The state in which the load in slot `i` has been classified. -/
def classified (cfg : Config P B) (s : Sim P B) (i : ℕ) : Sim P B :=
  s.setOp i (classifyLoad cfg (s.rob i))

/-- The slot holds the classified op. -/
theorem classified_rob (cfg : Config P B) (s : Sim P B) (i : ℕ) :
    (s.classified cfg i).rob i = classifyLoad cfg (s.rob i) :=
  setOp_rob_self s i _

/-- Whether the load in slot `i` is classified as dependent. -/
def classifiedDependent (cfg : Config P B) (s : Sim P B) (i : ℕ) : Bool :=
  (classifyLoad cfg (s.rob i)).isDependentLoad

section

variable [CachePrefetcher P]

/-- A load that was served by the caches. -/
theorem finishLoadAccess_recorded (hprofile : cfg.enableDependentLoadProfiling = true)
    (s : Sim P B) (i : ℕ) (r : HierarchyAccessResult) :
    Recorded s.loadProfileStats (s.finishLoadAccess cfg i r).loadProfileStats
        (s.rob i).isDependentLoad false r.l1Hit ∧
      (s.finishLoadAccess cfg i r).profiler = s.profiler := by
  unfold finishLoadAccess
  dsimp only
  obtain ⟨hstats, hprofiler, -⟩ := markLoadExecuted_stats
    (s.setOp i { s.rob i with waitingOnMemory := !r.l1Hit }) i r.readyCycle
  obtain ⟨hrecorded, hprofiler', -⟩ := finalizeLoadProfile_recorded hprofile
    ((s.setOp i { s.rob i with waitingOnMemory := !r.l1Hit }).markLoadExecuted i r.readyCycle)
    { s.rob i with waitingOnMemory := !r.l1Hit } ((r.readyCycle - s.totalCycles) % 2 ^ 32)
    r.l1Hit r.llcHit r.dramMiss false
  rw [hstats] at hrecorded
  exact ⟨hrecorded, hprofiler'.trans hprofiler⟩

omit [CachePrefetcher P] in
/-- A load that a store forwarded to; it counts as neither hit nor miss. -/
theorem forwardLoad_recorded (hprofile : cfg.enableDependentLoadProfiling = true)
    (s : Sim P B) (i : ℕ) :
    Recorded s.loadProfileStats (s.forwardLoad cfg i).loadProfileStats
        (s.rob i).isDependentLoad true false ∧
      (s.forwardLoad cfg i).profiler = s.profiler.incStlfHits ∧
      (s.forwardLoad cfg i).mem = s.mem := by
  unfold forwardLoad
  obtain ⟨hstats, hprofiler, hmem⟩ := markLoadExecuted_stats
    (s.setProfiler s.profiler.incStlfHits) i (s.totalCycles + 1)
  obtain ⟨hrecorded, hprofiler', hmem'⟩ := finalizeLoadProfile_recorded hprofile
    ((s.setProfiler s.profiler.incStlfHits).markLoadExecuted i (s.totalCycles + 1))
    (s.rob i) 1 false false false true
  rw [hstats] at hrecorded
  exact ⟨hrecorded, hprofiler'.trans hprofiler, hmem'.trans hmem⟩

/-- The four ways an attempt to issue a load can go on. -/
theorem tryIssueLoad_cases (cfg : Config P B) (s : Sim P B) (i : ℕ) :
    s.tryIssueLoad cfg i = (.notReady, s) ∨
    s.tryIssueLoad cfg i = (.stalledByDep, (s.classified cfg i).stallOnStore i) ∨
    s.tryIssueLoad cfg i = (.stlfHit, (s.classified cfg i).forwardLoad cfg i) ∨
    s.tryIssueLoad cfg i = (s.classified cfg i).executeLoadMemoryAccess cfg i := by
  unfold tryIssueLoad checkStoreDependency
  split
  · exact Or.inl rfl
  · rcases scanStores cfg.memDepModel _ _ _ none with ⟨- | -, - | src⟩
    · exact Or.inr (Or.inr (Or.inr rfl))
    · dsimp only
      split_ifs
      · exact Or.inr (Or.inr (Or.inl rfl))
      · exact Or.inr (Or.inl rfl)
    · exact Or.inr (Or.inl rfl)
    · exact Or.inr (Or.inl rfl)

/-- What an attempt to issue the load in slot `i` counts, when loads are profiled. -/
inductive LoadCounted (cfg : Config P B) (s : Sim P B) (i : ℕ) : Sim P B → Bool → Prop
  | waits (s₁ : Sim P B) (stats : s₁.loadProfileStats = s.loadProfileStats)
      (stlfHits : s₁.profiler.stats.stlfHits = s.profiler.stats.stlfHits)
      (mem : s₁.mem = s.mem ∨ ∃ r, r.blocked = true ∧
        s.mem.accessDcacheLoad (s.rob i).inst.memAddr s.totalCycles = (r, s₁.mem)) :
      LoadCounted cfg s i s₁ false
  | forwards (s₁ : Sim P B)
      (stats : Recorded s.loadProfileStats s₁.loadProfileStats
        (s.classifiedDependent cfg i) true false)
      (stlfHits : s₁.profiler.stats.stlfHits = s.profiler.stats.stlfHits + 1)
      (mem : s₁.mem = s.mem) : LoadCounted cfg s i s₁ true
  | accesses (s₁ : Sim P B) (r mem) (served : r.blocked = false)
      (access : s.mem.accessDcacheLoad (s.rob i).inst.memAddr s.totalCycles = (r, mem))
      (stats : Recorded s.loadProfileStats s₁.loadProfileStats
        (s.classifiedDependent cfg i) false r.l1Hit)
      (stlfHits : s₁.profiler.stats.stlfHits = s.profiler.stats.stlfHits)
      (mem' : ∃ pc addr hit, s₁.mem = mem.enqueuePrefetch cfg.mem true pc addr hit) :
      LoadCounted cfg s i s₁ true

/-- If it is blocked it is not counted yet. -/
theorem executeLoadMemoryAccess_counted (hprofile : cfg.enableDependentLoadProfiling = true)
    (s : Sim P B) (i : ℕ) :
    LoadCounted cfg s i ((s.classified cfg i).executeLoadMemoryAccess cfg i).2
      ((s.classified cfg i).executeLoadMemoryAccess cfg i).1.issues := by
  rcases e : s.mem.accessDcacheLoad (s.rob i).inst.memAddr s.totalCycles with ⟨r, mem⟩
  have haccess : (s.classified cfg i).mem.accessDcacheLoad
      ((s.classified cfg i).rob i).inst.memAddr (s.classified cfg i).totalCycles
      = (r, mem) := by
    rw [classified_rob, (classifyLoad_same cfg (s.rob i)).inst]
    exact e
  rw [executeLoadMemoryAccess_eq cfg _ i haccess]
  rcases hblocked : r.blocked with - | -
  · obtain ⟨hrecorded, hprofiler⟩ :=
      finishLoadAccess_recorded hprofile ((s.classified cfg i).setMem mem) i r
    have hop : ((s.classified cfg i).setMem mem).rob i = classifyLoad cfg (s.rob i) :=
      classified_rob cfg s i
    rw [hop] at hrecorded
    rw [if_neg Bool.false_ne_true]
    exact .accesses _ r mem hblocked e hrecorded
      (congrArg (fun p => p.stats.stlfHits) hprofiler) ⟨_, _, _, rfl⟩
  · rw [if_pos rfl]
    exact .waits _ rfl rfl (Or.inr ⟨r, hblocked, e⟩)

/-- One forwarding, one event. -/
theorem forwardLoad_counted (hprofile : cfg.enableDependentLoadProfiling = true)
    (s : Sim P B) (i : ℕ) :
    LoadCounted cfg s i ((s.classified cfg i).forwardLoad cfg i) true := by
  obtain ⟨hrecorded, hprofiler, hmem⟩ := forwardLoad_recorded hprofile (s.classified cfg i) i
  rw [classified_rob] at hrecorded
  exact .forwards _ hrecorded (congrArg (fun p => p.stats.stlfHits) hprofiler) hmem

/-- **A load is recorded** in the attempt in which it leaves its queue. -/
theorem lduAttempt_counted (hprofile : cfg.enableDependentLoadProfiling = true)
    (s : Sim P B) (i : ℕ) :
    LoadCounted cfg s i (lduAttempt cfg s i).1 (lduAttempt cfg s i).2 := by
  have haccess := executeLoadMemoryAccess_counted hprofile s i
  have hforward := forwardLoad_counted hprofile s i
  unfold lduAttempt
  rcases tryIssueLoad_cases cfg s i with h | h | h | h <;> rw [h]
  · exact .waits _ rfl rfl (Or.inl rfl)
  · exact .waits _ rfl rfl (Or.inl rfl)
  · exact hforward
  · exact haccess

end

/-! ### Which loads count as dependent -/

/-- The entry has never been given a base writer. -/
def NoBaseWriter (op : OpEntry) : Prop :=
  op.baseWriterValid = false ∧ op.isDependentLoad = false

/-- No entry has been given a base writer. -/
structure Unlinked (s : Sim P B) : Prop where
  rob : ∀ j, NoBaseWriter (s.rob j)
  fetchQueue : ∀ op ∈ s.fetchQueue, NoBaseWriter op
  instBuffer : ∀ op ∈ s.instBuffer, NoBaseWriter op

/-- A load without a base writer is not classified as dependent. -/
theorem classifyLoad_noBaseWriter {op : OpEntry} (h : NoBaseWriter op) :
    NoBaseWriter (classifyLoad cfg op) := by
  unfold classifyLoad
  dsimp only
  split
  · refine ⟨h.1, ?_⟩
    change (op.baseWriterValid && op.baseWriterIsLoad) = false
    rw [h.1, Bool.false_and]
  · exact h

/-- Nothing sets the base writer, not even the end of a store. -/
theorem finishStore_noBaseWriter {op : OpEntry} (h : NoBaseWriter op) (b : Bool) :
    NoBaseWriter (finishStore op b) := by
  unfold finishStore
  split <;> exact h

/-- Replacing one entry of the reorder buffer. -/
theorem Unlinked.update (h : Unlinked s) (op : OpEntry) (hop : NoBaseWriter op)
    (hrob : s'.rob = Function.update s.rob i op) (hqueue : s'.fetchQueue = s.fetchQueue)
    (hbuffer : s'.instBuffer = s.instBuffer) : Unlinked s' where
  rob j := by
    rw [hrob, Function.update_apply]
    split_ifs
    · exact hop
    · exact h.rob j
  fetchQueue := hqueue ▸ h.fetchQueue
  instBuffer := hbuffer ▸ h.instBuffer

/-- Queues hold slots, not ops. -/
theorem Unlinked.setIq (h : Unlinked s) (q : Iq) (l : List ℕ) : Unlinked (s.setIq q l) where
  rob := setIq_rob s q l ▸ h.rob
  fetchQueue := setIq_fetchQueue s q l ▸ h.fetchQueue
  instBuffer := setIq_instBuffer s q l ▸ h.instBuffer

/-- Execution keeps the members for the base. -/
theorem Unlinked.markLoadExecuted (h : Unlinked s) (i t : ℕ) :
    Unlinked (s.markLoadExecuted i t) := by
  rw [markLoadExecuted_eq]
  exact h.update (s.executedOp i t) (h.rob i) rfl rfl rfl

/-- The profile reads them only. -/
theorem Unlinked.finalizeLoadProfile (h : Unlinked s) (op : OpEntry) (lat : ℕ)
    (l1h l2h dram stlf : Bool) :
    Unlinked (s.finalizeLoadProfile cfg op lat l1h l2h dram stlf) := by
  unfold Sim.finalizeLoadProfile
  split
  · exact ⟨h.rob, h.fetchQueue, h.instBuffer⟩
  · exact h

/-- Dispatch copies the op as it was fetched. -/
theorem Unlinked.dispatchOne (h : Unlinked s) {op : OpEntry} (hop : NoBaseWriter op) :
    Unlinked (s.dispatchOne cfg op) where
  rob j := by
    rw [dispatchOne_rob, Function.update_apply]
    split_ifs
    · exact hop
    · exact h.rob j
  fetchQueue x hx := by
    rw [dispatchOne_fetchQueue] at hx
    exact h.fetchQueue x (List.mem_of_mem_tail hx)
  instBuffer := dispatchOne_instBuffer cfg s op ▸ h.instBuffer

/-- All ops of a cycle. -/
theorem Unlinked.dispatchLoop (h : Unlinked s) (cfg : Config P B) (n : ℕ) :
    Unlinked (s.dispatchLoop cfg n).2 := by
  refine dispatchLoop_rule (fun {s' op rest} h hqueue _ => ?_) n h
  exact h.dispatchOne (h.fetchQueue op (hqueue ▸ List.mem_cons_self))

/-- Retirement writes no op. -/
theorem Unlinked.commitLoop (h : Unlinked s) (cfg : Config P B) (n : ℕ) :
    Unlinked (s.commitLoop cfg n) :=
  commitLoop_rule (fun h _ => ⟨h.rob, h.fetchQueue, h.instBuffer⟩) n h

/-- Decode moves entries from the one container to the other. -/
theorem decodeLoop_forall {p : OpEntry → Prop} (width : ℕ) {buffer queue : List OpEntry}
    (hbuffer : ∀ op ∈ buffer, p op) (hqueue : ∀ op ∈ queue, p op) :
    (∀ op ∈ (decodeLoop width buffer queue).1, p op) ∧
      ∀ op ∈ (decodeLoop width buffer queue).2, p op := by
  induction buffer generalizing queue with
  | nil =>
    rw [decodeLoop]
    exact ⟨fun op hop => absurd hop List.not_mem_nil, hqueue⟩
  | cons op buffer ih =>
    rw [decodeLoop]
    split_ifs
    · refine ih (fun x hx => hbuffer x (List.mem_cons_of_mem _ hx)) fun x hx => ?_
      rcases List.mem_append.mp hx with hx | hx
      · exact hqueue x hx
      · exact List.mem_singleton.mp hx ▸ hbuffer op List.mem_cons_self
    · exact ⟨hbuffer, hqueue⟩

section

variable [CachePrefetcher P]

/-- An access writes its completion. -/
theorem Unlinked.executeLoadMemoryAccess (h : Unlinked s) (i : ℕ) :
    Unlinked (s.executeLoadMemoryAccess cfg i).2 := by
  rcases e : s.mem.accessDcacheLoad (s.rob i).inst.memAddr s.totalCycles with ⟨r, mem⟩
  rw [executeLoadMemoryAccess_eq cfg s i e]
  split
  · exact h.update { s.rob i with waitingOnMemory := true } (h.rob i) rfl rfl rfl
  · obtain ⟨stats, heq⟩ := finishLoadAccess_eq cfg (s.setMem mem) i r
    rw [heq]
    exact h.update ((s.setMem mem).servedOp (s.rob i) r) (h.rob i) rfl rfl rfl

/-- Whatever the queue is. -/
theorem Unlinked.attempt (h : Unlinked s) (q : Iq) (i : ℕ) :
    Unlinked (attempt cfg q s i).1 := by
  by_cases hq : q = .ldu
  swap
  · refine attempt_rule hq cfg h (fun t => h.markLoadExecuted i t) fun _ _ _ _ _ _ => ?_
    refine h.update _ (finishStore_noBaseWriter ?_ _) rfl rfl rfl
    exact h.rob i
  · subst hq
    have hclass : Unlinked (s.classified cfg i) :=
      h.update _ (classifyLoad_noBaseWriter (h.rob i)) rfl rfl rfl
    change Unlinked (lduAttempt cfg s i).1
    unfold lduAttempt
    rcases tryIssueLoad_cases cfg s i with e | e | e | e <;> rw [e]
    · exact h
    · exact hclass.update { (s.classified cfg i).rob i with waitingOnMemDep := true }
        (hclass.rob i) rfl rfl rfl
    · have hentry : Unlinked ((s.classified cfg i).setProfiler
          (s.classified cfg i).profiler.incStlfHits) :=
        ⟨hclass.rob, hclass.fetchQueue, hclass.instBuffer⟩
      exact (hentry.markLoadExecuted i _).finalizeLoadProfile _ _ _ _ _ _
    · exact hclass.executeLoadMemoryAccess i

/-- A fetched op has no base writer. -/
theorem FetchStep.unlinked (hturn : FetchStep cfg env s s') (h : Unlinked s) :
    Unlinked s' := by
  have hbuffer := hturn.instBuffer_cases
  have hframe := hturn.frame
  refine ⟨?_, ?_, ?_⟩
  · cases hframe
    exact h.rob
  · cases hframe
    exact h.fetchQueue
  · rcases hbuffer with heq | ⟨-, inst, heq⟩
    · exact heq ▸ h.instBuffer
    · intro op hop
      rw [heq] at hop
      rcases List.mem_append.mp hop with hop | hop
      · exact h.instBuffer op hop
      · exact List.mem_singleton.mp hop ▸ ⟨rfl, rfl⟩

variable [BranchPredictor B]

/-- No stage gives an entry a base writer. -/
theorem stage_unlinked (env : Env) (b : Boundary) (h : Unlinked s) :
    Unlinked (stage cfg env b s) := by
  cases b with
  | returns => exact ⟨h.rob, h.fetchQueue, h.instBuffer⟩
  | advance =>
    unfold stage advanceCycle
    dsimp only
    split_ifs <;> exact ⟨h.rob, h.fetchQueue, h.instBuffer⟩
  | commit =>
    have hstart : Unlinked { s with instsBefore := s.instructionsRetired } :=
      ⟨h.rob, h.fetchQueue, h.instBuffer⟩
    have hloop := hstart.commitLoop cfg cfg.commitWidth
    exact ⟨hloop.rob, hloop.fetchQueue, hloop.instBuffer⟩
  | issue => exact issueStage_attempts (fun q i h => h.attempt q i) (fun q l h => h.setIq q l) h
  | dispatch =>
    have hloop := h.dispatchLoop cfg cfg.dispatchWidth
    exact ⟨hloop.rob, hloop.fetchQueue, hloop.instBuffer⟩
  | decode =>
    obtain ⟨hbuffer, hqueue⟩ :=
      decodeLoop_forall (cfg.dispatchWidth * 2) h.instBuffer h.fetchQueue
    exact ⟨h.rob, hqueue, hbuffer⟩
  | fetch =>
    exact fetchStage_rule (fun h hturn => hturn.unlinked h)
      (fun _ h => ⟨h.rob, h.fetchQueue, h.instBuffer⟩) h
  | service => exact ⟨h.rob, h.fetchQueue, h.instBuffer⟩
  | account => exact ⟨h.rob, h.fetchQueue, h.instBuffer⟩

/-- In every run no load knows the writer of its base. -/
theorem Reach.unlinked {b : Boundary} (h : Reach cfg env b s) : Unlinked s := by
  induction h with
  | start =>
    exact ⟨fun _ => ⟨rfl, rfl⟩, fun op hop => absurd hop List.not_mem_nil,
      fun op hop => absurd hop List.not_mem_nil⟩
  | step _ _ ih => exact stage_unlinked env _ ih

/-- The load in slot `i` reads a register, and the youngest older writer of it is a
load. -/
def ReadsLoad (cfg : Config P B) (s : Sim P B) (i : ℕ) : Prop :=
  (s.rob i).inst.rs1 ≠ 0 ∧
    ∃ op, Producer cfg s i (s.rob i).inst.rs1 op ∧ op.inst.isLoad = true

instance (cfg : Config P B) (s : Sim P B) (i : ℕ) : Decidable (ReadsLoad cfg s i) :=
  decidable_of_iff
    ((s.rob i).inst.rs1 ≠ 0 ∧ ∃ op ∈ s.pipeline cfg,
      Producer cfg s i (s.rob i).inst.rs1 op ∧ op.inst.isLoad = true)
    ⟨fun h => ⟨h.1, h.2.imp fun _ hop => hop.2⟩,
      fun h => ⟨h.1, h.2.imp fun _ hop => ⟨hop.1.1.1, hop⟩⟩⟩

/-- The attempt to issue the load in slot `i` counts it as dependent. -/
def CountsDependent (cfg : Config P B) (s : Sim P B) (i : ℕ) : Prop :=
  (lduAttempt cfg s i).1.loadProfileStats.dependent = s.loadProfileStats.dependent + 1

instance (cfg : Config P B) (s : Sim P B) (i : ℕ) : Decidable (CountsDependent cfg s i) :=
  inferInstanceAs (Decidable (_ = _))

/-- **Dependent loads.**  With profiling on, a load that leaves its queue is recorded,
and the profile is right about its dependence exactly if its base address does not
come from a load. -/
theorem dependent_iff (cfg : Config P B) (env : Env)
    (hprofile : cfg.enableDependentLoadProfiling = true) {s : Sim P B} {i : ℕ}
    (h : Issues cfg env .ldu s i) :
    (lduAttempt cfg s i).1.loadProfileStats.total = s.loadProfileStats.total + 1 ∧
      ((CountsDependent cfg s i ↔ ReadsLoad cfg s i) ↔ ¬ ReadsLoad cfg s i) := by
  have hunlinked : Unlinked s := h.attempts (fun _ hs => hs.unlinked)
    (fun q i hs => hs.attempt q i) (fun q l hs => hs.setIq q l)
  obtain ⟨hok, -⟩ := h.invariant (scoreboard_invariant cfg env _) (commitsIn_true cfg env)
  have hclass : s.classifiedDependent cfg i = false :=
    (classifyLoad_noBaseWriter (hunlinked.rob i)).2
  have hrecorded : ∃ stlf l1Hit, Recorded s.loadProfileStats
      (lduAttempt cfg s i).1.loadProfileStats false stlf l1Hit := by
    have hcounted := lduAttempt_counted hprofile s i
    rw [show (lduAttempt cfg s i).2 = true from hok] at hcounted
    rw [← hclass]
    cases hcounted with
    | forwards stats => exact ⟨_, _, stats⟩
    | accesses r mem served access stats => exact ⟨_, _, stats⟩
  obtain ⟨stlf, l1Hit, hrecorded⟩ := hrecorded
  -- no load is counted as dependent
  have hnever : ¬ CountsDependent cfg s i := by
    intro hcounts
    have hsame := hrecorded.dependent.symm.trans hcounts
    rw [if_neg Bool.false_ne_true] at hsame
    omega
  refine ⟨hrecorded.total, ?_⟩
  constructor
  · intro hiff hreads
    exact hnever (hiff.mpr hreads)
  · intro hnot
    exact iff_of_false hnever hnot

end

/-- A load whose base address comes from an ALU instruction. -/
def addressTrace : Env :=
  ofTrace
    [{ pc := 0x80000000, opcode := 0b0010011, rd := 5, rs1 := 12 },
      { pc := 0x80000004, opcode := 0b0000011, rd := 6, rs1 := 5, isLoad := true
        memAddr := 0x80002000 }]

/-- Its writer is the ALU instruction, and the load is not counted as dependent. -/
theorem dependent_iff_addressTrace :
    ∃ s, Issues shippedConfig addressTrace .ldu s 1 ∧
      Producer shippedConfig s 1 5 (s.rob 0) ∧ ¬ CountsDependent shippedConfig s 1 := by
  have hrun : (runFor shippedConfig addressTrace 136 (Sim.new shippedConfig)).any (fun s =>
      s.running && (s.issuesOf shippedConfig addressTrace .ldu).any fun p =>
        decide (p.2 = 1 ∧ Producer shippedConfig p.1 1 5 (p.1.rob 0) ∧
          ¬ ReadsLoad shippedConfig p.1 1)) = true := by
    decide +kernel
  obtain ⟨s, i, hs, htest⟩ := exists_issues hrun
  obtain ⟨rfl, hproducer, hreads⟩ := of_decide_eq_true htest
  have hiff := (dependent_iff shippedConfig addressTrace rfl hs).2.mpr hreads
  exact ⟨s, hs, hproducer, fun hcounts => hreads (hiff.mp hcounts)⟩

/-- Two loads, the second with an address that the first loads. -/
def pointerTrace : Env :=
  ofTrace
    [{ pc := 0x80000000, opcode := 0b0000011, rd := 5, rs1 := 12, isLoad := true
       memAddr := 0x80002000 },
      { pc := 0x80000004, opcode := 0b0000011, rd := 6, rs1 := 5, isLoad := true
        memAddr := 0x80002004 }]

/-- The second load is not counted as dependent. -/
theorem pointer_not_dependent :
    ∃ s, Issues shippedConfig pointerTrace .ldu s 1 ∧ ReadsLoad shippedConfig s 1 ∧
      ¬ CountsDependent shippedConfig s 1 := by
  have hrun : (runFor shippedConfig pointerTrace 270 (Sim.new shippedConfig)).any (fun s =>
      s.running && (s.issuesOf shippedConfig pointerTrace .ldu).any fun p =>
        decide (p.2 = 1 ∧ ReadsLoad shippedConfig p.1 1 ∧
          ¬ CountsDependent shippedConfig p.1 1)) = true := by
    decide +kernel
  obtain ⟨s, i, hs, htest⟩ := exists_issues hrun
  obtain ⟨rfl, hreads, hcounts⟩ := of_decide_eq_true htest
  exact ⟨s, hs, hreads, hcounts⟩

end Sim

end TraceSim
