/-
TraceSim/Frontend/FetchLog.lean

What an observer sees of the fetch stage.

The accesses to the I-cache, the records that are put back and the ops that are
delivered are the events of a turn; `fetchLoopEvents` goes through the turns as
`fetchLoop` does and lists them.  `fetchLoopEvents_rule` is the rule for what holds
of the state and of the events seen so far.
-/
import TraceSim.Frontend.FetchSteps

namespace TraceSim

/-- An event of the fetch stage. -/
inductive FetchEvent
  /-- a call of `access_icache` with its result -/
  | access (pc : BitVec 32) (cycle : ℕ) (result : HierarchyAccessResult)
  /-- a record that is put back -/
  | requeued (inst : TraceInst)
  /-- an op that enters the instruction buffer; the flag is set for a branch that is
  predicted wrongly -/
  | delivered (op : OpEntry) (mispredicted : Bool)
  deriving DecidableEq

/-- An access that hits. -/
def HierarchyAccessResult.hits (r : HierarchyAccessResult) : Bool := r.l1Hit && !r.blocked

/-- The opcodes of `jal` and `jalr`. -/
def TraceInst.isJump (inst : TraceInst) : Bool :=
  decide (inst.opcode = 0b1101111 ∨ inst.opcode = 0b1100111)

/-- The instruction ends its fetch group. -/
def TraceInst.endsGroup (inst : TraceInst) (mispredicted : Bool) : Bool :=
  inst.isTrap || mispredicted || inst.isBranch && inst.branchTaken || inst.isJump

/-- The instruction redirects the fetch stream as foreseen. -/
def TraceInst.redirects (inst : TraceInst) (mispredicted : Bool) : Bool :=
  inst.isBranch && inst.branchTaken && !mispredicted || inst.isJump

namespace Sim

variable {P B : Type}

/-! ### The fetch stall -/

@[simp] theorem setFetchStall_fetchStallUntil (s : Sim P B) (u : ℕ) (r : FetchStallReason) :
    (s.setFetchStall u r).fetchStallUntil = max s.fetchStallUntil u := by
  unfold setFetchStall
  split
  · exact (max_eq_right (Nat.le_of_lt ‹_›)).symm
  · exact (max_eq_left (Nat.le_of_not_lt ‹_›)).symm

@[simp] theorem setFetchStall_totalCycles (s : Sim P B) (u : ℕ) (r : FetchStallReason) :
    (s.setFetchStall u r).totalCycles = s.totalCycles := by
  unfold setFetchStall
  split <;> rfl

@[simp] theorem redirectFetch_fetchStallUntil (s : Sim P B) :
    s.redirectFetch.fetchStallUntil
      = max s.fetchStallUntil (s.totalCycles + fetchRedirectLatency) := by
  unfold redirectFetch
  rw [if_pos (by decide), setFetchStall_fetchStallUntil]

@[simp] theorem redirectFetch_totalCycles (s : Sim P B) :
    s.redirectFetch.totalCycles = s.totalCycles := by
  unfold redirectFetch
  rw [if_pos (by decide), setFetchStall_totalCycles]

/-- Fetch goes on only when no stall is active. -/
theorem stall_le_of_canFetch {cfg : Config P B} {s : Sim P B}
    (h : s.frontendCanFetch cfg = true) : s.fetchStallUntil ≤ s.totalCycles := by
  rw [frontendCanFetch, Bool.and_eq_true, frontendStallActive, Bool.not_eq_true',
    decide_eq_false_iff_not, not_lt] at h
  exact h.1

section

variable [BranchPredictor B]

/-- The instruction is a branch that is predicted wrongly. -/
def mispredicts (cfg : Config P B) (env : Env) (s : Sim P B) (inst : TraceInst) : Bool :=
  inst.isBranch && decide ((s.predictBranch cfg env inst).1 ≠ inst.branchTaken)

variable (cfg : Config P B) (env : Env)

/-- A prediction does not look at the counts of the profiler or of the ops, and leaves
the stall alone. -/
theorem predictBranch_frame (s : Sim P B) (profiler : Profiler) (nextEntryId : ℕ)
    (inst : TraceInst) :
    ({ s with nextEntryId := nextEntryId, profiler := profiler }.predictBranch cfg env inst).1
        = (s.predictBranch cfg env inst).1 ∧
      (s.predictBranch cfg env inst).2.fetchStallUntil = s.fetchStallUntil ∧
      (s.predictBranch cfg env inst).2.totalCycles = s.totalCycles := by
  unfold predictBranch
  split <;> exact ⟨rfl, rfl, rfl⟩

/-- Whether the group ends after a branch, and until when fetch stalls. -/
theorem fetchBranch_stop (s : Sim P B) (inst : TraceInst) (stop : FetchStop)
    (hbranch : inst.isBranch = true) :
    (s.fetchBranch cfg env inst stop).1.stopFetch
        = (stop.stopFetch || s.mispredicts cfg env inst || inst.branchTaken) ∧
      (s.fetchBranch cfg env inst stop).2.fetchStallUntil
        = max s.fetchStallUntil
            (if s.mispredicts cfg env inst then s.totalCycles + branchMispredictPenalty
            else if inst.branchTaken then s.totalCycles + fetchRedirectLatency else 0) ∧
      (s.fetchBranch cfg env inst stop).2.totalCycles = s.totalCycles := by
  obtain ⟨hpred, -, -⟩ := predictBranch_frame cfg env s s.profiler.incTotalBranches
    s.nextEntryId inst
  obtain ⟨-, hstall, hcycles⟩ := predictBranch_frame cfg env
    (s.setProfiler s.profiler.incTotalBranches) s.profiler s.nextEntryId inst
  have hmiss : s.mispredicts cfg env inst
      = decide (((s.setProfiler s.profiler.incTotalBranches).predictBranch cfg env inst).1
          ≠ inst.branchTaken) := by
    rw [mispredicts, hbranch, Bool.true_and, ← hpred]
    rfl
  rw [hmiss]
  unfold fetchBranch
  generalize (s.setProfiler s.profiler.incTotalBranches).predictBranch cfg env inst = pred
    at hstall hcycles ⊢
  have hstall' : pred.2.fetchStallUntil = s.fetchStallUntil := hstall
  have hcycles' : pred.2.totalCycles = s.totalCycles := hcycles
  -- mispredicted, or predicted with and without a redirect
  by_cases hwrong : pred.1 ≠ inst.branchTaken
  · rw [if_pos hwrong, decide_eq_true hwrong]
    simp [hstall', hcycles']
  · rw [if_neg hwrong, decide_eq_false hwrong]
    rcases htaken : inst.branchTaken with - | -
    · simp [setProfiler, hstall', hcycles']
    · simp [setProfiler, hstall', hcycles']

/-- What the blocks for branches and jumps make of it. -/
theorem fetchControl_stop (s : Sim P B) (inst : TraceInst) :
    (s.fetchControl cfg env inst).1.stopFetch
        = inst.endsGroup (s.mispredicts cfg env inst) ∧
      s.fetchStallUntil ≤ (s.fetchControl cfg env inst).2.fetchStallUntil ∧
      (s.mispredicts cfg env inst = true →
        s.totalCycles + branchMispredictPenalty
          ≤ (s.fetchControl cfg env inst).2.fetchStallUntil) ∧
      (inst.redirects (s.mispredicts cfg env inst) = true →
        s.totalCycles + fetchRedirectLatency
          ≤ (s.fetchControl cfg env inst).2.fetchStallUntil) := by
  have hbranch := fetchBranch_stop cfg env s inst { stopFetch := inst.isTrap }
  have hplain : inst.isBranch = false → s.mispredicts cfg env inst = false := by
    intro h
    rw [mispredicts, h, Bool.false_and]
  unfold fetchControl TraceInst.endsGroup TraceInst.redirects TraceInst.isJump
  dsimp only
  generalize s.fetchBranch cfg env inst { stopFetch := inst.isTrap } = branch at hbranch ⊢
  generalize s.mispredicts cfg env inst = m at hbranch hplain ⊢
  -- not a branch: a jump redirects, anything else goes on
  rcases hb : inst.isBranch with - | -
  · obtain rfl := hplain hb
    by_cases hjump : inst.opcode = 0b1101111 ∨ inst.opcode = 0b1100111
    · rw [if_pos hjump, decide_eq_true hjump]
      rw [if_neg Bool.false_ne_true, redirectFetch_fetchStallUntil]
      refine ⟨by simp, Nat.le_max_left _ _, fun h => absurd h Bool.false_ne_true, fun _ => ?_⟩
      exact Nat.le_max_right _ _
    · rw [if_neg hjump, decide_eq_false hjump]
      simp
  -- a branch: its stall stands, and the block for jumps can only lengthen it
  · obtain ⟨hstop, hstall, hcycles⟩ := hbranch hb
    by_cases hjump : inst.opcode = 0b1101111 ∨ inst.opcode = 0b1100111
    · rw [if_pos hjump, decide_eq_true hjump, if_pos rfl]
      simp only [redirectFetch_fetchStallUntil, hstall, hcycles, Bool.or_true, true_and]
      refine ⟨by omega, fun hm => ?_, fun _ => by omega⟩
      rw [hm, if_pos rfl]
      omega
    · rw [if_neg hjump, decide_eq_false hjump, if_pos rfl]
      simp only [hstop, hstall, Bool.or_false, Bool.true_and]
      refine ⟨trivial, by omega, fun hm => ?_, fun hm => ?_⟩
      · rw [hm, if_pos rfl]
        omega
      · rw [Bool.and_eq_true, Bool.not_eq_true'] at hm
        rw [hm.1, hm.2, if_neg Bool.false_ne_true, if_pos rfl]
        omega

/-- **A delivery**: whether the group ends, and until when fetch stalls at least. -/
theorem deliverInst_stop (s : Sim P B) (inst : TraceInst) :
    (s.deliverInst cfg env inst).1.stopFetch
        = inst.endsGroup (s.mispredicts cfg env inst) ∧
      s.fetchStallUntil ≤ (s.deliverInst cfg env inst).2.fetchStallUntil ∧
      (s.mispredicts cfg env inst = true →
        s.totalCycles + branchMispredictPenalty
          ≤ (s.deliverInst cfg env inst).2.fetchStallUntil) ∧
      (inst.redirects (s.mispredicts cfg env inst) = true →
        s.totalCycles + fetchRedirectLatency
          ≤ (s.deliverInst cfg env inst).2.fetchStallUntil) := by
  have hmiss : { s with nextEntryId := s.nextEntryId + 1 }.mispredicts cfg env inst
      = s.mispredicts cfg env inst := by
    rw [mispredicts, mispredicts, ← (predictBranch_frame cfg env s s.profiler
      (s.nextEntryId + 1) inst).1]
  have hcontrol := fetchControl_stop cfg env { s with nextEntryId := s.nextEntryId + 1 } inst
  rw [hmiss] at hcontrol
  exact hcontrol

end

/-! ### Admission -/

section

variable [CachePrefetcher P] (cfg : Config P B)

/-- What is admitted has hit in the I-cache, or is in the line of the group. -/
theorem admitInst_line {s : Sim P B} {inst : TraceInst} {line : BitVec 32} {first : Bool}
    {hint : BoundReason} (h : (s.admitInst cfg inst line first hint).1 = true) :
    if first then (s.mem.accessIcache inst.pc s.totalCycles).1.hits = true
    else lineAddr inst.pc s.mem.icacheLineSize = line := by
  unfold admitInst checkIcache at h
  cases first with
  | false =>
    rw [if_neg Bool.false_ne_true] at h ⊢
    by_contra hline
    rw [if_pos hline] at h
    cases h
  | true =>
    rw [if_pos rfl] at h ⊢
    dsimp only at h
    unfold HierarchyAccessResult.hits
    rcases hblocked : (s.mem.accessIcache inst.pc s.totalCycles).1.blocked with - | -
    · rcases hhit : (s.mem.accessIcache inst.pc s.totalCycles).1.l1Hit with - | -
      · rw [hblocked, hhit, if_neg Bool.false_ne_true, Bool.not_false, if_pos rfl] at h
        cases h
      · rfl
    · rw [hblocked, if_pos rfl] at h
      cases h

/-- Whether an instruction is admitted or not, fetch stalls no shorter. -/
theorem admitInst_stall (s : Sim P B) (inst : TraceInst) (line : BitVec 32) (first : Bool)
    (hint : BoundReason) :
    s.fetchStallUntil ≤ (s.admitInst cfg inst line first hint).2.1.fetchStallUntil := by
  have hrequeue (s : Sim P B) :
      (s.frontendRequeueTraceInst inst).fetchStallUntil = s.fetchStallUntil := by
    unfold frontendRequeueTraceInst
    split <;> rfl
  unfold admitInst checkIcache
  dsimp only
  split_ifs <;> dsimp only
  · rw [hrequeue]
    exact Nat.le_refl _
  · rw [hrequeue, setFetchStall_fetchStallUntil]
    exact Nat.le_max_left _ _
  · exact Nat.le_refl _
  · rw [hrequeue, setFetchStall_fetchStallUntil]
    exact Nat.le_max_left _ _
  · exact Nat.le_refl _

end

/-! ### Events -/

section

variable [CachePrefetcher P]

/-- The access of a turn: the first of a group makes one. -/
def accessEvents (s : Sim P B) (inst : TraceInst) (firstInGroup : Bool) : List FetchEvent :=
  if firstInGroup then
    [.access inst.pc s.totalCycles (s.mem.accessIcache inst.pc s.totalCycles).1]
  else []

variable [BranchPredictor B]

/-- The events of `fetchLoop`. -/
def fetchLoopEvents (cfg : Config P B) (env : Env) :
    ℕ → Sim P B → BitVec 32 → Bool → BoundReason → List FetchEvent
  | 0, _, _, _, _ => []
  | n + 1, s, currentLineAddr, firstInGroup, hint =>
      if !s.frontendCanFetch cfg then []
      else if s.frontendTraceExhausted then []
      else
        match s.frontendAcquireTraceInst env with
        | (none, _) => []
        | (some inst, s) =>
            let admitted := s.admitInst cfg inst currentLineAddr firstInGroup hint
            if !admitted.1 then s.accessEvents inst firstInGroup ++ [.requeued inst]
            else
              let deliver := admitted.2.1.deliverInst cfg env inst
              s.accessEvents inst firstInGroup
                ++ .delivered (admitted.2.1.fetchedOp inst)
                    (admitted.2.1.mispredicts cfg env inst)
                  :: if deliver.1.stopFetch then []
                    else
                      let instLine := lineAddr inst.pc s.mem.icacheLineSize
                      fetchLoopEvents cfg env n deliver.2
                        (if firstInGroup then instLine else currentLineAddr) false admitted.2.2

variable (cfg : Config P B) (env : Env)

/-- **The rule of the fetch loop with its events.**  `J n s line first log` holds before
a turn with `n` turns left, and `F s log` after the loop. -/
theorem fetchLoopEvents_rule {J : ℕ → Sim P B → BitVec 32 → Bool → List FetchEvent → Prop}
    {F : Sim P B → List FetchEvent → Prop}
    (hstop : ∀ {n s line first log}, J n s line first log → F s log)
    (hended : ∀ {n s line first log}, J (n + 1) s line first log →
      F { s with refCpu := { steps := s.refCpu.steps + 1, simEnd := true } } log)
    (hrefused : ∀ {n s line first log inst s₁ hint}, J (n + 1) s line first log →
      s.frontendCanFetch cfg = true → Acquired env s inst s₁ →
      (s₁.admitInst cfg inst line first hint).1 = false →
      F (s₁.admitInst cfg inst line first hint).2.1
        (log ++ (s₁.accessEvents inst first ++ [.requeued inst])))
    (hdelivered : ∀ {n s line first log inst s₁ hint s₂}, J (n + 1) s line first log →
      s.frontendCanFetch cfg = true → Acquired env s inst s₁ →
      (s₁.admitInst cfg inst line first hint).1 = true →
      (s₁.admitInst cfg inst line first hint).2.1 = s₂ →
      if (s₂.deliverInst cfg env inst).1.stopFetch then
        F (s₂.deliverInst cfg env inst).2 (log ++ (s₁.accessEvents inst first
          ++ [.delivered (s₂.fetchedOp inst) (s₂.mispredicts cfg env inst)]))
      else
        J n (s₂.deliverInst cfg env inst).2
          (if first then lineAddr inst.pc s₁.mem.icacheLineSize else line) false
          (log ++ (s₁.accessEvents inst first
            ++ [.delivered (s₂.fetchedOp inst) (s₂.mispredicts cfg env inst)])))
    (n : ℕ) (s : Sim P B) (line : BitVec 32) (first : Bool) (hint : BoundReason)
    (log : List FetchEvent) (h : J n s line first log) :
    F (fetchLoop cfg env n s line first hint).1
      (log ++ fetchLoopEvents cfg env n s line first hint) := by
  -- along the loop, turn by turn
  induction n generalizing s line first hint log with
  | zero =>
    rw [fetchLoop, fetchLoopEvents, List.append_nil]
    exact hstop h
  | succ n ih =>
    rw [fetchLoop, fetchLoopEvents]
    rcases hfetch : s.frontendCanFetch cfg with - | -
    -- the front end is stalled or its buffer is full
    · rw [Bool.not_false, if_pos rfl, if_pos rfl, List.append_nil]
      exact hstop h
    rcases hexhausted : s.frontendTraceExhausted with - | -
    swap
    -- the trace is at its end
    · rw [Bool.not_true, if_neg Bool.false_ne_true, if_neg Bool.false_ne_true, if_pos rfl,
        if_pos rfl, List.append_nil]
      exact hstop h
    rw [Bool.not_true, if_neg Bool.false_ne_true, if_neg Bool.false_ne_true,
      if_neg Bool.false_ne_true, if_neg Bool.false_ne_true]
    rcases frontendAcquireTraceInst_cases env s hexhausted with
      ⟨inst, s₁, hacq, hacquired⟩ | ⟨-, -, -, hacq⟩
    -- a record is there, and is put back or delivered
    · rw [hacq]
      dsimp only
      rcases e : (s₁.admitInst cfg inst line first hint).1 with - | -
      · rw [Bool.not_false, if_pos rfl, if_pos rfl]
        exact hrefused h hfetch hacquired e
      · rw [Bool.not_true, if_neg Bool.false_ne_true, if_neg Bool.false_ne_true]
        have hturn := hdelivered h hfetch hacquired e rfl
        rcases hends : ((s₁.admitInst cfg inst line first hint).2.1.deliverInst cfg env
          inst).1.stopFetch with - | -
        · rw [hends, if_neg Bool.false_ne_true] at hturn
          rw [if_neg Bool.false_ne_true, if_neg Bool.false_ne_true]
          have hnext := ih _ _ _ (s₁.admitInst cfg inst line first hint).2.2 _ hturn
          rw [List.append_assoc, List.append_assoc, List.singleton_append] at hnext
          exact hnext
        · rw [hends, if_pos rfl] at hturn
          rw [if_pos rfl, if_pos rfl]
          exact hturn
    -- the record is the terminator
    · rw [hacq]
      dsimp only
      rw [List.append_nil]
      exact hended h

end

end Sim

end TraceSim
