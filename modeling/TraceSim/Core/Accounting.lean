/-
TraceSim/Core/Accounting.lean

The counters of the simulator and those of the profiler.

Both count cycles and retired instructions, and both take a baseline when the
warm-up ends, which happens inside an iteration, before the profiler is told of it.
Between commit and the end of the iteration the two disagree by what the iteration
has retired (`Pending`); at the end of the iteration they agree (`accounting`).
-/
import Mathlib.Data.Fintype.Basic
import Mathlib.Algebra.BigOperators.Group.Finset.Piecewise
import TraceSim.Core.Attribution

namespace TraceSim

open scoped BigOperators

instance : Fintype TopDownBucket where
  elems := {.retiring, .frontendBound, .backendMemoryBound, .backendCoreBound,
    .badSpeculation, .other}
  complete b := by cases b <;> decide

/-! ### The counters of the profiler -/

namespace Profiler

/-- The cycles the six buckets have been charged with. -/
def charged (p : Profiler) : ℕ := ∑ b, p.topdownCounters b

/-- The profilers `p` and `p'` count the same cycles and instructions, and `p'` is
right about its branches if `p` is. -/
structure SameCounts (p p' : Profiler) : Prop where
  totalCycles : p'.totalCycles = p.totalCycles
  retiredInsts : p'.retiredInsts = p.retiredInsts
  topdownCounters : p'.topdownCounters = p.topdownCounters
  totalCyclesBaseline : p'.totalCyclesBaseline = p.totalCyclesBaseline
  retiredInstsBaseline : p'.retiredInstsBaseline = p.retiredInstsBaseline
  branches : p.stats.correctBranches ≤ p.stats.totalBranches →
    p'.stats.correctBranches ≤ p'.stats.totalBranches

variable {p p' p'' : Profiler}

/-- No counter changes. -/
theorem SameCounts.refl (p : Profiler) : SameCounts p p := ⟨rfl, rfl, rfl, rfl, rfl, id⟩

/-- Twice the same is the same. -/
theorem SameCounts.trans (h : SameCounts p p') (h' : SameCounts p' p'') :
    SameCounts p p'' where
  totalCycles := h'.totalCycles.trans h.totalCycles
  retiredInsts := h'.retiredInsts.trans h.retiredInsts
  topdownCounters := h'.topdownCounters.trans h.topdownCounters
  totalCyclesBaseline := h'.totalCyclesBaseline.trans h.totalCyclesBaseline
  retiredInstsBaseline := h'.retiredInstsBaseline.trans h.retiredInstsBaseline
  branches := h'.branches ∘ h.branches

/-- Forwardings are counted apart. -/
theorem sameCounts_incStlfHits (p : Profiler) : SameCounts p p.incStlfHits :=
  ⟨rfl, rfl, rfl, rfl, rfl, id⟩

/-- So are waits for stores. -/
theorem sameCounts_incMemDepStalls (p : Profiler) : SameCounts p p.incMemDepStalls :=
  ⟨rfl, rfl, rfl, rfl, rfl, id⟩

/-- A branch counted as predicted correctly has been counted as a branch. -/
theorem Predicted.sameCounts (h : Predicted p p') : SameCounts p p' := by
  cases h with
  | none => exact .refl p
  | wrong => exact ⟨rfl, rfl, rfl, rfl, rfl, fun h => h.trans (Nat.le_succ _)⟩
  | right => exact ⟨rfl, rfl, rfl, rfl, rfl, Nat.succ_le_succ⟩

end Profiler

namespace Sim

variable {P B : Type} {cfg : Config P B} {env : Env} {s s' s'' : Sim P B}

/-! ### Stages that count neither cycles nor instructions -/

/-- Going from `s` to `s'` counts neither a cycle nor an instruction. -/
structure Uncounted (s s' : Sim P B) : Prop where
  locals : SameLocals s s'
  profiler : s.profiler.SameCounts s'.profiler
  totalCycles : s'.totalCycles = s.totalCycles
  baseline : s'.instRetiredBaseline = s.instRetiredBaseline

/-- Nothing is counted. -/
theorem Uncounted.refl (s : Sim P B) : Uncounted s s := ⟨.refl s, .refl _, rfl, rfl⟩

/-- One part after the other. -/
theorem Uncounted.trans (h : Uncounted s s') (h' : Uncounted s' s'') : Uncounted s s'' where
  locals := h.locals.trans h'.locals
  profiler := h.profiler.trans h'.profiler
  totalCycles := h'.totalCycles.trans h.totalCycles
  baseline := h'.baseline.trans h.baseline

/-- Ops are not counted when they are written. -/
theorem setOp_uncounted (s : Sim P B) (i : ℕ) (op : OpEntry) : Uncounted s (s.setOp i op) :=
  ⟨⟨rfl, rfl, rfl, rfl⟩, .refl _, rfl, rfl⟩

/-- Queues are not counted at all. -/
theorem setIq_uncounted (s : Sim P B) (q : Iq) (l : List ℕ) : Uncounted s (s.setIq q l) := by
  cases q <;> exact ⟨⟨rfl, rfl, rfl, rfl⟩, .refl _, rfl, rfl⟩

/-- Execution is not counted. -/
theorem markLoadExecuted_uncounted (s : Sim P B) (i t : ℕ) :
    Uncounted s (s.markLoadExecuted i t) := by
  rw [markLoadExecuted_eq]
  exact ⟨⟨rfl, rfl, rfl, rfl⟩, .refl _, rfl, rfl⟩

/-- Nor is dispatch. -/
theorem dispatchLoop_uncounted (cfg : Config P B) (n : ℕ) (s : Sim P B) :
    Uncounted s (s.dispatchLoop cfg n).2 := by
  refine dispatchLoop_rule (fun {s₁ op rest} h _ _ => h.trans ?_) n (.refl s)
  unfold dispatchOne
  cases iqTarget op <;> exact ⟨⟨rfl, rfl, rfl, rfl⟩, .refl _, rfl, rfl⟩

section Fetch

variable [BranchPredictor B] (cfg) (env)

/-- Nor are fetched instructions, but for branches. -/
theorem deliverInst_uncounted (s : Sim P B) (inst : TraceInst) :
    Uncounted s (s.deliverInst cfg env inst).2 := by
  have hpredicted := deliverInst_predicted cfg env s inst
  obtain ⟨profiler, bp, randomCalls, stallUntil, stallReason, -, heq⟩ :=
    deliverInst_eq cfg env s inst
  rw [heq] at hpredicted ⊢
  exact ⟨⟨rfl, rfl, rfl, rfl⟩, hpredicted.sameCounts, rfl, rfl⟩

omit [BranchPredictor B] in
/-- Taking a record counts nothing. -/
theorem frontendAcquireTraceInst_uncounted (s : Sim P B) :
    Uncounted s (s.frontendAcquireTraceInst env).2 := by
  unfold frontendAcquireTraceInst refCpuStep
  split
  · exact ⟨⟨rfl, rfl, rfl, rfl⟩, .refl _, rfl, rfl⟩
  · dsimp only
    split <;> exact ⟨⟨rfl, rfl, rfl, rfl⟩, .refl _, rfl, rfl⟩

omit [BranchPredictor B] in
/-- Nor does putting it back. -/
theorem frontendRequeueTraceInst_uncounted (s : Sim P B) (inst : TraceInst) :
    Uncounted s (s.frontendRequeueTraceInst inst) := by
  unfold frontendRequeueTraceInst
  split <;> exact ⟨⟨rfl, rfl, rfl, rfl⟩, .refl _, rfl, rfl⟩

variable [CachePrefetcher P]

omit [BranchPredictor B] in
/-- Nor the check of its line. -/
theorem admitInst_uncounted (s : Sim P B) (inst : TraceInst) (line : BitVec 32)
    (first : Bool) (hint : BoundReason) :
    Uncounted s (s.admitInst cfg inst line first hint).2.1 := by
  rcases e : (s.admitInst cfg inst line first hint).1 with - | -
  · obtain ⟨mem, u, r, -, heq⟩ := admitInst_refused cfg e
    have hstalled : Uncounted s
        { s with mem := mem, fetchStallUntil := u, fetchStallReason := r } :=
      ⟨⟨rfl, rfl, rfl, rfl⟩, .refl _, rfl, rfl⟩
    rw [heq]
    exact hstalled.trans (frontendRequeueTraceInst_uncounted _ inst)
  · obtain ⟨mem, -, heq⟩ := admitInst_admitted cfg e
    rw [heq]
    exact ⟨⟨rfl, rfl, rfl, rfl⟩, .refl _, rfl, rfl⟩

/-- So the fetch stage counts branches only. -/
theorem fetchStage_uncounted (s : Sim P B) : Uncounted s (s.fetchStage cfg env) := by
  unfold fetchStage
  split
  · exact (fetchLoop_rule cfg env
      (fun {s'} h => Uncounted.trans h (frontendAcquireTraceInst_uncounted env s'))
      (fun {s'} inst line first hint h =>
        h.trans (admitInst_uncounted cfg s' inst line first hint))
      (fun {s'} inst h => h.trans (deliverInst_uncounted cfg env s' inst))
      cfg.fetchBandwidth 0 true .none (.refl s)).trans
      ⟨⟨rfl, rfl, rfl, rfl⟩, .refl _, rfl, rfl⟩
  · exact ⟨⟨rfl, rfl, rfl, rfl⟩, .refl _, rfl, rfl⟩

end Fetch

section Issue

variable [CachePrefetcher P]

/-- An attempt counts at most a forwarding or a stall. -/
theorem LoadOutcome.uncounted {i : ℕ} {ok : Bool} (h : LoadOutcome cfg s i s' ok) :
    Uncounted s s' := by
  cases h with
  | notReady sources => exact .refl s
  | stalled op' same executed cycle dep =>
    exact ⟨⟨rfl, rfl, rfl, rfl⟩, s.profiler.sameCounts_incMemDepStalls, rfl, rfl⟩
  | forwarded sources src dep stlf data time op' same executed cycle stats =>
    exact ⟨⟨rfl, rfl, rfl, rfl⟩, s.profiler.sameCounts_incStlfHits, rfl, rfl⟩
  | refused dep r mem access blocked op' same executed cycle =>
    exact ⟨⟨rfl, rfl, rfl, rfl⟩, .refl _, rfl, rfl⟩
  | accessed sources dep r mem access served op' same executed cycle stats =>
    exact ⟨⟨rfl, rfl, rfl, rfl⟩, .refl _, rfl, rfl⟩

/-- Attempts count forwardings and waits. -/
theorem attempt_uncounted (cfg : Config P B) (q : Iq) (s : Sim P B) (i : ℕ) :
    Uncounted s (attempt cfg q s i).1 := by
  by_cases hq : q = .ldu
  · subst hq
    exact (lduAttempt_outcome cfg s i).uncounted
  · exact attempt_rule hq cfg (.refl s) (fun t => markLoadExecuted_uncounted s i t)
      fun _ _ _ _ _ _ => setOp_uncounted s i _

/-- The issue stage as a whole. -/
theorem issueStage_uncounted (cfg : Config P B) (s : Sim P B) :
    Uncounted s (s.issueStage cfg) :=
  issueStage_attempts (fun {s'} q i h => Uncounted.trans h (attempt_uncounted cfg q s' i))
    (fun {s'} q l h => h.trans (setIq_uncounted s' q l)) (.refl s)

end Issue

/-! ### The invariant -/

/-- What the profiler has counted, and what it is measured from.  The bounds are
those of an iteration: one cycle and at most `commit_width` instructions. -/
structure Counting (cfg : Config P B) (s : Sim P B) : Prop where
  clock : s.profiler.totalCycles = s.totalCycles
  charged : s.profiler.totalCyclesBaseline + s.profiler.charged = s.profiler.totalCycles
  baseline : s.profiler.retiredInstsBaseline = s.instRetiredBaseline
  atLeast : s.profiler.retiredInstsBaseline + s.profiler.topdownCounters .retiring
    ≤ s.profiler.retiredInsts
  atMost : s.profiler.retiredInsts ≤ s.profiler.retiredInstsBaseline
    + cfg.commitWidth * s.profiler.topdownCounters .retiring
  branches : s.profiler.stats.correctBranches ≤ s.profiler.stats.totalBranches

/-- How far the profiler is behind at a boundary. -/
def Pending (cfg : Config P B) : Boundary → Sim P B → Prop
  | .returns, s | .advance, s | .commit, s => s.profiler.retiredInsts = s.instructionsRetired
  | _, s =>
      s.profiler.retiredInsts = s.instsBefore ∧ s.instsBefore ≤ s.instructionsRetired ∧
        s.instructionsRetired ≤ s.instsBefore + cfg.commitWidth

/-- The invariant reads the profiler, the clock and one baseline. -/
theorem Counting.congr (h : Counting cfg s) (profiler : s'.profiler = s.profiler)
    (totalCycles : s'.totalCycles = s.totalCycles)
    (baseline : s'.instRetiredBaseline = s.instRetiredBaseline) : Counting cfg s' where
  clock := by rw [profiler, totalCycles, h.clock]
  charged := profiler ▸ h.charged
  baseline := by rw [profiler, baseline, h.baseline]
  atLeast := profiler ▸ h.atLeast
  atMost := profiler ▸ h.atMost
  branches := profiler ▸ h.branches

/-- What is not counted does not disturb the sums. -/
theorem Uncounted.counting (h : Uncounted s s') (hs : Counting cfg s) : Counting cfg s' where
  clock := by rw [h.profiler.totalCycles, h.totalCycles, hs.clock]
  charged := by
    unfold Profiler.charged
    rw [h.profiler.totalCyclesBaseline, h.profiler.topdownCounters, h.profiler.totalCycles]
    exact hs.charged
  baseline := by rw [h.profiler.retiredInstsBaseline, h.baseline, hs.baseline]
  atLeast := by
    rw [h.profiler.retiredInstsBaseline, h.profiler.topdownCounters, h.profiler.retiredInsts]
    exact hs.atLeast
  atMost := by
    rw [h.profiler.retiredInstsBaseline, h.profiler.topdownCounters, h.profiler.retiredInsts]
    exact hs.atMost
  branches := h.profiler.branches hs.branches

/-- Between commit and the end of the iteration the locals keep their values. -/
theorem Uncounted.pending (h : Uncounted s s') {b : Boundary} (hs : Pending cfg b s) :
    Pending cfg b s' := by
  have hretired := h.profiler.retiredInsts
  have hinsts := h.locals.instructionsRetired
  have hbefore := h.locals.instsBefore
  cases b with
  | returns | advance | commit => exact hretired.trans (hs.trans hinsts.symm)
  | _ =>
    refine ⟨hretired.trans (hs.1.trans hbefore.symm), ?_, ?_⟩
    · rw [hbefore, hinsts]
      exact hs.2.1
    · rw [hbefore, hinsts]
      exact hs.2.2

/-! ### One stage -/

/-- The end of the warm-up takes both baselines when the two objects agree. -/
theorem resetStats_counting (h : Counting cfg s)
    (hs : s.profiler.retiredInsts = s.instructionsRetired) :
    Counting cfg s.resetStats where
  clock := h.clock
  charged := by
    change s.profiler.totalCycles + ∑ _b : TopDownBucket, 0 = s.profiler.totalCycles
    rw [Finset.sum_const_zero, Nat.add_zero]
  baseline := hs
  atLeast := le_rfl
  atMost := le_rfl
  branches := le_rfl

/-- The reset of the warm-up starts the sums again, with the retired instructions behind a
baseline. -/
theorem advanceCycle_counting (h : Counting cfg s)
    (hs : s.profiler.retiredInsts = s.instructionsRetired) :
    Counting cfg (s.advanceCycle cfg) ∧
      (s.advanceCycle cfg).profiler.retiredInsts = (s.advanceCycle cfg).instructionsRetired := by
  have hreset := resetStats_counting h hs
  unfold advanceCycle
  split_ifs
  · exact ⟨hreset.congr rfl rfl rfl, hs⟩
  · exact ⟨h, hs⟩
  · exact ⟨h.congr rfl rfl rfl, hs⟩
  · exact ⟨h, hs⟩
  · exact ⟨h.congr rfl rfl rfl, hs⟩
  · exact ⟨h, hs⟩

/-- The commit loop counts on the side of the simulator only. -/
theorem commitLoop_counts (cfg : Config P B) (n : ℕ) (s : Sim P B) :
    ∃ k ≤ n, (s.commitLoop cfg n).instructionsRetired = s.instructionsRetired + k ∧
      (s.commitLoop cfg n).instsBefore = s.instsBefore ∧
      (s.commitLoop cfg n).profiler = s.profiler ∧
      (s.commitLoop cfg n).totalCycles = s.totalCycles ∧
      (s.commitLoop cfg n).instRetiredBaseline = s.instRetiredBaseline := by
  induction n generalizing s with
  | zero => exact ⟨0, le_rfl, rfl, rfl, rfl, rfl, rfl⟩
  | succ n ih =>
    rw [commitLoop]
    split
    · obtain ⟨k, hk, hretired, hbefore, hprofiler, htime, hbaseline⟩ := ih (s.commitOne cfg)
      refine ⟨k + 1, Nat.succ_le_succ hk, ?_, hbefore, hprofiler, htime, hbaseline⟩
      rw [hretired, show (s.commitOne cfg).instructionsRetired = s.instructionsRetired + 1
        from rfl]
      omega
    · exact ⟨0, Nat.zero_le _, rfl, rfl, rfl, rfl, rfl⟩

/-- The end of an iteration charges one cycle. -/
theorem account_charged_sum (s : Sim P B) :
    s.account.profiler.charged = s.profiler.charged + 1 := by
  have hcharged := account_charged s
  generalize Profiler.bucketOf _ _ _ _ = bucket at hcharged
  calc s.account.profiler.charged
      = ∑ b, (s.profiler.topdownCounters b + if b = bucket then 1 else 0) :=
        Finset.sum_congr rfl fun b _ => hcharged b
    _ = s.profiler.charged + ∑ b, (if b = bucket then 1 else 0) := Finset.sum_add_distrib
    _ = s.profiler.charged + 1 := by rw [Finset.sum_ite_eq', if_pos (Finset.mem_univ _)]

/-- The bucket is that of retirement exactly if something has retired. -/
theorem bucketOf_retiring_iff (retired : Bool) (feReason : FetchStallReason)
    (feActive : Bool) (beReason : BackendStallReason) :
    Profiler.bucketOf retired feReason feActive beReason = .retiring ↔ retired = true := by
  unfold Profiler.bucketOf
  cases retired
  · refine iff_of_false ?_ Bool.false_ne_true
    rw [if_neg Bool.false_ne_true]
    split_ifs <;> nofun
  · exact iff_of_true rfl rfl

/-- The cycle counts as one of retirement if something has retired in it. -/
theorem account_retiring (s : Sim P B) :
    s.account.profiler.topdownCounters .retiring
      = s.profiler.topdownCounters .retiring
        + if s.instructionsRetired > s.instsBefore then 1 else 0 := by
  rw [account_charged s .retiring]
  simp only [eq_comm (a := TopDownBucket.retiring), bucketOf_retiring_iff, decide_eq_true_eq]

/-- The profiler is told of what has retired in the iteration. -/
theorem account_retiredInsts (hle : s.instsBefore ≤ s.instructionsRetired) :
    s.account.profiler.retiredInsts
      = s.profiler.retiredInsts + (s.instructionsRetired - s.instsBefore) := by
  unfold account Profiler.markCycle
  dsimp only
  split
  · rfl
  · rename_i hnone
    rw [decide_eq_true_eq] at hnone
    have hzero : s.instructionsRetired - s.instsBefore = 0 := by omega
    rw [hzero, Nat.add_zero]

/-- What the end of an iteration leaves alone. -/
theorem account_profiler (s : Sim P B) :
    s.account.profiler.totalCycles = s.totalCycles + 1 ∧
      s.account.profiler.totalCyclesBaseline = s.profiler.totalCyclesBaseline ∧
      s.account.profiler.retiredInstsBaseline = s.profiler.retiredInstsBaseline ∧
      s.account.profiler.stats = s.profiler.stats := by
  unfold account Profiler.markCycle
  dsimp only
  split <;> exact ⟨rfl, rfl, rfl, rfl⟩

/-- One cycle goes to one bucket, and the ops that have retired are counted. -/
theorem account_counting (h : Counting cfg s) (hs : Pending cfg .account s) :
    Counting cfg s.account ∧ Pending cfg .returns s.account := by
  obtain ⟨hretired, hle, hwidth⟩ := hs
  obtain ⟨hcycles, hcyclesBase, hretiredBase, hstats⟩ := account_profiler s
  have hsum := account_charged_sum s
  have hretiring := account_retiring s
  have hinsts := account_retiredInsts hle
  have hatLeast := h.atLeast
  have hatMost := h.atMost
  refine ⟨⟨hcycles, ?_, hretiredBase.trans h.baseline, ?_, ?_, ?_⟩, ?_⟩
  · have hcharged := h.charged
    rw [hcyclesBase, hsum, hcycles, ← h.clock]
    omega
  -- a cycle of retirement retires at least one instruction
  · rw [hretiredBase, hretiring, hinsts]
    split <;> omega
  -- and at most as many as commit can take
  · rw [hretiredBase, hretiring, hinsts, Nat.mul_add]
    split <;> omega
  · rw [hstats]
    exact h.branches
  · rw [Pending, hinsts, hretired]
    exact Nat.add_sub_cancel' hle

section Runs

variable [CachePrefetcher P] [BranchPredictor B]

/-- **One stage** keeps the two objects together. -/
theorem stage_counting (env : Env) (b : Boundary) (h : Counting cfg s)
    (hs : Pending cfg b s) :
    Counting cfg (stage cfg env b s) ∧ Pending cfg b.next (stage cfg env b s) := by
  cases b with
  | returns => exact ⟨h.congr rfl rfl rfl, hs⟩
  | advance => exact advanceCycle_counting h hs
  | commit =>
    -- the profiler counts what retires, at most the commit width
    obtain ⟨k, hk, hretired, hbefore, hprofiler, htime, hbaseline⟩ :=
      commitLoop_counts cfg cfg.commitWidth { s with instsBefore := s.instructionsRetired }
    refine ⟨h.congr hprofiler htime hbaseline, ?_⟩
    have hbehind : Pending cfg .issue
        (commitLoop cfg cfg.commitWidth { s with instsBefore := s.instructionsRetired }) := by
      refine ⟨?_, ?_, ?_⟩
      · rw [hprofiler, hbefore]
        exact hs
      · rw [hbefore, hretired]
        exact Nat.le_add_right _ _
      · rw [hbefore, hretired]
        exact Nat.add_le_add_left hk _
    exact hbehind
  | issue =>
    have hissue := issueStage_uncounted cfg s
    exact ⟨hissue.counting h, hissue.pending hs⟩
  | dispatch =>
    have hdispatch := dispatchLoop_uncounted cfg cfg.dispatchWidth s
    exact ⟨(hdispatch.counting h).congr rfl rfl rfl, hdispatch.pending (b := .dispatch) hs⟩
  | decode => exact ⟨h.congr rfl rfl rfl, hs⟩
  | fetch =>
    have hfetch := fetchStage_uncounted cfg env s
    exact ⟨hfetch.counting h, hfetch.pending hs⟩
  | service => exact ⟨h.congr rfl rfl rfl, hs⟩
  | account => exact account_counting h hs

omit [CachePrefetcher P] [BranchPredictor B] in
/-- All sums are zero. -/
theorem new_counting (cfg : Config P B) : Counting cfg (Sim.new cfg) where
  clock := rfl
  charged := by
    change 0 + ∑ _b : TopDownBucket, 0 = 0
    rw [Finset.sum_const_zero, Nat.zero_add]
  baseline := rfl
  atLeast := le_rfl
  atMost := Nat.zero_le _
  branches := le_rfl

/-- In every run. -/
theorem Reach.counting {b : Boundary} (h : Reach cfg env b s) :
    Counting cfg s ∧ Pending cfg b s := by
  induction h with
  | start => exact ⟨new_counting cfg, rfl⟩
  | step _ _ ih => exact stage_counting env _ ih.1 ih.2

/-! ### The end of an iteration -/

/-- The counters of the profiler and of the simulator, each relative to its own
baseline, which it has reached. -/
structure Accounted (cfg : Config P B) (s : Sim P B) : Prop where
  cycles : s.profiler.totalCyclesBaseline ≤ s.profiler.totalCycles ∧
    s.profiler.charged = s.profiler.totalCycles - s.profiler.totalCyclesBaseline
  retired : s.profiler.retiredInstsBaseline ≤ s.profiler.retiredInsts ∧
    s.instRetiredBaseline ≤ s.instructionsRetired ∧
    s.profiler.retiredInsts - s.profiler.retiredInstsBaseline
      = s.instructionsRetired - s.instRetiredBaseline
  atLeast : s.profiler.topdownCounters .retiring
    ≤ s.profiler.retiredInsts - s.profiler.retiredInstsBaseline
  atMost : s.profiler.retiredInsts - s.profiler.retiredInstsBaseline
    ≤ cfg.commitWidth * s.profiler.topdownCounters .retiring
  branches : s.profiler.stats.correctBranches ≤ s.profiler.stats.totalBranches

/-- **Cycle and retirement accounting.**  At the end of every iteration. -/
theorem accounting (h : Reach cfg env .returns s) : Accounted cfg s := by
  obtain ⟨hcounting, hretired⟩ := h.counting
  rw [Pending] at hretired
  have hcharged := hcounting.charged
  have hbaseline := hcounting.baseline
  have hatLeast := hcounting.atLeast
  have hatMost := hcounting.atMost
  refine ⟨⟨?_, ?_⟩, ⟨?_, ?_, ?_⟩, ?_, ?_, hcounting.branches⟩ <;> omega

end Runs

/-- A run that warms up for four instructions, with every branch foreseen. -/
def warmupConfig : Config BuiltinPrefetcher BuiltinPredictor :=
  { shippedConfig with mode := .restore, warmupInstructions := 4, bpType := .perfect }

/-- Ten branches that are not taken. -/
def branchTrace : Env :=
  ofTrace ((List.range 10).map fun n =>
    { pc := 0x80000000 + BitVec.ofNat 32 (4 * n), opcode := 0b1100011, isBranch := true })

/-- An iteration after the end of the warm-up. -/
theorem accounting_warmup :
    ∃ s, Reach warmupConfig branchTrace .returns s ∧ s.inWarmup = false ∧
      s.instRetiredBaseline = 4 ∧ s.instructionsRetired = 8 ∧ Accounted warmupConfig s := by
  have hrun : (runFor warmupConfig branchTrace 140 (Sim.new warmupConfig)).any (fun s =>
      decide (s.inWarmup = false ∧ s.instRetiredBaseline = 4 ∧ s.instructionsRetired = 8))
        = true := by
    decide +kernel
  obtain ⟨s, hs, htest⟩ := exists_reach hrun
  obtain ⟨hwarm, hbaseline, hretired⟩ := of_decide_eq_true htest
  exact ⟨s, hs, hwarm, hbaseline, hretired, accounting hs⟩

end Sim

end TraceSim
