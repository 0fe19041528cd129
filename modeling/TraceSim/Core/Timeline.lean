/-
TraceSim/Core/Timeline.lean

When an op goes through the pipeline.

An op that is fetched in some cycle is decoded in a later one, dispatched in a later one
still, and so on: no op passes two stages in one cycle.  The invariant says for each
boundary how long ago the ops of each container have entered it (`Timeline`), and what the
cycles of an op in the reorder buffer say of each other (`OpEntry.Timed`).
-/
import TraceSim.Core.Conservation
import TraceSim.Core.Memory
import TraceSim.Mem.LatencyBounds

namespace TraceSim

/-- The cycles of a dispatched op, as far as it has come. -/
structure OpEntry.Timed (op : OpEntry) : Prop where
  dispatched : op.fetchCycle + 2 ≤ op.dispatchCycle
  executed : op.executed = true → op.dispatchCycle + 2 ≤ op.executeCycle
  /-- The halves of a store issue in cycles of their own. -/
  issued : op.executed = true → op.staDone = false →
    op.dispatchCycle < op.issueCycle ∧ op.issueCycle < op.executeCycle
  sta : op.staDone = true → op.dispatchCycle + 2 ≤ op.staCycle
  std : op.stdDone = true → op.dispatchCycle + 2 ≤ op.stdCycle

/-- The entries `op` and `op'` have come equally far. -/
structure SameTimes (op op' : OpEntry) : Prop where
  fetchCycle : op'.fetchCycle = op.fetchCycle
  dispatchCycle : op'.dispatchCycle = op.dispatchCycle
  issueCycle : op'.issueCycle = op.issueCycle
  executeCycle : op'.executeCycle = op.executeCycle
  executed : op'.executed = op.executed
  staDone : op'.staDone = op.staDone
  stdDone : op'.stdDone = op.stdDone
  staCycle : op'.staCycle = op.staCycle
  stdCycle : op'.stdCycle = op.stdCycle

theorem SameTimes.refl (op : OpEntry) : SameTimes op op :=
  ⟨rfl, rfl, rfl, rfl, rfl, rfl, rfl, rfl, rfl⟩

theorem SameTimes.trans {op op' op'' : OpEntry} (h : SameTimes op op') (h' : SameTimes op' op'') :
    SameTimes op op'' where
  fetchCycle := h'.fetchCycle.trans h.fetchCycle
  dispatchCycle := h'.dispatchCycle.trans h.dispatchCycle
  issueCycle := h'.issueCycle.trans h.issueCycle
  executeCycle := h'.executeCycle.trans h.executeCycle
  executed := h'.executed.trans h.executed
  staDone := h'.staDone.trans h.staDone
  stdDone := h'.stdDone.trans h.stdDone
  staCycle := h'.staCycle.trans h.staCycle
  stdCycle := h'.stdCycle.trans h.stdCycle

theorem OpEntry.Timed.of_same {op op' : OpEntry} (h : op.Timed) (hs : SameTimes op op') :
    op'.Timed := by
  obtain ⟨hdispatched, hexecuted, hissued, hsta, hstd⟩ := h
  refine ⟨?_, ?_, ?_, ?_, ?_⟩
  · rwa [hs.fetchCycle, hs.dispatchCycle]
  · rwa [hs.executed, hs.dispatchCycle, hs.executeCycle]
  · rwa [hs.executed, hs.staDone, hs.dispatchCycle, hs.issueCycle, hs.executeCycle]
  · rwa [hs.staDone, hs.dispatchCycle, hs.staCycle]
  · rwa [hs.stdDone, hs.dispatchCycle, hs.stdCycle]

/-- An op that was dispatched before cycle `t` issues in it. -/
theorem OpEntry.Timed.issue {op : OpEntry} (h : op.Timed) {t n : ℕ} (hlt : op.dispatchCycle < t)
    (hn : t < n) :
    ({ op with issueCycle := t, executeCycle := n, executed := true } : OpEntry).Timed where
  dispatched := h.dispatched
  executed _ := show op.dispatchCycle + 2 ≤ n by omega
  issued _ _ := ⟨hlt, hn⟩
  sta := h.sta
  std := h.std

/-- A store of which one half has just been done. -/
theorem OpEntry.Timed.finishStore {op : OpEntry} (h : op.Timed) {b : Bool}
    (hb : b = true → op.staDone = true) : (Sim.finishStore op b).Timed := by
  unfold Sim.finishStore
  split
  · next hdone =>
    have hsta := hb hdone
    exact ⟨h.dispatched, fun _ => le_max_of_le_left (h.sta hsta),
      fun _ hno => absurd (hsta.symm.trans hno) Bool.false_ne_true.symm, h.sta, h.std⟩
  · exact h

namespace Sim

variable {P B : Type} {cfg : Config P B} {env : Env} {s s' : Sim P B}

/-! ### Issue -/

/-- An attempt in cycle `t` on the op `op`: it stays where it was, or it issues. -/
inductive Tried (t : ℕ) (op : OpEntry) : OpEntry → Prop
  | same (op' : OpEntry) (same : SameTimes op op') : Tried t op op'
  | issues (op' : OpEntry) (same : SameTimes op op') (n : ℕ) (later : t < n) :
      Tried t op { op' with issueCycle := t, executeCycle := n, executed := true }
  | sta : Tried t op (finishStore
      { op with staCycle := t + staLatency, staDone := true, aguDone := true } op.stdDone)
  | std : Tried t op (finishStore
      { op with stdCycle := t + stdLatency, stdDone := true } op.staDone)

theorem Tried.timed {t : ℕ} {op op' : OpEntry} (h : Tried t op op') (hop : op.Timed)
    (hlt : op.dispatchCycle < t) : op'.Timed := by
  cases h with
  | same op' hs => exact hop.of_same hs
  | issues op' hs n hn => exact (hop.of_same hs).issue (hs.dispatchCycle ▸ hlt) hn
  | sta =>
    have hcycle : op.dispatchCycle + 2 ≤ t + staLatency := by
      unfold staLatency
      omega
    refine OpEntry.Timed.finishStore ?_ fun _ => rfl
    exact ⟨hop.dispatched, hop.executed, fun _ hno => absurd hno Bool.false_ne_true.symm,
      fun _ => hcycle, hop.std⟩
  | std =>
    have hcycle : op.dispatchCycle + 2 ≤ t + stdLatency := by
      unfold stdLatency
      omega
    refine OpEntry.Timed.finishStore ?_ id
    exact ⟨hop.dispatched, hop.executed, hop.issued, hop.sta, fun _ => hcycle⟩

theorem Tried.dispatchCycle {t : ℕ} {op op' : OpEntry} (h : Tried t op op') :
    op'.dispatchCycle = op.dispatchCycle := by
  cases h with
  | same op' hs => exact hs.dispatchCycle
  | issues op' hs n hn => exact hs.dispatchCycle
  | sta =>
    unfold finishStore
    split <;> rfl
  | std =>
    unfold finishStore
    split <;> rfl

/-- What an attempt on slot `i` leaves there. -/
def TriedAt (s : Sim P B) (i : ℕ) (s' : Sim P B) : Prop :=
  ∃ op', Tried s.totalCycles (s.rob i) op' ∧ s'.rob = Function.update s.rob i op'

theorem TriedAt.unchanged (s : Sim P B) (i : ℕ) : TriedAt s i s :=
  ⟨s.rob i, .same _ (.refl _), (Function.update_eq_self _ _).symm⟩

/-- The state `t` is in the cycle of `s`, and differs in the flags of the op in slot `i` as
far as the reorder buffer goes. -/
structure Holds (s : Sim P B) (i : ℕ) (op : OpEntry) (t : Sim P B) : Prop where
  same : SameTimes (s.rob i) op
  rob : t.rob = Function.update s.rob i op
  totalCycles : t.totalCycles = s.totalCycles

section

variable {i : ℕ} {op op' : OpEntry} {t : Sim P B}

theorem Holds.refl (s : Sim P B) (i : ℕ) : Holds s i (s.rob i) s :=
  ⟨.refl _, (Function.update_eq_self _ _).symm, rfl⟩

theorem Holds.get (h : Holds s i op t) : t.rob i = op := by
  rw [h.rob, Function.update_self]

theorem Holds.tried (h : Holds s i op t) : TriedAt s i t := ⟨op, .same op h.same, h.rob⟩

theorem Holds.setOp (h : Holds s i op t) (op' : OpEntry) (hs : SameTimes (t.rob i) op') :
    Holds s i op' (t.setOp i op') where
  same := h.same.trans (h.get ▸ hs)
  rob := by
    show Function.update t.rob i op' = _
    rw [h.rob, Function.update_idem]
  totalCycles := h.totalCycles

/-- The op executes in this cycle, and is done in a later one. -/
theorem Holds.markLoadExecuted (h : Holds s i op t) {n : ℕ} (hn : s.totalCycles < n) :
    TriedAt s i (t.markLoadExecuted i n) := by
  refine ⟨_, .issues op h.same n hn, ?_⟩
  rw [markLoadExecuted_eq]
  show Function.update t.rob i (t.executedOp i n) = _
  rw [executedOp, h.get, h.totalCycles, h.rob, Function.update_idem]

theorem finalizeLoadProfile_rob (cfg : Config P B) (t : Sim P B) (op : OpEntry) (latency : ℕ)
    (l1 l2 dram stlf : Bool) :
    (t.finalizeLoadProfile cfg op latency l1 l2 dram stlf).rob = t.rob := by
  unfold finalizeLoadProfile
  split <;> rfl

theorem checkStoreDependency_mem (cfg : Config P B) (t : Sim P B) (i : ℕ) :
    (t.checkStoreDependency cfg i).2.mem = t.mem := by
  unfold checkStoreDependency
  split
  · rfl
  · split <;> rfl
  · rfl

theorem Holds.checkStoreDependency (h : Holds s i op t) (cfg : Config P B) :
    ∃ op', Holds s i op' (t.checkStoreDependency cfg i).2 := by
  have hstall : ∃ op', Holds s i op' (t.stallOnStore i) := by
    have hset := h.setOp { t.rob i with waitingOnMemDep := true }
      ⟨rfl, rfl, rfl, rfl, rfl, rfl, rfl, rfl, rfl⟩
    exact ⟨_, hset.same, hset.rob, hset.totalCycles⟩
  unfold Sim.checkStoreDependency
  split
  · exact hstall
  · split
    · exact ⟨op, h⟩
    · exact hstall
  · exact ⟨op, h⟩

theorem Holds.forwardLoad (h : Holds s i op t) : TriedAt s i (t.forwardLoad cfg i) := by
  have hprofiler : Holds s i op (t.setProfiler t.profiler.incStlfHits) :=
    ⟨h.same, h.rob, h.totalCycles⟩
  have hlater : s.totalCycles < t.totalCycles + 1 := h.totalCycles ▸ Nat.lt_succ_self _
  obtain ⟨op', htried, hrob⟩ := hprofiler.markLoadExecuted hlater
  refine ⟨op', htried, ?_⟩
  unfold Sim.forwardLoad
  rw [finalizeLoadProfile_rob]
  exact hrob

variable [CachePrefetcher P]

/-- The data cache answers in a later cycle. -/
theorem Holds.executeLoadMemoryAccess (h : Holds s i op t)
    (hm : t.mem.Timely (some t.totalCycles)) :
    TriedAt s i (t.executeLoadMemoryAccess cfg i).2 := by
  have hbounds := hm.readyCycle_bounds .dcache (t.rob i).inst.memAddr
  have hmem (m : MemSubsystem P) : Holds s i op (t.setMem m) := ⟨h.same, h.rob, h.totalCycles⟩
  unfold Sim.executeLoadMemoryAccess
  dsimp only
  split
  · exact ((hmem _).setOp { t.rob i with waitingOnMemory := true }
      ⟨rfl, rfl, rfl, rfl, rfl, rfl, rfl, rfl, rfl⟩).tried
  · next hserved =>
    have hready := (hbounds (Bool.eq_false_iff.mpr hserved)).1
    have hlater : s.totalCycles
        < (t.mem.accessDcacheLoad (t.rob i).inst.memAddr t.totalCycles).1.readyCycle := by
      rw [← h.totalCycles]
      exact Nat.lt_of_lt_of_le (Nat.lt_add_of_pos_right (by decide)) hready
    have hset := (hmem (t.mem.accessDcacheLoad (t.rob i).inst.memAddr t.totalCycles).2).setOp
      { t.rob i with
        waitingOnMemory :=
          !(t.mem.accessDcacheLoad (t.rob i).inst.memAddr t.totalCycles).1.l1Hit }
      ⟨rfl, rfl, rfl, rfl, rfl, rfl, rfl, rfl, rfl⟩
    obtain ⟨op', htried, hrob⟩ := hset.markLoadExecuted hlater
    refine ⟨op', htried, ?_⟩
    unfold finishLoadAccess
    exact (finalizeLoadProfile_rob _ _ _ _ _ _ _ _).trans hrob

theorem lduAttempt_tried (cfg : Config P B) (hm : s.mem.Timely (some s.totalCycles)) (i : ℕ) :
    TriedAt s i (s.lduAttempt cfg i).1 := by
  have hclassified : Holds s i (classifyLoad cfg (s.rob i))
      (s.setOp i (classifyLoad cfg (s.rob i))) := by
    refine (Holds.refl s i).setOp _ ?_
    unfold classifyLoad
    dsimp only
    split <;> exact ⟨rfl, rfl, rfl, rfl, rfl, rfl, rfl, rfl, rfl⟩
  obtain ⟨op', hdep⟩ := hclassified.checkStoreDependency cfg
  have hmem := checkStoreDependency_mem cfg (s.setOp i (classifyLoad cfg (s.rob i))) i
  unfold lduAttempt tryIssueLoad
  dsimp only
  split
  · exact .unchanged s i
  · split
    · exact hdep.tried
    · exact hdep.forwardLoad
    · refine hdep.executeLoadMemoryAccess ?_
      rw [hmem, hdep.totalCycles]
      exact hm

theorem attempt_tried (cfg : Config P B) (hm : s.mem.Timely (some s.totalCycles)) (q : Iq)
    (i : ℕ) : TriedAt s i (attempt cfg q s i).1 := by
  have hexec (latency : ℕ) (hpos : 0 < latency) : TriedAt s i (execAttempt latency s i).1 := by
    unfold execAttempt
    dsimp only
    split
    · exact (Holds.refl s i).markLoadExecuted (Nat.lt_add_of_pos_right hpos)
    · exact .unchanged s i
  cases q with
  | alu => exact hexec aluLatency (by decide)
  | ldu => exact lduAttempt_tried cfg hm i
  | sta =>
    show TriedAt s i (staAttempt s i).1
    unfold staAttempt
    dsimp only
    split
    · exact ⟨_, .sta, rfl⟩
    · exact .unchanged s i
  | std =>
    show TriedAt s i (stdAttempt s i).1
    unfold stdAttempt
    dsimp only
    split
    · exact ⟨_, .std, rfl⟩
    · exact .unchanged s i
  | bru => exact hexec bruLatency (by decide)

end

/-! ### The invariant -/

/-- When the ops of the reorder buffer and the retired ones were dispatched. -/
def dispatchTimes (cfg : Config P B) (s : Sim P B) : List ℕ :=
  (s.hist.retired ++ s.window cfg).map OpEntry.dispatchCycle

/-- How long ago the ops of the pipeline have entered their place: those of the fetch buffer
`lb` cycles, those of the fetch queue `lq` cycles and those of the reorder buffer `lr`
cycles. -/
structure Timeline (cfg : Config P B) (lb lq lr : ℕ) (s : Sim P B) : Prop where
  buffer : ∀ op ∈ s.instBuffer, op.fetchCycle + lb ≤ s.totalCycles
  queue : ∀ op ∈ s.fetchQueue, op.fetchCycle + lq ≤ s.totalCycles
  window : ∀ op ∈ s.window cfg, op.Timed ∧ op.dispatchCycle + lr ≤ s.totalCycles
  retired : ∀ op ∈ s.hist.retired,
    op.Timed ∧ op.executed = true ∧ op.executeCycle ≤ s.totalCycles
  order : (s.dispatchTimes cfg).Pairwise (· ≤ ·)
  width : ∀ t, (s.dispatchTimes cfg).countP (fun t' => decide (t' = t)) ≤ cfg.dispatchWidth

variable {lb lq lr : ℕ}

theorem timeline_new (cfg : Config P B) (lb lq lr : ℕ) : Timeline cfg lb lq lr (Sim.new cfg) where
  buffer _ hop := absurd hop List.not_mem_nil
  queue _ hop := absurd hop List.not_mem_nil
  window _ hop := absurd hop List.not_mem_nil
  retired _ hop := absurd hop List.not_mem_nil
  order := .nil
  width _ := Nat.zero_le _

/-- The ops of `s'` are those of `s`. -/
structure SameOps (cfg : Config P B) (s s' : Sim P B) : Prop where
  instBuffer : s'.instBuffer = s.instBuffer
  fetchQueue : s'.fetchQueue = s.fetchQueue
  window : s'.window cfg = s.window cfg
  retired : s'.hist.retired = s.hist.retired

/-- Time goes on. -/
theorem Timeline.later (h : Timeline cfg lb lq lr s) (hs : SameOps cfg s s') {k : ℕ}
    (htime : s'.totalCycles = s.totalCycles + k) :
    Timeline cfg (lb + k) (lq + k) (lr + k) s' := by
  have htimes : s'.dispatchTimes cfg = s.dispatchTimes cfg := by
    rw [dispatchTimes, dispatchTimes, hs.retired, hs.window]
  refine ⟨?_, ?_, ?_, ?_, htimes ▸ h.order, htimes ▸ h.width⟩
  · rw [hs.instBuffer, htime]
    intro op hop
    exact (Nat.add_assoc _ _ _).symm.trans_le (Nat.add_le_add_right (h.buffer op hop) k)
  · rw [hs.fetchQueue, htime]
    intro op hop
    exact (Nat.add_assoc _ _ _).symm.trans_le (Nat.add_le_add_right (h.queue op hop) k)
  · rw [hs.window, htime]
    intro op hop
    refine ⟨(h.window op hop).1, ?_⟩
    exact (Nat.add_assoc _ _ _).symm.trans_le (Nat.add_le_add_right (h.window op hop).2 k)
  · rw [hs.retired, htime]
    intro op hop
    obtain ⟨htimed, hexec, hle⟩ := h.retired op hop
    exact ⟨htimed, hexec, hle.trans (Nat.le_add_right _ _)⟩

/-- A stage that moves no op. -/
theorem Timeline.of_same (h : Timeline cfg lb lq lr s) (hs : SameOps cfg s s')
    (htime : s'.totalCycles = s.totalCycles) : Timeline cfg lb lq lr s' :=
  h.later hs (k := 0) htime

/-- **Commit**: the head has completed. -/
theorem Timeline.commitOne (h : Timeline cfg lb lq lr s) (hr : Represents cfg s)
    (hdone : s.headDone = true) : Timeline cfg lb lq lr (s.commitOne cfg) := by
  obtain ⟨hcount, hexec, hcycle⟩ := headDone_iff.mp hdone
  have hwindow := hr.window_pop hcount
  have hretired : (s.commitOne cfg).hist.retired = s.hist.retired ++ [s.rob s.robHead] := rfl
  have htimes : (s.commitOne cfg).dispatchTimes cfg = s.dispatchTimes cfg := by
    rw [dispatchTimes, dispatchTimes, hwindow, hretired, List.append_assoc,
      List.singleton_append]
  have hhead : s.rob s.robHead ∈ s.window cfg := hwindow ▸ List.mem_cons_self
  refine ⟨h.buffer, h.queue, fun op hop => ?_, ?_, htimes ▸ h.order, htimes ▸ h.width⟩
  · exact h.window op (hwindow ▸ List.mem_cons_of_mem _ hop)
  · rw [hretired]
    intro op hop
    rcases List.mem_append.mp hop with hop | hop
    · exact h.retired op hop
    · obtain rfl := List.mem_singleton.mp hop
      exact ⟨(h.window _ hhead).1, hexec, hcycle⟩

/-- **Issue**: an op of the reorder buffer was dispatched in an earlier cycle. -/
theorem Timeline.attempt [CachePrefetcher P] (h : Timeline cfg lb lq 1 s)
    (hm : s.mem.Timely (some s.totalCycles)) (q : Iq) (i : ℕ) :
    Timeline cfg lb lq 1 (attempt cfg q s i).1 := by
  obtain ⟨op', htried, hrob⟩ := attempt_tried cfg hm q i
  obtain ⟨op'', ht, -⟩ := (attempt_outcome cfg q s i).touched
  generalize (Sim.attempt cfg q s i).1 = s' at hrob ht
  have hslots : s'.slots cfg = s.slots cfg := by
    have hset := ht.slots q (s'.iq q)
    rwa [setIq_self] at hset
  obtain rfl : op'' = op' := by
    have hop := congrFun (ht.rob.symm.trans hrob) i
    rwa [Function.update_self, Function.update_self] at hop
  -- an attempt keeps the order of the ops and their dispatch times
  have htimes : s'.dispatchTimes cfg = s.dispatchTimes cfg := by
    have hwindow := ht.map_window htried.dispatchCycle q (s'.iq q)
    rw [setIq_self] at hwindow
    rw [dispatchTimes, dispatchTimes, List.map_append, List.map_append, hwindow]
    cases ht
    rfl
  -- the op that is tried is the only one with new times
  have hwindow : ∀ op ∈ s'.window cfg, op.Timed ∧ op.dispatchCycle + 1 ≤ s.totalCycles := by
    intro op hop
    rw [Sim.window, hslots, hrob] at hop
    obtain ⟨j, hj, rfl⟩ := List.mem_map.mp hop
    have hold := h.window (s.rob j) (List.mem_map_of_mem hj)
    by_cases hji : j = i
    · subst hji
      rw [Function.update_self, htried.dispatchCycle]
      exact ⟨htried.timed hold.1 hold.2, hold.2⟩
    · rw [Function.update_of_ne hji]
      exact hold
  have horder := htimes ▸ h.order
  have hwidth := htimes ▸ h.width
  cases ht
  exact ⟨h.buffer, h.queue, hwindow, h.retired, horder, hwidth⟩

theorem Timeline.issueStage [CachePrefetcher P] (h : Timeline cfg lb lq 1 s)
    (hm : s.mem.Timely (some s.totalCycles)) : Timeline cfg lb lq 1 (s.issueStage cfg) := by
  suffices hboth : Timeline cfg lb lq 1 (s.issueStage cfg) ∧
      (s.issueStage cfg).mem.Timely (some (s.issueStage cfg).totalCycles) from hboth.1
  refine issueStage_attempts
    (I := fun s => Timeline cfg lb lq 1 s ∧ s.mem.Timely (some s.totalCycles))
    (fun {s} q i hs => ?_) (fun {s} q l hs => ?_) ⟨h, hm⟩
  · obtain ⟨op', ht, -⟩ := (attempt_outcome cfg q s i).touched
    exact ⟨hs.1.attempt hs.2 q i,
      ht.memDuring.memoryAt MemSubsystem.timely_runInvariant hs.2⟩
  · cases q <;> exact ⟨hs.1.of_same ⟨rfl, rfl, rfl, rfl⟩ rfl, hs.2⟩

/-- **Dispatch**: at most `n` ops are dispatched, all in this cycle. -/
theorem dispatchLoop_times (hr : Represents cfg s) (n : ℕ) :
    ∃ k ≤ n, ((s.dispatchLoop cfg n).2).dispatchTimes cfg
      = s.dispatchTimes cfg ++ List.replicate k s.totalCycles := by
  induction n generalizing s with
  | zero => exact ⟨0, le_rfl, (List.append_nil _).symm⟩
  | succ n ih =>
    rw [dispatchLoop]
    rcases hqueue : s.fetchQueue with - | ⟨op, rest⟩
    · exact ⟨0, Nat.zero_le _, (List.append_nil _).symm⟩
    dsimp only
    split_ifs with hfree
    swap
    · exact ⟨0, Nat.zero_le _, (List.append_nil _).symm⟩
    obtain ⟨k, hk, heq⟩ := ih (hr.dispatches hqueue hfree)
    have hone : (s.dispatchOne cfg op).dispatchTimes cfg
        = s.dispatchTimes cfg ++ [s.totalCycles] := by
      rw [dispatchTimes, dispatchTimes, hr.window_dispatchOne hfree, dispatchOne_hist,
        ← List.append_assoc, List.map_append, List.map_singleton]
      rfl
    refine ⟨k + 1, Nat.succ_le_succ hk, ?_⟩
    rw [heq, hone, dispatchOne_totalCycles, List.append_assoc, List.replicate_succ]
    rfl

theorem timed_dispatchedOp {op : OpEntry} (hfresh : FreshOp op)
    (hfetch : op.fetchCycle + 2 ≤ s.totalCycles) : (s.dispatchedOp op).Timed := by
  have hsta : op.staDone = false := by rw [hfresh.fetched]
  have hstd : op.stdDone = false := by rw [hfresh.fetched]
  refine ⟨hfetch, fun hexec => ?_, fun hexec => ?_, fun hdone => ?_, fun hdone => ?_⟩
  · exact absurd hexec Bool.false_ne_true
  · exact absurd hexec Bool.false_ne_true
  · exact absurd (hsta.symm.trans hdone) Bool.false_ne_true
  · exact absurd (hstd.symm.trans hdone) Bool.false_ne_true

/-- What the dispatch loop has done by some turn of it. -/
structure Dispatching (cfg : Config P B) (s s' : Sim P B) : Prop where
  represents : Represents cfg s'
  queue : ∀ op ∈ s'.fetchQueue, op.fetchCycle + 2 ≤ s.totalCycles
  rob : ∀ op ∈ s'.window cfg, op.Timed ∧ op.dispatchCycle ≤ s.totalCycles
  instBuffer : s'.instBuffer = s.instBuffer
  hist : s'.hist = s.hist
  totalCycles : s'.totalCycles = s.totalCycles

theorem Dispatching.dispatchOne (h : Dispatching cfg s s') {op : OpEntry} {rest : List OpEntry}
    (hqueue : s'.fetchQueue = op :: rest) (hfree : s'.dispatchBlock cfg op = .none) :
    Dispatching cfg s (s'.dispatchOne cfg op) := by
  have hop : op ∈ s'.fetchQueue := hqueue ▸ List.mem_cons_self
  refine ⟨h.represents.dispatches hqueue hfree, fun op' hop' => ?_, fun op' hop' => ?_,
    (dispatchOne_instBuffer _ _ _).trans h.instBuffer, (dispatchOne_hist _ _ _).trans h.hist,
    (dispatchOne_totalCycles _ _ _).trans h.totalCycles⟩
  · rw [dispatchOne_fetchQueue, hqueue] at hop'
    exact h.queue op' (hqueue ▸ List.mem_cons_of_mem _ hop')
  · rw [h.represents.window_dispatchOne hfree] at hop'
    rcases List.mem_append.mp hop' with hop' | hop'
    · exact h.rob op' hop'
    · obtain rfl := List.mem_singleton.mp hop'
      have hfresh := h.represents.fresh op (List.mem_append_left _ hop)
      exact ⟨timed_dispatchedOp hfresh (h.totalCycles ▸ h.queue op hop), h.totalCycles.le⟩

theorem Timeline.dispatchLoop (h : Timeline cfg 1 2 1 s) (hr : Represents cfg s) :
    Timeline cfg 1 2 0 (s.dispatchLoop cfg cfg.dispatchWidth).2 := by
  have hstart : Dispatching cfg s s := by
    refine ⟨hr, h.queue, fun op hop => ?_, rfl, rfl, rfl⟩
    obtain ⟨htimed, hle⟩ := h.window op hop
    exact ⟨htimed, (Nat.le_succ _).trans hle⟩
  have hloop := dispatchLoop_rule (I := Dispatching cfg s)
    (fun hs hqueue hfree => hs.dispatchOne hqueue hfree) cfg.dispatchWidth hstart
  obtain ⟨k, hk, htimes⟩ := dispatchLoop_times hr cfg.dispatchWidth
  generalize (s.dispatchLoop cfg cfg.dispatchWidth).2 = s' at hloop htimes
  -- what was there before was dispatched in earlier cycles
  have hearlier : ∀ t ∈ s.dispatchTimes cfg, t < s.totalCycles := by
    intro t ht
    obtain ⟨op, hop, rfl⟩ := List.mem_map.mp ht
    rcases List.mem_append.mp hop with hop | hop
    · obtain ⟨htimed, hexec, hle⟩ := h.retired op hop
      have := htimed.executed hexec
      omega
    · exact (h.window op hop).2
  have htime := hloop.totalCycles
  refine ⟨?_, ?_, ?_, ?_, ?_, fun t => ?_⟩
  · rw [hloop.instBuffer, htime]
    exact h.buffer
  · rw [htime]
    exact hloop.queue
  · rw [htime]
    exact hloop.rob
  · rw [hloop.hist, htime]
    exact h.retired
  · rw [htimes, List.pairwise_append]
    refine ⟨h.order, List.pairwise_replicate.mpr (.inr le_rfl), fun t ht t' ht' => ?_⟩
    rw [List.eq_of_mem_replicate ht']
    exact (hearlier t ht).le
  · rw [htimes, List.countP_append, List.countP_replicate]
    by_cases ht : s.totalCycles = t
    · have hzero : (s.dispatchTimes cfg).countP (fun t' => decide (t' = t)) = 0 := by
        refine List.countP_eq_zero.mpr fun t' ht' => ?_
        have := hearlier t' ht'
        simp only [decide_eq_true_eq]
        omega
      rw [hzero, if_pos (decide_eq_true ht), Nat.zero_add]
      exact hk
    · rw [if_neg (by simpa using ht)]
      exact h.width t

/-! ### The front end -/

theorem decodeLoop_mem (width : ℕ) (buffer queue : List OpEntry) :
    (∀ op ∈ (decodeLoop width buffer queue).1, op ∈ buffer) ∧
      ∀ op ∈ (decodeLoop width buffer queue).2, op ∈ queue ∨ op ∈ buffer := by
  induction buffer generalizing queue with
  | nil => exact ⟨fun _ hop => hop, fun _ hop => .inl hop⟩
  | cons op buffer ih =>
    rw [decodeLoop]
    split
    · obtain ⟨hbuffer, hqueue⟩ := ih (queue ++ [op])
      refine ⟨fun op' hop' => List.mem_cons_of_mem _ (hbuffer op' hop'), fun op' hop' => ?_⟩
      rcases hqueue op' hop' with hop' | hop'
      · rcases List.mem_append.mp hop' with hop' | hop'
        · exact .inl hop'
        · exact .inr (List.mem_singleton.mp hop' ▸ List.mem_cons_self)
      · exact .inr (List.mem_cons_of_mem _ hop')
    · exact ⟨fun _ hop => hop, fun _ hop => .inl hop⟩

/-- **Decode**: what was fetched in an earlier cycle enters the queue. -/
theorem Timeline.decodeStage (h : Timeline cfg 1 2 0 s) :
    Timeline cfg 1 1 0 (s.decodeStage cfg) := by
  obtain ⟨hbuffer, hqueue⟩ := decodeLoop_mem (cfg.dispatchWidth * 2) s.instBuffer s.fetchQueue
  refine ⟨fun op hop => h.buffer op (hbuffer op hop), fun op hop => ?_, h.window, h.retired,
    h.order, h.width⟩
  rcases hqueue op hop with hop | hop
  · exact (Nat.le_succ _).trans (h.queue op hop)
  · exact h.buffer op hop

/-- **Fetch**: what enters the buffer is fetched in this cycle. -/
theorem Timeline.fetchStage [CachePrefetcher P] [BranchPredictor B]
    (h : Timeline cfg 1 1 0 s) : Timeline cfg 0 1 0 (s.fetchStage cfg env) := by
  have hstart : Timeline cfg 0 1 0 s :=
    ⟨fun op hop => (Nat.le_succ _).trans (h.buffer op hop), h.queue, h.window, h.retired,
      h.order, h.width⟩
  refine fetchStage_rule (fun {s s'} hs hturn => ?_)
    (fun _ hs => hs.of_same ⟨rfl, rfl, rfl, rfl⟩ rfl) hstart
  have hbuffer := hturn.instBuffer_cases
  cases hturn.frame
  refine ⟨fun op hop => ?_, hs.queue, hs.window, hs.retired, hs.order, hs.width⟩
  rcases hbuffer with heq | ⟨-, inst, heq⟩
  · exact hs.buffer op (heq ▸ hop)
  · rw [heq] at hop
    rcases List.mem_append.mp hop with hop | hop
    · exact hs.buffer op hop
    · rw [List.mem_singleton.mp hop]
      exact le_rfl

/-! ### Every run -/

/-- How long ago the ops at a boundary have entered the fetch buffer, the fetch queue and the
reorder buffer. -/
def lags : Boundary → ℕ × ℕ × ℕ
  | .returns | .advance | .commit | .issue | .dispatch => (1, 2, 1)
  | .decode => (1, 2, 0)
  | .fetch => (1, 1, 0)
  | .service | .account => (0, 1, 0)

section

variable [CachePrefetcher P] [BranchPredictor B]

theorem Reach.timeline {b : Boundary} (h : Reach cfg env b s) :
    Timeline cfg (lags b).1 (lags b).2.1 (lags b).2.2 s := by
  induction h with
  | start => exact timeline_new cfg _ _ _
  | @step b s hs _ ih =>
    have hr := hs.invariant (represents_invariant cfg env _) (commitsIn_true cfg env)
    have hm := hs.memory MemSubsystem.timely_runInvariant (MemSubsystem.timely_new cfg.mem)
    -- the lags say how far the stages of this cycle have come
    cases b with
    | returns => exact ih.of_same ⟨rfl, rfl, rfl, rfl⟩ rfl
    | advance =>
      show Timeline cfg 1 2 1 (s.advanceCycle cfg)
      unfold advanceCycle
      split_ifs <;> exact ih.of_same ⟨rfl, rfl, rfl, rfl⟩ rfl
    | commit =>
      have hstart : Timeline cfg 1 2 1 { s with instsBefore := s.instructionsRetired } :=
        ih.of_same ⟨rfl, rfl, rfl, rfl⟩ rfl
      have hsame : Represents cfg { s with instsBefore := s.instructionsRetired } :=
        hr.of_same ⟨rfl, rfl, rfl, rfl, fun q => by cases q <;> rfl, rfl⟩ fun _ hop => .inl hop
      have hloop := commitLoop_rule (I := fun s => Represents cfg s ∧ Timeline cfg 1 2 1 s)
        (fun hs hdone => ⟨hs.1.commitOne hdone, hs.2.commitOne hs.1 hdone⟩) cfg.commitWidth
        ⟨hsame, hstart⟩
      exact hloop.2.of_same ⟨rfl, rfl, rfl, rfl⟩ rfl
    | issue => exact ih.issueStage hm
    | dispatch => exact (ih.dispatchLoop hr).of_same ⟨rfl, rfl, rfl, rfl⟩ rfl
    | decode => exact ih.decodeStage
    | fetch => exact ih.fetchStage
    | service => exact ih.of_same ⟨rfl, rfl, rfl, rfl⟩ rfl
    | account =>
      have hsame : SameOps cfg s s.account := ⟨rfl, rfl, rfl, rfl⟩
      exact ih.later hsame (k := 1) rfl

/-- **The cycles of an op** in every run: it is dispatched two cycles after it is fetched at
the earliest and done two cycles after that, and before it retires; what executes in one
piece issues after its dispatch and is done after its issue.  The ops are dispatched in
program order, and no cycle dispatches more than `dispatchWidth` of them. -/
theorem stages_in_order {b : Boundary} (h : Reach cfg env b s) :
    (∀ op ∈ s.hist.retired, op.fetchCycle + 2 ≤ op.dispatchCycle ∧
      op.dispatchCycle + 2 ≤ op.executeCycle ∧ op.executeCycle ≤ s.totalCycles) ∧
    (∀ op ∈ s.hist.retired ++ s.window cfg, op.executed = true → op.staDone = false →
      op.dispatchCycle < op.issueCycle ∧ op.issueCycle < op.executeCycle) ∧
    (s.dispatchTimes cfg).Pairwise (· ≤ ·) ∧
    ∀ t, (s.dispatchTimes cfg).countP (fun t' => decide (t' = t)) ≤ cfg.dispatchWidth := by
  have ht := h.timeline
  refine ⟨fun op hop => ?_, fun op hop => ?_, ht.order, ht.width⟩
  · obtain ⟨htimed, hexec, hle⟩ := ht.retired op hop
    exact ⟨htimed.dispatched, htimed.executed hexec, hle⟩
  · rcases List.mem_append.mp hop with hop | hop
    · exact (ht.retired op hop).1.issued
    · exact (ht.window op hop).1.issued

end

/-- Eight ops of `straightLine` have gone through all stages. -/
theorem stages_in_order_straightLine :
    ∃ s, Reach shippedConfig straightLine .returns s ∧ s.hist.retired.length = 8 ∧
      ∀ op ∈ s.hist.retired, op.fetchCycle + 4 ≤ op.executeCycle := by
  have hrun : (runFor shippedConfig straightLine 138 (Sim.new shippedConfig)).any (fun s =>
      decide (s.hist.retired.length = 8)) = true := by
    decide +kernel
  obtain ⟨s, hs, htest⟩ := exists_reach hrun
  refine ⟨s, hs, of_decide_eq_true htest, fun op hop => ?_⟩
  obtain ⟨hretired, -⟩ := stages_in_order hs
  obtain ⟨hdispatch, hexecute, -⟩ := hretired op hop
  omega

end Sim

end TraceSim
