/-
TraceSim/Core/IssueQueues.lean

The reorder buffer and the issue queues in every reachable state.

The representation invariant says which slots a queue holds; here are the bounds
on the queues.  Dispatch checks the queue of an op by the op's unit, but sends an op
that traps to the ALU queue whatever its unit.  What bounds that queue all the same
is that such an op is dispatched to an empty reorder buffer only, and then every
queue is empty.
-/
import TraceSim.Core.Conservation

namespace TraceSim

namespace Sim

variable {P B : Type}

/-! ### Room in the queues -/

/-- The configured capacity of a queue. -/
def capacity (cfg : Config P B) : Iq → ℕ
  | .alu => cfg.aluIqSize
  | .ldu => cfg.lduIqSize
  | .sta => cfg.staIqSize
  | .std => cfg.stdIqSize
  | .bru => cfg.bruIqSize

/-- Dispatch looks for room in the queue before it takes the op. -/
def checks (op : OpEntry) : Iq → Bool
  | .alu =>
      decide (op.fuType = .alu) ||
        decide (op.fuType = .lsu) && !op.inst.isLoad && !op.inst.isStore
  | .ldu => decide (op.fuType = .lsu) && op.inst.isLoad
  | .sta => decide (op.fuType = .lsu) && op.inst.isStore
  | .std => decide (op.fuType = .lsu) && op.inst.isStore
  | .bru => decide (op.fuType = .bru)

/-- The op can be dispatched once the ops of `before` have been. -/
structure Dispatchable (cfg : Config P B) (s : Sim P B) (before : List OpEntry)
    (op : OpEntry) : Prop where
  rob : s.robCount + before.length < cfg.robSize
  trap : op.inst.isTrap = true → s.robCount + before.length = 0
  queue : ∀ q, checks op q = true →
    (s.iq q).length + before.countP (fun op => enters op q) < capacity cfg q

variable {cfg : Config P B} {s s' : Sim P B}

/-- The queues that dispatch looks at, by the unit of the op. -/
theorem forall_checks_iff {op : OpEntry} {p : Iq → Prop} :
    (∀ q, checks op q = true → p q) ↔
      match op.fuType with
      | .alu => p .alu
      | .bru => p .bru
      | .lsu =>
        (op.inst.isLoad = true → p .ldu) ∧ (op.inst.isStore = true → p .sta ∧ p .std) ∧
          (op.inst.isLoad = false → op.inst.isStore = false → p .alu) := by
  constructor
  · intro h
    have halu := h .alu
    have hldu := h .ldu
    have hsta := h .sta
    have hstd := h .std
    have hbru := h .bru
    rcases hunit : op.fuType with - | - | -
    · exact halu (by simp [checks, hunit])
    · refine ⟨fun hload => ?_, fun hstore => ⟨?_, ?_⟩, fun hload hstore => ?_⟩
      · exact hldu (by simp [checks, hunit, hload])
      · exact hsta (by simp [checks, hunit, hstore])
      · exact hstd (by simp [checks, hunit, hstore])
      · exact halu (by simp [checks, hunit, hload, hstore])
    · exact hbru (by simp [checks, hunit])
  · intro h q hq
    -- the unit of the op says which queues are looked at
    rcases hunit : op.fuType with - | - | - <;> rw [hunit] at h
    · cases q <;> simp [checks, hunit] at hq
      exact h
    · obtain ⟨hload, hstore, hneither⟩ := h
      cases q <;> simp [checks, hunit] at hq
      · exact hneither hq.1 hq.2
      · exact hload hq
      · exact (hstore hq).1
      · exact (hstore hq).2
    · cases q <;> simp [checks, hunit] at hq
      exact h

theorem dispatchable_nil_iff {op : OpEntry} :
    Dispatchable cfg s [] op ↔
      s.robCount < cfg.robSize ∧ (op.inst.isTrap = true → s.robCount = 0) ∧
        ∀ q, checks op q = true → (s.iq q).length < capacity cfg q :=
  ⟨fun h => ⟨h.rob, h.trap, h.queue⟩, fun ⟨hrob, htrap, hqueue⟩ => ⟨hrob, htrap, hqueue⟩⟩

/-- **What dispatch asks of an op.** -/
theorem dispatchBlock_eq_none_iff {op : OpEntry} :
    s.dispatchBlock cfg op = .none ↔ Dispatchable cfg s [] op := by
  rw [dispatchable_nil_iff, forall_checks_iff]
  unfold dispatchBlock
  by_cases hrob : s.robCount ≥ cfg.robSize
  · rw [if_pos hrob]
    exact iff_of_false (by simp) fun h => absurd h.1 (not_lt.mpr hrob)
  have hroom : s.robCount < cfg.robSize := not_le.mp hrob
  rw [if_neg hrob, and_iff_right hroom]
  by_cases htrap : (op.inst.isTrap && decide (s.robCount > 0)) = true
  · rw [if_pos htrap]
    rw [Bool.and_eq_true, decide_eq_true_eq] at htrap
    exact iff_of_false (by simp) fun h => absurd (h.1 htrap.1) (by omega)
  have hempty : op.inst.isTrap = true → s.robCount = 0 := by
    intro ht
    rw [ht, Bool.true_and, decide_eq_true_eq] at htrap
    omega
  rw [if_neg htrap, and_iff_right hempty]
  -- what is left are the queues of the unit
  rcases op.fuType with - | - | -
  · by_cases hfull : s.aluIq.length ≥ cfg.aluIqSize
    · simp [iq, capacity, hfull]
    · simp [iq, capacity, hfull, not_le.mp hfull]
  · simp only [reduceCtorEq, false_and, if_false, if_true]
    by_cases hload : op.inst.isLoad = true ∧ s.lduIq.length ≥ cfg.lduIqSize
    · rw [if_pos hload]
      exact iff_of_false (by simp) fun h => absurd (h.1 hload.1) (not_lt.mpr hload.2)
    rw [if_neg hload]
    by_cases hstore : op.inst.isStore = true ∧
        (s.staIq.length ≥ cfg.staIqSize ∨ s.stdIq.length ≥ cfg.stdIqSize)
    · rw [if_pos hstore]
      refine iff_of_false (by split_ifs <;> simp) fun h => ?_
      obtain ⟨hsta, hstd⟩ := h.2.1 hstore.1
      exact hstore.2.elim (not_le.mpr hsta) (not_le.mpr hstd)
    rw [if_neg hstore]
    by_cases hneither : op.inst.isLoad = false ∧ op.inst.isStore = false ∧
        s.aluIq.length ≥ cfg.aluIqSize
    · rw [if_pos hneither]
      exact iff_of_false (by simp) fun h =>
        absurd (h.2.2 hneither.1 hneither.2.1) (not_lt.mpr hneither.2.2)
    rw [if_neg hneither]
    refine iff_of_true rfl ⟨fun h => ?_, fun h => ⟨?_, ?_⟩, fun h h' => ?_⟩
    · exact not_le.mp fun hfull => hload ⟨h, hfull⟩
    · exact not_le.mp fun hfull => hstore ⟨h, .inl hfull⟩
    · exact not_le.mp fun hfull => hstore ⟨h, .inr hfull⟩
    · exact not_le.mp fun hfull => hneither ⟨h, h', hfull⟩
  · by_cases hfull : s.bruIq.length ≥ cfg.bruIqSize
    · simp [iq, capacity, hfull]
    · simp [iq, capacity, hfull, not_le.mp hfull]

/-- Dispatch looks at the queues it puts an op in, unless the op traps. -/
theorem checks_of_enters {op : OpEntry} {q : Iq} (htrap : op.inst.isTrap = false)
    (h : enters op q = true) : checks op q = true := by
  rcases hunit : op.fuType with - | - | -
  · have htarget : iqTarget op = .alu := if_pos (.inr hunit)
    cases q <;> simp [enters, htarget] at h
    simp [checks, hunit]
  · have htarget : iqTarget op = if op.inst.isLoad then .ldu else if op.inst.isStore then .store
        else .aluReclassified := by
      simp [iqTarget, htrap, hunit]
    rcases hload : op.inst.isLoad with - | -
    · rcases hstore : op.inst.isStore with - | -
      · have htarget' : iqTarget op = .aluReclassified := by simp [htarget, hload, hstore]
        cases q <;> simp [enters, htarget'] at h
        simp [checks, hunit, hload, hstore]
      · have htarget' : iqTarget op = .store := by simp [htarget, hload, hstore]
        cases q <;> simp [enters, htarget'] at h
        · simp [checks, hunit, hstore]
        · simp [checks, hunit, hstore]
    · have htarget' : iqTarget op = .ldu := by simp [htarget, hload]
      cases q <;> simp [enters, htarget'] at h
      simp [checks, hunit, hload]
  · have htarget : iqTarget op = .bru := by simp [iqTarget, htrap, hunit]
    cases q <;> simp [enters, htarget] at h
    simp [checks, hunit]

/-- **A queue has room** for the op that dispatch puts in it. -/
theorem Dispatchable.room {op : OpEntry} (h : Dispatchable cfg s [] op)
    (hempty : s.robCount = 0 → ∀ q, s.iq q = []) (hpos : ∀ q, 1 ≤ capacity cfg q) {q : Iq}
    (henters : enters op q = true) : (s.iq q).length < capacity cfg q := by
  rcases htrap : op.inst.isTrap with - | -
  · exact h.queue q (checks_of_enters htrap henters)
  -- a trap is dispatched to an empty buffer, whose queues are empty
  · rw [hempty (h.trap htrap)]
    exact hpos q

/-! ### The bounds -/

/-- No container holds more than its capacity. -/
structure WithinCapacity (cfg : Config P B) (s : Sim P B) : Prop where
  iq : ∀ q, (s.iq q).length ≤ capacity cfg q
  fetchQueue : s.fetchQueue.length ≤ cfg.dispatchWidth * 2
  instBuffer : s.instBuffer.length ≤ cfg.instBufferSize

theorem Represents.iq_of_empty (h : Represents cfg s) (hcount : s.robCount = 0) (q : Iq) :
    s.iq q = [] := by
  rw [h.queue, slots, hcount, ring_zero, List.filter_nil]

theorem WithinCapacity.dispatches (h : WithinCapacity cfg s) (hr : Represents cfg s)
    (hpos : ∀ q, 1 ≤ capacity cfg q) {op : OpEntry}
    (hfree : s.dispatchBlock cfg op = .none) : WithinCapacity cfg (s.dispatchOne cfg op) := by
  refine ⟨fun q => ?_, ?_, ?_⟩
  · rw [dispatchOne_iq, List.length_append]
    split_ifs with henters
    · exact (dispatchBlock_eq_none_iff.mp hfree).room hr.iq_of_empty hpos henters
    · exact h.iq q
  · rw [dispatchOne_fetchQueue, List.length_tail]
    exact (Nat.sub_le _ _).trans h.fetchQueue
  · rw [dispatchOne_instBuffer]
    exact h.instBuffer

section

variable [CachePrefetcher P] {env : Env}

theorem Outcome.others {i : ℕ} {q : Iq} {ok : Bool} (h : Outcome cfg s i q s' ok) :
    (∀ q', s'.iq q' = s.iq q') ∧ s'.fetchQueue = s.fetchQueue ∧
      s'.instBuffer = s.instBuffer := by
  obtain ⟨op', ht, -⟩ := h.touched
  refine ⟨ht.iq, ?_, ?_⟩ <;> cases ht <;> rfl

theorem withinCapacity_invariant (env : Env) (C : Sim P B → Prop)
    (hpos : ∀ q, 1 ≤ capacity cfg q) :
    StepInvariant cfg env C fun s => Represents cfg s ∧ WithinCapacity cfg s where
  new := ⟨represents_new cfg, fun q => by cases q <;> exact Nat.zero_le _, Nat.zero_le _,
    Nat.zero_le _⟩
  step {s s'} := by
    rintro ⟨hr, h⟩ hstep
    refine ⟨(represents_invariant cfg env C).step hr hstep, ?_⟩
    cases hstep with
    | quiet _ hquiet =>
      refine ⟨fun q => hquiet.samePipe.iq q ▸ h.iq q, ?_, ?_⟩ <;> cases hquiet
      · exact h.fetchQueue
      · exact h.instBuffer
    | commits hdone _ =>
      exact ⟨fun q => commitOne_iq cfg s q ▸ h.iq q, h.fetchQueue, h.instBuffer⟩
    | waits q i _ hmem houtcome =>
      obtain ⟨hiq, hqueue, hbuffer⟩ := houtcome.others
      exact ⟨fun q => hiq q ▸ h.iq q, hqueue ▸ h.fetchQueue, hbuffer ▸ h.instBuffer⟩
    | issues q kept i rest s₁ hlist houtcome =>
      obtain ⟨hiq, hqueue, hbuffer⟩ := houtcome.others
      refine ⟨fun q' => ?_, ?_, ?_⟩
      · rw [setIq_iq]
        split_ifs with heq
        -- the queue of the op that issues gets shorter
        · have hlen := h.iq q
          rw [hlist, List.length_append, List.length_cons] at hlen
          rw [heq, List.length_append]
          omega
        · rw [hiq]
          exact h.iq q'
      · rw [setIq_fetchQueue, hqueue]
        exact h.fetchQueue
      · rw [setIq_instBuffer, hbuffer]
        exact h.instBuffer
    | dispatches op rest hqueue hfree => exact h.dispatches hr hpos hfree
    | decodes op rest hbuffer hroom =>
      refine ⟨fun q => ?_, ?_, ?_⟩
      · have hlen := h.iq q
        cases q <;> exact hlen
      · rw [List.length_append]
        exact hroom
      -- the op moves from one container to the next
      · have hlen := h.instBuffer
        rw [hbuffer, List.length_cons] at hlen
        exact (Nat.le_succ _).trans hlen
    | fetches _ hturn =>
      obtain ⟨hpipe, hqueue⟩ := hturn.samePipe
      refine ⟨fun q => hpipe.iq q ▸ h.iq q, hqueue ▸ h.fetchQueue, ?_⟩
      rcases hturn.instBuffer_cases with hbuffer | ⟨hroom, inst, hbuffer⟩
      · exact hbuffer ▸ h.instBuffer
      · rw [hbuffer, List.length_append]
        exact hroom

end

end Sim

/-! ### The queues in every reachable state -/

/-- What the reference CPU promises of a record: only the opcodes of the load/store
unit access memory, never in both directions, and without a trap they do. -/
structure TraceInst.WellFormed (inst : TraceInst) : Prop where
  unit : inst.isLoad = true ∨ inst.isStore = true → getFuType inst.opcode = .lsu
  exclusive : inst.isStore = true → inst.isLoad = false
  access : getFuType inst.opcode = .lsu → inst.isTrap = false →
    inst.isLoad = true ∨ inst.isStore = true

instance (inst : TraceInst) : Decidable inst.WellFormed :=
  decidable_of_iff
    ((inst.isLoad = true ∨ inst.isStore = true → getFuType inst.opcode = .lsu) ∧
      (inst.isStore = true → inst.isLoad = false) ∧
      (getFuType inst.opcode = .lsu → inst.isTrap = false →
        inst.isLoad = true ∨ inst.isStore = true))
    ⟨fun h => ⟨h.1, h.2.1, h.2.2⟩, fun h => ⟨h.unit, h.exclusive, h.access⟩⟩

/-- A store of a well-formed stream that does not trap goes to the store queues. -/
theorem LiveOp.store {op : OpEntry} (h : LiveOp op) (hwf : op.inst.WellFormed)
    (htrap : op.inst.isTrap = false) (hstore : op.inst.isStore = true) :
    Sim.iqTarget op = .store := by
  refine iqTarget_eq_store_iff.mpr ⟨htrap, ?_, hwf.exclusive hstore, hstore⟩
  rw [h.unit (Or.inr hstore)]
  exact hwf.unit (Or.inr hstore)

namespace Sim

variable {cfg : Config P B} {env : Env} {s : Sim P B}

/-- The reorder buffer and the issue queues agree. -/
structure QueuesAgree (cfg : Config P B) (s : Sim P B) : Prop where
  count : s.robCount ≤ cfg.robSize
  tail : s.robTail = (s.robHead + s.robCount) % cfg.robSize
  live : ∀ q, ∀ i ∈ s.iq q, i ∈ s.slots cfg
  nodup : ∀ q, (s.iq q).Nodup
  ordered : ∀ q, (s.iq q).Pairwise fun i j => (s.rob i).entryId < (s.rob j).entryId
  capacity : ∀ q, (s.iq q).length ≤ capacity cfg q
  /-- An op that is no store, or traps, is in one whole queue until it has
  executed. -/
  whole : ∀ i ∈ s.slots cfg,
    (s.rob i).inst.isTrap = true ∨ (s.rob i).inst.isStore = false →
    ((s.rob i).executed = true → ∀ q, i ∉ s.iq q) ∧
    ((s.rob i).executed = false → ∃ q, q.isHalf = false ∧ ∀ q', i ∈ s.iq q' ↔ q' = q)
  /-- A store is in the queue of each half until that half is done. -/
  halves : ∀ i ∈ s.slots cfg,
    (s.rob i).inst.isTrap = false → (s.rob i).inst.isStore = true →
    (i ∈ s.staIq ↔ (s.rob i).staDone = false) ∧
    (i ∈ s.stdIq ↔ (s.rob i).stdDone = false) ∧
    (∀ q, q.isHalf = false → i ∉ s.iq q) ∧
    ((s.rob i).executed = true ↔ (s.rob i).staDone = true ∧ (s.rob i).stdDone = true) ∧
    ((s.rob i).executed = true →
      (s.rob i).executeCycle = max (s.rob i).staCycle (s.rob i).stdCycle)
  fetchQueue : s.fetchQueue.length ≤ 2 * cfg.dispatchWidth
  instBuffer : s.instBuffer.length ≤ cfg.instBufferSize

theorem Represents.mem_iq_iff (h : Represents cfg s) {q : Iq} {i : ℕ}
    (hi : i ∈ s.slots cfg) : i ∈ s.iq q ↔ q.awaits (s.rob i) = true := by
  rw [h.queue, List.mem_filter, and_iff_right hi]

theorem Represents.whole (h : Represents cfg s) {i : ℕ} (hi : i ∈ s.slots cfg)
    (hne : iqTarget (s.rob i) ≠ .store) :
    ((s.rob i).executed = true → ∀ q, i ∉ s.iq q) ∧
    ((s.rob i).executed = false → ∃ q, q.isHalf = false ∧ ∀ q', i ∈ s.iq q' ↔ q' = q) := by
  refine ⟨fun hexec q => ?_, fun hexec => ?_⟩
  · rw [h.mem_iq_iff hi, Iq.awaits_executed (h.live i hi) hexec]
    exact Bool.false_ne_true
  -- whoever awaits the op is its target, and distinct queues have distinct targets
  · obtain ⟨q, hq, ht⟩ := (h.live i hi).exists_queue hne
    refine ⟨q, hq, fun q' => ?_⟩
    rw [h.mem_iq_iff hi]
    constructor
    · intro haw
      by_contra hqq
      exact Iq.target_injective hq hqq (ht.symm.trans (Iq.target_of_awaits haw))
    · rintro rfl
      rw [Iq.awaits_of_isHalf hq ht, hexec, Bool.not_false]

theorem Represents.halves (h : Represents cfg s) {i : ℕ} (hi : i ∈ s.slots cfg)
    (ht : iqTarget (s.rob i) = .store) :
    (i ∈ s.staIq ↔ (s.rob i).staDone = false) ∧
    (i ∈ s.stdIq ↔ (s.rob i).stdDone = false) ∧
    (∀ q, q.isHalf = false → i ∉ s.iq q) ∧
    ((s.rob i).executed = true ↔ (s.rob i).staDone = true ∧ (s.rob i).stdDone = true) ∧
    ((s.rob i).executed = true →
      (s.rob i).executeCycle = max (s.rob i).staCycle (s.rob i).stdCycle) := by
  refine ⟨?_, ?_, fun q hq => ?_, ?_, (h.live i hi).cycle ht⟩
  · rw [show s.staIq = s.iq .sta from rfl, h.mem_iq_iff hi]
    simp [Iq.awaits, ht]
  · rw [show s.stdIq = s.iq .std from rfl, h.mem_iq_iff hi]
    simp [Iq.awaits, ht]
  · rw [h.mem_iq_iff hi]
    exact fun haw => Iq.target_ne_store hq ((Iq.target_of_awaits haw).symm.trans ht)
  · rw [(h.live i hi).executed ht, Bool.and_eq_true]

/-- **The representation invariant of the reorder buffer and the issue queues**, in
every reachable state of every well-formed stream. -/
theorem queues_agree [CachePrefetcher P] [BranchPredictor B] (cfg : Config P B) (env : Env)
    (hpos : 1 ≤ cfg.robSize ∧ ∀ q, 1 ≤ Sim.capacity cfg q)
    (hstream : ∀ n, (env.stream n).WellFormed) {b : Boundary} (h : Reach cfg env b s) :
    QueuesAgree cfg s := by
  obtain ⟨hr, hcap⟩ := h.invariant (withinCapacity_invariant env _ hpos.2)
    (commitsIn_true cfg env)
  have hc := h.invariant (conserved_invariant cfg env _) (commitsIn_true cfg env)
  have hwf := hc.forall_slots hstream
  refine ⟨hr.count, hr.tail, fun q i hi => (hr.mem_of_mem_iq hi).1, fun q => ?_, fun q => ?_,
    hcap.iq, fun i hi hwhole => ?_, fun i hi htrap hstore => ?_, ?_, hcap.instBuffer⟩
  · rw [hr.queue]
    exact hr.nodup_slots.filter _
  · rw [hr.queue]
    exact hc.pairwise_slots.filter _
  · refine hr.whole hi fun ht => ?_
    rw [iqTarget_eq_store_iff] at ht
    rcases hwhole with htrap | hstore
    · exact Bool.false_ne_true (ht.1.symm.trans htrap)
    · exact Bool.false_ne_true (hstore.symm.trans ht.2.2.2)
  · exact hr.halves hi ((hr.live i hi).store (hwf i hi) htrap hstore)
  · rw [Nat.mul_comm]
    exact hcap.fetchQueue

/-- A store to a device, which traps, a store to memory, a load of the same word,
and a use of what is loaded. -/
def storeTrace : Env :=
  ofTrace
    [{ pc := 0x80000000, opcode := 0b0100011, rs1 := 10, rs2 := 11, isStore := true
       isTrap := true, memAddr := 0x10000000 },
      { pc := 0x80000004, opcode := 0b0100011, rs1 := 12, rs2 := 11, isStore := true
        memAddr := 0x80001000 },
      { pc := 0x80000008, opcode := 0b0000011, rd := 5, rs1 := 12, isLoad := true
        memAddr := 0x80001000 },
      { pc := 0x8000000c, opcode := 0b0110011, rd := 6, rs1 := 5, rs2 := 5 }]

theorem storeTrace_wellFormed (n : ℕ) : (storeTrace.stream n).WellFormed :=
  ofTrace_stream (p := TraceInst.WellFormed) (by decide) (by decide) n

theorem queues_agree_storeTrace :
    ∃ s, Reach shippedConfig storeTrace .returns s ∧
      (s.robCount = 4 ∧ s.aluIq = [3] ∧ s.lduIq = [2] ∧ s.staIq = [1] ∧ s.stdIq = [1]) ∧
      QueuesAgree shippedConfig s := by
  have hrun : (runFor shippedConfig storeTrace 136 (Sim.new shippedConfig)).any (fun s =>
      decide (s.robCount = 4 ∧ s.aluIq = [3] ∧ s.lduIq = [2] ∧ s.staIq = [1] ∧
        s.stdIq = [1])) = true := by
    decide +kernel
  obtain ⟨s, hs, htest⟩ := exists_reach hrun
  have hpos : 1 ≤ shippedConfig.robSize ∧ ∀ q, 1 ≤ Sim.capacity shippedConfig q :=
    ⟨by decide, fun q => by cases q <;> decide⟩
  exact ⟨s, hs, of_decide_eq_true htest,
    queues_agree shippedConfig storeTrace hpos storeTrace_wellFormed hs⟩

end Sim

end TraceSim
