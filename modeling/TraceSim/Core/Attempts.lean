/-
TraceSim/Core/Attempts.lean

What one attempt to issue an op can do.

An attempt on a slot touches that entry, and beside it only the scoreboard and
what is counted (`Touched`).  It fails and the op stays as it was, it executes the
op, or it completes one half of a store (`Outcome`).  Loads have a finer list
(`LoadOutcome`), by what the scan of the older stores found.
-/
import TraceSim.Core.Stages
import TraceSim.Mem.Runs

namespace TraceSim

/-- The entries `op` and `op'` are the same op, with the same store halves done. -/
structure SameOp (op op' : OpEntry) : Prop where
  inst : op'.inst = op.inst
  entryId : op'.entryId = op.entryId
  fuType : op'.fuType = op.fuType
  fetchCycle : op'.fetchCycle = op.fetchCycle
  staDone : op'.staDone = op.staDone
  stdDone : op'.stdDone = op.stdDone
  staCycle : op'.staCycle = op.staCycle
  stdCycle : op'.stdCycle = op.stdCycle

/-- An op is the same as itself. -/
theorem SameOp.refl (op : OpEntry) : SameOp op op := ⟨rfl, rfl, rfl, rfl, rfl, rfl, rfl, rfl⟩

/-- What is kept twice is kept. -/
theorem SameOp.trans {op op' op'' : OpEntry} (h : SameOp op op') (h' : SameOp op' op'') :
    SameOp op op'' where
  inst := h'.inst.trans h.inst
  entryId := h'.entryId.trans h.entryId
  fuType := h'.fuType.trans h.fuType
  fetchCycle := h'.fetchCycle.trans h.fetchCycle
  staDone := h'.staDone.trans h.staDone
  stdDone := h'.stdDone.trans h.stdDone
  staCycle := h'.staCycle.trans h.staCycle
  stdCycle := h'.stdCycle.trans h.stdCycle

/-! ### The issue queues -/

/-- The issue queues, in the order of the issue stage. -/
inductive Iq
  | alu
  | ldu
  | sta
  | std
  | bru
  deriving DecidableEq, Repr

namespace Iq

/-- The ops of the queue are halves of stores. -/
def isHalf : Iq → Bool
  | .sta | .std => true
  | _ => false

/-- The dispatched op still has to issue from the queue. -/
def awaits : Iq → OpEntry → Bool
  | .alu, op => decide (Sim.iqTarget op = .alu) && !op.executed
  | .ldu, op => decide (Sim.iqTarget op = .ldu) && !op.executed
  | .sta, op => decide (Sim.iqTarget op = .store) && !op.staDone
  | .std, op => decide (Sim.iqTarget op = .store) && !op.stdDone
  | .bru, op => decide (Sim.iqTarget op = .bru) && !op.executed

end Iq

namespace Sim

variable {P B : Type}

/-- The queue of a kind. -/
def iq (s : Sim P B) : Iq → List ℕ
  | .alu => s.aluIq
  | .ldu => s.lduIq
  | .sta => s.staIq
  | .std => s.stdIq
  | .bru => s.bruIq

/-- The state with another queue of that kind. -/
def setIq (s : Sim P B) : Iq → List ℕ → Sim P B
  | .alu, l => { s with aluIq := l }
  | .ldu, l => { s with lduIq := l }
  | .sta, l => { s with staIq := l }
  | .std, l => { s with stdIq := l }
  | .bru, l => { s with bruIq := l }

@[simp] theorem setIq_iq (s : Sim P B) (q q' : Iq) (l : List ℕ) :
    (s.setIq q l).iq q' = if q' = q then l else s.iq q' := by
  cases q <;> cases q' <;> rfl

@[simp] theorem setIq_setIq (s : Sim P B) (q : Iq) (l l' : List ℕ) :
    (s.setIq q l).setIq q l' = s.setIq q l' := by
  cases q <;> rfl

@[simp] theorem setIq_self (s : Sim P B) (q : Iq) : s.setIq q (s.iq q) = s := by
  cases q <;> rfl

section SetIq

variable (s : Sim P B) (q : Iq) (l : List ℕ)

@[simp] theorem setIq_rob : (s.setIq q l).rob = s.rob := by cases q <;> rfl

@[simp] theorem setIq_robHead : (s.setIq q l).robHead = s.robHead := by cases q <;> rfl

@[simp] theorem setIq_robTail : (s.setIq q l).robTail = s.robTail := by cases q <;> rfl

@[simp] theorem setIq_robCount : (s.setIq q l).robCount = s.robCount := by cases q <;> rfl

@[simp] theorem setIq_storeIndices : (s.setIq q l).storeIndices = s.storeIndices := by
  cases q <;> rfl

@[simp] theorem setIq_fetchQueue : (s.setIq q l).fetchQueue = s.fetchQueue := by
  cases q <;> rfl

@[simp] theorem setIq_instBuffer : (s.setIq q l).instBuffer = s.instBuffer := by
  cases q <;> rfl

@[simp] theorem setIq_mem : (s.setIq q l).mem = s.mem := by cases q <;> rfl

@[simp] theorem setIq_profiler : (s.setIq q l).profiler = s.profiler := by cases q <;> rfl

@[simp] theorem setIq_totalCycles : (s.setIq q l).totalCycles = s.totalCycles := by
  cases q <;> rfl

@[simp] theorem setIq_regReadyTime : (s.setIq q l).regReadyTime = s.regReadyTime := by
  cases q <;> rfl

@[simp] theorem setIq_hist : (s.setIq q l).hist = s.hist := by cases q <;> rfl

end SetIq

/-- One turn of the loop over an issue queue. -/
def attempt [CachePrefetcher P] (cfg : Config P B) : Iq → Sim P B → ℕ → Sim P B × Bool
  | .alu => aluAttempt
  | .ldu => lduAttempt cfg
  | .sta => staAttempt
  | .std => stdAttempt
  | .bru => bruAttempt

/-- How many ops of a queue can issue in a cycle. -/
def units (cfg : Config P B) : Iq → ℕ
  | .alu => cfg.aluCount
  | .ldu => cfg.lduCount
  | .sta => cfg.staCount
  | .std => cfg.stdCount
  | .bru => cfg.bruCount

/-- The loop over an issue queue. -/
def issueIq [CachePrefetcher P] (cfg : Config P B) (s : Sim P B) (q : Iq) : Sim P B :=
  let r := scan (attempt cfg q) (units cfg q) (s.iq q) s
  r.1.setIq q r.2

/-- The issue stage runs the five loops in turn. -/
theorem issueStage_eq [CachePrefetcher P] (cfg : Config P B) (s : Sim P B) :
    s.issueStage cfg = [Iq.alu, .ldu, .sta, .std, .bru].foldl (issueIq cfg) s := by
  have halu (t : Sim P B) : t.issueAlu cfg = issueIq cfg t .alu := rfl
  have hldu (t : Sim P B) : t.issueLdu cfg = issueIq cfg t .ldu := rfl
  have hsta (t : Sim P B) : t.issueSta cfg = issueIq cfg t .sta := rfl
  have hstd (t : Sim P B) : t.issueStd cfg = issueIq cfg t .std := rfl
  have hbru (t : Sim P B) : t.issueBru cfg = issueIq cfg t .bru := rfl
  rw [issueStage, halu, hldu, hsta, hstd, hbru]
  rfl

/-! ### The scoreboard -/

/-- The ready times after `op` has written that of its destination. -/
def markedTimes (s : Sim P B) (op : OpEntry) (t : ℕ) : Fin 32 → ℕ :=
  if op.inst.rd ≠ 0 then Function.update s.regReadyTime op.inst.rd t else s.regReadyTime

/-- Who wrote the ready times after `op` has written that of its destination. -/
def markedBy (s : Sim P B) (op : OpEntry) : Fin 32 → Option ℕ :=
  if op.inst.rd ≠ 0 then Function.update s.hist.lastMark op.inst.rd (some op.entryId)
  else s.hist.lastMark

/-- The cell of the destination is written, unless it is register 0. -/
theorem markRegisterReady_eq (s : Sim P B) (op : OpEntry) (t : ℕ) :
    s.markRegisterReady op t
      = { s with
          regReadyTime := s.markedTimes op t
          hist := { s.hist with lastMark := s.markedBy op } } := by
  unfold markRegisterReady markedTimes markedBy
  split <;> rfl

/-- The entry `mark_load_executed` leaves in slot `i`. -/
def executedOp (s : Sim P B) (i t : ℕ) : OpEntry :=
  { s.rob i with issueCycle := s.totalCycles, executeCycle := t, executed := true }

/-- The op is done at a known cycle, and so is its destination ready. -/
theorem markLoadExecuted_eq (s : Sim P B) (i t : ℕ) :
    s.markLoadExecuted i t
      = { s with
          rob := Function.update s.rob i (s.executedOp i t)
          regReadyTime := s.markedTimes (s.executedOp i t) t
          hist := { s.hist with lastMark := s.markedBy (s.executedOp i t) } } := by
  unfold markLoadExecuted
  rw [markRegisterReady_eq]
  rfl

/-! ### Outcomes -/

section Outcomes

variable [CachePrefetcher P] (cfg : Config P B)

/-- The state `s'` differs from `s` in the entry `op'` of slot `i`, in the memory
subsystem, in the scoreboard and in what is counted. -/
inductive Touched (s : Sim P B) (i : ℕ) (op' : OpEntry) : Sim P B → Prop
  | intro (mem) (during : MemSubsystem.During cfg.mem s.totalCycles s.mem mem)
      (profiler stats times marks)
      (counters : profiler.topdownCounters = s.profiler.topdownCounters) :
      Touched s i op'
        { s with
          rob := Function.update s.rob i op'
          mem := mem
          profiler := profiler
          loadProfileStats := stats
          regReadyTime := times
          hist := { s.hist with lastMark := marks } }

/-- How an attempt to issue the op in slot `i` from a queue can end. -/
inductive Outcome (s : Sim P B) (i : ℕ) : Iq → Sim P B → Bool → Prop
  | waits (q : Iq) (op' : OpEntry) (same : SameOp (s.rob i) op')
      (executed : op'.executed = (s.rob i).executed)
      (cycle : op'.executeCycle = (s.rob i).executeCycle)
      (mem) (during : MemSubsystem.During cfg.mem s.totalCycles s.mem mem)
      (profiler) (counters : profiler.topdownCounters = s.profiler.topdownCounters) :
      Outcome s i q
        { s with rob := Function.update s.rob i op', mem := mem, profiler := profiler }
        false
  | executes (q : Iq) (whole : q.isHalf = false) (op' : OpEntry)
      (same : SameOp (s.rob i) op') (executed : op'.executed = true)
      (mem) (during : MemSubsystem.During cfg.mem s.totalCycles s.mem mem)
      (profiler) (counters : profiler.topdownCounters = s.profiler.topdownCounters)
      (stats) :
      Outcome s i q
        { s with
          rob := Function.update s.rob i op'
          mem := mem
          profiler := profiler
          loadProfileStats := stats
          regReadyTime := s.markedTimes op' op'.executeCycle
          hist := { s.hist with lastMark := s.markedBy op' } }
        true
  | sta :
      Outcome s i .sta
        (s.setOp i (finishStore
          { s.rob i with
            staCycle := s.totalCycles + staLatency, staDone := true, aguDone := true }
          (s.rob i).stdDone))
        true
  | std :
      Outcome s i .std
        (s.setOp i (finishStore
          { s.rob i with stdCycle := s.totalCycles + stdLatency, stdDone := true }
          (s.rob i).staDone))
        true

end Outcomes

/-- The end of a store keeps the record. -/
theorem finishStore_inst (op : OpEntry) (b : Bool) : (finishStore op b).inst = op.inst := by
  unfold finishStore
  split <;> rfl

/-- The end of a store keeps the id. -/
theorem finishStore_entryId (op : OpEntry) (b : Bool) :
    (finishStore op b).entryId = op.entryId := by
  unfold finishStore
  split <;> rfl

/-- And the unit. -/
theorem finishStore_fuType (op : OpEntry) (b : Bool) :
    (finishStore op b).fuType = op.fuType := by
  unfold finishStore
  split <;> rfl

/-- And the cycle of its fetch. -/
theorem finishStore_fetchCycle (op : OpEntry) (b : Bool) :
    (finishStore op b).fetchCycle = op.fetchCycle := by
  unfold finishStore
  split <;> rfl

section

variable [CachePrefetcher P] {cfg : Config P B}

/-- **The frame of an attempt**: one entry, which stays the same instruction. -/
theorem Outcome.touched {s s' : Sim P B} {i : ℕ} {q : Iq} {ok : Bool}
    (h : Outcome cfg s i q s' ok) :
    ∃ op', Touched cfg s i op' s' ∧ op'.inst = (s.rob i).inst ∧
      op'.entryId = (s.rob i).entryId ∧ op'.fuType = (s.rob i).fuType := by
  have hmem := MemSubsystem.During.refl cfg.mem s.totalCycles s.mem
  cases h with
  | waits _ op' same executed cycle mem during profiler counters =>
    exact ⟨op', .intro mem during profiler s.loadProfileStats s.regReadyTime s.hist.lastMark
      counters, same.inst, same.entryId, same.fuType⟩
  | executes _ whole op' same executed mem during profiler counters stats =>
    exact ⟨op', .intro mem during profiler stats _ _ counters, same.inst, same.entryId,
      same.fuType⟩
  | sta =>
    exact ⟨_, .intro s.mem hmem s.profiler s.loadProfileStats s.regReadyTime s.hist.lastMark
      rfl, finishStore_inst _ _, finishStore_entryId _ _, finishStore_fuType _ _⟩
  | std =>
    exact ⟨_, .intro s.mem hmem s.profiler s.loadProfileStats s.regReadyTime s.hist.lastMark
      rfl, finishStore_inst _ _, finishStore_entryId _ _, finishStore_fuType _ _⟩

variable (cfg)

/-- A failed attempt that changes nothing. -/
theorem Outcome.unchanged (q : Iq) (s : Sim P B) (i : ℕ) : Outcome cfg s i q s false := by
  have h : Outcome cfg s i q _ false := .waits q (s.rob i) (SameOp.refl _) rfl rfl s.mem
    (MemSubsystem.During.refl _ _ _) s.profiler rfl
  rwa [Function.update_eq_self] at h

/-- An op of the ALU or the branch queue executes as a whole, or waits. -/
theorem execAttempt_outcome {q : Iq} (hq : q.isHalf = false) (latency : ℕ) (s : Sim P B)
    (i : ℕ) :
    Outcome cfg s i q (execAttempt latency s i).1 (execAttempt latency s i).2 := by
  unfold execAttempt
  dsimp only
  split
  · rw [markLoadExecuted_eq]
    exact .executes q hq (s.executedOp i (s.totalCycles + latency))
      ⟨rfl, rfl, rfl, rfl, rfl, rfl, rfl, rfl⟩ rfl s.mem (MemSubsystem.During.refl _ _ _)
      s.profiler rfl s.loadProfileStats
  · exact .unchanged cfg q s i

/-- The address half of a store, or nothing. -/
theorem staAttempt_outcome (s : Sim P B) (i : ℕ) :
    Outcome cfg s i .sta (staAttempt s i).1 (staAttempt s i).2 := by
  unfold staAttempt
  dsimp only
  split
  · exact .sta
  · exact .unchanged cfg .sta s i

/-- The data half, or nothing. -/
theorem stdAttempt_outcome (s : Sim P B) (i : ℕ) :
    Outcome cfg s i .std (stdAttempt s i).1 (stdAttempt s i).2 := by
  unfold stdAttempt
  dsimp only
  split
  · exact .std
  · exact .unchanged cfg .std s i

end

/-- The rule of the attempts on the other queues than that of the loads: nothing happens,
or the op is marked executed, or the times and flags of the halves of a store change. -/
theorem attempt_rule [CachePrefetcher P] {I : Sim P B → Prop} {q : Iq} (hq : q ≠ .ldu)
    (cfg : Config P B) {s : Sim P B} {i : ℕ} (hwaits : I s)
    (hexecutes : ∀ t, I (s.markLoadExecuted i t))
    (hstores : ∀ staCycle stdCycle staDone stdDone aguDone otherHalfDone,
      I (s.setOp i (finishStore
        { s.rob i with
          staCycle := staCycle, stdCycle := stdCycle, staDone := staDone, stdDone := stdDone
          aguDone := aguDone } otherHalfDone))) :
    I (attempt cfg q s i).1 := by
  -- the ALUs and the branch units have this attempt in common
  have hexec (latency : ℕ) : I (execAttempt latency s i).1 := by
    unfold execAttempt
    dsimp only
    split
    · exact hexecutes _
    · exact hwaits
  cases q with
  | alu => exact hexec aluLatency
  | ldu => exact absurd rfl hq
  | sta =>
    change I (staAttempt s i).1
    unfold staAttempt
    dsimp only
    split
    · exact hstores _ _ _ _ _ _
    · exact hwaits
  | std =>
    change I (stdAttempt s i).1
    unfold stdAttempt
    dsimp only
    split
    · exact hstores _ _ _ _ _ _
    · exact hwaits
  | bru => exact hexec bruLatency

/-! ### Loads -/

/-- Classification is no progress. -/
theorem classifyLoad_same (cfg : Config P B) (op : OpEntry) :
    SameOp op (classifyLoad cfg op) := by
  unfold classifyLoad
  dsimp only
  split <;> exact ⟨rfl, rfl, rfl, rfl, rfl, rfl, rfl, rfl⟩

/-- Least of all execution. -/
theorem classifyLoad_executed (cfg : Config P B) (op : OpEntry) :
    (classifyLoad cfg op).executed = op.executed ∧
      (classifyLoad cfg op).executeCycle = op.executeCycle := by
  unfold classifyLoad
  dsimp only
  split <;> exact ⟨rfl, rfl⟩

/-- The scan of the older stores sees of an entry what `SameOp` keeps. -/
theorem scanStores_congr (model : MemDepModel) {rob rob' : ℕ → OpEntry} {op op' : OpEntry}
    (hrob : ∀ j, SameOp (rob j) (rob' j)) (hop : SameOp op op') (l : List ℕ)
    (src : Option ℕ) : scanStores model rob' op' l src = scanStores model rob op l src := by
  induction l generalizing src with
  | nil => rfl
  | cons j l ih =>
    simp only [scanStores, (hrob j).entryId, (hrob j).inst, (hrob j).staDone, hop.entryId,
      hop.inst, ih]

/-- What the scan of the older stores finds for the load in slot `i`. -/
def olderStores (cfg : Config P B) (s : Sim P B) (i : ℕ) : Bool × Option ℕ :=
  scanStores cfg.memDepModel s.rob (s.rob i) s.storeIndices none

/-- The scan has to wait for a store, or found one whose data it cannot forward. -/
def mustWait (cfg : Config P B) (s : Sim P B) (i : ℕ) : Bool :=
  match s.olderStores cfg i with
  | (true, _) => true
  | (false, some src) =>
      !(cfg.enableStlf && (s.rob src).stdDone &&
        decide (s.totalCycles ≥ (s.rob src).stdCycle))
  | (false, none) => false

/-- How an attempt to issue the load in slot `i` can end. -/
inductive LoadOutcome [CachePrefetcher P] (cfg : Config P B) (s : Sim P B) (i : ℕ) :
    Sim P B → Bool → Prop
  | notReady (sources : s.isRegisterReady (s.rob i).inst.rs1 = false) :
      LoadOutcome cfg s i s false
  | stalled (op' : OpEntry) (same : SameOp (s.rob i) op')
      (executed : op'.executed = (s.rob i).executed)
      (cycle : op'.executeCycle = (s.rob i).executeCycle)
      (dep : s.mustWait cfg i = true) :
      LoadOutcome cfg s i
        { s with
          rob := Function.update s.rob i op', profiler := s.profiler.incMemDepStalls }
        false
  | forwarded (sources : s.isRegisterReady (s.rob i).inst.rs1 = true) (src : ℕ)
      (dep : s.olderStores cfg i = (false, some src)) (stlf : cfg.enableStlf = true)
      (data : (s.rob src).stdDone = true) (time : (s.rob src).stdCycle ≤ s.totalCycles)
      (op' : OpEntry) (same : SameOp (s.rob i) op') (executed : op'.executed = true)
      (cycle : op'.executeCycle = s.totalCycles + 1) (stats) :
      LoadOutcome cfg s i
        { s with
          rob := Function.update s.rob i op'
          profiler := s.profiler.incStlfHits
          loadProfileStats := stats
          regReadyTime := s.markedTimes op' op'.executeCycle
          hist := { s.hist with lastMark := s.markedBy op' } }
        true
  | refused (dep : s.olderStores cfg i = (false, none)) (r mem)
      (access : s.mem.accessDcacheLoad (s.rob i).inst.memAddr s.totalCycles = (r, mem))
      (blocked : r.blocked = true) (op' : OpEntry) (same : SameOp (s.rob i) op')
      (executed : op'.executed = (s.rob i).executed)
      (cycle : op'.executeCycle = (s.rob i).executeCycle) :
      LoadOutcome cfg s i { s with rob := Function.update s.rob i op', mem := mem } false
  | accessed (sources : s.isRegisterReady (s.rob i).inst.rs1 = true)
      (dep : s.olderStores cfg i = (false, none)) (r mem)
      (access : s.mem.accessDcacheLoad (s.rob i).inst.memAddr s.totalCycles = (r, mem))
      (served : r.blocked = false) (op' : OpEntry) (same : SameOp (s.rob i) op')
      (executed : op'.executed = true) (cycle : op'.executeCycle = r.readyCycle) (stats) :
      LoadOutcome cfg s i
        { s with
          rob := Function.update s.rob i op'
          mem :=
            mem.enqueuePrefetch cfg.mem true op'.inst.pc op'.inst.memAddr r.l1Hit
          loadProfileStats := stats
          regReadyTime := s.markedTimes op' op'.executeCycle
          hist := { s.hist with lastMark := s.markedBy op' } }
        true

/-- The slot that was written holds the op. -/
theorem setOp_rob_self (s : Sim P B) (i : ℕ) (op : OpEntry) : (s.setOp i op).rob i = op :=
  Function.update_self _ _ _

/-- Replacing an entry by the same op. -/
theorem setOp_same {s : Sim P B} {i : ℕ} {op : OpEntry} (h : SameOp (s.rob i) op) (j : ℕ) :
    SameOp (s.rob j) ((s.setOp i op).rob j) := by
  by_cases hj : j = i
  · subst hj
    rwa [setOp_rob_self]
  · rw [show (s.setOp i op).rob j = s.rob j from Function.update_of_ne hj _ _]
    exact SameOp.refl _

/-- Only the counters of the profile change. -/
theorem finalizeLoadProfile_eq (cfg : Config P B) (s : Sim P B) (op : OpEntry)
    (latency : ℕ) (l1Hit l2Hit dramMiss stlf : Bool) :
    ∃ stats, s.finalizeLoadProfile cfg op latency l1Hit l2Hit dramMiss stlf
      = { s with loadProfileStats := stats } := by
  unfold finalizeLoadProfile
  split <;> exact ⟨_, rfl⟩

/-- The entry of a load that the data cache serves. -/
def servedOp (s : Sim P B) (op : OpEntry) (memRes : HierarchyAccessResult) : OpEntry :=
  { op with
    waitingOnMemory := !memRes.l1Hit
    issueCycle := s.totalCycles
    executeCycle := memRes.readyCycle
    executed := true }

variable [CachePrefetcher P] (cfg : Config P B) (s : Sim P B) (i : ℕ)

/-- A served load: the op, its destination, the profile and the prefetch queue. -/
theorem finishLoadAccess_eq (memRes : HierarchyAccessResult) :
    ∃ stats, s.finishLoadAccess cfg i memRes
      = { s with
          rob := Function.update s.rob i (s.servedOp (s.rob i) memRes)
          mem :=
            s.mem.enqueuePrefetch cfg.mem true (s.rob i).inst.pc (s.rob i).inst.memAddr
              memRes.l1Hit
          loadProfileStats := stats
          regReadyTime := s.markedTimes (s.servedOp (s.rob i) memRes) memRes.readyCycle
          hist :=
            { s.hist with lastMark := s.markedBy (s.servedOp (s.rob i) memRes) } } := by
  unfold finishLoadAccess
  -- of what the profile does only its counters are left open
  obtain ⟨stats, hstats⟩ := finalizeLoadProfile_eq cfg
    ((s.setOp i { s.rob i with waitingOnMemory := !memRes.l1Hit }).markLoadExecuted i
      memRes.readyCycle)
    { s.rob i with waitingOnMemory := !memRes.l1Hit }
    ((memRes.readyCycle - s.totalCycles) % 2 ^ 32) memRes.l1Hit memRes.llcHit
    memRes.dramMiss false
  refine ⟨stats, ?_⟩
  dsimp only
  rw [hstats, markLoadExecuted_eq]
  have hop : (s.setOp i { s.rob i with waitingOnMemory := !memRes.l1Hit }).executedOp i
      memRes.readyCycle = s.servedOp (s.rob i) memRes := by
    rw [executedOp, setOp_rob_self]
    rfl
  rw [hop]
  have hrob : Function.update (s.setOp i { s.rob i with waitingOnMemory := !memRes.l1Hit }).rob i
      (s.servedOp (s.rob i) memRes) = Function.update s.rob i (s.servedOp (s.rob i) memRes) :=
    Function.update_idem _ _ _
  rw [hrob]
  rfl

omit [CachePrefetcher P] in
/-- The second write of a slot is the one that counts. -/
theorem setOp_setMem_setOp (op op' : OpEntry) (mem : MemSubsystem P) :
    ((s.setOp i op).setMem mem).setOp i op'
      = { s with rob := Function.update s.rob i op', mem := mem } := by
  simp only [setOp, setMem, Function.update_idem]

/-- The data-cache access, by what the cache answers. -/
theorem executeLoadMemoryAccess_eq {r : HierarchyAccessResult} {mem : MemSubsystem P}
    (h : s.mem.accessDcacheLoad (s.rob i).inst.memAddr s.totalCycles = (r, mem)) :
    s.executeLoadMemoryAccess cfg i
      = if r.blocked then
          (.stalledByMshr,
            (s.setMem mem).setOp i { s.rob i with waitingOnMemory := true })
        else (.issued, (s.setMem mem).finishLoadAccess cfg i r) := by
  unfold executeLoadMemoryAccess
  dsimp only
  rw [h]

/-- The data-cache access of a load whose flags have been cleared. -/
theorem executeLoadMemoryAccess_outcome {op : OpEntry} (hop : SameOp (s.rob i) op)
    (hexec : op.executed = (s.rob i).executed ∧ op.executeCycle = (s.rob i).executeCycle)
    (sources : s.isRegisterReady (s.rob i).inst.rs1 = true)
    (dep : s.olderStores cfg i = (false, none)) :
    LoadOutcome cfg s i ((s.setOp i op).executeLoadMemoryAccess cfg i).2
      ((s.setOp i op).executeLoadMemoryAccess cfg i).1.issues := by
  rcases e : s.mem.accessDcacheLoad (s.rob i).inst.memAddr s.totalCycles with ⟨r, mem⟩
  have hself := setOp_rob_self s i op
  have haccess : (s.setOp i op).mem.accessDcacheLoad ((s.setOp i op).rob i).inst.memAddr
      (s.setOp i op).totalCycles = (r, mem) := by
    rw [hself, hop.inst]
    exact e
  rw [executeLoadMemoryAccess_eq cfg _ i haccess, hself]
  rcases eb : r.blocked with - | -
  -- served: the entry changes in its cycles and its flags only
  · obtain ⟨stats, hstats⟩ := finishLoadAccess_eq cfg ((s.setOp i op).setMem mem) i r
    have hself' : ((s.setOp i op).setMem mem).rob i = op := hself
    have h : LoadOutcome cfg s i _ true := .accessed sources dep r mem e eb (s.servedOp op r)
      ⟨hop.inst, hop.entryId, hop.fuType, hop.fetchCycle, hop.staDone, hop.stdDone,
        hop.staCycle, hop.stdCycle⟩ rfl rfl stats
    rw [if_neg Bool.false_ne_true, hstats, hself']
    rw [← Function.update_idem op] at h
    exact h
  · have h : LoadOutcome cfg s i _ false := .refused dep r mem e eb
      { op with waitingOnMemory := true } ⟨hop.inst, hop.entryId, hop.fuType, hop.fetchCycle,
        hop.staDone, hop.stdDone, hop.staCycle, hop.stdCycle⟩ hexec.1 hexec.2
    rw [if_pos rfl, setOp_setMem_setOp]
    exact h

/-- The forwarding of a load whose flags have been cleared. -/
theorem forwardLoad_outcome {op : OpEntry} (hop : SameOp (s.rob i) op)
    (sources : s.isRegisterReady (s.rob i).inst.rs1 = true) (src : ℕ)
    (dep : s.olderStores cfg i = (false, some src)) (stlf : cfg.enableStlf = true)
    (data : (s.rob src).stdDone = true) (time : (s.rob src).stdCycle ≤ s.totalCycles) :
    LoadOutcome cfg s i ((s.setOp i op).forwardLoad cfg i) true := by
  unfold forwardLoad
  obtain ⟨stats, hstats⟩ := finalizeLoadProfile_eq cfg
    (((s.setOp i op).setProfiler (s.setOp i op).profiler.incStlfHits).markLoadExecuted i
      ((s.setOp i op).totalCycles + 1)) ((s.setOp i op).rob i) 1 false false false true
  rw [hstats, markLoadExecuted_eq]
  have hself : ((s.setOp i op).setProfiler (s.setOp i op).profiler.incStlfHits).rob i = op :=
    setOp_rob_self s i op
  have h : LoadOutcome cfg s i _ true := .forwarded sources src dep stlf data time
    { op with
      issueCycle := s.totalCycles, executeCycle := s.totalCycles + 1, executed := true }
    ⟨hop.inst, hop.entryId, hop.fuType, hop.fetchCycle, hop.staDone, hop.stdDone,
      hop.staCycle, hop.stdCycle⟩ rfl rfl stats
  unfold executedOp
  rw [hself]
  rw [← Function.update_idem op] at h
  exact h

/-- The stall of a load whose flags have been cleared. -/
theorem stallOnStore_outcome {op : OpEntry} (hop : SameOp (s.rob i) op)
    (hexec : op.executed = (s.rob i).executed ∧ op.executeCycle = (s.rob i).executeCycle)
    (dep : s.mustWait cfg i = true) :
    LoadOutcome cfg s i ((s.setOp i op).stallOnStore i) false := by
  have h : LoadOutcome cfg s i _ false := .stalled { op with waitingOnMemDep := true }
    ⟨hop.inst, hop.entryId, hop.fuType, hop.fetchCycle, hop.staDone, hop.stdDone,
      hop.staCycle, hop.stdCycle⟩ hexec.1 hexec.2 dep
  unfold stallOnStore
  rw [setOp_rob_self]
  rw [← Function.update_idem op] at h
  exact h

/-- **An attempt to issue a load** has one of the five outcomes. -/
theorem lduAttempt_outcome :
    LoadOutcome cfg s i (lduAttempt cfg s i).1 (lduAttempt cfg s i).2 := by
  have hsame := classifyLoad_same cfg (s.rob i)
  have hexec := classifyLoad_executed cfg (s.rob i)
  have hrob := setOp_same hsame
  -- clearing the flags of the load does not change what the scan sees
  have hscan : scanStores cfg.memDepModel (s.setOp i (classifyLoad cfg (s.rob i))).rob
      ((s.setOp i (classifyLoad cfg (s.rob i))).rob i) s.storeIndices none
      = s.olderStores cfg i :=
    scanStores_congr _ hrob (hrob i) _ _
  unfold lduAttempt tryIssueLoad
  by_cases hready : s.isRegisterReady (s.rob i).inst.rs1 = true
  swap
  · rw [Bool.not_eq_true] at hready
    rw [if_pos (by simp [hready])]
    exact .notReady hready
  rw [if_neg (by simp [hready])]
  dsimp only
  unfold checkStoreDependency
  rcases e : s.olderStores cfg i with ⟨stall, src⟩
  rw [show scanStores cfg.memDepModel (s.setOp i (classifyLoad cfg (s.rob i))).rob
      ((s.setOp i (classifyLoad cfg (s.rob i))).rob i)
      (s.setOp i (classifyLoad cfg (s.rob i))).storeIndices none = (stall, src) from
    hscan.trans e]
  rcases stall with - | -
  · rcases src with - | src
    · exact executeLoadMemoryAccess_outcome cfg s i hsame hexec hready e
    -- an older store to the word: forward or stall, as its data is there or not
    · have hcond : (cfg.enableStlf
          && ((s.setOp i (classifyLoad cfg (s.rob i))).rob src).stdDone
          && decide ((s.setOp i (classifyLoad cfg (s.rob i))).totalCycles
            ≥ ((s.setOp i (classifyLoad cfg (s.rob i))).rob src).stdCycle))
          = (cfg.enableStlf && (s.rob src).stdDone
            && decide (s.totalCycles ≥ (s.rob src).stdCycle)) := by
        rw [(hrob src).stdDone, (hrob src).stdCycle]
        rfl
      dsimp only
      rcases hfwd : (cfg.enableStlf && (s.rob src).stdDone
        && decide (s.totalCycles ≥ (s.rob src).stdCycle)) with - | -
      · rw [if_neg (by rw [hcond, hfwd]; exact Bool.false_ne_true)]
        have hwait : s.mustWait cfg i = true := by
          simp only [mustWait, e, hfwd, Bool.not_false]
        exact stallOnStore_outcome cfg s i hsame hexec hwait
      · rw [if_pos (hcond.trans hfwd)]
        simp only [Bool.and_eq_true, decide_eq_true_eq] at hfwd
        exact forwardLoad_outcome cfg s i hsame hready src e hfwd.1.1 hfwd.1.2 hfwd.2
  · exact stallOnStore_outcome cfg s i hsame hexec (by rw [mustWait, e])

variable {cfg s i}

/-- The outcome of a load, without what the scan of the stores found. -/
theorem LoadOutcome.outcome {s' : Sim P B} {ok : Bool} (h : LoadOutcome cfg s i s' ok) :
    Outcome cfg s i .ldu s' ok := by
  have hmem := MemSubsystem.During.refl cfg.mem s.totalCycles s.mem
  have haccess := MemSubsystem.during_access cfg.mem s.totalCycles s.mem .dcache
    (s.rob i).inst.memAddr
  cases h with
  | notReady sources => exact .unchanged cfg .ldu s i
  | stalled op' same executed cycle dep =>
    exact .waits .ldu op' same executed cycle s.mem hmem s.profiler.incMemDepStalls rfl
  | forwarded sources src dep stlf data time op' same executed cycle stats =>
    exact .executes .ldu rfl op' same executed s.mem hmem s.profiler.incStlfHits rfl stats
  | refused dep r mem access blocked op' same executed cycle =>
    refine .waits .ldu op' same executed cycle mem ?_ s.profiler rfl
    rwa [show (s.mem.access .dcache (s.rob i).inst.memAddr s.totalCycles).2 = mem from
      congrArg Prod.snd access] at haccess
  | accessed sources dep r mem access served op' same executed cycle stats =>
    refine .executes .ldu rfl op' same executed _ (MemSubsystem.During.trans ?_
      (MemSubsystem.during_enqueuePrefetch _ _ mem _ _ _ _)) s.profiler rfl stats
    rwa [show (s.mem.access .dcache (s.rob i).inst.memAddr s.totalCycles).2 = mem from
      congrArg Prod.snd access] at haccess

/-- **An attempt from any queue** ends in an outcome of that queue. -/
theorem attempt_outcome (cfg : Config P B) (q : Iq) (s : Sim P B) (i : ℕ) :
    Outcome cfg s i q (attempt cfg q s i).1 (attempt cfg q s i).2 := by
  cases q with
  | alu => exact execAttempt_outcome cfg rfl aluLatency s i
  | ldu => exact (lduAttempt_outcome cfg s i).outcome
  | sta => exact staAttempt_outcome cfg s i
  | std => exact stdAttempt_outcome cfg s i
  | bru => exact execAttempt_outcome cfg rfl bruLatency s i

end Sim

end TraceSim
