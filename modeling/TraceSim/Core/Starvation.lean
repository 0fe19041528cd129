/-
TraceSim/Core/Starvation.lean

A front end with nothing in front of it gets its next instruction.

While the pipeline is empty, a cycle is the returns, the fetch stage and the service of the
prefetch queues.  A fetch that misses puts its record back and stalls until the line is
there.  The line may be evicted again in the very call that returns it, but only by the
return of another block, and those come to an end: the prefetchers see hits only, so while
nothing is fetched the work the I-cache has to do for other blocks falls
(`Starved.others_within`), and once it is done the line stays (`Starved.fed_within`).
-/
import TraceSim.Core.Progress
import TraceSim.Mem.Awaited

namespace TraceSim

open Relation

namespace Sim

variable {P B : Type}

/-- No limit on the number of instructions ends the trace early. -/
structure Unlimited (cfg : Config P B) : Prop where
  mode : cfg.mode ≠ .restore
  maxInstructions : cfg.maxInstructions = 0

/-- What the simulator needs to run a trace to its end. -/
structure CanRun (cfg : Config P B) : Prop extends CanRetire cfg, Unlimited cfg where
  capacity : ∀ q, 1 ≤ capacity cfg q
  robSize : 1 ≤ cfg.robSize
  dispatchWidth : 1 ≤ cfg.dispatchWidth
  instBufferSize : 1 ≤ cfg.instBufferSize
  fetchBandwidth : 1 ≤ cfg.fetchBandwidth
  icacheMshrs : 1 ≤ cfg.mem.icache.mshrSize.toNat
  issueRate : ∀ x, 1 ≤ cfg.mem.issueRate x
  powerOfTwo : cfg.mem.PowerOfTwo

/-- Nothing is in the pipeline. -/
structure Emptied (s : Sim P B) : Prop where
  robCount : s.robCount = 0
  fetchQueue : s.fetchQueue = []
  instBuffer : s.instBuffer = []

/-- The record the front end asks for next. -/
def nextInst (env : Env) (s : Sim P B) : TraceInst :=
  s.preFetchBuffer.headD (env.stream s.refCpu.steps)

variable [CachePrefetcher P] [BranchPredictor B] {cfg : Config P B} {env : Env}
  {s s' : Sim P B} {inst : TraceInst}

/-! ### A cycle of an empty pipeline -/

/-- The memory subsystem after the returns of the cycle that starts in `s`. -/
def returned (env : Env) (s : Sim P B) : MemSubsystem P :=
  s.mem.processReturns s.totalCycles (env.itable s.totalCycles) (env.dtable s.totalCycles)
    (env.ltable s.totalCycles)

omit [CachePrefetcher P] [BranchPredictor B] in
/-- Without a limit, the top of the loop touches the statistics only. -/
theorem advanceCycle_unlimited (hcfg : Unlimited cfg) (s : Sim P B) :
    ∃ baselines profiler inWarmup insts cycles loads, s.advanceCycle cfg
      = { s with
          mem := { s.mem with baselines := baselines }, profiler := profiler
          inWarmup := inWarmup, instRetiredBaseline := insts, totalCyclesBaseline := cycles
          loadProfileBaseline := loads } := by
  have hlimit : ¬ (cfg.maxInstructions > 0 ∧ s.instructionsRetired ≥ cfg.maxInstructions) := by
    rw [hcfg.maxInstructions]
    exact fun h => absurd h.1 (Nat.lt_irrefl 0)
  unfold advanceCycle
  split_ifs with hwarm hend hmode
  · exact ⟨_, _, _, _, _, _, rfl⟩
  · exact ⟨_, _, _, _, _, _, rfl⟩
  · exact absurd hmode hcfg.mode
  · exact absurd hmode hcfg.mode
  · exact ⟨_, _, _, _, _, _, rfl⟩

/-- Without a head, nothing is committed. -/
theorem commit_of_empty (cfg : Config P B) (env : Env) (h : s.robCount = 0) :
    ∃ commitStall, stage cfg env .commit s
      = { s with instsBefore := s.instructionsRetired, commitStall := commitStall } := by
  have hdone : { s with instsBefore := s.instructionsRetired }.headDone = false := by
    simp [headDone, h]
  have hloop (n : ℕ) : { s with instsBefore := s.instructionsRetired }.commitLoop cfg n
      = { s with instsBefore := s.instructionsRetired } := by
    cases n with
    | zero => rfl
    | succ n => rw [commitLoop, hdone, if_neg Bool.false_ne_true]
  rw [stage, commitStage, hloop]
  exact ⟨_, rfl⟩

omit [BranchPredictor B] in
/-- Empty queues issue nothing. -/
theorem issueStage_of_empty (cfg : Config P B) (h : ∀ q, s.iq q = []) :
    s.issueStage cfg = s := by
  have hone (q : Iq) : s.issueIq cfg q = s := by
    unfold issueIq
    rw [h q, scan_nil]
    dsimp only
    rw [← h q, setIq_self]
  rw [issueStage_eq]
  simp only [List.foldl_cons, List.foldl_nil, hone]

omit [CachePrefetcher P] [BranchPredictor B] in
theorem dispatchLoop_of_empty (cfg : Config P B) (h : s.fetchQueue = []) (n : ℕ) :
    s.dispatchLoop cfg n = (.none, s) := by
  cases n with
  | zero => rfl
  | succ n => rw [dispatchLoop, h]

omit [CachePrefetcher P] [BranchPredictor B] in
theorem decodeStage_of_empty (cfg : Config P B) (h : s.instBuffer = []) :
    s.decodeStage cfg = s := by
  unfold decodeStage
  rw [h, decodeLoop]
  dsimp only
  rw [← h]

/-- Only the returns of the cycle and the statistics are between `s` and the given state. -/
inductive Rests (env : Env) (s : Sim P B) : Sim P B → Prop
  | intro (baselines profiler inWarmup instRetiredBaseline totalCyclesBaseline
      loadProfileBaseline instsBefore commitStall backendStall) :
      Rests env s
        { s with
          mem := { returned env s with baselines := baselines }, profiler := profiler
          inWarmup := inWarmup, instRetiredBaseline := instRetiredBaseline
          totalCyclesBaseline := totalCyclesBaseline
          loadProfileBaseline := loadProfileBaseline, instsBefore := instsBefore
          commitStall := commitStall, backendStall := backendStall }

/-- The stages before dispatch leave an empty reorder buffer alone. -/
theorem upTo_dispatch_of_empty (env : Env) (hcfg : Unlimited cfg) (hr : Represents cfg s)
    (hcount : s.robCount = 0) : Rests env s (s.upTo cfg env .dispatch) := by
  have hiq := hr.iq_of_empty hcount
  obtain ⟨bl, pf, w, ib, cb, lb, hadvance⟩ :=
    advanceCycle_unlimited hcfg (stage cfg env .returns s)
  have hupTo : s.upTo cfg env .dispatch = stage cfg env .issue
      (stage cfg env .commit ((stage cfg env .returns s).advanceCycle cfg)) := rfl
  rw [hupTo, hadvance]
  generalize ht : ({ stage cfg env .returns s with
    mem := { (stage cfg env .returns s).mem with baselines := bl }, profiler := pf
    inWarmup := w, instRetiredBaseline := ib, totalCyclesBaseline := cb
    loadProfileBaseline := lb } : Sim P B) = t
  have hrob : t.robCount = 0 := ht ▸ hcount
  obtain ⟨cs, hcommit⟩ := commit_of_empty cfg env hrob
  rw [hcommit]
  generalize ht' : ({ t with
    instsBefore := t.instructionsRetired, commitStall := cs } : Sim P B) = t'
  have hissue : stage cfg env .issue t' = t' :=
    issueStage_of_empty cfg fun q => by
      rw [← hiq q, ← ht', ← ht]
      cases q <;> rfl
  rw [hissue, ← ht', ← ht]
  exact .intro bl pf w ib cb lb _ _ s.backendStall

/-- Nor does dispatch do anything with an empty fetch queue. -/
theorem upTo_decode_of_empty (env : Env) (hcfg : Unlimited cfg) (hr : Represents cfg s)
    (hcount : s.robCount = 0) (hqueue : s.fetchQueue = []) :
    Rests env s (s.upTo cfg env .decode) := by
  have hrests := upTo_dispatch_of_empty env hcfg hr hcount
  have hnext : s.upTo cfg env .decode = stage cfg env .dispatch (s.upTo cfg env .dispatch) := rfl
  rw [hnext]
  generalize s.upTo cfg env .dispatch = t at hrests
  cases hrests with
  | intro bl pf w ib cb lb before cs bs =>
    rw [stage, dispatchStage, dispatchLoop_of_empty cfg (by exact hqueue)]
    exact .intro bl pf w ib cb lb before cs _

/-- The stages before the fetch stage leave an empty pipeline alone. -/
theorem Emptied.upTo_fetch (hcfg : Unlimited cfg) (h : Emptied s) (hr : Represents cfg s) :
    Rests env s (s.upTo cfg env .fetch) := by
  have hrests := upTo_decode_of_empty env hcfg hr h.robCount h.fetchQueue
  have hnext : s.upTo cfg env .fetch = stage cfg env .decode (s.upTo cfg env .decode) := rfl
  rw [hnext]
  generalize s.upTo cfg env .decode = t at hrests
  cases hrests with
  | intro bl pf w ib cb lb before cs bs =>
    rw [stage, decodeStage_of_empty cfg (by exact h.instBuffer)]
    exact .intro bl pf w ib cb lb before cs bs

/-- A cycle is the fetch stage and what follows it. -/
theorem cycle_eq_fetch (cfg : Config P B) (env : Env) (s : Sim P B) :
    ∃ profiler, s.cycle cfg env
      = { (s.upTo cfg env .fetch).fetchStage cfg env with
          mem := ((s.upTo cfg env .fetch).fetchStage cfg env).mem.servicePrefetchQueues cfg.mem
            ((s.upTo cfg env .fetch).fetchStage cfg env).totalCycles
          profiler := profiler
          totalCycles := ((s.upTo cfg env .fetch).fetchStage cfg env).totalCycles + 1 } :=
  ⟨_, rfl⟩

/-! ### The fetch stage with nothing in front of it -/

/-- What the fetch stage does to an empty pipeline when the record it wants does not come. -/
inductive Refused (inst : TraceInst) (s : Sim P B) : Sim P B → Prop
  | stalled (hint) (stall : s.totalCycles < s.fetchStallUntil) :
      Refused inst s (s.setFrontendBoundHint hint)
  | missed (steps reason hint) (arrived : s.fetchStallUntil ≤ s.totalCycles)
      (miss : s.mem.icache.contains inst.pc = false) :
      Refused inst s
        { s with
          refCpu := { steps := steps, simEnd := false }, preFetchBuffer := [inst]
          mem := (s.mem.accessIcache inst.pc s.totalCycles).2
          fetchStallUntil :=
            if (s.mem.accessIcache inst.pc s.totalCycles).1.blocked then s.fetchStallUntil
            else max s.fetchStallUntil (s.mem.accessIcache inst.pc s.totalCycles).1.readyCycle
          fetchStallReason := reason, frontendBoundHint := hint }

omit [CachePrefetcher P] [BranchPredictor B] in
theorem setFetchStall_max (s : Sim P B) (t : ℕ) (reason : FetchStallReason) :
    ∃ r, s.setFetchStall t reason
      = { s with fetchStallUntil := max s.fetchStallUntil t, fetchStallReason := r } := by
  unfold setFetchStall
  split_ifs with h
  · exact ⟨reason, by rw [max_eq_right h.le]⟩
  · exact ⟨s.fetchStallReason, by rw [max_eq_left (not_lt.mp h)]⟩

omit [BranchPredictor B] in
/-- A first instruction whose line is not there is put back, and the fetch stage stalls until
the cycle the access reports. -/
theorem checkIcache_missed (cfg : Config P B) (hempty : s.preFetchBuffer = [])
    (hmiss : s.mem.icache.contains inst.pc = false) (hint : BoundReason) :
    ∃ reason, (s.checkIcache cfg inst hint).2.1
      = { s with
          preFetchBuffer := [inst]
          mem := (s.mem.accessIcache inst.pc s.totalCycles).2
          fetchStallUntil :=
            if (s.mem.accessIcache inst.pc s.totalCycles).1.blocked then s.fetchStallUntil
            else max s.fetchStallUntil (s.mem.accessIcache inst.pc s.totalCycles).1.readyCycle
          fetchStallReason := reason } := by
  obtain ⟨r, l1', llc', haccess, hspec⟩ := s.mem.accessIcache_spec inst.pc s.totalCycles
  -- the access hits exactly the lines that are there
  have hhit : r.l1Hit = false :=
    Bool.eq_false_iff.mpr fun h => Bool.eq_false_iff.mp hmiss (hspec.l1Hit_iff.mp h)
  unfold checkIcache
  rw [haccess]
  dsimp only
  rw [hhit, Bool.not_false, if_pos rfl]
  have hbuffer : s.preFetchBuffer.isEmpty = true := List.isEmpty_iff.mpr hempty
  -- refused, the stall stands; served, it lasts until the block arrives
  split_ifs with hblocked
  · refine ⟨s.fetchStallReason, ?_⟩
    unfold frontendRequeueTraceInst setMem
    rw [if_pos hbuffer, hempty]
    rfl
  · obtain ⟨reason, heq⟩ :=
      setFetchStall_max (s.setMem { s.mem with icache := l1', llc := llc' }) r.readyCycle
        .icacheMiss
    refine ⟨reason, ?_⟩
    rw [heq]
    unfold frontendRequeueTraceInst setMem
    rw [if_pos hbuffer, hempty]
    rfl

/-- **The fetch stage** on an empty pipeline delivers an instruction, meets the end of the
trace or is refused the record it wants. -/
theorem fetchStage_empty (env : Env) (hbandwidth : 1 ≤ cfg.fetchBandwidth)
    (hsize : 1 ≤ cfg.instBufferSize) (hlen : s.preFetchBuffer.length ≤ 1)
    (hbuffer : s.instBuffer = []) (hgoes : s.refCpu.simEnd = false) :
    (s.fetchStage cfg env).instBuffer ≠ [] ∨
      (s.preFetchBuffer = [] ∧ ∃ hint, s.fetchStage cfg env
        = { s with
            refCpu := { steps := s.refCpu.steps + 1, simEnd := true }
            frontendBoundHint := hint }) ∨
      Refused (nextInst env s) s (s.fetchStage cfg env) := by
  obtain ⟨n, hn⟩ : ∃ n, cfg.fetchBandwidth = n + 1 := ⟨cfg.fetchBandwidth - 1, by omega⟩
  unfold fetchStage
  rcases hfetch : s.frontendCanFetch cfg with - | -
  -- there is room, so the stage is stalled
  · have hstall : s.totalCycles < s.fetchStallUntil := by
      simpa [frontendCanFetch, frontendStallActive, hbuffer, Nat.pos_of_ne_zero
        (Nat.one_le_iff_ne_zero.mp hsize)] using hfetch
    exact Or.inr (Or.inr (.stalled .none hstall))
  have harrived : s.fetchStallUntil ≤ s.totalCycles := by
    simp only [frontendCanFetch, frontendStallActive, Bool.and_eq_true, Bool.not_eq_true',
      decide_eq_false_iff_not, not_lt] at hfetch
    exact hfetch.1
  rw [if_pos rfl, hn]
  dsimp only
  have hexhausted : s.frontendTraceExhausted = false := by
    rw [frontendTraceExhausted, hgoes, Bool.false_and]
  rcases frontendAcquireTraceInst_cases env s hexhausted with
    ⟨inst, s', hacq, hacquired⟩ | ⟨hempty, -, -, hacq⟩
  swap
  · refine Or.inr (Or.inl ⟨hempty, ?_⟩)
    rw [fetchLoop, hfetch, hexhausted, hacq]
    exact ⟨_, rfl⟩
  have hturn := fetchLoop_first n hfetch hexhausted hacq 0 .none
  split_ifs at hturn with hcontains
  · exact Or.inl hturn
  rw [Bool.not_eq_true] at hcontains
  refine Or.inr (Or.inr ?_)
  rw [hturn]
  cases hacquired with
  | buffered _ rest front =>
    have hrest : rest = [] := by
      rw [front, List.length_cons] at hlen
      exact List.length_eq_zero_iff.mp (by omega)
    have hnext : nextInst env s = inst := by rw [nextInst, front, List.headD_cons]
    obtain ⟨reason, heq⟩ := checkIcache_missed cfg
      (s := { s with preFetchBuffer := rest }) hrest hcontains .none
    rw [hnext, admitInst, if_pos rfl, heq]
    have hcpu : s.refCpu = { steps := s.refCpu.steps, simEnd := false } := by rw [← hgoes]
    have hmissed : Refused inst s _ := .missed s.refCpu.steps reason
      (fetchLoop cfg env (n + 1) s 0 true .none).2 harrived hcontains
    rw [← hcpu] at hmissed
    exact hmissed
  | stepped empty running goes =>
    have hnext : nextInst env s = env.stream s.refCpu.steps := by
      rw [nextInst, empty, List.headD_nil]
    obtain ⟨reason, heq⟩ := checkIcache_missed cfg
      (s := { s with refCpu := { steps := s.refCpu.steps + 1, simEnd := false } })
      empty hcontains .none
    rw [hnext, admitInst, if_pos rfl, heq]
    exact .missed (s.refCpu.steps + 1) reason _ harrived hcontains

/-! ### Cycles -/

/-- Nothing is in the pipeline, and the front end wants the record `inst`. -/
structure Starved (cfg : Config P B) (env : Env) (inst : TraceInst) (s : Sim P B) : Prop where
  reach : Reach cfg env .returns s
  emptied : Emptied s
  goes : s.refCpu.simEnd = false
  next : nextInst env s = inst

/-- The front end has got an instruction or met the end of the trace, or the time is over. -/
structure Fed (cfg : Config P B) (env : Env) (s : Sim P B) : Prop where
  reach : Reach cfg env .returns s
  fed : maxSimTime < s.totalCycles ∨ s.instBuffer ≠ [] ∨
    (Emptied s ∧ s.refCpu.simEnd = true)

/-- What a cycle in which the record `inst` does not come does to the memory subsystem `m`
and to the end of the stall. -/
inductive FetchWait (inst : TraceInst) (t : ℕ) (m : MemSubsystem P) (stall : ℕ) :
    MemSubsystem P → ℕ → Prop
  | stalled (later : t < stall) : FetchWait inst t m stall m stall
  | missed (arrived : stall ≤ t) (miss : m.icache.contains inst.pc = false) :
      FetchWait inst t m stall (m.accessIcache inst.pc t).2
        (if (m.accessIcache inst.pc t).1.blocked then stall
         else max stall (m.accessIcache inst.pc t).1.readyCycle)

omit [CachePrefetcher P] [BranchPredictor B] in
theorem running_of_goes (hgoes : s.refCpu.simEnd = false) (htime : s.totalCycles ≤ maxSimTime) :
    s.running = true := by
  simp [running, loopCondition, hgoes, htime]

/-- **One cycle** of a starved front end: it is fed, or it goes on waiting. -/
theorem Starved.cycle (hcfg : CanRun cfg) (h : Starved cfg env inst s)
    (htime : s.totalCycles ≤ maxSimTime) :
    Fed cfg env (s.cycle cfg env) ∨
      (Starved cfg env inst (s.cycle cfg env) ∧ ∃ baselines m,
        FetchWait inst s.totalCycles { returned env s with baselines := baselines }
          s.fetchStallUntil m (s.cycle cfg env).fetchStallUntil ∧
        (s.cycle cfg env).mem = m.servicePrefetchQueues cfg.mem s.totalCycles) := by
  have hreach := h.reach.cycle (running_of_goes h.goes htime)
  have hc := h.reach.invariant (conserved_invariant cfg env _) (commitsIn_true cfg env)
  -- before the fetch stage only books are written
  have hrests : Rests env s (s.upTo cfg env .fetch) :=
    h.emptied.upTo_fetch hcfg.toUnlimited hc.represents
  obtain ⟨profiler, hcycle⟩ := cycle_eq_fetch cfg env s
  generalize s.upTo cfg env .fetch = t at hrests hcycle
  obtain ⟨bl, pf, w, ib, cb, lb, before, cs, bs⟩ := hrests
  generalize ht : ({ s with
    mem := { returned env s with baselines := bl }, profiler := pf, inWarmup := w
    instRetiredBaseline := ib, totalCyclesBaseline := cb, loadProfileBaseline := lb
    instsBefore := before, commitStall := cs, backendStall := bs } : Sim P B) = t at hcycle
  -- a starved front end is fed, meets the end of the trace, or has its record refused
  have hstage := fetchStage_empty (s := t) env hcfg.fetchBandwidth hcfg.instBufferSize
    (by rw [← ht]; exact hc.buffer) (by rw [← ht]; exact h.emptied.instBuffer)
    (by rw [← ht]; exact h.goes)
  rcases hstage with hdelivers | ⟨-, hint, hended⟩ | hrefused
  · refine Or.inl ⟨hreach, Or.inr (Or.inl ?_)⟩
    rw [hcycle]
    exact hdelivers
  · refine Or.inl ⟨hreach, Or.inr (Or.inr ?_)⟩
    rw [hcycle, hended, ← ht]
    exact ⟨⟨h.emptied.robCount, h.emptied.fetchQueue, h.emptied.instBuffer⟩, rfl⟩
  have hnext : nextInst env t = inst := by
    rw [← ht]
    exact h.next
  rw [hnext] at hrefused
  generalize t.fetchStage cfg env = t' at hcycle hrefused
  refine Or.inr ⟨?_, bl, t'.mem, ?_⟩
  · refine ⟨hreach, ?_, ?_, ?_⟩ <;> rw [hcycle] <;> cases hrefused
    · exact ht ▸ ⟨h.emptied.robCount, h.emptied.fetchQueue, h.emptied.instBuffer⟩
    · exact ht ▸ ⟨h.emptied.robCount, h.emptied.fetchQueue, h.emptied.instBuffer⟩
    · exact ht ▸ h.goes
    · rfl
    · exact hnext
    · rfl
  · rw [hcycle]
    cases hrefused with
    | stalled hint stall =>
      refine ⟨?_, ?_⟩
      · rw [← ht] at stall ⊢
        exact .stalled stall
      · rw [← ht]
        rfl
    | missed steps reason hint arrived miss =>
      refine ⟨?_, ?_⟩
      · rw [← ht] at arrived miss ⊢
        exact .missed arrived miss
      · rw [← ht]

/-! ### The work for other blocks -/

/-- The block the record `inst` is in. -/
def blockOf (cfg : Config P B) (inst : TraceInst) : BitVec 32 :=
  cfg.mem.icache.build.getBlockAddr inst.pc

omit [CachePrefetcher P] [BranchPredictor B] in
/-- Waiting for a fetch adds no work for other blocks, and leaves the queue alone. -/
theorem FetchWait.others {t stall stall' : ℕ} {m m' : MemSubsystem P} {b : BitVec 32}
    (h : FetchWait inst t m stall m' stall') (hb : m.icache.getBlockAddr inst.pc = b) :
    m'.others b ≤ m.others b ∧ m'.icachePrefetch = m.icachePrefetch := by
  cases h with
  | stalled later => exact ⟨le_rfl, rfl⟩
  | missed arrived miss => exact ⟨m.others_accessIcache t hb, rfl⟩

theorem Reach.getBlockAddr {b : Boundary} (h : Reach cfg env b s) (addr : BitVec 32) :
    s.mem.icache.getBlockAddr addr = cfg.mem.icache.build.getBlockAddr addr :=
  (h.sameShape.l1 .icache).getBlockAddr addr

omit [CachePrefetcher P] [BranchPredictor B] in
theorem returned_getBlockAddr (env : Env) (s : Sim P B) (addr : BitVec 32) :
    (returned env s).icache.getBlockAddr addr = s.mem.icache.getBlockAddr addr :=
  (Cache.processReturns_shape s.mem.icache s.totalCycles _).getBlockAddr addr

/-- **The work for other blocks** never grows while the front end is starved, and it falls
with every prefetch that is issued. -/
theorem Starved.cycle_others (hcfg : CanRun cfg) (h : Starved cfg env inst s)
    (htime : s.totalCycles ≤ maxSimTime) :
    Fed cfg env (s.cycle cfg env) ∨
      (Starved cfg env inst (s.cycle cfg env) ∧
        (s.cycle cfg env).mem.others (blockOf cfg inst)
            + min cfg.mem.icachePrefetchIssuePerCycle s.mem.icachePrefetch.queue.length
          ≤ (returned env s).others (blockOf cfg inst)) := by
  refine (h.cycle hcfg htime).imp id fun hs => ⟨hs.1, ?_⟩
  obtain ⟨-, bl, m, hwait, hmem⟩ := hs
  have hb : ({ returned env s with baselines := bl } : MemSubsystem P).icache.getBlockAddr
      inst.pc = blockOf cfg inst :=
    (returned_getBlockAddr env s inst.pc).trans (h.reach.getBlockAddr inst.pc)
  obtain ⟨hle, hqueue⟩ := hwait.others hb
  have hservice := m.others_servicePrefetchQueues cfg.mem (blockOf cfg inst) s.totalCycles
  rw [hqueue] at hservice
  rw [hmem]
  exact hservice.trans hle

/-- A cycle of a starved front end, as a step of the run. -/
theorem Starved.step (h : Starved cfg env inst s) {R : Sim P B → Prop}
    (hR : s.totalCycles ≤ maxSimTime → Fed cfg env (s.cycle cfg env) ∨ R (s.cycle cfg env)) :
    Within (oneCycle cfg env) (fun s' => Fed cfg env s' ∨ R s') 1 s := by
  rcases Nat.lt_or_ge maxSimTime s.totalCycles with htime | htime
  · exact Within.now (Q := fun s' => _ ∨ _) (Or.inl ⟨h.reach, Or.inl htime⟩) 1
  · exact Within.next (if_pos (running_of_goes h.goes htime)) (hR htime)

/-- Waiting until a given cycle, in states of kind `I`. -/
theorem Starved.until {I : Sim P B → Prop} {T : ℕ}
    (hstarved : ∀ s, I s → Starved cfg env inst s)
    (hcycle : ∀ s, I s → s.totalCycles < T → s.totalCycles ≤ maxSimTime →
      Fed cfg env (s.cycle cfg env) ∨ I (s.cycle cfg env))
    (h : I s) (hT : s.totalCycles ≤ T) :
    Within (oneCycle cfg env) (fun s' => Fed cfg env s' ∨ (I s' ∧ s'.totalCycles = T))
      (T - s.totalCycles) s := by
  refine Within.wait Sim.totalCycles (fun s₁ hs₁ hlt => ?_) h hT
  refine (hstarved s₁ hs₁).step fun htime => (hcycle s₁ hs₁ hlt htime).imp id fun hs₂ => ?_
  exact ⟨hs₂, cycle_totalCycles cfg env s₁⟩

/-- The front end is starved, with at most `n` to do for other blocks, and the I-cache awaits
the block `b'`. -/
structure Awaits (cfg : Config P B) (env : Env) (inst : TraceInst) (n : ℕ) (b' : BitVec 32)
    (f k : ℕ) (s : Sim P B) : Prop where
  starved : Starved cfg env inst s
  others : s.mem.others (blockOf cfg inst) ≤ n
  pending : MemoryBefore (MemSubsystem.Pending .icache b' f k) s

theorem Awaits.cycle (hcfg : CanRun cfg) {n f k : ℕ} {b' : BitVec 32}
    (h : Awaits cfg env inst n b' f k s) (htime : s.totalCycles ≤ maxSimTime) :
    Fed cfg env (s.cycle cfg env) ∨ Awaits cfg env inst n b' f k (s.cycle cfg env) := by
  refine (h.starved.cycle_others hcfg htime).imp id fun hs => ⟨hs.1, ?_, ?_⟩
  · have hreturns := MemSubsystem.others_processReturns (blockOf cfg inst) s.mem
      s.totalCycles (env.itable s.totalCycles) (env.dtable s.totalCycles)
      (env.ltable s.totalCycles)
    exact (((Nat.le_add_right _ _).trans hs.2).trans hreturns).trans h.others
  · exact h.pending.cycle MemSubsystem.pending_runInvariant cfg env

theorem Awaits.ready {n f k : ℕ} {b' : BitVec 32} (h : Awaits cfg env inst n b' f k s)
    (hclock : s.totalCycles = f) : s.mem.icache.ready b' = some f := by
  obtain ⟨last, hlast, hstill⟩ := h.pending
  exact (hstill fun p hp => hclock ▸ hlast p hp).1

/-- When another block is ready, its return leaves less to do. -/
theorem Starved.falls (hcfg : CanRun cfg) (h : Starved cfg env inst s) {b' : BitVec 32}
    {f : ℕ} (hne : b' ≠ blockOf cfg inst) (hready : s.mem.icache.ready b' = some f)
    (hle : f ≤ s.totalCycles) :
    Within (oneCycle cfg env) (fun s' => Fed cfg env s' ∨ (Starved cfg env inst s' ∧
      s'.mem.others (blockOf cfg inst) < s.mem.others (blockOf cfg inst))) 1 s := by
  refine h.step fun htime => (h.cycle_others hcfg htime).imp id fun hs => ⟨hs.1, ?_⟩
  have hlt := MemSubsystem.others_processReturns_lt hne hready hle (env.itable s.totalCycles)
    (env.dtable s.totalCycles) (env.ltable s.totalCycles)
  exact ((Nat.le_add_right _ _).trans hs.2).trans_lt hlt

/-- While there is work for other blocks, it falls within the longest latency. -/
theorem Starved.others_within (hcfg : CanRun cfg) (h : Starved cfg env inst s)
    (hpos : 0 < s.mem.others (blockOf cfg inst)) :
    Within (oneCycle cfg env) (fun s' => Fed cfg env s' ∨ (Starved cfg env inst s' ∧
      s'.mem.others (blockOf cfg inst) < s.mem.others (blockOf cfg inst)))
      (longestLatency + 1) s := by
  rcases hqueue : s.mem.icachePrefetch.queue with - | ⟨addr, queue⟩
  swap
  -- a prefetch is issued at the end of the cycle
  · refine (h.step fun htime => ?_).mono (Nat.le_add_left 1 _)
    refine (h.cycle_others hcfg htime).imp id fun hs => ⟨hs.1, ?_⟩
    have hreturns := MemSubsystem.others_processReturns (blockOf cfg inst) s.mem
      s.totalCycles (env.itable s.totalCycles) (env.dtable s.totalCycles)
      (env.ltable s.totalCycles)
    have hissue : 1 ≤ min cfg.mem.icachePrefetchIssuePerCycle
        s.mem.icachePrefetch.queue.length := by
      rw [hqueue, List.length_cons]
      exact le_min (hcfg.issueRate .icache) (Nat.le_add_left 1 _)
    exact (Nat.lt_of_lt_of_le (Nat.lt_add_of_pos_right hissue) hs.2).trans_le hreturns
  -- the queue is empty, so another block is in flight
  obtain ⟨b', hb'⟩ : ∃ b', b' ∈ s.mem.icache.awaited.erase (blockOf cfg inst) := by
    rw [MemSubsystem.others, othersOf, hqueue, List.length_nil, Nat.mul_zero, Nat.zero_add]
      at hpos
    exact Finset.card_pos.mp hpos
  rw [Finset.mem_erase, Cache.mem_awaited] at hb'
  obtain ⟨hne, f, hready⟩ := hb'
  rcases Nat.lt_or_ge s.totalCycles f with hlt | hle
  swap
  · exact (h.falls hcfg hne hready hle).mono (Nat.le_add_left 1 _)
  have hwaits : Awaits cfg env inst (s.mem.others (blockOf cfg inst)) b' f
      (s.mem.icache.fills b') s :=
    ⟨h, le_rfl, none, fun p hp => absurd hp (Option.not_mem_none p), fun _ => ⟨hready, rfl⟩⟩
  have hle : f ≤ s.totalCycles + longestLatency := h.reach.ready_le (x := .icache) hready
  have hwait := Starved.until (fun s₁ => Awaits.starved)
    (fun s₁ hs₁ _ htime => hs₁.cycle hcfg htime) hwaits hlt.le
  refine (hwait.mono (m := longestLatency) (by omega)).bind fun s₁ hs₁ => ?_
  rcases hs₁ with hs₁ | ⟨hs₁, hclock⟩
  · exact Within.now (Q := fun s' => _ ∨ _) (Or.inl hs₁) 1
  refine (hs₁.starved.falls hcfg hne (hs₁.ready hclock) hclock.ge).imp fun s₂ hs₂ => ?_
  exact hs₂.imp id fun hs₂ => ⟨hs₂.1, hs₂.2.trans_le hs₁.others⟩

/-! ### A fetch that nothing disturbs -/

/-- The front end is starved and stalls until the given cycle, and the I-cache has nothing to
do for other blocks. -/
structure Alone (cfg : Config P B) (env : Env) (inst : TraceInst) (stall : ℕ)
    (s : Sim P B) : Prop where
  starved : Starved cfg env inst s
  others : s.mem.others (blockOf cfg inst) = 0
  stall : s.fetchStallUntil = stall

/-- While the fetch stage stalls, nothing changes. -/
theorem Alone.cycle (hcfg : CanRun cfg) {stall : ℕ} (h : Alone cfg env inst stall s)
    (hlt : s.totalCycles < stall) (htime : s.totalCycles ≤ maxSimTime) :
    Fed cfg env (s.cycle cfg env) ∨ Alone cfg env inst stall (s.cycle cfg env) := by
  rcases h.starved.cycle hcfg htime with hfed | ⟨hs, bl, m, hwait, -⟩
  · exact Or.inl hfed
  refine (h.starved.cycle_others hcfg htime).imp id fun hle => ⟨hs, ?_, ?_⟩
  · have hreturns := MemSubsystem.others_processReturns (blockOf cfg inst) s.mem
      s.totalCycles (env.itable s.totalCycles) (env.dtable s.totalCycles)
      (env.ltable s.totalCycles)
    rw [h.others] at hreturns
    exact Nat.le_zero.mp (((Nat.le_add_right _ _).trans hle.2).trans hreturns)
  · generalize (s.cycle cfg env).fetchStallUntil = stall' at hwait
    cases hwait with
    | stalled later => exact h.stall
    | missed arrived miss => exact absurd (h.stall ▸ arrived) (not_le.mpr hlt)

omit [CachePrefetcher P] [BranchPredictor B] in
/-- Where there is nothing to do for other blocks, only the block itself is awaited. -/
theorem awaited_of_others {m : MemSubsystem P} {b : BitVec 32} (h : m.others b = 0) :
    m.icache.awaited ⊆ {b} := by
  intro b' hb'
  rw [Finset.mem_singleton]
  by_contra hne
  have hcard := Finset.card_pos.mpr ⟨b', Finset.mem_erase.mpr ⟨hne, hb'⟩⟩
  rw [MemSubsystem.others, othersOf] at h
  omega

/-- The memory subsystem a starved front end accesses. -/
theorem Starved.returned_roomy (hcfg : CanRun cfg) (h : Starved cfg env inst s)
    (htime : s.totalCycles ≤ maxSimTime) (baselines : MemBaselines) :
    ({ returned env s with baselines := baselines } : MemSubsystem P).Roomy
      (some s.totalCycles) := by
  have hroomy := (h.reach.step fun _ => running_of_goes h.goes htime).roomy hcfg.ample
  refine MemSubsystem.roomy_runInvariant.quiet (m := returned env s) ?_ hroomy
  exact ⟨fun x => by cases x <;> exact ⟨_, rfl⟩, rfl⟩

/-- When the stall is over, the line is fetched, or there at once. -/
theorem Alone.misses (hcfg : CanRun cfg) {stall : ℕ} (h : Alone cfg env inst stall s)
    (harrived : stall ≤ s.totalCycles) (htime : s.totalCycles ≤ maxSimTime) :
    Fed cfg env (s.cycle cfg env) ∨ ∃ f k, Alone cfg env inst f (s.cycle cfg env) ∧
      s.totalCycles < f ∧
      Awaits cfg env inst 0 (blockOf cfg inst) f k (s.cycle cfg env) := by
  rcases h.starved.cycle hcfg htime with hfed | ⟨hs, bl, m, hwait, hmem⟩
  · exact Or.inl hfed
  refine (h.starved.cycle_others hcfg htime).imp id fun hle => ?_
  -- no other block is under way when the cycle begins, and none is added
  have hreturns := MemSubsystem.others_processReturns (blockOf cfg inst) s.mem
    s.totalCycles (env.itable s.totalCycles) (env.dtable s.totalCycles)
    (env.ltable s.totalCycles)
  rw [h.others, Nat.le_zero] at hreturns
  have hothers : (s.cycle cfg env).mem.others (blockOf cfg inst) = 0 :=
    Nat.le_zero.mp (((Nat.le_add_right _ _).trans hle.2).trans hreturns.le)
  rw [h.stall] at hwait
  generalize hstall : (s.cycle cfg env).fetchStallUntil = stall' at hwait
  cases hwait with
  -- the stall is over, so the fetch stage has asked for the line
  | stalled later => exact absurd later (not_lt.mpr harrived)
  | missed arrived miss =>
    have hroomy := h.starved.returned_roomy hcfg htime bl
    have hblock : ({ returned env s with baselines := bl } : MemSubsystem P).icache.getBlockAddr
        inst.pc = blockOf cfg inst :=
      (returned_getBlockAddr env s inst.pc).trans (h.starved.reach.getBlockAddr inst.pc)
    have hmshr : ({ returned env s with baselines := bl } : MemSubsystem P).icache.maxInflight
        = cfg.mem.icache.mshrSize.toNat :=
      (Cache.processReturns_shape s.mem.icache s.totalCycles _).maxInflight.trans
        (h.starved.reach.sameShape.l1 .icache).maxInflight
    obtain ⟨hserved, hlater, hready⟩ := MemSubsystem.accessIcache_awaits hroomy miss
      (hmshr ▸ hcfg.icacheMshrs) (hblock ▸ awaited_of_others hreturns)
    rw [hblock] at hready
    generalize ({ returned env s with baselines := bl } : MemSubsystem P).accessIcache inst.pc
      s.totalCycles = access at hmem hstall hserved hlater hready
    -- the miss is served, and the new stall lasts until its block arrives
    rw [hserved, if_neg Bool.false_ne_true, max_eq_right (harrived.trans hlater.le)] at hstall
    have hpending : access.2.Pending .icache (blockOf cfg inst) access.1.readyCycle
        (access.2.icache.fills (blockOf cfg inst)) (some s.totalCycles) :=
      fun _ => ⟨hready, rfl⟩
    have hservice :=
      MemSubsystem.pending_runInvariant.servicePrefetchQueues cfg.mem hpending
    rw [← hmem] at hservice
    refine ⟨_, _, ⟨hs, hothers, hstall⟩, hlater, ⟨hs, hothers.le, some s.totalCycles, ?_,
      hservice⟩⟩
    intro p hp
    rw [Option.mem_some_iff] at hp
    rw [cycle_totalCycles]
    exact hp ▸ Nat.lt_succ_self _

/-- When the stall is over and the block is ready, an instruction is delivered. -/
theorem Alone.delivers (hcfg : CanRun cfg) {f : ℕ} (h : Alone cfg env inst f s)
    (hclock : s.totalCycles = f) (hready : s.mem.icache.ready (blockOf cfg inst) = some f)
    (htime : s.totalCycles ≤ maxSimTime) : Fed cfg env (s.cycle cfg env) := by
  rcases h.starved.cycle hcfg htime with hfed | ⟨-, bl, m, hwait, -⟩
  · exact hfed
  exfalso
  rw [h.stall] at hwait
  generalize (s.cycle cfg env).fetchStallUntil = stall' at hwait
  cases hwait with
  | stalled later => exact absurd later (hclock ▸ lt_irrefl f)
  | missed arrived miss =>
    -- nothing else returns after the block, so it is still there
    obtain ⟨last, hcons⟩ := h.starved.reach.mem_consistent hcfg.powerOfTwo
    have hcontains := (hcons.l1 .icache).returns_contains (hcons.l1PowerOfTwo .icache) hready
      hclock.ge (awaited_of_others h.others) (env.itable s.totalCycles)
    have hblock : (returned env s).icache.getBlockAddr inst.pc = blockOf cfg inst :=
      (returned_getBlockAddr env s inst.pc).trans (h.starved.reach.getBlockAddr inst.pc)
    have hp : (returned env s).icache.PowerOfTwo := (hcons.l1PowerOfTwo .icache).of_shape
      (Cache.processReturns_shape s.mem.icache s.totalCycles (env.itable s.totalCycles))
    have hmiss : (returned env s).icache.contains (blockOf cfg inst) = false := by
      rw [← hblock, Cache.contains_blockAddr hp]
      exact miss
    cases hmiss.symm.trans hcontains

/-- The cycle that ends a wait. -/
theorem Starved.ends (h : Starved cfg env inst s)
    (hfed : s.totalCycles ≤ maxSimTime → Fed cfg env (s.cycle cfg env)) :
    Within (oneCycle cfg env) (Fed cfg env) 1 s := by
  rcases Nat.lt_or_ge maxSimTime s.totalCycles with htime | htime
  · exact Within.now ⟨h.reach, Or.inl htime⟩ 1
  · exact Within.next (if_pos (running_of_goes h.goes htime)) (hfed htime)

/-- The end of the stall comes within the longest latency. -/
theorem Starved.stall_within (hcfg : CanRun cfg) (h : Starved cfg env inst s)
    (hothers : s.mem.others (blockOf cfg inst) = 0) :
    Within (oneCycle cfg env) (fun s' => Fed cfg env s' ∨
      (Alone cfg env inst s.fetchStallUntil s' ∧ s.fetchStallUntil ≤ s'.totalCycles))
      longestLatency s := by
  have halone : Alone cfg env inst s.fetchStallUntil s := ⟨h, hothers, rfl⟩
  have hstall := h.reach.inTime.stall
  rcases Nat.lt_or_ge s.totalCycles s.fetchStallUntil with hlt | hle
  swap
  · exact Within.now (Q := fun s' => _ ∨ _) (Or.inr ⟨halone, hle⟩) _
  have hwait := Starved.until (fun s₁ => Alone.starved)
    (fun s₁ hs₁ hlt htime => hs₁.cycle hcfg hlt htime) halone hlt.le
  refine (hwait.imp fun s₁ hs₁ => ?_).mono (by omega)
  exact hs₁.imp id fun hs₁ => ⟨hs₁.1, hs₁.2.ge⟩

/-- A line on its way is there within the longest latency, and is delivered. -/
theorem Alone.fed_within (hcfg : CanRun cfg) {f k : ℕ} (h : Alone cfg env inst f s)
    (hawaits : Awaits cfg env inst 0 (blockOf cfg inst) f k s) (hle : s.totalCycles ≤ f) :
    Within (oneCycle cfg env) (Fed cfg env) (longestLatency + 1) s := by
  have hstall := h.starved.reach.inTime.stall
  rw [h.stall] at hstall
  have hwait := Starved.until
    (I := fun s' => Alone cfg env inst f s' ∧ Awaits cfg env inst 0 (blockOf cfg inst) f k s')
    (fun s₁ hs₁ => hs₁.1.starved) (fun s₁ hs₁ hlt htime => ?_) ⟨h, hawaits⟩ hle
  · refine (hwait.mono (m := longestLatency) (by omega)).bind fun s₁ hs₁ => ?_
    rcases hs₁ with hs₁ | ⟨⟨hs₁, hawaits₁⟩, hclock⟩
    · exact Within.now hs₁ 1
    · exact hs₁.starved.ends (hs₁.delivers hcfg hclock (hawaits₁.ready hclock))
  · rcases hs₁.1.cycle hcfg hlt htime with hfed | halone
    · exact Or.inl hfed
    · exact (hs₁.2.cycle hcfg htime).imp id fun hawaits => ⟨halone, hawaits⟩

/-- A fetch that nothing disturbs waits for the end of the stall, and then for its line. -/
theorem Starved.alone_within (hcfg : CanRun cfg) (h : Starved cfg env inst s)
    (hothers : s.mem.others (blockOf cfg inst) = 0) :
    Within (oneCycle cfg env) (Fed cfg env) (longestLatency + (1 + (longestLatency + 1))) s := by
  refine (h.stall_within hcfg hothers).bind fun s₁ hs₁ => ?_
  rcases hs₁ with hs₁ | ⟨hs₁, harrived⟩
  · exact Within.now hs₁ _
  have hmisses := hs₁.starved.step (R := fun s₂ => ∃ f k, Alone cfg env inst f s₂ ∧
      s₂.totalCycles ≤ f ∧ Awaits cfg env inst 0 (blockOf cfg inst) f k s₂) fun htime => by
    refine (hs₁.misses hcfg harrived htime).imp id fun hs₂ => ?_
    obtain ⟨f, k, halone, hlt, hawaits⟩ := hs₂
    exact ⟨f, k, halone, (cycle_totalCycles cfg env s₁).trans_le hlt, hawaits⟩
  refine hmisses.bind fun s₂ hs₂ => ?_
  rcases hs₂ with hs₂ | ⟨f, k, halone, hle, hawaits⟩
  · exact Within.now hs₂ _
  · exact halone.fed_within hcfg hawaits hle

/-- How many cycles the front end starves at most. -/
def fetchBound (cfg : Config P B) : ℕ :=
  (longestLatency + 1) *
      (2 * cfg.mem.queueLimit .icache + cfg.mem.icache.mshrSize.toNat)
    + (longestLatency + (1 + (longestLatency + 1)))

/-- **A starved front end is fed.** -/
theorem Starved.fed_within (hcfg : CanRun cfg) (h : Starved cfg env inst s) :
    Within (oneCycle cfg env) (Fed cfg env) (fetchBound cfg) s := by
  have hrank := Within.rank (oneCycle cfg env) (fun s' => s'.mem.others (blockOf cfg inst))
    (I := Starved cfg env inst) (Q := fun s' => Fed cfg env s' ∨ (Starved cfg env inst s' ∧
      s'.mem.others (blockOf cfg inst) = 0)) (d := longestLatency + 1)
    (fun s' hs' hzero => Or.inr ⟨hs', hzero⟩) (fun s' hs' hpos => ?_) h
  swap
  · refine (hs'.others_within hcfg hpos).imp fun s₁ hs₁ => ?_
    exact hs₁.imp Or.inl id
  obtain ⟨last, -, hbounded⟩ := h.reach.memory MemSubsystem.bounded_runInvariant
    (MemSubsystem.bounded_new cfg.mem)
  have hothers := MemSubsystem.others_le hbounded (blockOf cfg inst)
  have hmshr : s.mem.icache.maxInflight = cfg.mem.icache.mshrSize.toNat :=
    (h.reach.sameShape.l1 .icache).maxInflight
  refine (hrank.mono (Nat.mul_le_mul_left _ (hothers.trans ?_))).bind fun s₁ hs₁ => ?_
  · rw [hmshr]
    exact Nat.add_le_add_right (Nat.mul_le_mul_left 2 (h.reach.queue_le .icache)) _
  · rcases hs₁ with hs₁ | ⟨hs₁, hzero⟩
    · exact Within.now hs₁ _
    · exact hs₁.alone_within hcfg hzero

end Sim

end TraceSim
