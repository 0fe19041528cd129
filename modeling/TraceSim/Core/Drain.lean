/-
TraceSim/Core/Drain.lean

Which instructions are left behind when the main loop ends.

The condition of the loop looks at the reorder buffer and at two of the three
containers in front of it.  The third, the buffer of one record, is left out, though
`frontend_trace_exhausted` does look at it.  A record that is parked there when
everything else has drained is therefore lost, unless the fetch stage of the last
iteration can still deliver it (`drained_iff`).
-/
import TraceSim.Core.Conservation

namespace TraceSim

open Relation

namespace Sim

variable {P B : Type} {cfg : Config P B} {env : Env} {s s' : Sim P B}

/-! ### The retirement count -/

/-- The retirement count is that of the retired instructions. -/
def Counted (s : Sim P B) : Prop := s.instructionsRetired = s.hist.retired.length

theorem counted_invariant [CachePrefetcher P] (cfg : Config P B) (env : Env)
    (C : Sim P B → Prop) : StepInvariant cfg env C Counted where
  new := rfl
  step {s s'} h hstep := by
    cases hstep with
    | quiet _ hquiet =>
      cases hquiet
      exact h
    | commits hdone allowed =>
      have hlen : (s.hist.retired ++ [s.rob s.robHead]).length = s.hist.retired.length + 1 :=
        List.length_append
      exact (congrArg (· + 1) h).trans hlen.symm
    | waits q i _ hmem houtcome =>
      obtain ⟨op', ht, -⟩ := houtcome.touched
      cases ht
      exact h
    | issues q kept i rest s₁ hqueue houtcome =>
      obtain ⟨op', ht, -⟩ := houtcome.touched
      cases ht
      cases q <;> exact h
    | dispatches op rest hqueue hfree =>
      unfold dispatchOne
      cases iqTarget op <;> exact h
    | decodes op rest hbuffer hroom => exact h
    | fetches _ hturn =>
      cases hturn.frame
      exact h

/-! ### Drained and stranded -/

/-- Every instruction the reference CPU has returned has retired. -/
structure Drained (env : Env) (s : Sim P B) : Prop where
  retired : s.instructionsRetired = (consumed env s).length
  buffer : s.preFetchBuffer = []

/-- The fetch stage can deliver the record `inst` first. -/
def CanDeliver (cfg : Config P B) (s : Sim P B) (inst : TraceInst) : Prop :=
  0 < cfg.fetchBandwidth ∧ s.frontendCanFetch cfg = true ∧
    s.mem.icache.contains inst.pc = true

/-- A record is parked in the one-entry buffer, and the fetch stage cannot deliver
it. -/
def Strands (cfg : Config P B) (s : Sim P B) : Prop :=
  ∃ inst ∈ s.preFetchBuffer, ¬ CanDeliver cfg s inst

instance (env : Env) (s : Sim P B) : Decidable (Drained env s) :=
  decidable_of_iff (s.instructionsRetired = (consumed env s).length ∧ s.preFetchBuffer = [])
    ⟨fun h => ⟨h.1, h.2⟩, fun h => ⟨h.retired, h.buffer⟩⟩

theorem not_strands_of_empty (h : s.preFetchBuffer = []) : ¬ Strands cfg s := by
  rintro ⟨inst, hmem, -⟩
  rw [h] at hmem
  cases hmem

/-- Where nothing can be delivered, what is parked is stranded. -/
theorem buffer_eq_nil_iff (h : ∀ inst ∈ s.preFetchBuffer, ¬ CanDeliver cfg s inst) :
    s.preFetchBuffer = [] ↔ ¬ Strands cfg s := by
  constructor
  · exact not_strands_of_empty
  · intro hstrands
    rcases hbuffer : s.preFetchBuffer with - | ⟨inst, rest⟩
    · rfl
    · have hmem : inst ∈ s.preFetchBuffer := hbuffer ▸ List.mem_cons_self
      exact absurd ⟨inst, hmem, h inst hmem⟩ hstrands

/-- When nothing is left in the pipeline, a state has drained exactly if the
one-entry buffer is empty. -/
theorem Conserved.drained_iff_buffer (h : Conserved cfg env s) (hcounted : Counted s)
    (hrob : s.robCount = 0) (hqueue : s.fetchQueue = []) (hbuffer : s.instBuffer = []) :
    Drained env s ↔ s.preFetchBuffer = [] := by
  have hwindow : s.window cfg = [] := by
    rw [window, slots, hrob]
    rfl
  have hstream := congrArg List.length h.stream
  rw [pipeline, hwindow, hqueue, hbuffer, List.append_nil, List.append_nil, List.append_nil,
    List.length_append, List.length_map, ← hcounted] at hstream
  constructor
  · exact Drained.buffer
  · intro hempty
    rw [hempty, List.length_nil, Nat.add_zero] at hstream
    exact ⟨hstream.symm, hempty⟩

/-! ### The fetch stage of the last iteration -/

section Fetch

variable [CachePrefetcher P]

/-- The fetch loop only adds to the instruction buffer. -/
theorem FetchStep.instBuffer_prefix (h : FetchStep cfg env s s') :
    s.instBuffer <+: s'.instBuffer := by
  rcases h.instBuffer_cases with heq | ⟨-, inst, heq⟩
  · exact heq ▸ List.prefix_rfl
  · exact ⟨_, heq.symm⟩

variable [BranchPredictor B]

theorem fetchLoop_prefix (n : ℕ) (s : Sim P B) (line : BitVec 32) (first : Bool)
    (hint : BoundReason) :
    s.instBuffer <+: (fetchLoop cfg env n s line first hint).1.instBuffer := by
  have hturns := fetchLoop_steps cfg env n s line first hint
  generalize (fetchLoop cfg env n s line first hint).1 = s' at hturns
  induction hturns with
  | refl => exact List.prefix_rfl
  | tail _ hturn ih => exact ih.trans hturn.instBuffer_prefix

omit [CachePrefetcher P] in
/-- What is delivered is in the instruction buffer. -/
theorem deliverInst_instBuffer (cfg : Config P B) (env : Env) (s : Sim P B)
    (inst : TraceInst) :
    (s.deliverInst cfg env inst).2.instBuffer ≠ [] := by
  obtain ⟨profiler, bp, randomCalls, stallUntil, stallReason, -, heq⟩ :=
    deliverInst_eq cfg env s inst
  rw [heq]
  exact List.append_ne_nil_of_right_ne_nil _ (List.cons_ne_nil _ _)

/-- A first turn that acquires `inst`.  If the I-cache has the line, it ends up in the
instruction buffer; otherwise it is put back and the loop ends. -/
theorem fetchLoop_first (n : ℕ) {inst : TraceInst} (hfetch : s.frontendCanFetch cfg = true)
    (hexhausted : s.frontendTraceExhausted = false)
    (hacq : s.frontendAcquireTraceInst env = (some inst, s')) (line : BitVec 32)
    (hint : BoundReason) :
    if s'.mem.icache.contains inst.pc then
      (fetchLoop cfg env (n + 1) s line true hint).1.instBuffer ≠ []
    else
      (fetchLoop cfg env (n + 1) s line true hint).1
        = (s'.admitInst cfg inst line true hint).2.1 := by
  have hadmits : (s'.admitInst cfg inst line true hint).1 = s'.mem.icache.contains inst.pc :=
    checkIcache_admits cfg s' inst hint
  rw [fetchLoop, hfetch, hexhausted, hacq, Bool.not_true, if_neg Bool.false_ne_true,
    if_neg Bool.false_ne_true]
  dsimp only
  rw [hadmits]
  rcases s'.mem.icache.contains inst.pc with - | -
  · rw [if_neg Bool.false_ne_true, Bool.not_false, if_pos rfl]
  · rw [if_pos rfl, Bool.not_true, if_neg Bool.false_ne_true]
    have hne := deliverInst_instBuffer cfg env
      (s'.admitInst cfg inst line true hint).2.1 inst
    split
    · exact hne
    · intro hnil
      exact hne (List.prefix_nil.mp (hnil ▸ fetchLoop_prefix n _ _ false _))

omit [BranchPredictor B] in
/-- A first instruction that is refused is in the one-entry buffer again. -/
theorem admitInst_first_refused (cfg : Config P B) (hempty : s.preFetchBuffer = [])
    {inst : TraceInst} (hmiss : s.mem.icache.contains inst.pc = false) (line : BitVec 32)
    (hint : BoundReason) :
    (s.admitInst cfg inst line true hint).2.1.preFetchBuffer = [inst] ∧
      (s.admitInst cfg inst line true hint).2.1.refCpu = s.refCpu := by
  have hadmits : (s.admitInst cfg inst line true hint).1 = false :=
    (checkIcache_admits cfg s inst hint).trans hmiss
  obtain ⟨mem, u, r, -, heq⟩ := admitInst_refused cfg hadmits
  rw [heq]
  unfold frontendRequeueTraceInst
  rw [if_pos (by rw [hempty]; rfl)]
  dsimp only
  rw [hempty]
  exact ⟨rfl, rfl⟩

/-- The loop from a state that can fetch, when it delivers nothing and the trace has
ended after it: what was parked before it stays parked, and nothing else is. -/
theorem fetchLoop_buffer_iff (n : ℕ) (hfetch : s.frontendCanFetch cfg = true)
    (hlen : s.preFetchBuffer.length ≤ 1)
    (hdelivers : (fetchLoop cfg env (n + 1) s 0 true .none).1.instBuffer = [])
    (hended : (fetchLoop cfg env (n + 1) s 0 true .none).1.refCpu.simEnd = true) :
    (fetchLoop cfg env (n + 1) s 0 true .none).1.preFetchBuffer = []
      ↔ ¬ Strands cfg s := by
  rcases hexhausted : s.frontendTraceExhausted with - | -
  swap
  -- the trace has ended and nothing is parked
  · have hempty : s.preFetchBuffer = [] := by
      rw [frontendTraceExhausted, Bool.and_eq_true, List.isEmpty_iff] at hexhausted
      exact hexhausted.2
    have hstays : (fetchLoop cfg env (n + 1) s 0 true .none).1 = s := by
      rw [fetchLoop, hfetch, hexhausted, Bool.not_true, if_neg Bool.false_ne_true, if_pos rfl]
    rw [hstays]
    exact iff_of_true hempty (not_strands_of_empty hempty)
  rcases frontendAcquireTraceInst_cases env s hexhausted with
    ⟨inst, s', hacq, hacquired⟩ | ⟨hempty, hrun, hlast, hacq⟩
  · have hturn := fetchLoop_first n hfetch hexhausted hacq 0 .none
    cases hacquired with
    -- what was parked is tried first
    | buffered _ rest front =>
      obtain rfl : rest = [] := by
        rw [front, List.length_cons] at hlen
        exact List.length_eq_zero_iff.mp (by omega)
      rcases hmiss : s.mem.icache.contains inst.pc with - | -
      · rw [if_neg (by exact hmiss ▸ Bool.false_ne_true)] at hturn
        obtain ⟨hbuffer, -⟩ := admitInst_first_refused cfg
          (s := { s with preFetchBuffer := [] }) rfl hmiss 0 .none
        rw [hturn, hbuffer]
        refine iff_of_false (List.cons_ne_nil _ _) (not_not_intro ?_)
        refine ⟨inst, front ▸ List.mem_cons_self, fun hdeliver => ?_⟩
        have hcontains := hmiss.symm.trans hdeliver.2.2
        cases hcontains
      · rw [if_pos (by exact hmiss)] at hturn
        exact absurd hdelivers hturn
    -- a record asked for here has been delivered, or the trace has not ended
    | stepped empty running goes =>
      rcases hmiss : s.mem.icache.contains (env.stream s.refCpu.steps).pc with - | -
      · rw [if_neg (by exact hmiss ▸ Bool.false_ne_true)] at hturn
        obtain ⟨-, hcpu⟩ := admitInst_first_refused cfg
          (s := { s with refCpu := { steps := s.refCpu.steps + 1, simEnd := false } })
          empty hmiss 0 .none
        rw [hturn, hcpu] at hended
        cases hended
      · rw [if_pos (by exact hmiss)] at hturn
        exact absurd hdelivers hturn
  -- the record that ends the trace is the first one asked for
  · have hstops : (fetchLoop cfg env (n + 1) s 0 true .none).1
        = { s with refCpu := { steps := s.refCpu.steps + 1, simEnd := true } } := by
      rw [fetchLoop, hfetch, hexhausted, hacq]
      rfl
    rw [hstops]
    exact iff_of_true hempty (not_strands_of_empty hempty)

/-- **The fetch stage**, when it delivers nothing and the trace has ended after it. -/
theorem fetchStage_buffer_iff (hlen : s.preFetchBuffer.length ≤ 1)
    (hdelivers : (s.fetchStage cfg env).instBuffer = [])
    (hended : (s.fetchStage cfg env).refCpu.simEnd = true) :
    (s.fetchStage cfg env).preFetchBuffer = [] ↔ ¬ Strands cfg s := by
  unfold fetchStage at hdelivers hended ⊢
  rcases hfetch : s.frontendCanFetch cfg with - | -
  · rw [if_neg Bool.false_ne_true]
    refine buffer_eq_nil_iff fun inst _ hdeliver => ?_
    have hcan := hfetch.symm.trans hdeliver.2.1
    cases hcan
  rw [hfetch, if_pos rfl] at hdelivers hended
  rw [if_pos rfl]
  rcases hwidth : cfg.fetchBandwidth with - | n
  · refine buffer_eq_nil_iff fun inst _ hdeliver => ?_
    exact absurd hwidth (Nat.pos_iff_ne_zero.mp hdeliver.1)
  rw [hwidth] at hdelivers hended
  exact fetchLoop_buffer_iff n hfetch hlen hdelivers hended

/-! ### The end of a run -/

/-- What the stages after the fetch stage leave alone. -/
theorem cycle_after_fetch (cfg : Config P B) (env : Env) (s : Sim P B) :
    ∃ mem profiler totalCycles, s.cycle cfg env
      = { (s.upTo cfg env .fetch).fetchStage cfg env with
          mem := mem, profiler := profiler, totalCycles := totalCycles } :=
  ⟨_, _, _, rfl⟩

/-- **Drain on exit.**  An iteration that ends the loop leaves no instruction behind
exactly if it strands none. -/
theorem drained_iff (h : Reach cfg env .returns s) (hrun : s.running = true)
    (hend : (s.cycle cfg env).loopCondition = false) :
    Drained env (s.cycle cfg env) ↔ ¬ Strands cfg (s.upTo cfg env .fetch) := by
  have hfetch := (h.upTo hrun .fetch).invariant (conserved_invariant cfg env _)
    (commitsIn_true cfg env)
  have hconserved := (h.cycle hrun).invariant (conserved_invariant cfg env _)
    (commitsIn_true cfg env)
  have hcounted := (h.cycle hrun).invariant (counted_invariant cfg env _)
    (commitsIn_true cfg env)
  rw [loopCondition, Bool.or_eq_false_iff, Bool.or_eq_false_iff, Bool.or_eq_false_iff,
    Bool.or_eq_false_iff, Bool.not_eq_false', decide_eq_false_iff_not, gt_iff_lt,
    Nat.pos_iff_ne_zero, not_not, Bool.not_eq_false', Bool.not_eq_false', List.isEmpty_iff,
    List.isEmpty_iff] at hend
  obtain ⟨⟨⟨⟨hended, hrob⟩, hqueue⟩, hbuffer⟩, -⟩ := hend
  rw [hconserved.drained_iff_buffer hcounted hrob hqueue hbuffer]
  obtain ⟨mem, profiler, totalCycles, heq⟩ := cycle_after_fetch cfg env s
  rw [heq] at hended hbuffer ⊢
  exact fetchStage_buffer_iff hfetch.buffer hbuffer hended

end Fetch

/-- Two ALU instructions at the end of a line and a third in the next line. -/
def lineTrace : Env :=
  ofTrace ((List.range 3).map fun n =>
    { pc := 0x80000038 + BitVec.ofNat 32 (4 * n), opcode := 0b0010011, rd := 1 })

/-- The whole trace is run, up to its ebreak. -/
theorem drained_iff_lineTrace :
    ∃ s, Reach shippedConfig lineTrace .returns s ∧
      (s.cycle shippedConfig lineTrace).loopCondition = false ∧
      (s.cycle shippedConfig lineTrace).instructionsRetired = 3 ∧
      Drained lineTrace (s.cycle shippedConfig lineTrace) := by
  have hrun : (runFor shippedConfig lineTrace 269 (Sim.new shippedConfig)).any (fun s =>
      decide (s.running = true ∧
        (s.cycle shippedConfig lineTrace).loopCondition = false ∧
        (s.cycle shippedConfig lineTrace).instructionsRetired = 3 ∧
        (s.upTo shippedConfig lineTrace .fetch).preFetchBuffer = [])) = true := by
    decide +kernel
  obtain ⟨s, hs, htest⟩ := exists_reach hrun
  obtain ⟨hrunning, hend, hretired, hempty⟩ := of_decide_eq_true htest
  exact ⟨s, hs, hend, hretired, (drained_iff hs hrunning hend).mpr (not_strands_of_empty hempty)⟩

/-- A limit of two instructions. -/
def limitConfig : Config BuiltinPrefetcher BuiltinPredictor :=
  { shippedConfig with maxInstructions := 2 }

/-- The limit is reached while the third instruction waits for its line. -/
theorem limit_strands :
    ∃ s, Reach limitConfig lineTrace .returns s ∧ s.loopCondition = false ∧
      s.totalCycles ≤ maxSimTime ∧ s.instructionsRetired = 2 ∧ ¬ Drained lineTrace s := by
  have hrun : (runFor limitConfig lineTrace 138 (Sim.new limitConfig)).any (fun s =>
      decide (s.loopCondition = false ∧ s.totalCycles ≤ maxSimTime ∧
        s.instructionsRetired = 2 ∧ ¬ Drained lineTrace s)) = true := by
    decide +kernel
  obtain ⟨s, hs, htest⟩ := exists_reach hrun
  exact ⟨s, hs, of_decide_eq_true htest⟩

end Sim

end TraceSim
