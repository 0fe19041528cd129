/-
TraceSim/Core/Completion.lean

The main loop runs every trace to its end.

As long as something is in the pipeline, an op retires within a bound: what is decoded is
dispatched in the next cycle when the reorder buffer is empty, and what is dispatched
retires (`Reach.retires_within`).  When nothing is left, the front end is fed within a
bound (`Starved.fed_within`) or meets the end of the trace.  So every record is fetched and
retired before the loop ends, and the loop ends: the prefetch queues that keep it running at
last are served in every cycle (`run_completes`).
-/
import TraceSim.Core.Starvation

namespace TraceSim

open Relation

namespace Sim

variable {P B : Type} [CachePrefetcher P] [BranchPredictor B] {cfg : Config P B} {env : Env}
  {s s' : Sim P B} {k : ℕ}

/-! ### From the instruction buffer to the reorder buffer -/

/-- How many ops have been decoded. -/
def decoded (s : Sim P B) : ℕ := s.entered + s.fetchQueue.length

omit [BranchPredictor B] in
theorem Step.decoded_le {C : Sim P B → Prop} (h : Step cfg env C s s') :
    s.decoded ≤ s'.decoded := by
  cases h with
  | quiet _ hquiet =>
    cases hquiet
    exact le_rfl
  | commits hdone allowed =>
    have hstep : Step cfg env C s (s.commitOne cfg) := .commits s hdone allowed
    exact Nat.add_le_add_right hstep.entered_le _
  | waits q i _ hmem houtcome =>
    obtain ⟨op', ht, -⟩ := houtcome.touched
    cases ht
    exact le_rfl
  | issues q kept i rest s₁ hqueue houtcome =>
    obtain ⟨op', ht, -⟩ := houtcome.touched
    cases ht
    cases q <;> exact le_rfl
  | dispatches op rest hqueue hfree =>
    -- the op is one more in the reorder buffer and one less in the queue
    have hretired : (s.dispatchOne cfg op).instructionsRetired = s.instructionsRetired := by
      unfold dispatchOne
      cases iqTarget op <;> rfl
    rw [decoded, decoded, entered, entered, hretired, dispatchOne_robCount,
      dispatchOne_fetchQueue, hqueue, List.length_cons, List.tail_cons]
    omega
  | decodes op rest hbuffer hroom =>
    refine Nat.add_le_add_left ?_ s.entered
    rw [List.length_append]
    exact Nat.le_add_right _ _
  | fetches _ hturn =>
    cases hturn.frame
    exact le_rfl

omit [BranchPredictor B] in
theorem decoded_le_of_steps (h : ReflTransGen (Step cfg env fun _ => True) s s') :
    s.decoded ≤ s'.decoded := by
  induction h with
  | refl => exact le_rfl
  | tail _ hstep ih => exact ih.trans hstep.decoded_le

/-- With an empty reorder buffer, the front of the fetch queue is dispatched. -/
theorem Reach.dispatches (hcfg : CanRun cfg) (h : Reach cfg env .returns s)
    (hrun : s.running = true) (hcount : s.robCount = 0) (hqueue : s.fetchQueue ≠ []) :
    s.entered < (s.cycle cfg env).entered := by
  obtain ⟨op, rest, hcons⟩ := List.exists_cons_of_ne_nil hqueue
  obtain ⟨n, hn⟩ : ∃ n, cfg.dispatchWidth = n + 1 :=
    ⟨cfg.dispatchWidth - 1, (Nat.sub_add_cancel hcfg.dispatchWidth).symm⟩
  have hrests := upTo_dispatch_of_empty env hcfg.toUnlimited h.represents hcount
  have hrep := (h.upTo hrun .dispatch).represents
  have hafter := entered_le_of_steps (upTo_steps_cycle cfg env s .decode)
  have hnext : s.upTo cfg env .decode = stage cfg env .dispatch (s.upTo cfg env .dispatch) := rfl
  rw [hnext] at hafter
  generalize s.upTo cfg env .dispatch = t at hrests hrep hafter
  obtain ⟨htcount, htqueue, htentered⟩ :
      t.robCount = 0 ∧ t.fetchQueue = op :: rest ∧ t.entered = s.entered := by
    cases hrests
    exact ⟨hcount, hcons, rfl⟩
  -- every queue is empty, so there is room for the op
  have hfree : t.dispatchBlock cfg op = .none := by
    rw [dispatchBlock_eq_none_iff, dispatchable_nil_iff, htcount]
    refine ⟨hcfg.robSize, fun _ => rfl, fun q _ => ?_⟩
    rw [hrep.iq_of_empty htcount q]
    exact hcfg.capacity q
  have hfirst : t.dispatchLoop cfg cfg.dispatchWidth
      = (t.dispatchOne cfg op).dispatchLoop cfg n := by
    rw [hn, dispatchLoop, htqueue]
    exact if_pos hfree
  have hrest := entered_le_of_steps
    (dispatchLoop_steps cfg env (fun _ => True) n (t.dispatchOne cfg op))
  rw [← hfirst] at hrest
  have hone : (t.dispatchOne cfg op).entered = t.entered + 1 := by
    have hretired : (t.dispatchOne cfg op).instructionsRetired = t.instructionsRetired := by
      unfold dispatchOne
      cases iqTarget op <;> rfl
    rw [entered, entered, hretired, dispatchOne_robCount]
    rfl
  rw [hone, htentered] at hrest
  exact (Nat.lt_of_succ_le hrest).trans_le hafter

/-- With nothing behind it, the front of the instruction buffer is decoded. -/
theorem Reach.decodes (hcfg : CanRun cfg) (h : Reach cfg env .returns s)
    (hcount : s.robCount = 0) (hqueue : s.fetchQueue = []) (hbuffer : s.instBuffer ≠ []) :
    s.decoded < (s.cycle cfg env).decoded := by
  obtain ⟨op, rest, hcons⟩ := List.exists_cons_of_ne_nil hbuffer
  have hrests := upTo_decode_of_empty env hcfg.toUnlimited h.represents hcount hqueue
  have hafter := decoded_le_of_steps (upTo_steps_cycle cfg env s .fetch)
  have hnext : s.upTo cfg env .fetch = stage cfg env .decode (s.upTo cfg env .decode) := rfl
  rw [hnext] at hafter
  generalize s.upTo cfg env .decode = t at hrests hafter
  obtain ⟨htqueue, htbuffer, htentered⟩ :
      t.fetchQueue = [] ∧ t.instBuffer = op :: rest ∧ t.entered = s.entered := by
    cases hrests
    exact ⟨hqueue, hcons, rfl⟩
  have hwidth : 0 < cfg.dispatchWidth * 2 := Nat.mul_pos hcfg.dispatchWidth Nat.two_pos
  have hfirst : t.decodeStage cfg
      = { t with instBuffer := rest, fetchQueue := [op] }.decodeStage cfg := by
    unfold decodeStage
    rw [htbuffer, htqueue, decodeLoop, List.length_nil, if_pos hwidth]
    rfl
  have hrest := decoded_le_of_steps (stage_steps cfg env (fun _ => True) .decode
    { t with instBuffer := rest, fetchQueue := [op] } fun _ _ _ _ => trivial)
  have hone : { t with instBuffer := rest, fetchQueue := [op] }.decoded = s.decoded + 1 := by
    rw [decoded, decoded, hqueue, ← htentered]
    rfl
  rw [hone, stage, ← hfirst] at hrest
  exact (Nat.lt_of_succ_le hrest).trans_le hafter

/-! ### What is in the pipeline retires -/

/-- The run has retired an op since `s`, or the time is over. -/
structure Retired (cfg : Config P B) (env : Env) (s s' : Sim P B) : Prop where
  reach : Reach cfg env .returns s'
  retired : maxSimTime < s'.totalCycles ∨ s.instructionsRetired < s'.instructionsRetired

/-- A cycle while the condition of the loop holds. -/
theorem Reach.step_within (h : Reach cfg env .returns s) (n : ℕ)
    (hgoes : s.loopCondition = true) (hrest : s.running = true →
      Within (oneCycle cfg env) (Retired cfg env s) n (s.cycle cfg env)) :
    Within (oneCycle cfg env) (Retired cfg env s) (n + 1) s := by
  rcases Nat.lt_or_ge maxSimTime s.totalCycles with htime | htime
  · exact Within.now ⟨h, Or.inl htime⟩ _
  · have hrun : s.running = true := by simp [running, hgoes, htime]
    exact Within.next (if_pos hrun) (hrest hrun)

/-- The trace ends with the record number `k`. -/
structure EndsAt (env : Env) (k : ℕ) : Prop where
  last : (env.stream k).isTerminator = true
  goes : ∀ n < k, (env.stream n).isTerminator = false

/-- Where the front end is in a trace that ends with the record number `k`. -/
structure InTrace (k : ℕ) (s : Sim P B) : Prop where
  goes : s.refCpu.simEnd = false → s.refCpu.steps ≤ k
  ended : s.refCpu.simEnd = true → s.refCpu.steps = k + 1 ∧ s.preFetchBuffer = []

/-- The front end of `s'` is that of `s`. -/
structure SameFront (s s' : Sim P B) : Prop where
  refCpu : s'.refCpu = s.refCpu
  preFetchBuffer : s'.preFetchBuffer = s.preFetchBuffer

omit [CachePrefetcher P] [BranchPredictor B] in
theorem InTrace.of_same (h : InTrace k s) (hs : SameFront s s') : InTrace k s' := by
  refine ⟨fun hgoes => ?_, fun hend => ?_⟩
  · rw [hs.refCpu] at hgoes ⊢
    exact h.goes hgoes
  · rw [hs.refCpu] at hend ⊢
    rw [hs.preFetchBuffer]
    exact h.ended hend

omit [BranchPredictor B] in
/-- A turn of the fetch loop. -/
theorem InTrace.fetches (htrace : EndsAt env k) (h : InTrace k s) (ht : FetchStep cfg env s s') :
    InTrace k s' := by
  -- a record that is taken is one of the `k` before the terminator
  have hacquired {inst : TraceInst} {s₁ : Sim P B} (ha : Acquired env s inst s₁) :
      s₁.refCpu.simEnd = false ∧ s₁.refCpu.steps ≤ k := by
    cases ha with
    | buffered _ rest front =>
      have hgoes : s.refCpu.simEnd = false := by
        rw [Bool.eq_false_iff]
        intro hend
        rw [(h.ended hend).2] at front
        cases front
      exact ⟨hgoes, h.goes hgoes⟩
    | stepped empty running goes =>
      refine ⟨rfl, Nat.lt_of_le_of_ne (h.goes running) fun heq => ?_⟩
      rw [heq, htrace.last] at goes
      cases goes
  cases ht with
  | ended empty running last =>
    refine ⟨fun hgoes => absurd hgoes.symm Bool.false_ne_true, fun _ => ⟨?_, empty⟩⟩
    have hle := h.goes running
    have hge : ¬ s.refCpu.steps < k := fun hlt => by
      rw [htrace.goes _ hlt] at last
      cases last
    exact congrArg (· + 1) (Nat.le_antisymm hle (not_lt.mp hge))
  | requeued inst s₁ acquired mem during stallUntil stallReason =>
    obtain ⟨hgoes, hle⟩ := hacquired acquired
    have hended : s₁.refCpu.simEnd ≠ true := Bool.eq_false_iff.mp hgoes
    unfold frontendRequeueTraceInst
    split <;> exact ⟨fun _ => hle, fun hend => absurd hend hended⟩
  | delivered inst s₁ acquired room mem during profiler counters bp rc stallUntil reason =>
    obtain ⟨hgoes, hle⟩ := hacquired acquired
    have hended : s₁.refCpu.simEnd ≠ true := Bool.eq_false_iff.mp hgoes
    exact ⟨fun _ => hle, fun hend => absurd hend hended⟩

/-- Without limits, only the fetch stage touches the front end. -/
theorem stage_sameFront (hcfg : Unlimited cfg) (env : Env) {b : Boundary} (hb : b ≠ .fetch)
    (s : Sim P B) : SameFront s (stage cfg env b s) := by
  cases b with
  | fetch => exact absurd rfl hb
  | advance =>
    obtain ⟨bl, pf, w, ib, cb, lb, hadvance⟩ := advanceCycle_unlimited hcfg s
    rw [stage, hadvance]
    exact ⟨rfl, rfl⟩
  | commit =>
    have hloop : SameFront s
        (commitLoop cfg cfg.commitWidth { s with instsBefore := s.instructionsRetired }) :=
      commitLoop_rule (fun hs _ => ⟨hs.refCpu, hs.preFetchBuffer⟩) cfg.commitWidth ⟨rfl, rfl⟩
    exact ⟨hloop.refCpu, hloop.preFetchBuffer⟩
  | issue =>
    refine issueStage_rule (I := SameFront s) (fun hs ht => ?_) (fun q l hs => ?_) ⟨rfl, rfl⟩
    · cases ht
      exact ⟨hs.refCpu, hs.preFetchBuffer⟩
    · cases q <;> exact ⟨hs.refCpu, hs.preFetchBuffer⟩
  | dispatch =>
    have hloop : SameFront s (s.dispatchLoop cfg cfg.dispatchWidth).2 := by
      refine dispatchLoop_rule (fun {s₁ op rest} hs _ _ => ?_) cfg.dispatchWidth ⟨rfl, rfl⟩
      unfold dispatchOne
      cases iqTarget op <;> exact ⟨hs.refCpu, hs.preFetchBuffer⟩
    exact ⟨hloop.refCpu, hloop.preFetchBuffer⟩
  | _ => exact ⟨rfl, rfl⟩

/-- **The reference CPU** is asked for the records up to the end of the trace, and no
further. -/
theorem Reach.inTrace (hcfg : Unlimited cfg) (htrace : EndsAt env k) {b : Boundary}
    (h : Reach cfg env b s) : InTrace k s := by
  induction h with
  | start => exact ⟨fun _ => Nat.zero_le k, fun hend => absurd hend Bool.false_ne_true⟩
  | @step b s _ _ ih =>
    by_cases hb : b = .fetch
    · rw [hb]
      exact fetchStage_rule (fun hs hturn => hs.fetches htrace hturn)
        (fun _ hs => hs.of_same ⟨rfl, rfl⟩) ih
    · exact ih.of_same (stage_sameFront hcfg env hb s)

omit [CachePrefetcher P] [BranchPredictor B] in
/-- The records before the end of the trace. -/
theorem consumed_eq (htrace : EndsAt env k) {n : ℕ} (hn : n ≤ k) :
    ((List.range n).map env.stream).filter (fun inst => !inst.isTerminator)
      = (List.range n).map env.stream := by
  rw [List.filter_eq_self]
  intro inst hinst
  obtain ⟨m, hm, rfl⟩ := List.mem_map.mp hinst
  rw [htrace.goes m ((List.mem_range.mp hm).trans_le hn), Bool.not_false]

omit [CachePrefetcher P] [BranchPredictor B] in
theorem InTrace.consumed_eq (htrace : EndsAt env k) (h : InTrace k s) :
    consumed env s = (List.range (min s.refCpu.steps k)).map env.stream := by
  rcases hend : s.refCpu.simEnd with - | -
  · have hle := h.goes hend
    rw [min_eq_left hle]
    exact Sim.consumed_eq htrace hle
  · obtain ⟨hsteps, -⟩ := h.ended hend
    rw [consumed, hsteps, consumed_step, htrace.last, if_pos rfl, List.append_nil,
      min_eq_right (Nat.le_succ k)]
    exact Sim.consumed_eq htrace le_rfl

/-- Where the trace has ended and nothing is in the pipeline, every record has retired. -/
theorem Emptied.retired_eq (hcfg : Unlimited cfg) (htrace : EndsAt env k)
    (h : Reach cfg env .returns s) (hempty : Emptied s) (hend : s.refCpu.simEnd = true) :
    s.hist.retired.map OpEntry.inst = (List.range k).map env.stream := by
  have hc := h.invariant (conserved_invariant cfg env _) (commitsIn_true cfg env)
  have htr := h.inTrace hcfg htrace
  obtain ⟨hsteps, hbuffer⟩ := htr.ended hend
  have hwindow : s.window cfg = [] := by
    rw [window, slots, hempty.robCount]
    rfl
  have hstream := hc.stream
  rw [htr.consumed_eq htrace, hsteps, min_eq_right (Nat.le_succ k), pipeline, hwindow,
    hempty.fetchQueue, hempty.instBuffer, hbuffer, List.append_nil, List.append_nil,
    List.append_nil, List.append_nil] at hstream
  exact hstream.symm

/-! ### The last prefetches -/

/-- Everything has retired, and the loop goes on for the prefetch queues alone. -/
structure Draining (cfg : Config P B) (env : Env) (s : Sim P B) : Prop where
  reach : Reach cfg env .returns s
  emptied : Emptied s
  ended : s.refCpu.simEnd = true
  buffer : s.preFetchBuffer = []

/-- How many prefetches are queued. -/
def queued (s : Sim P B) : ℕ :=
  s.mem.icachePrefetch.queue.length + s.mem.dcachePrefetch.queue.length

omit [CachePrefetcher P] [BranchPredictor B] in
theorem queued_servicePrefetchQueues (cfg : MemConfig P) (m : MemSubsystem P) (t : ℕ) :
    (m.servicePrefetchQueues cfg t).icachePrefetch.queue.length
        = m.icachePrefetch.queue.length - cfg.issueRate .icache ∧
      (m.servicePrefetchQueues cfg t).dcachePrefetch.queue.length
        = m.dcachePrefetch.queue.length - cfg.issueRate .dcache :=
  ⟨servicePrefetchQueue_length _ _ _ _ _, servicePrefetchQueue_length _ _ _ _ _⟩

/-- The fetch stage does nothing after the end of the trace. -/
theorem fetchStage_exhausted (cfg : Config P B) (env : Env)
    (h : s.frontendTraceExhausted = true) :
    ∃ hint, s.fetchStage cfg env = s.setFrontendBoundHint hint := by
  have hloop (n : ℕ) : (fetchLoop cfg env n s 0 true .none).1 = s := by
    cases n with
    | zero => rfl
    | succ n =>
      rw [fetchLoop, h, if_pos rfl]
      split <;> rfl
  unfold fetchStage
  split
  · dsimp only
    rw [hloop]
    exact ⟨_, rfl⟩
  · exact ⟨_, rfl⟩

/-- Every cycle serves the queues. -/
theorem Draining.cycle (hcfg : CanRun cfg) (h : Draining cfg env s)
    (hrun : s.running = true) (hpos : 0 < s.queued) :
    Draining cfg env (s.cycle cfg env) ∧ (s.cycle cfg env).queued < s.queued := by
  have hrests : Rests env s (s.upTo cfg env .fetch) :=
    h.emptied.upTo_fetch hcfg.toUnlimited h.reach.represents
  have hreach := h.reach.cycle hrun
  obtain ⟨profiler, hcycle⟩ := cycle_eq_fetch cfg env s
  generalize s.upTo cfg env .fetch = t at hrests hcycle
  -- the trace is exhausted, so the fetch stage does nothing
  have hexhausted : t.frontendTraceExhausted = true := by
    cases hrests
    rw [frontendTraceExhausted, Bool.and_eq_true, List.isEmpty_iff]
    exact ⟨h.ended, h.buffer⟩
  obtain ⟨hint, hfetch⟩ := fetchStage_exhausted cfg env hexhausted
  rw [hfetch] at hcycle
  -- what is left is the service of the two queues
  obtain ⟨hicache, hdcache⟩ := queued_servicePrefetchQueues cfg.mem t.mem t.totalCycles
  have hqueues : t.mem.icachePrefetch = s.mem.icachePrefetch ∧
      t.mem.dcachePrefetch = s.mem.dcachePrefetch := by
    cases hrests
    exact ⟨rfl, rfl⟩
  rw [hqueues.1] at hicache
  rw [hqueues.2] at hdcache
  have hrate := hcfg.issueRate .icache
  have hrate' := hcfg.issueRate .dcache
  constructor
  · refine ⟨hreach, ?_, ?_, ?_⟩ <;> rw [hcycle] <;> cases hrests
    · exact ⟨h.emptied.robCount, h.emptied.fetchQueue, h.emptied.instBuffer⟩
    · exact h.ended
    · exact h.buffer
  · have hqueued : (s.cycle cfg env).queued
        = (s.mem.icachePrefetch.queue.length - cfg.mem.issueRate .icache)
          + (s.mem.dcachePrefetch.queue.length - cfg.mem.issueRate .dcache) := by
      rw [hcycle, ← hicache, ← hdcache]
      rfl
    rw [queued] at hpos
    rw [hqueued, queued]
    omega

/-- The loop ends, or the time is over. -/
structure Finished (cfg : Config P B) (env : Env) (s : Sim P B) : Prop where
  reach : Reach cfg env .returns s
  finished : maxSimTime < s.totalCycles ∨
    (Draining cfg env s ∧ s.loopCondition = false)

omit [CachePrefetcher P] [BranchPredictor B] in
theorem emptied_iff : Emptied s ↔
    (decide (s.robCount = 0) && s.fetchQueue.isEmpty && s.instBuffer.isEmpty) = true := by
  rw [Bool.and_eq_true, Bool.and_eq_true, decide_eq_true_eq, List.isEmpty_iff,
    List.isEmpty_iff]
  exact ⟨fun h => ⟨⟨h.robCount, h.fetchQueue⟩, h.instBuffer⟩,
    fun h => ⟨h.1.1, h.1.2, h.2⟩⟩

instance instDecidableEmptied (s : Sim P B) : Decidable (Emptied s) :=
  decidable_of_iff' _ emptied_iff

/-- What is left to do: the records that have not retired, and the end of the trace. -/
def left (k : ℕ) (s : Sim P B) : ℕ :=
  (k - s.instructionsRetired) + if Emptied s ∧ s.refCpu.simEnd = true then 0 else 1

/-- A loop that has ended within the time limit has retired the whole trace. -/
theorem Finished.completed (hcfg : CanRun cfg) (htrace : EndsAt env k) (h : Finished cfg env s)
    (htime : s.totalCycles ≤ maxSimTime) :
    s.loopCondition = false ∧ s.instructionsRetired = k ∧
      s.hist.retired.map OpEntry.inst = (List.range k).map env.stream := by
  obtain ⟨hdrain, hcondition⟩ := h.finished.resolve_left (by omega)
  have hretired := hdrain.emptied.retired_eq hcfg.toUnlimited htrace h.reach hdrain.ended
  have hcounted : s.instructionsRetired = s.hist.retired.length :=
    h.reach.invariant (counted_invariant cfg env _) (commitsIn_true cfg env)
  have hlen := congrArg List.length hretired
  rw [List.length_map, List.length_map, List.length_range] at hlen
  exact ⟨hcondition, hcounted.trans hlen, hretired⟩

end Sim

end TraceSim
