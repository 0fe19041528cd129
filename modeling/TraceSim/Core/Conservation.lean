/-
TraceSim/Core/Conservation.lean

Conservation of the instruction stream.

An instruction goes through five containers: the instruction buffer, the fetch
queue, the reorder buffer, the retired instructions and, when the front end has to
put it back, a buffer of one record.  Joined in the right order they are at every
step the records the reference CPU has returned (`Conserved`).  Only the fetch
loop takes a record in; every other step moves one op across a joint, or none.
-/
import TraceSim.Core.Representation

namespace TraceSim

open Relation

/-- What identifies an op in the stream: its record, its number and when it was
fetched. -/
def OpEntry.ident (op : OpEntry) : TraceInst × ℕ × ℕ :=
  (op.inst, op.entryId, op.fetchCycle)

namespace Sim

variable {P B : Type}

/-! ### The stream and the pipeline -/

/-- The records the reference CPU has returned, without the one that ends the
trace. -/
def consumed (env : Env) (s : Sim P B) : List TraceInst :=
  ((List.range s.refCpu.steps).map env.stream).filter fun inst => !inst.isTerminator

/-- The ops of the pipeline, oldest first, with those that have retired. -/
def pipeline (cfg : Config P B) (s : Sim P B) : List OpEntry :=
  s.hist.retired ++ s.window cfg ++ s.fetchQueue ++ s.instBuffer

/-- The invariant of the stream. -/
structure Conserved (cfg : Config P B) (env : Env) (s : Sim P B) : Prop where
  represents : Represents cfg s
  stream : consumed env s = (s.pipeline cfg).map OpEntry.inst ++ s.preFetchBuffer
  ids : (s.pipeline cfg).map OpEntry.entryId = List.range s.nextEntryId
  buffer : s.preFetchBuffer.length ≤ 1
  drops : s.hist.droppedRequeues = 0
  stepsAfterEnd : s.hist.stepsAfterEnd = 0
  last : ∀ n < s.refCpu.steps, (env.stream n).isTerminator = true →
    n + 1 = s.refCpu.steps ∧ s.refCpu.simEnd = true

variable {cfg : Config P B} {env : Env} {s s' : Sim P B}

theorem conserved_new (cfg : Config P B) (env : Env) : Conserved cfg env (Sim.new cfg) where
  represents := represents_new cfg
  stream := rfl
  ids := rfl
  buffer := Nat.zero_le _
  drops := rfl
  stepsAfterEnd := rfl
  last n hn := absurd hn (Nat.not_lt_zero n)

/-! ### Steps that take no record in -/

/-- The front end of `s'` has the same records as that of `s`. -/
structure SameSupply (s s' : Sim P B) : Prop where
  steps : s'.refCpu.steps = s.refCpu.steps
  simEnd : s.refCpu.simEnd = true → s'.refCpu.simEnd = true
  nextEntryId : s'.nextEntryId = s.nextEntryId
  preFetchBuffer : s'.preFetchBuffer = s.preFetchBuffer
  droppedRequeues : s'.hist.droppedRequeues = s.hist.droppedRequeues
  stepsAfterEnd : s'.hist.stepsAfterEnd = s.hist.stepsAfterEnd

theorem Conserved.of_same (h : Conserved cfg env s) (hr : Represents cfg s')
    (hs : SameSupply s s')
    (hp : (s'.pipeline cfg).map OpEntry.ident = (s.pipeline cfg).map OpEntry.ident) :
    Conserved cfg env s' := by
  have hinst : (s'.pipeline cfg).map OpEntry.inst = (s.pipeline cfg).map OpEntry.inst := by
    simpa [Function.comp_def, OpEntry.ident] using congrArg (List.map Prod.fst) hp
  have hids : (s'.pipeline cfg).map OpEntry.entryId
      = (s.pipeline cfg).map OpEntry.entryId := by
    simpa [Function.comp_def, OpEntry.ident] using congrArg (List.map fun p => p.2.1) hp
  refine ⟨hr, ?_, ?_, ?_, ?_, ?_, fun n hn ht => ?_⟩
  · rw [consumed, hs.steps, hinst, hs.preFetchBuffer]
    exact h.stream
  · rw [hids, hs.nextEntryId, h.ids]
  · rw [hs.preFetchBuffer]
    exact h.buffer
  · rw [hs.droppedRequeues, h.drops]
  · rw [hs.stepsAfterEnd, h.stepsAfterEnd]
  · rw [hs.steps] at hn ⊢
    exact (h.last n hn ht).imp id hs.simEnd

/-- A commit moves the head to the retired ops. -/
theorem Represents.pipeline_commitOne (h : Represents cfg s) (hcount : 0 < s.robCount) :
    (s.commitOne cfg).pipeline cfg = s.pipeline cfg := by
  have hretired : (s.commitOne cfg).hist.retired = s.hist.retired ++ [s.rob s.robHead] := rfl
  have hwindow := h.window_pop hcount
  rw [pipeline, pipeline, hwindow, hretired, List.append_assoc s.hist.retired,
    List.singleton_append]
  rfl

/-- A dispatch moves the front of the fetch queue to the reorder buffer. -/
theorem Represents.pipeline_dispatchOne (h : Represents cfg s) {op : OpEntry}
    {rest : List OpEntry} (hqueue : s.fetchQueue = op :: rest)
    (hfree : s.dispatchBlock cfg op = .none) :
    ((s.dispatchOne cfg op).pipeline cfg).map OpEntry.ident
      = (s.pipeline cfg).map OpEntry.ident := by
  have hident : (s.dispatchedOp op).ident = op.ident := rfl
  rw [pipeline, pipeline, h.window_dispatchOne hfree, dispatchOne_hist,
    dispatchOne_fetchQueue, dispatchOne_instBuffer, hqueue]
  simp [hident]

theorem dispatchOne_supply (cfg : Config P B) (s : Sim P B) (op : OpEntry) :
    SameSupply s (s.dispatchOne cfg op) := by
  unfold dispatchOne
  cases iqTarget op <;> exact ⟨rfl, id, rfl, rfl, rfl, rfl⟩

section

variable [CachePrefetcher P]

theorem Touched.supply {i : ℕ} {op' : OpEntry} (h : Touched cfg s i op' s') (q : Iq)
    (l : List ℕ) : SameSupply s (s'.setIq q l) := by
  cases h
  cases q <;> exact ⟨rfl, id, rfl, rfl, rfl, rfl⟩

/-- An attempt leaves every op where it is in the stream. -/
theorem Touched.pipeline {i : ℕ} {op' : OpEntry} (h : Touched cfg s i op' s')
    (hident : op'.ident = (s.rob i).ident) (q : Iq) (l : List ℕ) :
    ((s'.setIq q l).pipeline cfg).map OpEntry.ident
      = (s.pipeline cfg).map OpEntry.ident := by
  have hwindow := h.map_window hident q l
  simp only [Sim.pipeline, List.map_append, hwindow]
  cases h
  cases q <;> rfl

/-- An attempt leaves the entry it is about the same op. -/
theorem Outcome.ident {i : ℕ} {q : Iq} {ok : Bool} (h : Outcome cfg s i q s' ok) :
    ∃ op', Touched cfg s i op' s' ∧ op'.ident = (s.rob i).ident := by
  have hmem := MemSubsystem.During.refl cfg.mem s.totalCycles s.mem
  have hfinish (op : OpEntry) (b : Bool) : (finishStore op b).ident = op.ident := by
    simp only [OpEntry.ident, finishStore_inst, finishStore_entryId, finishStore_fetchCycle]
  cases h with
  | waits _ op' same executed cycle mem during profiler counters =>
    exact ⟨op', .intro mem during profiler s.loadProfileStats s.regReadyTime s.hist.lastMark
      counters, by rw [OpEntry.ident, same.inst, same.entryId, same.fetchCycle]; rfl⟩
  | executes _ whole op' same executed mem during profiler counters stats =>
    exact ⟨op', .intro mem during profiler stats _ _ counters,
      by rw [OpEntry.ident, same.inst, same.entryId, same.fetchCycle]; rfl⟩
  | sta =>
    exact ⟨_, .intro s.mem hmem s.profiler s.loadProfileStats s.regReadyTime s.hist.lastMark
      rfl, hfinish _ _⟩
  | std =>
    exact ⟨_, .intro s.mem hmem s.profiler s.loadProfileStats s.regReadyTime s.hist.lastMark
      rfl, hfinish _ _⟩

theorem Outcome.conserves {i : ℕ} {q : Iq} {ok : Bool} (h : Outcome cfg s i q s' ok)
    (l : List ℕ) :
    SameSupply s (s'.setIq q l) ∧ ((s'.setIq q l).pipeline cfg).map OpEntry.ident
      = (s.pipeline cfg).map OpEntry.ident := by
  obtain ⟨op', ht, hident⟩ := h.ident
  exact ⟨ht.supply q l, ht.pipeline hident q l⟩

end

/-! ### The fetch loop -/

theorem consumed_step (env : Env) (steps : ℕ) :
    ((List.range (steps + 1)).map env.stream).filter (fun inst => !inst.isTerminator)
      = ((List.range steps).map env.stream).filter (fun inst => !inst.isTerminator)
        ++ if (env.stream steps).isTerminator then [] else [env.stream steps] := by
  rw [List.range_succ, List.map_append, List.filter_append]
  congr 1
  cases e : (env.stream steps).isTerminator <;> simp [e]

/-- After a record has been acquired, the one-entry buffer is empty and the record
is the last of the stream. -/
theorem Conserved.acquired (h : Conserved cfg env s) {inst : TraceInst}
    (ha : Acquired env s inst s') :
    s'.preFetchBuffer = [] ∧
      consumed env s' = (s.pipeline cfg).map OpEntry.inst ++ [inst] ∧
      ∀ n < s'.refCpu.steps, (env.stream n).isTerminator = true →
        n + 1 = s'.refCpu.steps ∧ s'.refCpu.simEnd = true := by
  cases ha with
  | buffered _ rest front =>
    -- the buffer has at most one record, so it is empty now
    have hrest : rest = [] := by
      have hlen := h.buffer
      rw [front, List.length_cons] at hlen
      exact List.length_eq_zero_iff.mp (by omega)
    subst hrest
    exact ⟨rfl, front ▸ h.stream, h.last⟩
  | stepped empty running goes =>
    refine ⟨empty, ?_, fun n hn ht => ?_⟩
    · have hstream := h.stream
      rw [empty, List.append_nil] at hstream
      rw [consumed, consumed_step, goes, if_neg Bool.false_ne_true, ← hstream]
      rfl
    -- a terminator further back would have ended the trace before this step
    · rcases Nat.lt_succ_iff_lt_or_eq.mp hn with hn | rfl
      · exact absurd (h.last n hn ht).2 (running ▸ Bool.false_ne_true)
      · exact absurd ht (goes ▸ Bool.false_ne_true)

theorem Conserved.ended (h : Conserved cfg env s)
    (running : s.refCpu.simEnd = false)
    (last : (env.stream s.refCpu.steps).isTerminator = true)
    (hr : Represents cfg
      { s with refCpu := { steps := s.refCpu.steps + 1, simEnd := true } }) :
    Conserved cfg env
      { s with refCpu := { steps := s.refCpu.steps + 1, simEnd := true } } := by
  refine ⟨hr, ?_, h.ids, h.buffer, h.drops, h.stepsAfterEnd, fun n hn ht => ?_⟩
  · rw [consumed, consumed_step, last, if_pos rfl, List.append_nil]
    exact h.stream
  · rcases Nat.lt_succ_iff_lt_or_eq.mp hn with hn | rfl
    · exact absurd (h.last n hn ht).2 (running ▸ Bool.false_ne_true)
    · exact ⟨rfl, rfl⟩

section

variable [CachePrefetcher P]

theorem Conserved.fetches (h : Conserved cfg env s) (hr : Represents cfg s')
    (ht : FetchStep cfg env s s') : Conserved cfg env s' := by
  cases ht with
  | ended empty running last => exact h.ended running last hr
  | requeued inst s₁ acquired mem during stallUntil stallReason =>
    obtain ⟨hempty, hstream, hlast⟩ := h.acquired acquired
    obtain ⟨buffer, cpu, rfl⟩ := acquired.frame
    -- the record goes back to where it came from
    obtain rfl : buffer = [] := hempty
    exact ⟨hr, hstream, h.ids, Nat.le_refl 1, h.drops, h.stepsAfterEnd, hlast⟩
  | delivered inst s₁ acquired room mem during profiler counters bp rc stallUntil reason =>
    obtain ⟨hempty, hstream, hlast⟩ := h.acquired acquired
    obtain ⟨buffer, cpu, rfl⟩ := acquired.frame
    obtain rfl : buffer = [] := hempty
    -- the record enters at the young end, with the next number
    have hpipe : s.hist.retired ++ s.window cfg ++ s.fetchQueue
        ++ (s.instBuffer ++ [s.fetchedOp inst]) = s.pipeline cfg ++ [s.fetchedOp inst] :=
      (List.append_assoc _ _ _).symm
    have hinst := (congrArg (List.map OpEntry.inst) hpipe).trans List.map_append
    have hids := (congrArg (List.map OpEntry.entryId) hpipe).trans List.map_append
    refine ⟨hr, ?_, ?_, Nat.zero_le _, h.drops, h.stepsAfterEnd, hlast⟩
    · exact hstream.trans (hinst.symm.trans (List.append_nil _).symm)
    · rw [h.ids] at hids
      exact hids.trans List.range_succ.symm

/-! ### What the stream says of the reorder buffer -/

omit [CachePrefetcher P] in
/-- Every op in the reorder buffer carries a record of the stream. -/
theorem Conserved.exists_stream (h : Conserved cfg env s) {op : OpEntry}
    (hop : op ∈ s.window cfg) : ∃ n, env.stream n = op.inst := by
  have hmem : op.inst ∈ consumed env s := by
    rw [h.stream, pipeline]
    simp only [List.map_append, List.mem_append, List.mem_map]
    exact Or.inl (Or.inl (Or.inl (Or.inr ⟨op, hop, rfl⟩)))
  obtain ⟨n, -, hn⟩ := List.mem_map.mp (List.mem_filter.mp hmem).1
  exact ⟨n, hn⟩

omit [CachePrefetcher P] in
/-- The ops are numbered in the order of the pipeline. -/
theorem Conserved.pairwise_ids (h : Conserved cfg env s) :
    (s.pipeline cfg).Pairwise fun op op' => op.entryId < op'.entryId := by
  have hids := List.pairwise_lt_range (n := s.nextEntryId)
  rw [← h.ids, List.pairwise_map] at hids
  exact hids

omit [CachePrefetcher P] in
/-- The slots are in the order of their ops. -/
theorem Conserved.pairwise_slots (h : Conserved cfg env s) :
    (s.slots cfg).Pairwise fun i j => (s.rob i).entryId < (s.rob j).entryId := by
  have hids := h.pairwise_ids
  rw [pipeline, List.append_assoc, List.append_assoc, List.pairwise_append] at hids
  have hwindow := (List.pairwise_append.mp hids.2.1).1
  rwa [window, List.pairwise_map] at hwindow

omit [CachePrefetcher P] in
/-- A property of the records of the stream holds of the ops in the reorder buffer. -/
theorem Conserved.forall_slots (h : Conserved cfg env s) {p : TraceInst → Prop}
    (hstream : ∀ n, p (env.stream n)) : ∀ i ∈ s.slots cfg, p (s.rob i).inst := by
  intro i hi
  obtain ⟨n, hn⟩ := h.exists_stream (List.mem_map_of_mem hi)
  exact hn ▸ hstream n

/-! ### Every step -/

/-- A step moves one op across a joint, or none, or it is a turn of the fetch loop. -/
theorem Step.supply {C : Sim P B → Prop} (h : Step cfg env C s s') (hr : Represents cfg s) :
    SameSupply s s' ∧ (s'.pipeline cfg).map OpEntry.ident = (s.pipeline cfg).map OpEntry.ident ∨
      FetchStep cfg env s s' := by
  cases h with
  | quiet _ hquiet =>
    refine Or.inl ⟨?_, ?_⟩ <;> cases hquiet
    · exact ⟨rfl, ‹_›, rfl, rfl, rfl, rfl⟩
    · rfl
  | commits hdone _ =>
    have hcount := (headDone_iff.mp hdone).1
    exact Or.inl ⟨⟨rfl, id, rfl, rfl, rfl, rfl⟩, congrArg _ (hr.pipeline_commitOne hcount)⟩
  | waits q i _ hmem houtcome =>
    have hconserves := houtcome.conserves (s'.iq q)
    rw [setIq_self] at hconserves
    exact Or.inl hconserves
  | issues q kept i rest s₁ hqueue houtcome => exact Or.inl (houtcome.conserves (kept ++ rest))
  | dispatches op rest hqueue hfree =>
    exact Or.inl ⟨dispatchOne_supply cfg s op, hr.pipeline_dispatchOne hqueue hfree⟩
  | decodes op rest hbuffer hroom =>
    refine Or.inl ⟨⟨rfl, id, rfl, rfl, rfl, rfl⟩, congrArg _ ?_⟩
    have hpipe : s.hist.retired ++ s.window cfg ++ (s.fetchQueue ++ [op]) ++ rest
        = s.pipeline cfg := by
      rw [pipeline, hbuffer]
      simp
    exact hpipe
  | fetches _ hturn => exact Or.inr hturn

/-- **Every step** conserves the stream. -/
theorem conserved_invariant (cfg : Config P B) (env : Env) (C : Sim P B → Prop) :
    StepInvariant cfg env C (Conserved cfg env) where
  new := conserved_new cfg env
  step {s s'} h hstep := by
    have hr := (represents_invariant cfg env C).step h.represents hstep
    rcases hstep.supply h.represents with ⟨hsupply, hpipe⟩ | hturn
    · exact h.of_same hr hsupply hpipe
    · exact h.fetches hr hturn

/-- The pipeline only grows, at its young end. -/
theorem Step.pipeline_prefix {C : Sim P B → Prop} (h : Step cfg env C s s')
    (hr : Represents cfg s) :
    (s.pipeline cfg).map OpEntry.ident <+: (s'.pipeline cfg).map OpEntry.ident := by
  rcases h.supply hr with ⟨-, hpipe⟩ | hturn
  · exact hpipe ▸ List.prefix_rfl
  · have hbuffer := hturn.instBuffer_cases
    have hframe : s'.hist.retired = s.hist.retired ∧ s'.window cfg = s.window cfg ∧
        s'.fetchQueue = s.fetchQueue := by
      cases hturn.frame
      exact ⟨rfl, rfl, rfl⟩
    obtain ⟨hretired, hwindow, hqueue⟩ := hframe
    rw [pipeline, pipeline, hretired, hwindow, hqueue]
    rcases hbuffer with heq | ⟨-, inst, heq⟩
    · exact heq ▸ List.prefix_rfl
    · rw [heq, ← List.append_assoc]
      exact (List.prefix_append _ _).map _

theorem Conserved.pipeline_prefix {C : Sim P B → Prop} (h : Conserved cfg env s)
    (hsteps : ReflTransGen (Step cfg env C) s s') :
    (s.pipeline cfg).map OpEntry.ident <+: (s'.pipeline cfg).map OpEntry.ident := by
  have hinv := conserved_invariant cfg env C
  induction hsteps with
  | refl => exact List.prefix_rfl
  | tail hsteps hstep ih =>
    exact ih.trans (hstep.pipeline_prefix (hinv.steps h hsteps).represents)

/-- Where no number is given out, the pipeline stays as it is. -/
theorem Conserved.pipeline_eq {C : Sim P B → Prop} (h : Conserved cfg env s)
    (hsteps : ReflTransGen (Step cfg env C) s s') (hnext : s'.nextEntryId = s.nextEntryId) :
    (s'.pipeline cfg).map OpEntry.ident = (s.pipeline cfg).map OpEntry.ident := by
  have hlen {s : Sim P B} (h : Conserved cfg env s) :
      ((s.pipeline cfg).map OpEntry.ident).length = s.nextEntryId := by
    have hids := congrArg List.length h.ids
    rwa [List.length_map, List.length_range, ← List.length_map OpEntry.ident] at hids
  have hconserved := (conserved_invariant cfg env C).steps h hsteps
  refine ((h.pipeline_prefix hsteps).eq_of_length ?_).symm
  rw [hlen h, hlen hconserved, hnext]

variable [BranchPredictor B]

/-- **Conservation of the stream**: the records returned so far are the retired
instructions, the reorder buffer, the fetch queue, the instruction buffer and the
one-entry buffer, in this order; the ops are numbered without a gap; no record is
dropped and none is asked for after the end. -/
theorem stream_conserved (cfg : Config P B) (env : Env) {b : Boundary} {s : Sim P B}
    (h : Reach cfg env b s) :
    consumed env s
        = (s.hist.retired ++ s.window cfg ++ s.fetchQueue ++ s.instBuffer).map OpEntry.inst
          ++ s.preFetchBuffer ∧
      (s.hist.retired ++ s.window cfg ++ s.fetchQueue ++ s.instBuffer).map OpEntry.entryId
        = List.range s.nextEntryId ∧
      s.preFetchBuffer.length ≤ 1 ∧ s.hist.droppedRequeues = 0 ∧
      s.hist.stepsAfterEnd = 0 ∧
      ∀ n < s.refCpu.steps, (env.stream n).isTerminator = true →
        n + 1 = s.refCpu.steps ∧ s.refCpu.simEnd = true := by
  have hc := h.invariant (conserved_invariant cfg env _) (commitsIn_true cfg env)
  exact ⟨hc.stream, hc.ids, hc.buffer, hc.drops, hc.stepsAfterEnd, hc.last⟩

end

/-- Twelve ALU instructions in one line, and an ebreak. -/
def straightLine : Env :=
  ofTrace ((List.range 12).map fun n =>
    { pc := BitVec.ofNat 32 (4 * n), opcode := 0b0010011, rd := 1 })

theorem stream_conserved_straightLine :
    ∃ s, Reach shippedConfig straightLine .returns s ∧ s.hist.retired.length = 4 ∧
      s.robCount = 8 ∧ s.refCpu.steps = 13 ∧
      (s.hist.retired ++ s.window shippedConfig ++ s.fetchQueue
        ++ s.instBuffer).map OpEntry.entryId = List.range s.nextEntryId := by
  have hrun : (runFor shippedConfig straightLine 137 (Sim.new shippedConfig)).any (fun s =>
      decide (s.hist.retired.length = 4 ∧ s.robCount = 8 ∧ s.refCpu.steps = 13)) = true := by
    decide +kernel
  obtain ⟨s, hs, htest⟩ := exists_reach hrun
  obtain ⟨hretired, hrob, hsteps⟩ := of_decide_eq_true htest
  exact ⟨s, hs, hretired, hrob, hsteps, (stream_conserved shippedConfig straightLine hs).2.1⟩

end Sim

end TraceSim
