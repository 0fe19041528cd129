/-
TraceSim/Core/Dependences.lean

True data dependences and the scoreboard.

Readiness is one cell for each register, `reg_ready_time`, which an op writes when
it issues; dispatch does not reserve it.  The cell therefore speaks for the op that
wrote it last (`Scoreboard`).  An op that issues has waited for the producer of a
source if the cell stands for the producer (`dependences_respected`).  When the
producer has not issued yet, or an op that completes earlier has written the cell
since, the cell tells of another op.
-/
import TraceSim.Core.IssueQueues

namespace TraceSim

open Sim

/-- The source registers that an issue from the queue waits for. -/
def Iq.sources : Iq → TraceInst → List (Fin 32)
  | .alu, inst => [inst.rs1, inst.rs2]
  | .ldu, inst => [inst.rs1]
  | .sta, inst => [inst.rs1]
  | .std, inst => [inst.rs2]
  | .bru, inst => [inst.rs1, inst.rs2]

namespace Sim

variable {P B : Type} {cfg : Config P B} {env : Env} {s s' : Sim P B}

/-! ### What an issue has waited for -/

theorem execAttempt_ready {latency i : ℕ} (h : (execAttempt latency s i).2 = true) :
    s.isRegisterReady (s.rob i).inst.rs1 = true ∧
      s.isRegisterReady (s.rob i).inst.rs2 = true := by
  unfold execAttempt at h
  dsimp only at h
  split at h
  · rename_i hready
    exact (Bool.and_eq_true _ _).mp hready
  · cases h

/-- **An op that issues** has found its sources ready. -/
theorem attempt_ready [CachePrefetcher P] {q : Iq} {i : ℕ}
    (h : (attempt cfg q s i).2 = true) {r : Fin 32} (hr : r ∈ q.sources (s.rob i).inst) :
    s.regReadyTime r ≤ s.totalCycles := by
  suffices hready : s.isRegisterReady r = true from of_decide_eq_true hready
  -- each attempt tests its own operands
  cases q with
  | alu =>
    obtain ⟨h1, h2⟩ := execAttempt_ready h
    simp only [Iq.sources, List.mem_cons, List.not_mem_nil, or_false] at hr
    rcases hr with rfl | rfl
    · exact h1
    · exact h2
  | ldu =>
    obtain rfl := List.mem_singleton.mp hr
    by_contra hwaits
    rw [attempt, lduAttempt, tryIssueLoad, if_pos (by simpa using hwaits)] at h
    cases h
  | sta =>
    obtain rfl := List.mem_singleton.mp hr
    by_contra hwaits
    simp [attempt, staAttempt, hwaits] at h
  | std =>
    obtain rfl := List.mem_singleton.mp hr
    by_contra hwaits
    simp [attempt, stdAttempt, hwaits] at h
  | bru =>
    obtain ⟨h1, h2⟩ := execAttempt_ready h
    simp only [Iq.sources, List.mem_cons, List.not_mem_nil, or_false] at hr
    rcases hr with rfl | rfl
    · exact h1
    · exact h2

/-! ### The scoreboard -/

/-- The ops that have been dispatched, oldest first. -/
def dispatched (cfg : Config P B) (s : Sim P B) : List OpEntry :=
  s.hist.retired ++ s.window cfg

/-- The scoreboard invariant. -/
structure Scoreboard (cfg : Config P B) (env : Env) (s : Sim P B) : Prop where
  conserved : Conserved cfg env s
  /-- The retired ops have completed. -/
  retired : ∀ op ∈ s.hist.retired, op.executed = true ∧ op.executeCycle ≤ s.totalCycles
  /-- A cell holds when the op that wrote it completes. -/
  marks : ∀ r n, s.hist.lastMark r = some n →
    ∃ op ∈ s.dispatched cfg, op.entryId = n ∧ op.executed = true ∧
      op.executeCycle = s.regReadyTime r

theorem scoreboard_new (cfg : Config P B) (env : Env) : Scoreboard cfg env (Sim.new cfg) where
  conserved := conserved_new cfg env
  retired op hop := by cases hop
  marks r n h := by cases h

/-- Two ops of the pipeline with one number are the same op. -/
theorem Conserved.eq_of_entryId (h : Conserved cfg env s) {op op' : OpEntry}
    (hop : op ∈ s.pipeline cfg) (hop' : op' ∈ s.pipeline cfg)
    (hid : op.entryId = op'.entryId) : op = op' := by
  have hnodup : ((s.pipeline cfg).map OpEntry.entryId).Nodup := h.ids ▸ List.nodup_range
  exact List.inj_on_of_nodup_map hnodup hop hop' hid

theorem pipeline_eq_dispatched (cfg : Config P B) (s : Sim P B) :
    s.pipeline cfg = s.dispatched cfg ++ (s.fetchQueue ++ s.instBuffer) := by
  rw [pipeline, dispatched, List.append_assoc _ s.fetchQueue]

theorem Represents.dispatched_commitOne (h : Represents cfg s) (hcount : 0 < s.robCount) :
    (s.commitOne cfg).dispatched cfg = s.dispatched cfg := by
  have hretired : (s.commitOne cfg).hist.retired = s.hist.retired ++ [s.rob s.robHead] := rfl
  rw [dispatched, dispatched, h.window_pop hcount, hretired, List.append_assoc,
    List.singleton_append]

theorem Represents.waiting (h : Represents cfg s) {q : Iq} {i : ℕ} (hi : i ∈ s.iq q) :
    (s.rob i).executed = false := by
  obtain ⟨hslot, haw⟩ := h.mem_of_mem_iq hi
  by_contra hexec
  rw [Iq.awaits_executed (h.live i hslot) (by simpa using hexec)] at haw
  cases haw

/-- A cell of `s'` is as it was in `s`, or the op `op'` has written it. -/
def MarkedBy (s s' : Sim P B) (op' : OpEntry) : Prop :=
  ∀ r n, s'.hist.lastMark r = some n →
    (s.hist.lastMark r = some n ∧ s'.regReadyTime r = s.regReadyTime r) ∨
    (n = op'.entryId ∧ op'.executed = true ∧ op'.executeCycle = s'.regReadyTime r)

section

variable [CachePrefetcher P]

/-- What an attempt writes to the scoreboard. -/
theorem Outcome.marks {i : ℕ} {q : Iq} {ok : Bool} (h : Outcome cfg s i q s' ok) :
    ∃ op', Touched cfg s i op' s' ∧ MarkedBy s s' op' := by
  have hmem := MemSubsystem.During.refl cfg.mem s.totalCycles s.mem
  cases h with
  | waits _ op' same executed cycle mem during profiler counters =>
    exact ⟨op', .intro mem during profiler s.loadProfileStats s.regReadyTime
      s.hist.lastMark counters, fun r n hm => Or.inl ⟨hm, rfl⟩⟩
  | executes _ whole op' same executed mem during profiler counters stats =>
    refine ⟨op', .intro mem during profiler stats _ _ counters, fun r n hm => ?_⟩
    simp only [markedBy, markedTimes] at hm ⊢
    -- register 0 has no cell
    by_cases hrd : op'.inst.rd ≠ 0
    · rw [if_pos hrd] at hm ⊢
      by_cases hr : r = op'.inst.rd
      · subst hr
        rw [Function.update_self, Option.some.injEq] at hm
        exact Or.inr ⟨hm.symm, executed, by rw [Function.update_self]⟩
      · rw [Function.update_of_ne hr] at hm ⊢
        exact Or.inl ⟨hm, rfl⟩
    · rw [if_neg hrd] at hm ⊢
      exact Or.inl ⟨hm, rfl⟩
  | sta =>
    exact ⟨_, .intro s.mem hmem s.profiler s.loadProfileStats s.regReadyTime
      s.hist.lastMark rfl, fun r n hm => Or.inl ⟨hm, rfl⟩⟩
  | std =>
    exact ⟨_, .intro s.mem hmem s.profiler s.loadProfileStats s.regReadyTime
      s.hist.lastMark rfl, fun r n hm => Or.inl ⟨hm, rfl⟩⟩

/-- **An attempt** keeps the scoreboard invariant: the op that wrote a cell has
executed, so it is not the op that is tried. -/
theorem Scoreboard.attempt (h : Scoreboard cfg env s) {i : ℕ} {q : Iq} {ok : Bool}
    (hi : i ∈ s.iq q) (ho : Outcome cfg s i q s' ok) {l : List ℕ}
    (hc : Conserved cfg env (s'.setIq q l)) : Scoreboard cfg env (s'.setIq q l) := by
  obtain ⟨op', ht, hmarks⟩ := ho.marks
  have hwaits := h.conserved.represents.waiting hi
  have hslot := (h.conserved.represents.mem_of_mem_iq hi).1
  have hretired : s'.hist.retired = s.hist.retired := by
    cases ht
    rfl
  have hcycles : s'.totalCycles = s.totalCycles := by
    cases ht
    rfl
  have hwindow : (s'.setIq q l).window cfg
      = (s.slots cfg).map (Function.update s.rob i op') := by
    rw [window, ht.slots, setIq_rob, ht.rob]
  refine ⟨hc, ?_, fun r n hm => ?_⟩
  · rw [setIq_hist, setIq_totalCycles, hretired, hcycles]
    exact h.retired
  · rw [setIq_hist] at hm
    simp only [dispatched, setIq_hist, setIq_regReadyTime, hretired, hwindow, List.mem_append]
    rcases hmarks r n hm with ⟨hm, hr⟩ | ⟨hid, hexec, hcycle⟩
    -- an older mark: its op has executed, so the attempt was on another slot
    · obtain ⟨op, hop, hid, hexec, hcycle⟩ := h.marks r n hm
      refine ⟨op, (List.mem_append.mp hop).imp id fun hop => ?_, hid, hexec, hr ▸ hcycle⟩
      obtain ⟨j, hj, rfl⟩ := List.mem_map.mp hop
      refine List.mem_map.mpr ⟨j, hj, Function.update_of_ne ?_ _ _⟩
      rintro rfl
      exact Bool.false_ne_true (hwaits.symm.trans hexec)
    -- a new mark: it is that of the op that was tried
    · exact ⟨op', Or.inr (List.mem_map.mpr ⟨i, hslot, Function.update_self _ _ _⟩), hid.symm,
        hexec, hcycle⟩

/-- The fetch loop does not touch the scoreboard. -/
theorem FetchStep.scoreboard (h : FetchStep cfg env s s') :
    s'.hist.retired = s.hist.retired ∧ s'.hist.lastMark = s.hist.lastMark ∧
      s'.regReadyTime = s.regReadyTime ∧ s'.totalCycles = s.totalCycles := by
  cases h.frame
  exact ⟨rfl, rfl, rfl, rfl⟩

/-- **Every step** keeps the scoreboard invariant. -/
theorem scoreboard_invariant (cfg : Config P B) (env : Env) (C : Sim P B → Prop) :
    StepInvariant cfg env C (Scoreboard cfg env) where
  new := scoreboard_new cfg env
  step {s s'} h hstep := by
    have hc := (conserved_invariant cfg env C).step h.conserved hstep
    have hr := h.conserved.represents
    cases hstep with
    | quiet _ hquiet =>
      cases hquiet with
      | intro simEnd ends totalCycles time mem profiler =>
        exact ⟨hc, fun op hop => (h.retired op hop).imp id fun hle => hle.trans time, h.marks⟩
    -- the head moves from the window to the retired ops
    | commits hdone _ =>
      obtain ⟨hcount, hexec, hcycle⟩ := headDone_iff.mp hdone
      refine ⟨hc, fun op hop => ?_, fun r n hm => ?_⟩
      · rcases List.mem_append.mp hop with hop | hop
        · exact h.retired op hop
        · exact List.mem_singleton.mp hop ▸ ⟨hexec, hcycle⟩
      · rw [hr.dispatched_commitOne hcount]
        exact h.marks r n hm
    | waits q i _ hmem houtcome =>
      have hattempt := h.attempt hmem houtcome (l := s'.iq q)
      rw [setIq_self] at hattempt
      exact hattempt hc
    | issues q kept i rest s₁ hqueue houtcome =>
      exact h.attempt (hqueue ▸ List.mem_append_right _ List.mem_cons_self) houtcome hc
    | dispatches op rest hqueue hfree =>
      refine ⟨hc, ?_, fun r n hm => ?_⟩
      · rw [dispatchOne_hist, dispatchOne_totalCycles]
        exact h.retired
      · rw [dispatchOne_hist] at hm
        obtain ⟨op', hop', hmark⟩ := h.marks r n hm
        refine ⟨op', ?_, (dispatchOne_regReadyTime cfg s op).symm ▸ hmark⟩
        rw [dispatched, dispatchOne_hist, hr.window_dispatchOne hfree, ← List.append_assoc]
        exact List.mem_append_left _ hop'
    | decodes op rest hbuffer hroom => exact ⟨hc, h.retired, h.marks⟩
    | fetches _ hturn =>
      obtain ⟨hpipe, -⟩ := hturn.samePipe
      obtain ⟨hretired, hlast, hcells, hcycles⟩ := hturn.scoreboard
      refine ⟨hc, ?_, fun r n hm => ?_⟩
      · rw [hretired, hcycles]
        exact h.retired
      · rw [hlast] at hm
        have hdispatched : s'.dispatched cfg = s.dispatched cfg := by
          rw [dispatched, dispatched, window, window, hretired, hpipe.slots, hpipe.rob]
        rw [hdispatched, hcells]
        exact h.marks r n hm

end

/-! ### Producers -/

/-- The op is older than the op in slot `i` and writes register `r`. -/
def WriterBefore (cfg : Config P B) (s : Sim P B) (i : ℕ) (r : Fin 32) (op : OpEntry) :
    Prop :=
  op ∈ s.pipeline cfg ∧ op.entryId < (s.rob i).entryId ∧ op.inst.rd = r

/-- The op is the youngest that is older than the op in slot `i` and writes register
`r`. -/
def Producer (cfg : Config P B) (s : Sim P B) (i : ℕ) (r : Fin 32) (op : OpEntry) : Prop :=
  WriterBefore cfg s i r op ∧
    ∀ op' ∈ s.pipeline cfg, WriterBefore cfg s i r op' → op'.entryId ≤ op.entryId

instance (cfg : Config P B) (s : Sim P B) (i : ℕ) (r : Fin 32) (op : OpEntry) :
    Decidable (WriterBefore cfg s i r op) :=
  inferInstanceAs (Decidable (_ ∧ _ ∧ _))

instance (cfg : Config P B) (s : Sim P B) (i : ℕ) (r : Fin 32) (op : OpEntry) :
    Decidable (Producer cfg s i r op) :=
  inferInstanceAs (Decidable (_ ∧ _))

/-- The ready cell of register `r` stands for a producer in the reorder buffer: the
op that wrote it last is the producer, or the producer has issued too and completes
no later. -/
def CellStandsFor (cfg : Config P B) (s : Sim P B) (r : Fin 32) (op : OpEntry) : Prop :=
  op ∈ s.window cfg → ∃ w ∈ s.dispatched cfg, s.hist.lastMark r = some w.entryId ∧
    (w = op ∨ op.executed = true ∧ op.executeCycle ≤ w.executeCycle)

instance (cfg : Config P B) (s : Sim P B) (r : Fin 32) (op : OpEntry) :
    Decidable (CellStandsFor cfg s r op) :=
  inferInstanceAs (Decidable (_ → _))

/-- What is older than an op in the reorder buffer has been dispatched. -/
theorem Conserved.mem_dispatched (h : Conserved cfg env s) {i : ℕ} (hi : i ∈ s.slots cfg)
    {op : OpEntry} (hop : op ∈ s.pipeline cfg)
    (hage : op.entryId < (s.rob i).entryId) : op ∈ s.dispatched cfg := by
  have hids := h.pairwise_ids
  rw [pipeline_eq_dispatched] at hop hids
  rcases List.mem_append.mp hop with hop | hop
  · exact hop
  -- numbers grow along the pipeline, so what is behind the buffer is younger
  · have hwindow : s.rob i ∈ s.dispatched cfg :=
      List.mem_append_right _ (List.mem_map_of_mem hi)
    have hlt := (List.pairwise_append.mp hids).2.2 _ hwindow _ hop
    omega

/-- A producer the cell stands for completes by the time the cell says, or has
retired. -/
theorem Scoreboard.producer (h : Scoreboard cfg env s) {i : ℕ} (hi : i ∈ s.slots cfg)
    {r : Fin 32} {op : OpEntry} (hop : WriterBefore cfg s i r op)
    (hcell : CellStandsFor cfg s r op) (hready : s.regReadyTime r ≤ s.totalCycles) :
    op.executed = true ∧ op.executeCycle ≤ s.totalCycles := by
  obtain ⟨hmem, hage, -⟩ := hop
  rcases List.mem_append.mp (h.conserved.mem_dispatched hi hmem hage) with hret | hwin
  · exact h.retired op hret
  · have hpipe : ∀ op' ∈ s.dispatched cfg, op' ∈ s.pipeline cfg := by
      intro op' hop'
      rw [pipeline_eq_dispatched]
      exact List.mem_append_left _ hop'
    -- still in the buffer: read its completion off the cell
    obtain ⟨w, hw, hlast, hstands⟩ := hcell hwin
    obtain ⟨op', hop', hid, hexec, hcycle⟩ := h.marks r _ hlast
    obtain rfl := h.conserved.eq_of_entryId (hpipe op' hop') (hpipe w hw) hid
    have hdone : op'.executeCycle ≤ s.totalCycles := hcycle.trans_le hready
    rcases hstands with rfl | ⟨hissued, hle⟩
    · exact ⟨hexec, hdone⟩
    · exact ⟨hissued, hle.trans hdone⟩

section

variable [CachePrefetcher P] [BranchPredictor B]

/-- **True dependences are respected** wherever the ready cell stands for the
producer.  In every run, when an op leaves an issue queue and the cell of a source
register stands for the youngest older writer of the register, or that writer has
left the reorder buffer, the writer has executed and is complete. -/
theorem dependences_respected (cfg : Config P B) (env : Env) {q : Iq} {s : Sim P B} {i : ℕ}
    (h : Issues cfg env q s i) {r : Fin 32} (hr : r ∈ q.sources (s.rob i).inst)
    {op : OpEntry} (hop : Producer cfg s i r op) (hcell : CellStandsFor cfg s r op) :
    op.executed = true ∧ op.executeCycle ≤ s.totalCycles := by
  obtain ⟨hok, kept, rest, hboard⟩ := h.invariant (scoreboard_invariant cfg env _)
    (commitsIn_true cfg env)
  have hready := attempt_ready hok hr
  have hmem : i ∈ (s.setIq q (kept ++ i :: rest)).iq q := by simp
  have hslot := (hboard.conserved.represents.mem_of_mem_iq hmem).1
  have hop' : WriterBefore cfg (s.setIq q (kept ++ i :: rest)) i r op := by
    cases q <;> exact hop.1
  have hcell' : CellStandsFor cfg (s.setIq q (kept ++ i :: rest)) r op := by
    cases q <;> exact hcell
  have hdone := hboard.producer hslot hop' hcell' (by simpa using hready)
  rwa [setIq_totalCycles] at hdone

end

/-- A load that misses, an ALU instruction, and one that uses its result. -/
def chainTrace : Env :=
  ofTrace
    [{ pc := 0x80000000, opcode := 0b0000011, rd := 7, rs1 := 12, isLoad := true
       memAddr := 0x80002000 },
      { pc := 0x80000004, opcode := 0b0010011, rd := 5, rs1 := 12 },
      { pc := 0x80000008, opcode := 0b0110011, rd := 6, rs1 := 5, rs2 := 5 }]

theorem dependences_respected_chainTrace :
    ∃ s, Issues shippedConfig chainTrace .alu s 2 ∧ s.totalCycles = 136 ∧
      Producer shippedConfig s 2 5 (s.rob 1) ∧ s.rob 1 ∈ s.window shippedConfig ∧
      (s.rob 1).executed = true ∧ (s.rob 1).executeCycle ≤ s.totalCycles := by
  have hrun : (runFor shippedConfig chainTrace 136 (Sim.new shippedConfig)).any (fun s =>
      s.running && (s.issuesOf shippedConfig chainTrace .alu).any fun p =>
        decide (p.2 = 2 ∧ p.1.totalCycles = 136 ∧
          5 ∈ Iq.alu.sources (p.1.rob 2).inst ∧
          Producer shippedConfig p.1 2 5 (p.1.rob 1) ∧
          p.1.rob 1 ∈ p.1.window shippedConfig ∧
          CellStandsFor shippedConfig p.1 5 (p.1.rob 1))) = true := by
    decide +kernel
  obtain ⟨s, i, hs, htest⟩ := exists_issues hrun
  obtain ⟨rfl, htime, hr, hproducer, hwindow, hcell⟩ := of_decide_eq_true htest
  exact ⟨s, hs, htime, hproducer, hwindow,
    dependences_respected shippedConfig chainTrace hs hr hproducer hcell⟩

/-- A load that misses, and an ALU instruction that uses what is loaded. -/
def loadUseTrace : Env :=
  ofTrace
    [{ pc := 0x80000000, opcode := 0b0000011, rd := 5, rs1 := 12, isLoad := true
       memAddr := 0x80002000 },
      { pc := 0x80000004, opcode := 0b0110011, rd := 6, rs1 := 5, rs2 := 5 }]

/-- The ALU instruction issues before the load it depends on. -/
theorem add_bypasses_load :
    ∃ s, Issues shippedConfig loadUseTrace .alu s 1 ∧
      5 ∈ Iq.alu.sources (s.rob 1).inst ∧
      Producer shippedConfig s 1 5 (s.rob 0) ∧ (s.rob 0).executed = false := by
  have hrun : (runFor shippedConfig loadUseTrace 135 (Sim.new shippedConfig)).any (fun s =>
      s.running && (s.issuesOf shippedConfig loadUseTrace .alu).any fun p =>
        decide (p.2 = 1 ∧ 5 ∈ Iq.alu.sources (p.1.rob 1).inst ∧
          Producer shippedConfig p.1 1 5 (p.1.rob 0) ∧
          (p.1.rob 0).executed = false)) = true := by
    decide +kernel
  obtain ⟨s, i, hs, htest⟩ := exists_issues hrun
  obtain ⟨rfl, hr, hproducer, hwaits⟩ := of_decide_eq_true htest
  exact ⟨s, hs, hr, hproducer, hwaits⟩

end Sim

end TraceSim
