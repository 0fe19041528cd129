/-
TraceSim/Core/Progress.lean

Forward progress: what is dispatched retires.

While the head of the reorder buffer stays and nothing issues, the scoreboard stays as it
is, so after the longest latency every register is ready.  If the data cache is full even
then, one of its misses returns within the longest latency and frees an MSHR before the
loads of that cycle are tried.  So within twice the longest latency the head executes or
the backlog falls, and the backlog is bounded (`Reach.retires_within`): the main loop
neither deadlocks nor starves an op, whatever the instructions, the predictor, the
prefetchers and the iteration orders of the hash tables.
-/
import TraceSim.Core.Deadlines
import TraceSim.Core.Drain
import TraceSim.Core.HeadIssue
import TraceSim.Lib.Progress
import TraceSim.Mem.Returns

namespace TraceSim

open Relation

namespace Sim

variable {P B : Type}

/-- What the pipeline needs to retire an op: every stage behind dispatch can take one op a
cycle, and the data cache has an MSHR that the last level backs. -/
structure CanRetire (cfg : Config P B) : Prop where
  commitWidth : 1 ≤ cfg.commitWidth
  units : ∀ q, 1 ≤ units cfg q
  mshrs : 1 ≤ cfg.mem.dcache.mshrSize.toNat
  ample : cfg.mem.Ample

/-- How many cycles it takes at most to retire an op. -/
def retireBound (cfg : Config P B) : ℕ := (2 * longestLatency + 1) * (2 * cfg.robSize + 1)

variable [CachePrefetcher P] [BranchPredictor B] {cfg : Config P B} {env : Env}
  {s s' s₀ : Sim P B}

/-! ### Iterations of the loop -/

/-- An iteration of the loop, unless the loop ends. -/
def oneCycle (cfg : Config P B) (env : Env) (s : Sim P B) : Option (Sim P B) :=
  if s.running then some (s.cycle cfg env) else none

theorem foldl_stage_steps (cfg : Config P B) (env : Env) (bs : List Boundary)
    (s : Sim P B) :
    ReflTransGen (Step cfg env fun _ => True) s
      (bs.foldl (fun s b => stage cfg env b s) s) := by
  induction bs generalizing s with
  | nil => exact .refl
  | cons b bs ih =>
    exact (stage_steps cfg env (fun _ => True) b s fun _ _ _ _ => trivial).trans (ih _)

theorem upTo_steps (cfg : Config P B) (env : Env) (s : Sim P B) (b : Boundary) :
    ReflTransGen (Step cfg env fun _ => True) s (s.upTo cfg env b) :=
  foldl_stage_steps cfg env _ s

theorem upTo_steps_cycle (cfg : Config P B) (env : Env) (s : Sim P B) (b : Boundary) :
    ReflTransGen (Step cfg env fun _ => True) (s.upTo cfg env b) (s.cycle cfg env) := by
  have hrest := foldl_stage_steps cfg env (iteration.dropWhile (· ≠ b)) (s.upTo cfg env b)
  rwa [upTo, ← List.foldl_append, List.takeWhile_append_dropWhile] at hrest

theorem upTo_totalCycles (cfg : Config P B) (env : Env) (s : Sim P B) (b : Boundary) :
    (s.upTo cfg env b).totalCycles = s.totalCycles := by
  have hnext {b : Boundary} (hb : b ≠ .account)
      (h : (s.upTo cfg env b).totalCycles = s.totalCycles) :
      (s.upTo cfg env b.next).totalCycles = s.totalCycles := by
    rw [upTo_next s hb, stage_totalCycles cfg env hb, h]
  have hreturns : (s.upTo cfg env .returns).totalCycles = s.totalCycles := rfl
  have hadvance := hnext (by decide) hreturns
  have hcommit := hnext (by decide) hadvance
  have hissue := hnext (by decide) hcommit
  have hdispatch := hnext (by decide) hissue
  have hdecode := hnext (by decide) hdispatch
  have hfetch := hnext (by decide) hdecode
  have hservice := hnext (by decide) hfetch
  have haccount := hnext (by decide) hservice
  cases b with
  | returns => exact hreturns
  | advance => exact hadvance
  | commit => exact hcommit
  | issue => exact hissue
  | dispatch => exact hdispatch
  | decode => exact hdecode
  | fetch => exact hfetch
  | service => exact hservice
  | account => exact haccount

theorem cycle_totalCycles (cfg : Config P B) (env : Env) (s : Sim P B) :
    (s.cycle cfg env).totalCycles = s.totalCycles + 1 :=
  congrArg (· + 1) (upTo_totalCycles cfg env s .account)

theorem Reach.represents {b : Boundary} (h : Reach cfg env b s) : Represents cfg s :=
  h.invariant (represents_invariant cfg env _) (commitsIn_true cfg env)

omit [CachePrefetcher P] [BranchPredictor B] in
theorem running_of_robCount (hcount : 0 < s.robCount) (htime : s.totalCycles ≤ maxSimTime) :
    s.running = true := by
  simp [running, loopCondition, hcount, htime]

/-- A stage that moves something makes the iteration move something. -/
theorem Reach.cycle_moves (h : Reach cfg env .returns s) (hrun : s.running = true)
    {b : Boundary} (hb : b ≠ .account)
    (hmoves : Still cfg s (s.upTo cfg env b) →
      Moves cfg (s.upTo cfg env b) (stage cfg env b (s.upTo cfg env b))) :
    Moves cfg s (s.cycle cfg env) := by
  have hbefore := h.represents.progresses (upTo_steps cfg env s b)
  have hnext := (h.upTo hrun b).represents.progresses
    (stage_steps cfg env (fun _ => True) b _ fun _ _ _ _ => trivial)
  have hafter := (h.upTo hrun b.next).represents.progresses
    (upTo_steps_cycle cfg env s b.next)
  rw [upTo_next s hb] at hafter
  rcases hbefore with hbefore | hbefore
  · exact (hbefore.trans_progresses hnext).trans_progresses hafter
  · exact (hbefore.trans_moves (hmoves hbefore)).trans_progresses hafter

/-! ### Waiting -/

/-- The run from `s₀` has come to `s` without moving anything, and the subsystem keeps the
given invariant. -/
structure Idles (cfg : Config P B) (env : Env) (Inv : Option ℕ → MemSubsystem P → Prop)
    (s₀ s : Sim P B) : Prop where
  reach : Reach cfg env .returns s
  still : Still cfg s₀ s
  memory : MemoryBefore Inv s

/-- The run from `s₀` has come to `s` and moved something, or the time is over. -/
structure Advanced (cfg : Config P B) (env : Env) (s₀ s : Sim P B) : Prop where
  reach : Reach cfg env .returns s
  moves : maxSimTime < s.totalCycles ∨ Moves cfg s₀ s

variable {Inv : Option ℕ → MemSubsystem P → Prop}

/-- An iteration moves something, or goes on waiting. -/
theorem Idles.next (h : Idles cfg env Inv s₀ s) (hinv : RunInvariant Inv)
    (hcount : 0 < s₀.robCount) :
    Within (oneCycle cfg env) (fun s' => Advanced cfg env s₀ s' ∨
      (Idles cfg env Inv s₀ s' ∧ s'.totalCycles = s.totalCycles + 1)) 1 s := by
  rcases Nat.lt_or_ge maxSimTime s.totalCycles with htime | htime
  · exact Within.now (Q := fun s' => _ ∨ _) (Or.inl ⟨h.reach, Or.inl htime⟩) 1
  have hrun := running_of_robCount (hcount.trans_le h.still.robCount) htime
  refine Within.next (if_pos hrun) ?_
  rcases h.reach.represents.progresses (upTo_steps_cycle cfg env s .returns)
    with hmoves | hstill
  · exact Or.inl ⟨h.reach.cycle hrun, Or.inr (h.still.trans_moves hmoves)⟩
  · exact Or.inr ⟨⟨h.reach.cycle hrun, h.still.trans hstill, h.memory.cycle hinv cfg env⟩,
      cycle_totalCycles cfg env s⟩

/-- Waiting until a given cycle. -/
theorem Idles.until (h : Idles cfg env Inv s₀ s) (hinv : RunInvariant Inv)
    (hcount : 0 < s₀.robCount) {T : ℕ} (hT : s.totalCycles ≤ T) :
    Within (oneCycle cfg env) (fun s' => Advanced cfg env s₀ s' ∨
      (Idles cfg env Inv s₀ s' ∧ s'.totalCycles = T)) (T - s.totalCycles) s :=
  Within.wait Sim.totalCycles (fun _ hs _ => hs.next hinv hcount) h hT

/-- An iteration that moves something. -/
theorem Idles.advances (h : Idles cfg env Inv s₀ s) (hcount : 0 < s₀.robCount)
    (hmoves : s.running = true → Moves cfg s (s.cycle cfg env)) :
    Within (oneCycle cfg env) (Advanced cfg env s₀) 1 s := by
  rcases Nat.lt_or_ge maxSimTime s.totalCycles with htime | htime
  · exact Within.now ⟨h.reach, Or.inl htime⟩ 1
  have hrun := running_of_robCount (hcount.trans_le h.still.robCount) htime
  exact Within.next (if_pos hrun)
    ⟨h.reach.cycle hrun, Or.inr (h.still.trans_moves (hmoves hrun))⟩

/-! ### The head -/

/-- The commit stage retires a head that is done. -/
theorem Represents.commit_moves (h : Represents cfg s) (env : Env) (hdone : s.headDone = true)
    (hwidth : 1 ≤ cfg.commitWidth) : Moves cfg s (stage cfg env .commit s) := by
  obtain ⟨w, hw⟩ : ∃ w, cfg.commitWidth = w + 1 := ⟨cfg.commitWidth - 1, by omega⟩
  let t : Sim P B := { s with instsBefore := s.instructionsRetired }
  have ht : Represents cfg t :=
    h.of_same ⟨rfl, rfl, rfl, rfl, fun q => by cases q <;> rfl, rfl⟩ fun _ hop => Or.inl hop
  have hdone' : t.headDone = true := hdone
  have hrest := (ht.commitOne hdone').progresses
    (commitLoop_steps cfg env (fun _ => True) w (t.commitOne cfg) fun _ _ _ => trivial)
  have hfirst : Moves cfg t (t.commitOne cfg) := Or.inl (Nat.lt_succ_self _)
  have hloop : t.commitLoop cfg cfg.commitWidth = (t.commitOne cfg).commitLoop cfg w := by
    rw [hw, commitLoop, if_pos hdone']
  have hmoves := hfirst.trans_progresses hrest
  rw [← hloop] at hmoves
  exact hmoves

/-- A head that has executed and whose cycle has come retires. -/
theorem Reach.retires (h : Reach cfg env .returns s) (hrun : s.running = true)
    (hcount : 0 < s.robCount) (hwidth : 1 ≤ cfg.commitWidth)
    (hexec : (s.rob s.robHead).executed = true)
    (hcycle : (s.rob s.robHead).executeCycle ≤ s.totalCycles) :
    Moves cfg s (s.cycle cfg env) := by
  refine h.cycle_moves hrun (b := .commit) (by decide) fun hstill => ?_
  refine (h.upTo hrun .commit).represents.commit_moves env ?_ hwidth
  obtain ⟨-, hexec', hcycle'⟩ := hstill.head hcount
  rw [headDone_iff, hstill.robHead, hexec', hcycle', upTo_totalCycles]
  exact ⟨hcount.trans_le hstill.robCount, hexec, hcycle⟩

/-! ### Room in the data cache -/

/-- The caches the issue stage sees are those after the returns. -/
theorem upTo_issue_sameCaches (cfg : Config P B) (env : Env) (s : Sim P B) :
    (s.mem.processReturns s.totalCycles (env.itable s.totalCycles) (env.dtable s.totalCycles)
      (env.ltable s.totalCycles)).SameCaches (s.upTo cfg env .issue).mem := by
  have hadvance := (advanceCycle_same cfg (stage cfg env .returns s)).1
  have hcommit : (s.upTo cfg env .issue).mem = (s.upTo cfg env .commit).mem :=
    commitLoop_rule (I := fun s' : Sim P B => s'.mem = (s.upTo cfg env .commit).mem)
      (fun h _ => h) cfg.commitWidth rfl
  rw [hcommit]
  exact hadvance

/-- The caches keep their geometry. -/
theorem Reach.sameShape {b : Boundary} (h : Reach cfg env b s) :
    (MemSubsystem.new cfg.mem).SameShape s.mem := by
  have hshape := h.memory (MemSubsystem.sameShape_runInvariant (MemSubsystem.new cfg.mem))
    (MemSubsystem.SameShape.refl _)
  cases b with
  | returns =>
    obtain ⟨-, -, hs⟩ := hshape
    exact hs
  | _ => exact hshape

theorem Reach.dcache_mshrs {b : Boundary} (h : Reach cfg env b s) :
    s.mem.dcache.maxInflight = cfg.mem.dcache.mshrSize.toNat :=
  (h.sameShape.l1 .dcache).maxInflight

/-- Every block in flight is ready within the longest latency. -/
theorem Reach.ready_le (h : Reach cfg env .returns s) {x : L1} {b : BitVec 32} {f : ℕ}
    (hready : (s.mem.l1 x).ready b = some f) : f ≤ s.totalCycles + longestLatency := by
  obtain ⟨last, hlast, htimely⟩ := h.memory MemSubsystem.timely_runInvariant
    (MemSubsystem.timely_new cfg.mem)
  have hle := htimely.l1 x b f hready
  have hbound := L1.hitLatency_le x s.totalCycles
  have hbefore : last.getD 0 ≤ s.totalCycles := by
    cases last with
    | none => exact Nat.zero_le _
    | some p => exact hlast p rfl
  omega

/-- With every register ready and an MSHR free after the returns, a head that has not
executed issues. -/
theorem Reach.issues (hcfg : CanRetire cfg) (h : Reach cfg env .returns s)
    (hrun : s.running = true) (hcount : 0 < s.robCount)
    (hexec : (s.rob s.robHead).executed = false)
    (hregs : ∀ r, s.regReadyTime r ≤ s.totalCycles)
    (hroom : (s.mem.dcache.processReturns s.totalCycles
      (env.dtable s.totalCycles)).inflight.entries.length < cfg.mem.dcache.mshrSize.toNat) :
    Moves cfg s (s.cycle cfg env) := by
  refine h.cycle_moves hrun (b := .issue) (by decide) fun hstill => ?_
  have hreach := h.upTo hrun .issue
  have hlive := hreach.invariant (storesLive_invariant cfg env _) (commitsIn_true cfg env)
  have hc := hreach.invariant (conserved_invariant cfg env _) (commitsIn_true cfg env)
  obtain ⟨-, hexec', -⟩ := hstill.head hcount
  refine issueStage_moves hlive hc (hreach.roomy hcfg.ample)
    (hcount.trans_le hstill.robCount) ?_ hcfg.units (fun r => ?_) ?_
  · rw [hstill.robHead, hexec']
    exact hexec
  · rw [hstill.regReadyTime, upTo_totalCycles]
    exact hregs r
  · have hsame := (upTo_issue_sameCaches cfg env s).same .dcache
    rw [hreach.dcache_mshrs]
    exact hsame.size.trans_lt hroom

/-- After the returns of a cycle an MSHR is free, or one is in use for a block that is ready
within the longest latency. -/
theorem Reach.room_or_pending (hcfg : CanRetire cfg) (h : Reach cfg env .returns s) :
    (s.mem.dcache.processReturns s.totalCycles
        (env.dtable s.totalCycles)).inflight.entries.length < cfg.mem.dcache.mshrSize.toNat ∨
      ∃ b f, s.mem.dcache.ready b = some f ∧ s.totalCycles < f ∧
        f ≤ s.totalCycles + longestLatency := by
  rcases e : (s.mem.dcache.processReturns s.totalCycles
    (env.dtable s.totalCycles)).inflight.keys with - | ⟨b, bs⟩
  · have hlen := congrArg List.length e
    rw [List.length_nil, AList.keys, List.keys, List.length_map] at hlen
    exact Or.inl (hlen ▸ hcfg.mshrs)
  right
  have hmem : b ∈ (s.mem.dcache.processReturns s.totalCycles
      (env.dtable s.totalCycles)).inflight := AList.mem_keys.mpr (e ▸ List.mem_cons_self)
  obtain ⟨f, hf⟩ := Cache.mem_inflight_iff.mp hmem
  rw [Cache.processReturns_ready] at hf
  obtain ⟨hready, hlt⟩ := Option.filter_eq_some_iff.mp hf
  exact ⟨b, f, hready, of_decide_eq_true hlt, h.ready_le (x := .dcache) hready⟩

/-- When the block of an MSHR is ready, the returns of the cycle free it. -/
theorem Reach.room_of_ready (h : Reach cfg env .returns s) {b : BitVec 32}
    (hb : s.mem.dcache.ready b = some s.totalCycles) :
    (s.mem.dcache.processReturns s.totalCycles
      (env.dtable s.totalCycles)).inflight.entries.length
      < cfg.mem.dcache.mshrSize.toNat := by
  obtain ⟨last, -, hbounded⟩ := h.memory MemSubsystem.bounded_runInvariant
    (MemSubsystem.bounded_new cfg.mem)
  have hcapacity := (hbounded.l1 .dcache).capacity
  rw [← h.dcache_mshrs]
  exact (Cache.processReturns_size_lt hb le_rfl _).trans_le hcapacity

/-! ### Progress -/

/-- A head that has executed retires within the longest latency. -/
theorem Reach.executed_within (hcfg : CanRetire cfg) (h : Reach cfg env .returns s)
    (hcount : 0 < s.robCount) (hexec : (s.rob s.robHead).executed = true) :
    Within (oneCycle cfg env) (Advanced cfg env s) (longestLatency + 1) s := by
  have hbounded := MemSubsystem.bounded_runInvariant (P := P)
  have hidle : Idles cfg env _ s s :=
    ⟨h, .refl cfg s, h.memoryBefore hbounded (MemSubsystem.bounded_new cfg.mem)⟩
  have hT := (h.inTime.ops s.robHead).execute
  have hwait := (hidle.until hbounded hcount
    (le_max_left s.totalCycles (s.rob s.robHead).executeCycle)).mono
    (m := longestLatency) (by omega)
  refine hwait.bind fun s' hs' => ?_
  rcases hs' with hs' | ⟨hs', hclock⟩
  · exact Within.now hs' 1
  refine hs'.advances hcount fun hrun => ?_
  obtain ⟨-, hexec', hcycle'⟩ := hs'.still.head hcount
  refine hs'.reach.retires hrun (hcount.trans_le hs'.still.robCount) hcfg.commitWidth ?_ ?_
  · rw [hs'.still.robHead, hexec']
    exact hexec
  · rw [hs'.still.robHead, hcycle', hclock]
    exact le_max_right _ _

/-- A head that has not executed issues within twice the longest latency, or something else
moves. -/
theorem Reach.waiting_within (hcfg : CanRetire cfg) (h : Reach cfg env .returns s)
    (hcount : 0 < s.robCount) (hexec : (s.rob s.robHead).executed = false) :
    Within (oneCycle cfg env) (Advanced cfg env s) (2 * longestLatency + 1) s := by
  have hbounded := MemSubsystem.bounded_runInvariant (P := P)
  have hidle : Idles cfg env _ s s :=
    ⟨h, .refl cfg s, h.memoryBefore hbounded (MemSubsystem.bounded_new cfg.mem)⟩
  have hwait := (hidle.until hbounded hcount (Nat.le_add_right s.totalCycles longestLatency)).mono
    (m := longestLatency) (by omega)
  rw [Nat.two_mul, Nat.add_assoc]
  refine hwait.bind fun s₁ hs₁ => ?_
  rcases hs₁ with hs₁ | ⟨hs₁, hclock⟩
  · exact Within.now hs₁ _
  have hregs {s' : Sim P B} (hstill : Still cfg s s')
      (hle : s.totalCycles + longestLatency ≤ s'.totalCycles) (r : Fin 32) :
      s'.regReadyTime r ≤ s'.totalCycles := by
    rw [hstill.regReadyTime]
    exact (h.inTime.registers r).trans hle
  have hhead {s' : Sim P B} (hstill : Still cfg s s') :
      (s'.rob s'.robHead).executed = false := by
    rw [hstill.robHead, (hstill.head hcount).2.1]
    exact hexec
  rcases hs₁.reach.room_or_pending hcfg with hroom | ⟨b, f, hready, hlt, hle⟩
  · refine (hs₁.advances hcount fun hrun => ?_).mono (Nat.le_add_left 1 _)
    exact hs₁.reach.issues hcfg hrun (hcount.trans_le hs₁.still.robCount) (hhead hs₁.still)
      (hregs hs₁.still hclock.ge) hroom
  -- the data cache is full: wait for the block of one of its MSHRs
  have hpending := MemSubsystem.pending_runInvariant (P := P) (x := .dcache) (b := b) (f := f)
    (n := s₁.mem.dcache.fills b)
  have hidle₁ : Idles cfg env
      (MemSubsystem.Pending .dcache b f (s₁.mem.dcache.fills b)) s s₁ :=
    ⟨hs₁.reach, hs₁.still, none, fun p hp => absurd hp (Option.not_mem_none p),
      fun _ => ⟨hready, rfl⟩⟩
  refine Within.bind ((hidle₁.until hpending hcount hlt.le).mono (m := longestLatency)
    (by omega)) fun s₂ hs₂ => ?_
  rcases hs₂ with hs₂ | ⟨hs₂, hclock₂⟩
  · exact Within.now hs₂ 1
  refine hs₂.advances hcount fun hrun => ?_
  obtain ⟨last, hlast, hstill⟩ := hs₂.memory
  have hready₂ : s₂.mem.dcache.ready b = some s₂.totalCycles := by
    rw [hclock₂]
    exact (hstill fun p hp => hclock₂ ▸ hlast p hp).1
  exact hs₂.reach.issues hcfg hrun (hcount.trans_le hs₂.still.robCount) (hhead hs₂.still)
    (hregs hs₂.still (by omega)) (hs₂.reach.room_of_ready hready₂)

/-- **Something moves** within twice the longest latency. -/
theorem Reach.moves_within (hcfg : CanRetire cfg) (h : Reach cfg env .returns s)
    (hcount : 0 < s.robCount) :
    Within (oneCycle cfg env) (Advanced cfg env s) (2 * longestLatency + 1) s := by
  rcases hexec : (s.rob s.robHead).executed with - | -
  · exact h.waiting_within hcfg hcount hexec
  · exact (h.executed_within hcfg hcount hexec).mono (by omega)

/-! ### Retirement -/

/-- Until an op retires, the backlog falls in every round. -/
theorem Reach.retires_within (hcfg : CanRetire cfg) (h : Reach cfg env .returns s)
    (hcount : 0 < s.robCount) :
    Within (oneCycle cfg env) (fun s' => Reach cfg env .returns s' ∧
      (maxSimTime < s'.totalCycles ∨ s.instructionsRetired < s'.instructionsRetired))
      (retireBound cfg) s := by
  have hrank := Within.rank (oneCycle cfg env) (fun s' => s'.backlog cfg + 1)
    (I := fun s' => Reach cfg env .returns s' ∧ 0 < s'.robCount ∧
      s'.instructionsRetired = s.instructionsRetired)
    (Q := fun s' => Reach cfg env .returns s' ∧
      (maxSimTime < s'.totalCycles ∨ s.instructionsRetired < s'.instructionsRetired))
    (d := 2 * longestLatency + 1)
    (fun s' _ hzero => absurd hzero (Nat.succ_ne_zero _)) (fun s' hs' _ => ?_) ⟨h, hcount, rfl⟩
  · exact hrank.mono (Nat.mul_le_mul_left _ (Nat.succ_le_succ h.represents.backlog_le))
  obtain ⟨hreach, hpos, hretired⟩ := hs'
  refine (hreach.moves_within hcfg hpos).imp fun s'' hs'' => ?_
  rcases hs''.moves with htime | hlt | ⟨heq, hle, hlt⟩
  · exact Or.inl ⟨hs''.reach, Or.inl htime⟩
  · exact Or.inl ⟨hs''.reach, Or.inr (hretired ▸ hlt)⟩
  · exact Or.inr ⟨⟨hs''.reach, hpos.trans_le hle, heq.trans hretired⟩, Nat.succ_lt_succ hlt⟩

/-- How many ops have been dispatched. -/
def entered (s : Sim P B) : ℕ := s.instructionsRetired + s.robCount

omit [BranchPredictor B] in
theorem Step.entered_le {C : Sim P B → Prop} (h : Step cfg env C s s') :
    s.entered ≤ s'.entered := by
  cases h with
  | quiet _ hquiet =>
    cases hquiet
    exact le_rfl
  | commits hdone _ =>
    have hpos := (headDone_iff.mp hdone).1
    show s.instructionsRetired + s.robCount ≤ s.instructionsRetired + 1 + (s.robCount - 1)
    omega
  | waits q i _ hmem houtcome =>
    obtain ⟨op', ht, -⟩ := houtcome.touched
    cases ht
    exact le_rfl
  | issues q kept i rest s₁ hqueue houtcome =>
    obtain ⟨op', ht, -⟩ := houtcome.touched
    cases ht
    cases q <;> exact le_rfl
  | dispatches op rest hqueue hfree =>
    have hretired : (s.dispatchOne cfg op).instructionsRetired = s.instructionsRetired := by
      unfold dispatchOne
      cases iqTarget op <;> rfl
    rw [entered, entered, hretired, dispatchOne_robCount]
    exact Nat.add_le_add_left (Nat.le_succ _) _
  | decodes op rest hbuffer hroom => exact le_rfl
  | fetches _ hturn =>
    cases hturn.frame
    exact le_rfl

omit [BranchPredictor B] in
theorem entered_le_of_steps (h : ReflTransGen (Step cfg env fun _ => True) s s') :
    s.entered ≤ s'.entered := by
  induction h with
  | refl => exact le_rfl
  | tail _ hstep ih => exact ih.trans hstep.entered_le

theorem oneCycle_eq_some : oneCycle cfg env s = some s' ↔
    s.running = true ∧ s.cycle cfg env = s' := by
  unfold oneCycle
  split_ifs with hrun
  · rw [Option.some.injEq, and_iff_right hrun]
  · exact iff_of_false id fun h => hrun h.1

theorem oneCycle_steps (h : oneCycle cfg env s = some s') :
    ReflTransGen (Step cfg env fun _ => True) s s' := by
  obtain ⟨-, rfl⟩ := oneCycle_eq_some.mp h
  exact upTo_steps_cycle cfg env s .returns

theorem oneCycle_totalCycles (h : oneCycle cfg env s = some s') :
    s'.totalCycles = s.totalCycles + 1 := by
  obtain ⟨-, rfl⟩ := oneCycle_eq_some.mp h
  exact cycle_totalCycles cfg env s

/-- What is met within some steps of the loop, with the run that leads there. -/
theorem within_runFor {Q : Sim P B → Prop} {n : ℕ} (h : Within (oneCycle cfg env) Q n s) :
    ∃ k ≤ n, ∃ s', runFor cfg env k s = some s' ∧ s'.totalCycles = s.totalCycles + k ∧ Q s' := by
  induction n generalizing s with
  | zero => exact ⟨0, le_rfl, s, rfl, rfl, h⟩
  | succ n ih =>
    rcases h with h | ⟨s₁, hstep, h⟩
    · exact ⟨0, Nat.zero_le _, s, rfl, rfl, h⟩
    · obtain ⟨k, hk, s', hrun, hclock, hQ⟩ := ih h
      refine ⟨k + 1, Nat.succ_le_succ hk, s', ?_, ?_, hQ⟩
      · obtain ⟨hrunning, rfl⟩ := oneCycle_eq_some.mp hstep
        rw [runFor, if_pos hrunning]
        exact hrun
      · rw [hclock, oneCycle_totalCycles hstep]
        omega

/-- As many ops as have been dispatched retire. -/
theorem Reach.entered_within (hcfg : CanRetire cfg) (h : Reach cfg env .returns s) {n : ℕ}
    (hn : n ≤ s.entered) :
    Within (oneCycle cfg env) (fun s' => Reach cfg env .returns s' ∧
      (maxSimTime < s'.totalCycles ∨ n ≤ s'.instructionsRetired))
      (retireBound cfg * (n - s.instructionsRetired)) s := by
  refine Within.rank (oneCycle cfg env) (fun s' => n - s'.instructionsRetired)
    (I := fun s' => Reach cfg env .returns s' ∧ n ≤ s'.entered) (fun s' hs' hzero => ?_)
    (fun s' hs' hpos => ?_) ⟨h, hn⟩
  · exact ⟨hs'.1, Or.inr (Nat.sub_eq_zero_iff_le.mp hzero)⟩
  obtain ⟨hreach, hle⟩ := hs'
  have hcount : 0 < s'.robCount := by
    unfold entered at hle
    omega
  have hround := (hreach.retires_within hcfg hcount).and_invariant
    (I := fun s'' => n ≤ s''.entered) hle fun s₁ s₂ hs₁ hstep =>
      hs₁.trans (entered_le_of_steps (oneCycle_steps hstep))
  refine hround.imp fun s'' hs'' => ?_
  obtain ⟨⟨hreach'', htime | hlt⟩, hle''⟩ := hs''
  · exact Or.inl ⟨hreach'', Or.inl htime⟩
  · exact Or.inr ⟨⟨hreach'', hle''⟩, by omega⟩

/-- **What is dispatched retires.**  In every reachable state, the `k` oldest ops of the
reorder buffer retire next, in their order and within `k` times the bound, if the
simulation time does not end before. -/
theorem window_retires (hcfg : CanRetire cfg) (h : Reach cfg env .returns s) {k : ℕ}
    (hk : k ≤ s.robCount) (htime : s.totalCycles + retireBound cfg * k ≤ maxSimTime) :
    ∃ n ≤ retireBound cfg * k, ∃ s', runFor cfg env n s = some s' ∧
      (s.hist.retired ++ (s.window cfg).take k).map OpEntry.ident
        <+: s'.hist.retired.map OpEntry.ident := by
  have hwithin := (h.entered_within hcfg (n := s.instructionsRetired + k)
    (Nat.add_le_add_left hk _)).and_invariant
    (I := fun s' => ReflTransGen (Step cfg env fun _ => True) s s') .refl
    fun _ _ hs hstep => hs.trans (oneCycle_steps hstep)
  rw [Nat.add_sub_cancel_left] at hwithin
  obtain ⟨n, hn, s', hrun, hclock, ⟨hreach', hend⟩, hsteps⟩ := within_runFor hwithin
  refine ⟨n, hn, s', hrun, ?_⟩
  have hretired : s.instructionsRetired + k ≤ s'.instructionsRetired :=
    hend.resolve_left (by omega)
  -- both lists are prefixes of the pipeline of `s'`
  have hc := h.invariant (conserved_invariant cfg env _) (commitsIn_true cfg env)
  have hpipe := hc.pipeline_prefix hsteps
  have hleft : (s.hist.retired ++ (s.window cfg).take k).map OpEntry.ident
      <+: (s'.pipeline cfg).map OpEntry.ident := by
    refine List.IsPrefix.trans (List.IsPrefix.map _ ?_) hpipe
    rw [pipeline, List.append_assoc, List.append_assoc]
    exact (List.prefix_append_right_inj _).mpr
      ((List.take_prefix k _).trans (List.prefix_append _ _))
  have hright : s'.hist.retired.map OpEntry.ident <+: (s'.pipeline cfg).map OpEntry.ident := by
    rw [pipeline, List.append_assoc, List.append_assoc]
    exact (List.prefix_append _ _).map _
  refine List.prefix_of_prefix_length_le hleft hright ?_
  have hcounted := h.invariant (counted_invariant cfg env _) (commitsIn_true cfg env)
  have hcounted' := hreach'.invariant (counted_invariant cfg env _) (commitsIn_true cfg env)
  unfold Counted at hcounted hcounted'
  rw [List.length_map, List.length_map, List.length_append, List.length_take]
  omega

theorem canRetire_shipped : CanRetire shippedConfig where
  commitWidth := by decide
  units q := by cases q <;> decide
  mshrs := by decide
  ample := backed_shipped.ample

theorem window_retires_straightLine :
    ∃ s n s', Reach shippedConfig straightLine .returns s ∧ s.robCount = 8 ∧
      runFor shippedConfig straightLine n s = some s' ∧
      (s.hist.retired ++ (s.window shippedConfig).take 8).map OpEntry.ident
        <+: s'.hist.retired.map OpEntry.ident := by
  have hrun : (runFor shippedConfig straightLine 137 (Sim.new shippedConfig)).any (fun s =>
      decide (s.robCount = 8 ∧ s.totalCycles = 137)) = true := by
    decide +kernel
  obtain ⟨s, hs, htest⟩ := exists_reach hrun
  obtain ⟨hcount, hclock⟩ := of_decide_eq_true htest
  obtain ⟨n, -, s', hn, hretired⟩ := window_retires canRetire_shipped hs hcount.ge
    (by rw [hclock]; decide)
  exact ⟨s, n, s', hs, hcount, hn, hretired⟩

end Sim

end TraceSim
