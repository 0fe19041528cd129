/-
TraceSim/Core/Steps.lean

The steps a run is made of.

Every stage is a sequence of steps (`stage_steps`): one op is committed, tried by
an issue queue, dispatched or decoded, the fetch loop takes one turn, or nothing
moves (`Quiet`).  What every step preserves therefore holds at every boundary of
every run (`Reach.invariant`), and at every point of a run where an op leaves an
issue queue (`Issues.invariant`).  The steps can be limited to runs that commit in
states of a given kind only.
-/
import TraceSim.Core.Attempts
import TraceSim.Frontend.FetchSteps

namespace TraceSim

open Relation

/-- The queues the issue stage scans before this one. -/
def Iq.before : Iq → List Iq
  | .alu => []
  | .ldu => [.alu]
  | .sta => [.alu, .ldu]
  | .std => [.alu, .ldu, .sta]
  | .bru => [.alu, .ldu, .sta, .std]

namespace Sim

variable {P B : Type}

/-! ### What a dispatch changes -/

section DispatchOne

variable (cfg : Config P B) (s : Sim P B) (op : OpEntry)

@[simp] theorem dispatchOne_robHead : (s.dispatchOne cfg op).robHead = s.robHead := by
  unfold dispatchOne
  cases iqTarget op <;> rfl

@[simp] theorem dispatchOne_robTail :
    (s.dispatchOne cfg op).robTail = (s.robTail + 1) % cfg.robSize := by
  unfold dispatchOne
  cases iqTarget op <;> rfl

@[simp] theorem dispatchOne_robCount : (s.dispatchOne cfg op).robCount = s.robCount + 1 := by
  unfold dispatchOne
  cases iqTarget op <;> rfl

@[simp] theorem dispatchOne_fetchQueue :
    (s.dispatchOne cfg op).fetchQueue = s.fetchQueue.tail := by
  unfold dispatchOne
  cases iqTarget op <;> rfl

@[simp] theorem dispatchOne_instBuffer :
    (s.dispatchOne cfg op).instBuffer = s.instBuffer := by
  unfold dispatchOne
  cases iqTarget op <;> rfl

@[simp] theorem dispatchOne_hist : (s.dispatchOne cfg op).hist = s.hist := by
  unfold dispatchOne
  cases iqTarget op <;> rfl

@[simp] theorem dispatchOne_totalCycles :
    (s.dispatchOne cfg op).totalCycles = s.totalCycles := by
  unfold dispatchOne
  cases iqTarget op <;> rfl

@[simp] theorem dispatchOne_regReadyTime :
    (s.dispatchOne cfg op).regReadyTime = s.regReadyTime := by
  unfold dispatchOne
  cases iqTarget op <;> rfl

end DispatchOne

/-! ### Steps -/

/-- Going from `s` to the given state moves no instruction. -/
inductive Quiet (s : Sim P B) : Sim P B → Prop
  | intro (simEnd) (ends : s.refCpu.simEnd = true → simEnd = true)
      (totalCycles) (time : s.totalCycles ≤ totalCycles) (mem profiler)
      (inWarmup instRetiredBaseline totalCyclesBaseline loadProfileBaseline)
      (instsBefore commitStall backendStall frontendBoundHint) :
      Quiet s
        { s with
          refCpu := { s.refCpu with simEnd := simEnd }
          totalCycles := totalCycles
          mem := mem
          profiler := profiler
          inWarmup := inWarmup
          instRetiredBaseline := instRetiredBaseline
          totalCyclesBaseline := totalCyclesBaseline
          loadProfileBaseline := loadProfileBaseline
          instsBefore := instsBefore
          commitStall := commitStall
          backendStall := backendStall
          frontendBoundHint := frontendBoundHint }

/-- One step of a run that commits in states of kind `C` only. -/
inductive Step [CachePrefetcher P] (cfg : Config P B) (env : Env) (C : Sim P B → Prop) :
    Sim P B → Sim P B → Prop
  | quiet (s s') (quiet : Quiet s s') : Step cfg env C s s'
  | commits (s) (done : s.headDone = true) (allowed : C s) :
      Step cfg env C s (s.commitOne cfg)
  | waits (s q i s') (mem : i ∈ s.iq q) (outcome : Outcome cfg s i q s' false) :
      Step cfg env C s s'
  | issues (s q kept i rest s') (queue : s.iq q = kept ++ i :: rest)
      (outcome : Outcome cfg s i q s' true) :
      Step cfg env C s (s'.setIq q (kept ++ rest))
  | dispatches (s op rest) (queue : s.fetchQueue = op :: rest)
      (free : s.dispatchBlock cfg op = .none) : Step cfg env C s (s.dispatchOne cfg op)
  | decodes (s op rest) (buffer : s.instBuffer = op :: rest)
      (room : s.fetchQueue.length < cfg.dispatchWidth * 2) :
      Step cfg env C s { s with instBuffer := rest, fetchQueue := s.fetchQueue ++ [op] }
  | fetches (s s') (turn : FetchStep cfg env s s') : Step cfg env C s s'

/-- New caches are no step of an op. -/
theorem setMem_quiet (s : Sim P B) (mem : MemSubsystem P) : Quiet s (s.setMem mem) :=
  .intro s.refCpu.simEnd id s.totalCycles le_rfl mem s.profiler s.inWarmup
    s.instRetiredBaseline s.totalCyclesBaseline s.loadProfileBaseline s.instsBefore
    s.commitStall s.backendStall s.frontendBoundHint

/-- The end of the warm-up, or of the simulation. -/
theorem advanceCycle_quiet (cfg : Config P B) (s : Sim P B) :
    Quiet s (s.advanceCycle cfg) := by
  unfold advanceCycle
  split_ifs
  · exact .intro s.refCpu.simEnd id s.totalCycles le_rfl _ _ _ _ _ _ s.instsBefore
      s.commitStall s.backendStall s.frontendBoundHint
  · exact setMem_quiet s s.mem
  · exact .intro true (fun _ => rfl) s.totalCycles le_rfl s.mem s.profiler s.inWarmup
      s.instRetiredBaseline s.totalCyclesBaseline s.loadProfileBaseline s.instsBefore
      s.commitStall s.backendStall s.frontendBoundHint
  · exact setMem_quiet s s.mem
  · exact .intro true (fun _ => rfl) s.totalCycles le_rfl s.mem s.profiler s.inWarmup
      s.instRetiredBaseline s.totalCyclesBaseline s.loadProfileBaseline s.instsBefore
      s.commitStall s.backendStall s.frontendBoundHint
  · exact setMem_quiet s s.mem

/-- The locals of the loop body. -/
theorem setLocals_quiet (s : Sim P B) (instsBefore : ℕ)
    (commitStall backendStall : BackendStallReason) (hint : BoundReason) :
    Quiet s
      { s with
        instsBefore := instsBefore, commitStall := commitStall
        backendStall := backendStall, frontendBoundHint := hint } :=
  .intro s.refCpu.simEnd id s.totalCycles le_rfl s.mem s.profiler s.inWarmup
    s.instRetiredBaseline s.totalCyclesBaseline s.loadProfileBaseline instsBefore
    commitStall backendStall hint

/-- The clock and the counters. -/
theorem account_quiet (s : Sim P B) : Quiet s s.account :=
  .intro s.refCpu.simEnd id (s.totalCycles + 1) (Nat.le_succ _) s.mem _ s.inWarmup
    s.instRetiredBaseline s.totalCyclesBaseline s.loadProfileBaseline s.instsBefore
    s.commitStall s.backendStall s.frontendBoundHint

/-! ### Stages -/

section

variable [CachePrefetcher P] {cfg : Config P B}

/-- An attempt does not look at the issue queues. -/
theorem Outcome.setIq {s s' : Sim P B} {i : ℕ} {q : Iq} {ok : Bool}
    (h : Outcome cfg s i q s' ok) (q' : Iq) (l : List ℕ) :
    Outcome cfg (s.setIq q' l) i q (s'.setIq q' l) ok := by
  cases h with
  | waits _ op' same executed cycle mem during profiler counters =>
    have h := Outcome.waits (s := s.setIq q' l) (i := i) q op' (by simpa using same)
      (by simpa using executed) (by simpa using cycle) mem (by simpa using during) profiler
      (by simpa using counters)
    cases q' <;> exact h
  | executes _ whole op' same executed mem during profiler counters stats =>
    have h := Outcome.executes (s := s.setIq q' l) (i := i) q whole op'
      (by simpa using same) executed mem (by simpa using during) profiler
      (by simpa using counters) stats
    cases q' <;> exact h
  | sta => cases q' <;> exact .sta
  | std => cases q' <;> exact .std

variable (cfg) (env : Env) (C : Sim P B → Prop)

/-- The invariant of the loop over queue `q` as seen from its start: the queue is
made of what was kept and what is still to be tried. -/
def Scanning (s : Sim P B) (q : Iq) (kept rest : List ℕ) (s' : Sim P B) : Prop :=
  ReflTransGen (Step cfg env C) s (s'.setIq q (kept ++ rest))

/-- The scan begins with the whole queue. -/
theorem scanning_start (s : Sim P B) (q : Iq) : Scanning cfg env C s q [] (s.iq q) s := by
  unfold Scanning
  rw [List.nil_append, setIq_self]

/-- A turn keeps an op in the queue or takes it out; both are steps. -/
theorem scanning_step (s : Sim P B) (q : Iq) (kept : List ℕ) (i : ℕ) (rest : List ℕ)
    (s' : Sim P B) (h : Scanning cfg env C s q kept (i :: rest) s') :
    ((attempt cfg q s' i).2 = true →
      Scanning cfg env C s q kept rest (attempt cfg q s' i).1) ∧
    ((attempt cfg q s' i).2 = false →
      Scanning cfg env C s q (kept ++ [i]) rest (attempt cfg q s' i).1) := by
  have hqueue : (s'.setIq q (kept ++ i :: rest)).iq q = kept ++ i :: rest := by simp
  have houtcome := (attempt_outcome cfg q s' i).setIq q (kept ++ i :: rest)
  refine ⟨fun hok => ?_, fun hok => ?_⟩
  · rw [hok] at houtcome
    have hstep : Step cfg env C _ _ := .issues _ q kept i rest _ hqueue houtcome
    rw [setIq_setIq] at hstep
    exact h.tail hstep
  · rw [hok] at houtcome
    -- the slot stays where it is and now counts as kept
    have hmem : i ∈ (s'.setIq q (kept ++ i :: rest)).iq q := by
      rw [hqueue]
      exact List.mem_append_right _ List.mem_cons_self
    unfold Scanning
    rw [List.append_assoc, List.singleton_append]
    exact h.tail (.waits _ q i _ hmem houtcome)

/-- A whole scan. -/
theorem issueIq_steps (s : Sim P B) (q : Iq) :
    ReflTransGen (Step cfg env C) s (s.issueIq cfg q) := by
  -- where the scan stops, the queue is what it kept and what it did not reach
  obtain ⟨kept, rest, hqueue, hscan⟩ := scan_rule (scanning_step cfg env C s q)
    (units cfg q) [] (s.iq q) s (scanning_start cfg env C s q)
  rw [List.nil_append] at hqueue
  unfold issueIq
  rwa [Scanning, ← hqueue] at hscan

/-- The scans of several queues, one after the other. -/
theorem issueIqs_steps (s : Sim P B) (qs : List Iq) :
    ReflTransGen (Step cfg env C) s (qs.foldl (issueIq cfg) s) := by
  induction qs generalizing s with
  | nil => exact .refl
  | cons q qs ih => exact (issueIq_steps cfg env C s q).trans (ih _)

omit [CachePrefetcher P] in
/-- The last turn of the commit loop, apart. -/
theorem commitLoop_succ (n : ℕ) (s : Sim P B) :
    s.commitLoop cfg (n + 1)
      = if (s.commitLoop cfg n).headDone then (s.commitLoop cfg n).commitOne cfg
        else s.commitLoop cfg n := by
  induction n generalizing s with
  | zero => rfl
  | succ n ih =>
    rw [commitLoop]
    rcases hdone : s.headDone with - | -
    -- a head that is not done stops the loop for good
    · have hstays : s.commitLoop cfg (n + 1) = s := by
        rw [commitLoop, hdone, if_neg Bool.false_ne_true]
      rw [hstays, hdone]
      rfl
    · have hgoes : s.commitLoop cfg (n + 1) = (s.commitOne cfg).commitLoop cfg n := by
        rw [commitLoop, if_pos hdone]
      rw [hgoes, if_pos rfl, ih]

omit [CachePrefetcher P] in
/-- The states between the turns. -/
theorem commitTurn_succ (s : Sim P B) (k : ℕ) :
    s.commitTurn cfg (k + 1)
      = if (s.commitTurn cfg k).headDone then (s.commitTurn cfg k).commitOne cfg
        else s.commitTurn cfg k :=
  commitLoop_succ cfg k _

/-- Each turn retires the head under the condition `C`. -/
theorem commitLoop_steps (n : ℕ) (s : Sim P B)
    (hC : ∀ k < n, (s.commitLoop cfg k).headDone = true → C (s.commitLoop cfg k)) :
    ReflTransGen (Step cfg env C) s (s.commitLoop cfg n) := by
  induction n generalizing s with
  | zero => exact .refl
  | succ n ih =>
    rw [commitLoop]
    split
    · rename_i hdone
      refine .head (.commits s hdone (hC 0 (Nat.succ_pos n) hdone)) (ih _ fun k hk => ?_)
      -- turn `k` of the loop that is left is turn `k + 1` of this one
      have hnext := hC (k + 1) (Nat.succ_lt_succ hk)
      rwa [commitLoop, if_pos hdone] at hnext
    · exact .refl

/-- Each turn of the dispatch loop is a step. -/
theorem dispatchLoop_steps (n : ℕ) (s : Sim P B) :
    ReflTransGen (Step cfg env C) s (s.dispatchLoop cfg n).2 := by
  induction n generalizing s with
  | zero => exact .refl
  | succ n ih =>
    unfold dispatchLoop
    rcases e : s.fetchQueue with - | ⟨op, rest⟩
    · exact .refl
    · dsimp only
      split
      · exact .head (.dispatches s op rest e ‹_›) (ih _)
      · exact .refl

/-- So is each turn of the decode loop. -/
theorem decodeLoop_steps (s : Sim P B) (buffer queue : List OpEntry)
    (hbuffer : s.instBuffer = buffer) (hqueue : s.fetchQueue = queue) :
    ReflTransGen (Step cfg env C) s
      { s with
        instBuffer := (decodeLoop (cfg.dispatchWidth * 2) buffer queue).1
        fetchQueue := (decodeLoop (cfg.dispatchWidth * 2) buffer queue).2 } := by
  subst hbuffer hqueue
  generalize e : s.instBuffer = buffer
  induction buffer generalizing s with
  | nil =>
    rw [decodeLoop, ← e]
  | cons op rest ih =>
    rw [decodeLoop]
    split
    · exact .head (.decodes s op rest e ‹_›)
        (ih { s with instBuffer := rest, fetchQueue := s.fetchQueue ++ [op] } rfl)
    · rw [← e]

/-- **A stage** is a sequence of steps. -/
theorem stage_steps [BranchPredictor B] (b : Boundary) (s : Sim P B)
    (hC : b = .commit → ∀ k < cfg.commitWidth,
      (s.commitTurn cfg k).headDone = true → C (s.commitTurn cfg k)) :
    ReflTransGen (Step cfg env C) s (stage cfg env b s) := by
  -- what a stage does besides its steps is to write books
  cases b with
  | returns => exact .single (.quiet _ _ (setMem_quiet s _))
  | advance => exact .single (.quiet _ _ (advanceCycle_quiet cfg s))
  | commit =>
    refine .head (.quiet _ _ (setLocals_quiet s s.instructionsRetired s.commitStall
      s.backendStall s.frontendBoundHint)) ?_
    refine (commitLoop_steps cfg env C cfg.commitWidth _ (hC rfl)).tail ?_
    exact .quiet _ _ (setLocals_quiet _ _ _ _ _)
  | issue =>
    rw [stage, issueStage_eq]
    exact issueIqs_steps cfg env C s _
  | dispatch =>
    exact (dispatchLoop_steps cfg env C cfg.dispatchWidth s).tail
      (.quiet _ _ (setLocals_quiet _ _ _ _ _))
  | decode => exact decodeLoop_steps cfg env C s _ _ rfl rfl
  | fetch =>
    obtain ⟨s', hint, hturns, hfetch⟩ := fetchStage_steps cfg env s
    rw [stage, hfetch]
    have hsteps : ReflTransGen (Step cfg env C) s s' :=
      hturns.lift id fun _ _ => .fetches _ _
    exact hsteps.tail (.quiet _ _ (setLocals_quiet s' s'.instsBefore s'.commitStall
      s'.backendStall hint))
  | service => exact .single (.quiet _ _ (setMem_quiet s _))
  | account => exact .single (.quiet _ _ (account_quiet s))

end

/-! ### Rules for single stages -/

section Rules

variable [CachePrefetcher P] {cfg : Config P B} {I : Sim P B → Prop}

/-- What every attempt preserves, the loop over a queue preserves. -/
theorem issueIq_attempts (hattempt : ∀ {s} (q i), I s → I (attempt cfg q s i).1)
    (hsetIq : ∀ {s} (q l), I s → I (s.setIq q l)) (q : Iq) {s : Sim P B} (h : I s) :
    I (s.issueIq cfg q) := by
  have hstep : ∀ (kept : List ℕ) (i : ℕ) (rest : List ℕ) (s : Sim P B), I s →
      ((attempt cfg q s i).2 = true → I (attempt cfg q s i).1) ∧
      ((attempt cfg q s i).2 = false → I (attempt cfg q s i).1) := by
    intro kept i rest s hs
    exact ⟨fun _ => hattempt q i hs, fun _ => hattempt q i hs⟩
  obtain ⟨-, -, -, hscan⟩ := scan_rule (I := fun _ _ s => I s) hstep (units cfg q) []
    (s.iq q) s h
  exact hsetIq q _ hscan

/-- What attempts and changes of the queues keep is kept by the stage. -/
theorem issueIqs_attempts (hattempt : ∀ {s} (q i), I s → I (attempt cfg q s i).1)
    (hsetIq : ∀ {s} (q l), I s → I (s.setIq q l)) (qs : List Iq) {s : Sim P B} (h : I s) :
    I (qs.foldl (issueIq cfg) s) := by
  induction qs generalizing s with
  | nil => exact h
  | cons q qs ih => exact ih (issueIq_attempts hattempt hsetIq q h)

/-- What every attempt preserves, the issue stage preserves. -/
theorem issueStage_attempts (hattempt : ∀ {s} (q i), I s → I (attempt cfg q s i).1)
    (hsetIq : ∀ {s} (q l), I s → I (s.setIq q l)) {s : Sim P B} (h : I s) :
    I (s.issueStage cfg) := by
  rw [issueStage_eq]
  exact issueIqs_attempts hattempt hsetIq _ h

/-- The rule for what depends on the frame of an attempt only. -/
theorem issueStage_rule
    (htouched : ∀ {s i op' s'}, I s → Touched cfg s i op' s' → I s')
    (hsetIq : ∀ {s} (q l), I s → I (s.setIq q l)) {s : Sim P B} (h : I s) :
    I (s.issueStage cfg) := by
  refine issueStage_attempts (fun {s} q i hs => ?_) hsetIq h
  obtain ⟨op', ht, -⟩ := (attempt_outcome cfg q s i).touched
  exact htouched hs ht

omit [CachePrefetcher P] in
/-- What every commit preserves, the commit loop preserves. -/
theorem commitLoop_rule (hcommit : ∀ {s}, I s → s.headDone = true → I (s.commitOne cfg))
    (n : ℕ) {s : Sim P B} (h : I s) : I (s.commitLoop cfg n) := by
  induction n generalizing s with
  | zero => exact h
  | succ n ih =>
    rw [commitLoop]
    split
    · exact ih (hcommit h ‹_›)
    · exact h

omit [CachePrefetcher P] in
/-- What every dispatch of the op at the head of the fetch queue preserves, the dispatch
loop preserves. -/
theorem dispatchLoop_rule
    (hop : ∀ {s op rest}, I s → s.fetchQueue = op :: rest → s.dispatchBlock cfg op = .none →
      I (s.dispatchOne cfg op))
    (n : ℕ) {s : Sim P B} (h : I s) : I (s.dispatchLoop cfg n).2 := by
  induction n generalizing s with
  | zero => exact h
  | succ n ih =>
    rw [dispatchLoop]
    rcases e : s.fetchQueue with - | ⟨op, rest⟩
    · exact h
    · dsimp only
      split_ifs with hfree
      · exact ih (hop h e hfree)
      · exact h

/-- What every turn of the fetch loop preserves, the fetch stage preserves. -/
theorem fetchStage_rule [BranchPredictor B] {env : Env}
    (hturn : ∀ {s s'}, I s → FetchStep cfg env s s' → I s')
    (hhint : ∀ {s} (hint), I s → I (s.setFrontendBoundHint hint)) {s : Sim P B} (h : I s) :
    I (s.fetchStage cfg env) := by
  obtain ⟨s', hint, hturns, hfetch⟩ := fetchStage_steps cfg env s
  rw [hfetch]
  clear hfetch
  refine hhint hint ?_
  induction hturns with
  | refl => exact h
  | tail _ hstep ih => exact hturn ih hstep

end Rules

/-! ### Runs -/

section

variable [CachePrefetcher P] [BranchPredictor B] {cfg : Config P B} {env : Env}
  {C : Sim P B → Prop}

/-- Whenever an op is committed, the state is of kind `C`. -/
def CommitsIn (cfg : Config P B) (env : Env) (C : Sim P B → Prop) : Prop :=
  ∀ s k, Reach cfg env .commit s → k < cfg.commitWidth →
    (s.commitTurn cfg k).headDone = true → C (s.commitTurn cfg k)

/-- With the condition that always holds, every run qualifies. -/
theorem commitsIn_true (cfg : Config P B) (env : Env) : CommitsIn cfg env fun _ => True :=
  fun _ _ _ _ _ => trivial

/-- A run is a sequence of steps. -/
theorem Reach.steps (hC : CommitsIn cfg env C) {b : Boundary} {s : Sim P B}
    (h : Reach cfg env b s) : ReflTransGen (Step cfg env C) (Sim.new cfg) s := by
  induction h with
  | start => exact .refl
  | step hs _ ih =>
    refine ih.trans (stage_steps cfg env C _ _ fun hb k hk => ?_)
    subst hb
    exact hC _ k hs hk

/-- What holds at the start and is preserved by every step. -/
structure StepInvariant (cfg : Config P B) (env : Env) (C : Sim P B → Prop)
    (I : Sim P B → Prop) : Prop where
  new : I (Sim.new cfg)
  step : ∀ {s s'}, I s → Step cfg env C s s' → I s'

omit [BranchPredictor B] in
/-- Induction over the steps. -/
theorem StepInvariant.steps {I : Sim P B → Prop} (hI : StepInvariant cfg env C I)
    {s s' : Sim P B} (hs : I s) (h : ReflTransGen (Step cfg env C) s s') : I s' := by
  induction h with
  | refl => exact hs
  | tail _ hstep ih => exact hI.step ih hstep

omit [BranchPredictor B] in
/-- Two invariants at once. -/
theorem StepInvariant.and {I J : Sim P B → Prop} (hI : StepInvariant cfg env C I)
    (hJ : StepInvariant cfg env C J) : StepInvariant cfg env C fun s => I s ∧ J s where
  new := ⟨hI.new, hJ.new⟩
  step h hstep := ⟨hI.step h.1 hstep, hJ.step h.2 hstep⟩

/-- **The rule for runs.** -/
theorem Reach.invariant {I : Sim P B → Prop} (hI : StepInvariant cfg env C I)
    (hC : CommitsIn cfg env C) {b : Boundary} {s : Sim P B} (h : Reach cfg env b s) :
    I s :=
  hI.steps hI.new (h.steps hC)

/-- The rule for the commit loop. -/
theorem Reach.commitTurn {I : Sim P B → Prop} (hI : StepInvariant cfg env C I)
    (hC : CommitsIn cfg env C) {s : Sim P B} (h : Reach cfg env .commit s) {k : ℕ}
    (hk : k ≤ cfg.commitWidth) : I (s.commitTurn cfg k) := by
  have hstart := hI.step (h.invariant hI hC) (.quiet _ _ (setLocals_quiet s
    s.instructionsRetired s.commitStall s.backendStall s.frontendBoundHint))
  exact hI.steps hstart (commitLoop_steps cfg env C k _ fun j hj =>
    hC s j h (hj.trans_le hk))

/-- In a run, the op in slot `i` leaves queue `q` in state `s`. -/
def Issues (cfg : Config P B) (env : Env) (q : Iq) (s : Sim P B) (i : ℕ) : Prop :=
  ∃ s₀, Reach cfg env .issue s₀ ∧
    (s, i) ∈ scanTaken (attempt cfg q) (units cfg q)
      ((q.before.foldl (issueIq cfg) s₀).iq q) (q.before.foldl (issueIq cfg) s₀)

/-- **The rule for issues.**  The invariant holds where an op leaves a queue, with
the queue as it is at that point. -/
theorem Issues.invariant {I : Sim P B → Prop} (hI : StepInvariant cfg env C I)
    (hC : CommitsIn cfg env C) {q : Iq} {s : Sim P B} {i : ℕ} (h : Issues cfg env q s i) :
    (attempt cfg q s i).2 = true ∧ ∃ kept rest, I (s.setIq q (kept ++ i :: rest)) := by
  obtain ⟨s₀, hreach, htaken⟩ := h
  have hstart := hI.steps (hreach.invariant hI hC) (issueIqs_steps cfg env C s₀ q.before)
  obtain ⟨hok, kept, rest, hscan⟩ := scanTaken_rule (scanning_step cfg env C _ q)
    (units cfg q) [] _ _ (scanning_start cfg env C _ q) _ htaken
  exact ⟨hok, kept, rest, hI.steps hstart hscan⟩

omit [BranchPredictor B] in
/-- What an attempt preserves holds at the attempts that succeed. -/
theorem scanTaken_attempts {I : Sim P B → Prop}
    (hattempt : ∀ {s} (q i), I s → I (attempt cfg q s i).1) {q : Iq} {w : ℕ}
    {queue : List ℕ} {s₀ s : Sim P B} {i : ℕ} (h : I s₀)
    (htaken : (s, i) ∈ scanTaken (attempt cfg q) w queue s₀) : I s := by
  have hstep : ∀ (kept : List ℕ) (i : ℕ) (rest : List ℕ) (s : Sim P B), I s →
      ((attempt cfg q s i).2 = true → I (attempt cfg q s i).1) ∧
      ((attempt cfg q s i).2 = false → I (attempt cfg q s i).1) := by
    intro kept i rest s hs
    exact ⟨fun _ => hattempt q i hs, fun _ => hattempt q i hs⟩
  obtain ⟨-, -, -, hs⟩ := scanTaken_rule (I := fun _ _ s => I s) hstep w [] queue s₀ h _ htaken
  exact hs

/-- The rule for issues, for what every attempt preserves. -/
theorem Issues.attempts {I : Sim P B → Prop}
    (hreach : ∀ s, Reach cfg env .issue s → I s)
    (hattempt : ∀ {s} (q i), I s → I (attempt cfg q s i).1)
    (hsetIq : ∀ {s} (q l), I s → I (s.setIq q l)) {q : Iq} {s : Sim P B} {i : ℕ}
    (h : Issues cfg env q s i) : I s := by
  obtain ⟨s₀, hs₀, htaken⟩ := h
  have hstart := issueIqs_attempts hattempt hsetIq q.before (hreach s₀ hs₀)
  exact scanTaken_attempts hattempt hstart htaken

/-! ### Runs of a given length -/

/-- The environment of a trace that an ebreak ends. -/
def ofTrace (insts : List TraceInst) : Env where
  stream n := insts.getD n { isEbreak := true }

omit [CachePrefetcher P] [BranchPredictor B] in
/-- What holds of the listed records, and of the end, holds of the stream. -/
theorem ofTrace_stream {p : TraceInst → Prop} {insts : List TraceInst}
    (hinsts : ∀ inst ∈ insts, p inst) (hend : p { isEbreak := true }) (n : ℕ) :
    p ((ofTrace insts).stream n) := by
  simp only [ofTrace, List.getD_eq_getElem?_getD]
  rcases e : insts[n]? with - | inst
  · exact hend
  · exact hinsts inst (List.mem_of_getElem? e)

/-- The state after `n` iterations of the loop, if it gets so far. -/
def runFor (cfg : Config P B) (env : Env) : ℕ → Sim P B → Option (Sim P B)
  | 0, s => some s
  | n + 1, s => if s.running then runFor cfg env n (cycle cfg env s) else none

/-- The state at boundary `b` of the iteration that starts in `s`. -/
def upTo (cfg : Config P B) (env : Env) (b : Boundary) (s : Sim P B) : Sim P B :=
  (iteration.takeWhile (· ≠ b)).foldl (fun s b => stage cfg env b s) s

/-- The boundaries up to the next one. -/
theorem takeWhile_next {b : Boundary} (hb : b ≠ .account) :
    iteration.takeWhile (· ≠ b.next) = iteration.takeWhile (· ≠ b) ++ [b] := by
  cases b with
  | account => exact absurd rfl hb
  | _ => decide

/-- The state at the next boundary of the iteration. -/
theorem upTo_next (s : Sim P B) {b : Boundary} (hb : b ≠ .account) :
    s.upTo cfg env b.next = stage cfg env b (s.upTo cfg env b) := by
  rw [Sim.upTo, takeWhile_next hb, List.foldl_append]
  rfl

/-- All boundaries of an iteration that goes on are reached. -/
theorem Reach.upTo {s : Sim P B} (h : Reach cfg env .returns s) (hrun : s.running)
    (b : Boundary) : Reach cfg env b (s.upTo cfg env b) := by
  have hnext {b : Boundary} (hreturns : b ≠ .returns) (haccount : b ≠ .account)
      (hb : Reach cfg env b (s.upTo cfg env b)) :
      Reach cfg env b.next (s.upTo cfg env b.next) := by
    rw [upTo_next s haccount]
    exact .step hb fun heq => absurd heq hreturns
  have hadvance : Reach cfg env .advance (s.upTo cfg env .advance) := .step h fun _ => hrun
  have hcommit := hnext (by decide) (by decide) hadvance
  have hissue := hnext (by decide) (by decide) hcommit
  have hdispatch := hnext (by decide) (by decide) hissue
  have hdecode := hnext (by decide) (by decide) hdispatch
  have hfetch := hnext (by decide) (by decide) hdecode
  have hservice := hnext (by decide) (by decide) hfetch
  cases b with
  | returns => exact h
  | advance => exact hadvance
  | commit => exact hcommit
  | issue => exact hissue
  | dispatch => exact hdispatch
  | decode => exact hdecode
  | fetch => exact hfetch
  | service => exact hservice
  | account => exact hnext (by decide) (by decide) hservice

/-- And the iteration as a whole. -/
theorem Reach.cycle {s : Sim P B} (h : Reach cfg env .returns s) (hrun : s.running) :
    Reach cfg env .returns (s.cycle cfg env) :=
  .step (h.upTo hrun .account) fun heq => absurd heq (by decide)

/-- And any number of them. -/
theorem Reach.runFor {s s' : Sim P B} (h : Reach cfg env .returns s) {n : ℕ}
    (hrun : runFor cfg env n s = some s') : Reach cfg env .returns s' := by
  induction n generalizing s with
  | zero =>
    rw [Sim.runFor, Option.some.injEq] at hrun
    exact hrun ▸ h
  | succ n ih =>
    rw [Sim.runFor] at hrun
    split at hrun
    · exact ih (h.cycle ‹_›) hrun
    · cases hrun

/-- What a test finds after `n` iterations is found in a run. -/
theorem exists_reach {n : ℕ} {test : Sim P B → Bool}
    (h : (runFor cfg env n (Sim.new cfg)).any test = true) :
    ∃ s, Reach cfg env .returns s ∧ test s = true := by
  rcases e : runFor cfg env n (Sim.new cfg) with - | s
  · rw [e] at h
    cases h
  · rw [e] at h
    exact ⟨s, Reach.start.runFor e, h⟩

/-- The ops that leave queue `q` in the iteration that starts in `s`. -/
def issuesOf (cfg : Config P B) (env : Env) (q : Iq) (s : Sim P B) :
    List (Sim P B × ℕ) :=
  let s := q.before.foldl (issueIq cfg) (s.upTo cfg env .issue)
  scanTaken (attempt cfg q) (units cfg q) (s.iq q) s

/-- What a test finds of the ops that leave queue `q` after `n` iterations is found
in a run. -/
theorem exists_issues {n : ℕ} {q : Iq} {test : Sim P B × ℕ → Bool}
    (h : (runFor cfg env n (Sim.new cfg)).any (fun s =>
      s.running && (s.issuesOf cfg env q).any test) = true) :
    ∃ s i, Issues cfg env q s i ∧ test (s, i) = true := by
  obtain ⟨s₀, hreach, hfound⟩ := exists_reach h
  rw [Bool.and_eq_true, List.any_eq_true] at hfound
  obtain ⟨hrun, ⟨s, i⟩, hmem, htest⟩ := hfound
  exact ⟨s, i, ⟨_, hreach.upTo hrun .issue, hmem⟩, htest⟩

end

end Sim

end TraceSim
